import JosKernel.Lib.Uniform

/-! The meaning of a format, read once from left to right. A directive that
turns out to be unrecognised prints what it has read so far, so nothing here
moves backwards; the machine of `vprintfmt` is shown to compute this reading. -/
namespace JosKernel.Lib
open JosKernel.Inc JosKernel.General Sink

inductive Mode where
  | text
  | reswitch (loc : Locals) (seen : List UInt8)
  | digits (loc : Locals) (seen : List UInt8)

def codes (chars : List UInt8) : List Int := chars.map fun ch => (ch.toNat : Int)

/-- What the switch does with `ch` inside a directive: the flags, digits and
`*` only change the locals, the other labels leave the directive. -/
def onSwitch (loc : Locals) (seen : List UInt8) (ch : UInt8) (ap : List Arg)
    (next : Mode → List Arg → R) (missing : Fault → R) (convert : Conv → R)
    (unrecognised : R) : R :=
  match label ch with
  | .minus => next (.reswitch { loc with padc := ascii '-' } (seen ++ [ch])) ap
  | .zero => next (.reswitch { loc with padc := ascii '0' } (seen ++ [ch])) ap
  | .digit => next (.digits (Locals.digit { loc with precision := 0 } ch) (seen ++ [ch])) ap
  | .star =>
    match argInt ap with
    | .ok (precision, ap) =>
      next (.reswitch (Locals.processPrecision { loc with precision }) (seen ++ [ch])) ap
    | .error fault => missing fault
  | .dot =>
    next (.reswitch { loc with width := if loc.width < 0 then 0 else loc.width } (seen ++ [ch])) ap
  | .sharp => next (.reswitch { loc with altflag := true } (seen ++ [ch])) ap
  | .long => next (.reswitch { loc with lflag := loc.lflag + 1 } (seen ++ [ch])) ap
  | .convert conv => convert conv
  | .default => unrecognised

section
variable (printfmt : List UInt8 → List Arg → List Int → Except Fault (List Int))

def directive (loc : Locals) (seen : List UInt8) (ch : UInt8) (ap : List Arg)
    (next : Mode → List Arg → Except Fault (List Int)) : Except Fault (List Int) :=
  onSwitch loc seen ch ap next .error
    (fun conv => do
      let (ap, out) ← conversion collect printfmt loc ch ap [] conv
      (next .text ap).map (out ++ ·))
    (if ch = 0 then .ok (37 :: codes seen)
      else (next .text ap).map ((37 :: codes seen ++ [(ch.toNat : Int)]) ++ ·))

def read : List UInt8 → Mode → List Arg → Except Fault (List Int)
  | [], _, _ => .error .badAccess
  | ch :: rest, .text, ap =>
    if ch ≠ ascii '%' then
      if ch = 0 then .ok []
      else (read rest .text ap).map ([(ch.toNat : Int)] ++ ·)
    else read rest (.reswitch .start []) ap
  | ch :: rest, .reswitch loc seen, ap => directive printfmt loc seen ch ap (read rest)
  | ch :: rest, .digits loc seen, ap =>
    if isDigit ch then read rest (.digits (loc.digit ch) (seen ++ [ch])) ap
    else directive printfmt loc.processPrecision seen ch ap (read rest)

end

theorem read_literal (printfmt : List UInt8 → List Arg → List Int → Except Fault (List Int))
    {ch : UInt8} (hp : ch ≠ ascii '%') (h0 : ch ≠ 0) (rest : List UInt8) (ap : List Arg) :
    read printfmt (ch :: rest) .text ap =
      (read printfmt rest .text ap).map ([(ch.toNat : Int)] ++ ·) := by
  simp only [read, ne_eq, hp, not_false_eq_true, if_true, h0, if_false]

def Plain (chars : List UInt8) : Prop := ∀ ch ∈ chars, ch ≠ ascii '%' ∧ ch ≠ 0

instance (chars : List UInt8) : Decidable (Plain chars) :=
  List.decidableBAll _ chars

theorem Plain.snoc {chars : List UInt8} {ch : UInt8} (h : Plain chars) (hp : ch ≠ ascii '%')
    (h0 : ch ≠ 0) : Plain (chars ++ [ch]) := by
  intro c hc
  rcases List.mem_append.mp hc with hc | hc
  · exact h c hc
  · rw [List.mem_singleton.mp hc]
    exact ⟨hp, h0⟩

theorem label_plain {ch : UInt8} {l : Label} (h : label ch = l) (hdefault : l ≠ .default)
    (hpercent : l ≠ .convert .percent) : ch ≠ ascii '%' ∧ ch ≠ 0 := by
  constructor
  · rintro rfl
    exact hpercent (h.symm.trans (by decide))
  · rintro rfl
    exact hdefault (h.symm.trans (by decide))

theorem ne_percent_of_default {ch : UInt8} (h : label ch = .default) : ch ≠ ascii '%' := by
  rintro rfl
  revert h
  decide

theorem isDigit_plain {ch : UInt8} (h : isDigit ch = true) : ch ≠ ascii '%' ∧ ch ≠ 0 := by
  constructor
  · rintro rfl
    revert h
    decide
  · rintro rfl
    revert h
    decide

theorem load_of_drop {text rest : List UInt8} {fmt : Nat} {ch : UInt8}
    (h : text.drop fmt = ch :: rest) : load text fmt = .ok ch := by
  have hget : text[fmt]? = some ch := by
    rw [← List.head?_drop, h]
    rfl
  simp only [load, hget]

theorem load_of_drop_nil {text : List UInt8} {fmt : Nat} (h : text.drop fmt = []) :
    load text fmt = .error .badAccess := by
  have hget : text[fmt]? = none := by
    rw [← List.head?_drop, h]
    rfl
  simp only [load, hget]

theorem drop_succ_of_drop {text rest : List UInt8} {fmt : Nat} {ch : UInt8}
    (h : text.drop fmt = ch :: rest) : text.drop (fmt + 1) = rest := by
  rw [← List.drop_drop, h]
  rfl

/-- The directive that is being read started right after a `%` at `start - 1`
and has `seen` behind it; the formatter stands before `rest`. -/
structure Inside (text : List UInt8) (start : Nat) (seen rest : List UInt8) : Prop where
  percent : ∃ before, start = before + 1 ∧ load text before = .ok (ascii '%')
  drop_eq : text.drop start = seen ++ rest
  plain : Plain seen

namespace Inside
variable {text seen rest : List UInt8} {start : Nat} {ch : UInt8}

theorem drop_rest (h : Inside text start seen rest) :
    text.drop (start + seen.length) = rest := by
  rw [← List.drop_drop, h.drop_eq, List.drop_left]

theorem snoc (h : Inside text start seen (ch :: rest)) (hp : ch ≠ ascii '%' ∧ ch ≠ 0) :
    Inside text start (seen ++ [ch]) rest where
  percent := h.percent
  drop_eq := by rw [h.drop_eq, List.append_assoc]; rfl
  plain := h.plain.snoc hp.1 hp.2

theorem rewind_eq (h : Inside text start seen rest) : rewind text (start + seen.length) = .ok start := by
  obtain ⟨before, rfl, hpercent⟩ := h.percent
  have back (k : Nat) (hk : k ≤ seen.length) : rewind text (before + 1 + k) = .ok (before + 1) := by
    induction k with
    | zero =>
      rw [Nat.add_zero, rewind, hpercent]
      rfl
    | succ k ih =>
      have hget : text[before + 1 + k]? = seen[k]? := by
        rw [← List.getElem?_drop, h.drop_eq, List.getElem?_append_left (by omega)]
      have hlt : k < seen.length := by omega
      have hne : seen[k] ≠ ascii '%' := (h.plain _ (List.getElem_mem hlt)).1
      have hload : load text (before + 1 + k) = .ok seen[k] := by
        simp only [load, hget, List.getElem?_eq_getElem hlt]
      rw [← Nat.add_assoc, rewind, hload]
      simpa only [bind, Except.bind, hne, ne_eq, not_false_eq_true, if_true] using ih (by omega)
  exact back seen.length (Nat.le_refl _)

end Inside

section Machine
variable {printfmt : List UInt8 → List Arg → List Int → Except Fault (List Int)}
  (nested : ∀ before text ap out, printfmt text ap (before ++ out) =
    (printfmt text ap out).map (before ++ ·))

theorem map_append_append (x : Except Fault (List Int)) (left right : List Int) :
    (x.map (right ++ ·)).map (left ++ ·) = x.map ((left ++ right) ++ ·) := by
  cases x with
  | error e => rfl
  | ok out => simp only [Except.map, List.append_assoc]

theorem round_plain {text rest : List UInt8} {fmt : Nat} {ch : UInt8} (ap : List Arg)
    (out : List Int) (h : text.drop fmt = ch :: rest) (hp : ch ≠ ascii '%') (h0 : ch ≠ 0) :
    round collect printfmt text ⟨fmt, ap, out, .text⟩ =
      .ok (.inl ⟨fmt + 1, ap, out ++ [(ch.toNat : Int)], .text⟩) := by
  simp only [round, load_of_drop h, bind, Except.bind, ne_eq, hp, not_false_eq_true, if_true, h0,
    if_false]
  rfl

theorem run_plain {text : List UInt8} (ap : List Arg) (chars rest : List UInt8) (fmt : Nat)
    (out : List Int) (hplain : Plain chars) (hdrop : text.drop fmt = chars ++ rest) (fuel : Nat) :
    Loop.run .unfinished (round collect printfmt text) (fuel + chars.length)
        ⟨fmt, ap, out, .text⟩ =
      Loop.run .unfinished (round collect printfmt text) fuel
        ⟨fmt + chars.length, ap, out ++ codes chars, .text⟩ := by
  induction chars generalizing fmt out with
  | nil => simp [codes]
  | cons ch chars ih =>
    have hch := hplain ch (List.mem_cons_self ..)
    have hround := @round_plain printfmt text _ fmt ch ap out hdrop hch.1 hch.2
    rw [List.length_cons, ← Nat.add_assoc, Loop.run_next hround,
      ih (fmt + 1) _ (fun c hc => hplain c (List.mem_cons_of_mem _ hc)) (drop_succ_of_drop hdrop)]
    simp only [codes, List.map_cons, List.append_assoc, List.singleton_append]
    congr 2
    omega

/-- Started before `rest` with enough fuel, the machine prints the reading of
`rest` after what is already in its sink, whatever it is in the middle of. -/
structure Follows (printfmt : List UInt8 → List Arg → List Int → Except Fault (List Int))
    (text rest : List UInt8) : Prop where
  literal : ∀ fmt ap out fuel, text.drop fmt = rest → 3 * rest.length + 1 ≤ fuel →
    Loop.run .unfinished (round collect printfmt text) fuel ⟨fmt, ap, out, .text⟩ =
      (read printfmt rest .text ap).map (out ++ ·)
  reswitch : ∀ start seen loc ap out fuel, Inside text start seen rest →
    3 * rest.length + seen.length + 1 ≤ fuel →
    Loop.run .unfinished (round collect printfmt text) fuel
        ⟨start + seen.length, ap, out, .reswitch loc⟩ =
      (read printfmt rest (.reswitch loc seen) ap).map (out ++ ·)
  digits : ∀ start seen loc ap out fuel, Inside text start seen rest →
    3 * rest.length + seen.length + 2 ≤ fuel →
    Loop.run .unfinished (round collect printfmt text) fuel
        ⟨start + seen.length, ap, out, .digits loc⟩ =
      (read printfmt rest (.digits loc seen) ap).map (out ++ ·)

theorem run_reswitch {text rest : List UInt8} {fmt : Nat} {ch : UInt8} (loc : Locals)
    (ap : List Arg) (out : List Int) (h : text.drop fmt = ch :: rest) (fuel : Nat) :
    Loop.run .unfinished (round collect printfmt text) (fuel + 1) ⟨fmt, ap, out, .reswitch loc⟩ =
      reswitch collect printfmt text loc ch ⟨fmt + 1, ap, out, .reswitch loc⟩ >>=
        Loop.run .unfinished (round collect printfmt text) fuel := by
  have hround : round collect printfmt text ⟨fmt, ap, out, .reswitch loc⟩ =
      (reswitch collect printfmt text loc ch ⟨fmt + 1, ap, out, .reswitch loc⟩).map .inl := by
    simp only [round, load_of_drop h, bind, Except.bind, pure, Except.pure]
    cases reswitch collect printfmt text loc ch ⟨fmt + 1, ap, out, .reswitch loc⟩ <;> rfl
  cases hswitch : reswitch collect printfmt text loc ch ⟨fmt + 1, ap, out, .reswitch loc⟩ with
  | error e =>
    rw [hswitch] at hround
    exact Loop.run_error hround fuel
  | ok next =>
    rw [hswitch] at hround
    exact Loop.run_next hround fuel

section
variable {text rest seen : List UInt8} {start : Nat} {ch : UInt8}
  (follows : Follows printfmt text rest)
include follows

private theorem reswitch_snoc (inside : Inside text start seen (ch :: rest))
    (hplain : ch ≠ ascii '%' ∧ ch ≠ 0) (loc : Locals) (ap : List Arg) (out : List Int) {fuel : Nat}
    (hfuel : 3 * rest.length + seen.length + 3 ≤ fuel) :
    Loop.run .unfinished (round collect printfmt text) fuel
        ⟨start + seen.length + 1, ap, out, .reswitch loc⟩ =
      (read printfmt rest (.reswitch loc (seen ++ [ch])) ap).map (out ++ ·) := by
  have h := follows.reswitch start (seen ++ [ch]) loc ap out fuel (inside.snoc hplain)
    (by simp only [List.length_append, List.length_singleton]; omega)
  rwa [List.length_append, List.length_singleton, ← Nat.add_assoc] at h

private theorem digits_snoc (inside : Inside text start seen (ch :: rest))
    (hplain : ch ≠ ascii '%' ∧ ch ≠ 0) (loc : Locals) (ap : List Arg) (out : List Int) {fuel : Nat}
    (hfuel : 3 * rest.length + seen.length + 3 ≤ fuel) :
    Loop.run .unfinished (round collect printfmt text) fuel
        ⟨start + seen.length + 1, ap, out, .digits loc⟩ =
      (read printfmt rest (.digits loc (seen ++ [ch])) ap).map (out ++ ·) := by
  have h := follows.digits start (seen ++ [ch]) loc ap out fuel (inside.snoc hplain)
    (by simp only [List.length_append, List.length_singleton]; omega)
  rwa [List.length_append, List.length_singleton, ← Nat.add_assoc] at h

private theorem run_rewound (inside : Inside text start seen (ch :: rest))
    (hch : ch ≠ ascii '%') (ap : List Arg) (out : List Int) {fuel : Nat}
    (hfuel : 3 * rest.length + seen.length + 2 ≤ fuel) :
    Loop.run .unfinished (round collect printfmt text) fuel ⟨start, ap, out, .text⟩ =
      if ch = 0 then .ok (out ++ codes seen)
      else (read printfmt rest .text ap).map ((out ++ codes seen ++ [(ch.toNat : Int)]) ++ ·) := by
  obtain ⟨fuel, rfl⟩ : ∃ left, fuel = left + 1 + seen.length := ⟨fuel - seen.length - 1, by omega⟩
  rw [run_plain ap seen (ch :: rest) start out inside.plain inside.drop_eq]
  by_cases h0 : ch = 0
  · have hround : round collect printfmt text ⟨start + seen.length, ap, out ++ codes seen, .text⟩ =
        .ok (.inr (out ++ codes seen)) := by
      subst h0
      simp only [round, load_of_drop inside.drop_rest]
      rfl
    rw [if_pos h0, Loop.run_done hround]
  · rw [if_neg h0, Loop.run_next (round_plain ap (out ++ codes seen) inside.drop_rest hch h0)]
    exact follows.literal _ ap _ fuel (drop_succ_of_drop inside.drop_rest) (by omega)

include nested in
private theorem run_directive (inside : Inside text start seen (ch :: rest)) (loc : Locals)
    (ap : List Arg) (out : List Int) {fuel : Nat}
    (hfuel : 3 * rest.length + seen.length + 4 ≤ fuel) :
    Loop.run .unfinished (round collect printfmt text) fuel
        ⟨start + seen.length, ap, out, .reswitch loc⟩ =
      (directive printfmt loc seen ch ap (read printfmt rest)).map (out ++ ·) := by
  obtain ⟨fuel, rfl⟩ : ∃ left, fuel = left + 1 := ⟨fuel - 1, by omega⟩
  rw [run_reswitch loc ap out inside.drop_rest]
  unfold reswitch directive onSwitch
  cases hlabel : label ch with
  | minus | zero | dot | sharp | long =>
    have hplain := label_plain hlabel (by decide) (by decide)
    exact reswitch_snoc follows inside hplain _ ap out (by omega)
  | digit =>
    have hplain := label_plain hlabel (by decide) (by decide)
    exact digits_snoc follows inside hplain _ ap out (by omega)
  | star =>
    have hplain := label_plain hlabel (by decide) (by decide)
    dsimp only
    cases argInt ap with
    | error e => rfl
    | ok arg => exact reswitch_snoc follows inside hplain _ arg.2 out (by omega)
  | convert conv =>
    have hconv := conversion_hom (h := (out ++ ·)) (nested out) (append_hom out) loc ch ap [] conv
    rw [List.append_nil] at hconv
    dsimp only
    rw [hconv]
    cases conversion collect printfmt loc ch ap [] conv with
    | error e => rfl
    | ok result =>
      have htext := follows.literal (start + seen.length + 1) result.1 (out ++ result.2) fuel
        (drop_succ_of_drop inside.drop_rest) (by omega)
      simp only [Except.map, bind, Except.bind, pure, Except.pure, Prod.map, id] at htext ⊢
      rw [htext]
      exact (map_append_append (read printfmt rest .text result.1) out result.2).symm
  | default =>
    have hrewind := inside.rewind_eq
    have hfuel : 3 * rest.length + seen.length + 2 ≤ fuel := by omega
    have hrun := run_rewound follows inside (ne_percent_of_default hlabel) ap (out ++ [37]) hfuel
    dsimp only
    rw [Nat.add_sub_cancel, hrewind]
    simp only [bind, Except.bind, pure, Except.pure, collect]
    rw [hrun]
    split
    · simp only [Except.map, List.append_assoc, List.singleton_append]
    · rw [map_append_append]
      simp only [List.append_assoc, List.cons_append, List.nil_append]

end

include nested in
theorem follows (text rest : List UInt8) : Follows printfmt text rest := by
  induction rest with
  | nil =>
    have stuck {fmt fuel : Nat} (point : Point) (ap : List Arg) (out : List Int)
        (hdrop : text.drop fmt = []) (hfuel : 1 ≤ fuel) :
        Loop.run .unfinished (round collect printfmt text) fuel ⟨fmt, ap, out, point⟩ =
          .error .badAccess := by
      obtain ⟨fuel, rfl⟩ : ∃ left, fuel = left + 1 := ⟨fuel - 1, by omega⟩
      apply Loop.run_error
      simp only [round, load_of_drop_nil hdrop]
      rfl
    constructor
    · intro fmt ap out fuel hdrop hfuel
      exact stuck .text ap out hdrop (by omega)
    · intro start seen loc ap out fuel inside hfuel
      exact stuck (.reswitch loc) ap out inside.drop_rest (by omega)
    · intro start seen loc ap out fuel inside hfuel
      exact stuck (.digits loc) ap out inside.drop_rest (by omega)
  | cons ch rest ih =>
    constructor
    · intro fmt ap out fuel hdrop hfuel
      rw [List.length_cons] at hfuel
      obtain ⟨fuel, rfl⟩ : ∃ left, fuel = left + 1 := ⟨fuel - 1, by omega⟩
      by_cases hp : ch = ascii '%'
      · subst hp
        have hround : round collect printfmt text ⟨fmt, ap, out, .text⟩ =
            .ok (.inl ⟨fmt + 1, ap, out, .reswitch .start⟩) := by
          simp only [round, load_of_drop hdrop]
          rfl
        have inside : Inside text (fmt + 1) [] rest :=
          ⟨⟨fmt, rfl, load_of_drop hdrop⟩, drop_succ_of_drop hdrop, fun _ h => by cases h⟩
        rw [Loop.run_next hround]
        exact ih.reswitch (fmt + 1) [] .start ap out fuel inside (by simp only [List.length_nil]; omega)
      · by_cases h0 : ch = 0
        · subst h0
          have hround : round collect printfmt text ⟨fmt, ap, out, .text⟩ = .ok (.inr out) := by
            simp only [round, load_of_drop hdrop]
            rfl
          rw [Loop.run_done hround]
          exact congrArg Except.ok (List.append_nil out).symm
        · rw [Loop.run_next (round_plain ap out hdrop hp h0),
            ih.literal _ ap _ fuel (drop_succ_of_drop hdrop) (by omega), read_literal _ hp h0]
          exact (map_append_append _ out _).symm
    · intro start seen loc ap out fuel inside hfuel
      rw [List.length_cons] at hfuel
      exact run_directive nested ih inside loc ap out (by omega)
    · intro start seen loc ap out fuel inside hfuel
      rw [List.length_cons] at hfuel
      obtain ⟨fuel, rfl⟩ : ∃ left, fuel = left + 1 := ⟨fuel - 1, by omega⟩
      by_cases hdigit : isDigit ch = true
      · have hround : round collect printfmt text ⟨start + seen.length, ap, out, .digits loc⟩ =
            .ok (.inl ⟨start + seen.length + 1, ap, out, .digits (loc.digit ch)⟩) := by
          simp only [round, load_of_drop inside.drop_rest, bind, Except.bind, hdigit, if_true]
          rfl
        rw [Loop.run_next hround]
        simp only [read, hdigit, if_true]
        exact digits_snoc ih inside (isDigit_plain hdigit) _ ap out (by omega)
      · have hround : round collect printfmt text ⟨start + seen.length, ap, out, .digits loc⟩ =
            .ok (.inl ⟨start + seen.length, ap, out, .reswitch loc.processPrecision⟩) := by
          simp only [round, load_of_drop inside.drop_rest, bind, Except.bind, hdigit]
          rfl
        rw [Loop.run_next hround]
        simp only [read, hdigit, Bool.false_eq_true, if_false]
        exact run_directive nested ih inside _ ap out (by omega)

end Machine

/-- `vprintfmt` computes the reading of its format from left to right. -/
theorem vprintfmtNested_eq_read (depth : Nat) (text : List UInt8) (ap : List Arg) :
    vprintfmtNested collect (depth + 1) text ap [] =
      read (vprintfmtNested collect depth) text .text ap := by
  have h := (follows (fun before => vprintfmtNested_hom (append_hom before) depth) text text).literal
    0 ap [] (3 * text.length + 1) rfl (Nat.le_refl _)
  unfold vprintfmtNested
  rw [h]
  cases read (vprintfmtNested collect depth) text .text ap <;> rfl

theorem vprintfmt_eq_read (text : List UInt8) (ap : List Arg) :
    vprintfmt collect [] text ap = read (vprintfmtNested collect 1) text .text ap :=
  vprintfmtNested_eq_read 1 text ap

end JosKernel.Lib
