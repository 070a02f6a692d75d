import JosKernel.Lib.Conversions

/-! The formatter on a format that continues another one: whatever the
directives of the first part set, the second part begins from scratch. -/
namespace JosKernel.Lib
open JosKernel.Inc JosKernel.General Sink

def inside (within : Bool) (ch : UInt8) : Bool :=
  if within then
    match label ch with
    | .convert _ | .default => false
    | _ => true
  else ch = ascii '%'

/-- A format without its NUL that does not end inside a directive. -/
def Closed (format : List UInt8) : Prop := 0 ∉ format ∧ format.foldl inside false = false

instance (format : List UInt8) : Decidable (Closed format) :=
  inferInstanceAs (Decidable (_ ∧ _))

section
variable {σ : Type} (putch : Int → σ → σ)

def roundRest (text : List UInt8) (s : State σ) : Except Fault (State σ ⊕ (List Arg × σ)) :=
  (round putch (vprintfmtNested putch 1) text s).map (Sum.map id fun putdat => (s.ap, putdat))

def vprintfmtRest (putdat : σ) (text : List UInt8) (ap : List Arg) : Except Fault (List Arg × σ) :=
  Loop.run .unfinished (roundRest putch text) (3 * text.length + 1) ⟨0, ap, putdat, .text⟩

theorem vprintfmtRest_snd (putdat : σ) (text : List UInt8) (ap : List Arg) :
    (vprintfmtRest putch putdat text ap).map Prod.snd = vprintfmt putch putdat text ap := by
  have hround : ∀ s : State σ, round putch (vprintfmtNested putch 1) text s =
      (roundRest putch text s).map (Sum.map id Prod.snd) := by
    intro s
    unfold roundRest
    cases round putch (vprintfmtNested putch 1) text s with
    | error e => rfl
    | ok outcome => cases outcome <;> rfl
  exact (Loop.run_map id Prod.snd hround _ ⟨0, ap, putdat, .text⟩).symm

theorem run_from (depth : Nat) {text rest : List UInt8} {fmt fuel : Nat}
    (hdrop : text.drop fmt = rest) (hfuel : 3 * rest.length + 1 ≤ fuel) (ap : List Arg)
    (putdat : σ) :
    Loop.run .unfinished (round putch (vprintfmtNested putch depth) text) fuel
        ⟨fmt, ap, putdat, .text⟩ = vprintfmtNested putch (depth + 1) rest ap putdat := by
  have hnested := fun before => vprintfmtNested_hom (append_hom before) depth
  have hmachine := (follows hnested text rest).literal fmt ap [] fuel hdrop hfuel
  have hfeed : Loop.run .unfinished (round putch (vprintfmtNested putch depth) text) fuel
        ⟨fmt, ap, putdat, .text⟩ =
      (Loop.run .unfinished (round collect (vprintfmtNested collect depth) text) fuel
        ⟨fmt, ap, [], .text⟩).map (feed putch putdat) :=
    Loop.run_map (State.map (feed putch putdat)) (feed putch putdat)
      (round_hom (vprintfmtNested_hom (feed_hom putch putdat) depth) (feed_hom putch putdat) text)
      fuel ⟨fmt, ap, [], .text⟩
  have hrest := vprintfmtNested_hom (feed_hom putch putdat) (depth + 1) rest ap []
  rw [vprintfmtNested_eq_read] at hrest
  have hempty : (read (vprintfmtNested collect depth) rest .text ap).map ([] ++ ·) =
      read (vprintfmtNested collect depth) rest .text ap := by
    cases read (vprintfmtNested collect depth) rest .text ap <;> rfl
  rw [hmachine, hempty] at hfeed
  exact hfeed.trans hrest.symm

/-- A state that the formatter comes through can stand for its beginning. -/
theorem vprintfmt_of_reaches {text : List UInt8} {ap : List Arg} {putdat : σ} {s : State σ}
    (h : Loop.Reaches (round putch (vprintfmtNested putch 1) text) ⟨0, ap, putdat, .text⟩ s) :
    vprintfmt putch putdat text ap =
      Loop.run .unfinished (round putch (vprintfmtNested putch 1) text) (3 * text.length + 1) s := by
  obtain ⟨rounds, hrun⟩ := @Loop.Reaches.run _ _ _ Fault.unfinished _ _ _ h
  have hwhole := @run_from _ putch 1 text text 0 (rounds + (3 * text.length + 1)) rfl
    (Nat.le_add_left _ _) ap putdat
  rw [← hrun, hwhole]
  rfl

end

theorem load_append_left {text : List UInt8} {fmt : Nat} (h : fmt < text.length)
    (tail : List UInt8) : load (text ++ tail) fmt = load text fmt := by
  simp only [load, List.getElem?_append_left h]

theorem rewind_append (text tail : List UInt8) {fmt : Nat} (h : fmt ≤ text.length) :
    rewind (text ++ tail) fmt = rewind text fmt := by
  induction fmt with
  | zero => rfl
  | succ fmt ih =>
    rw [rewind, rewind, load_append_left (by omega) tail, ih (by omega)]

section
variable {σ : Type} (putch : Int → σ → σ)
  (printfmt : List UInt8 → List Arg → σ → Except Fault σ)

theorem round_append (text tail : List UInt8) {s : State σ} (h : s.fmt < text.length) :
    round putch printfmt (text ++ tail) s = round putch printfmt text s := by
  unfold round
  rw [load_append_left h tail]
  congr 1
  funext ch
  cases s.point with
  | text => rfl
  | digits loc => rfl
  | reswitch loc =>
    have hrewind : rewind (text ++ tail) (s.fmt + 1 - 1) = rewind text (s.fmt + 1 - 1) :=
      rewind_append text tail (by omega)
    simp only [reswitch, hrewind]

end

theorem label_of_isDigit {ch : UInt8} (h : isDigit ch = true) :
    label ch = .zero ∨ label ch = .digit := by
  obtain ⟨hlo, hhi⟩ : ascii '0' ≤ ch ∧ ch ≤ ascii '9' := of_decide_eq_true h
  have hminus : ch ≠ ascii '-' := by
    rintro rfl
    exact absurd hlo (by decide)
  unfold label
  by_cases hzero : ch = ascii '0'
  · exact .inl (by rw [if_neg hminus, if_pos hzero])
  · have hone : ascii '1' ≤ ch := by
      have hne : ch.toNat ≠ 48 := fun heq => hzero (UInt8.toNat_inj.mp heq)
      have hge : 48 ≤ ch.toNat := UInt8.le_iff_toNat_le.mp hlo
      exact UInt8.le_iff_toNat_le.mpr (show 49 ≤ ch.toNat by omega)
    exact .inr (by rw [if_neg hminus, if_neg hzero, if_pos ⟨hone, hhi⟩])

def weight : List UInt8 → Nat
  | [] => 0
  | ch :: rest => if ch = ascii '%' then 3 * (rest.length + 1) else weight rest + 1

theorem weight_le (rest : List UInt8) : weight rest ≤ 3 * rest.length := by
  induction rest with
  | nil => exact Nat.le_refl _
  | cons ch rest ih =>
    rw [weight, List.length_cons]
    split <;> omega

theorem weight_plain {seen : List UInt8} (h : Plain seen) (rest : List UInt8) :
    weight (seen ++ rest) = seen.length + weight rest := by
  induction seen with
  | nil => simp
  | cons ch seen ih =>
    have hch := h ch (List.mem_cons_self ..)
    have hseen : Plain seen := fun c hc => h c (List.mem_cons_of_mem _ hc)
    rw [List.cons_append, weight, if_neg hch.1, ih hseen, List.length_cons]
    omega

theorem inside_plain {seen : List UInt8} (h : Plain seen) (rest : List UInt8) :
    (seen ++ rest).foldl inside false = rest.foldl inside false := by
  induction seen with
  | nil => rfl
  | cons ch seen ih =>
    have hch := h ch (List.mem_cons_self ..)
    have hseen : Plain seen := fun c hc => h c (List.mem_cons_of_mem _ hc)
    rw [List.cons_append, List.foldl_cons, ← ih hseen]
    simp [inside, hch.1]

/-- Where the formatter can stand in a closed format, with the rounds that it
can still take there. -/
inductive Standing (format : List UInt8) : Nat → Nat → Point → Prop where
  | text {rest : List UInt8} {fmt : Nat} (hfmt : fmt ≤ format.length)
      (hdrop : format.drop fmt = rest) (closed : rest.foldl inside false = false) :
      Standing format (weight rest + 1) fmt .text
  | reswitch {rest seen : List UInt8} {start : Nat} (loc : Locals)
      (within : Inside format start seen rest) (closed : rest.foldl inside true = false) :
      Standing format (3 * rest.length + seen.length + 1) (start + seen.length) (.reswitch loc)
  | digits {rest seen : List UInt8} {start : Nat} (loc : Locals)
      (within : Inside format start seen rest) (closed : rest.foldl inside true = false) :
      Standing format (3 * rest.length + seen.length + 2) (start + seen.length) (.digits loc)

namespace Standing
variable {format rest seen : List UInt8} {start : Nat} {ch : UInt8}

theorem entry (h : format.foldl inside false = false) :
    Standing format (weight format + 1) 0 .text :=
  .text (Nat.zero_le _) rfl h

theorem reswitch_snoc (within : Inside format start seen (ch :: rest))
    (hplain : ch ≠ ascii '%' ∧ ch ≠ 0) (closed : rest.foldl inside true = false) (loc : Locals) :
    Standing format (3 * rest.length + seen.length + 2) (start + seen.length + 1)
      (.reswitch loc) := by
  have h := Standing.reswitch loc (within.snoc hplain) closed
  rwa [List.length_append, List.length_singleton, ← Nat.add_assoc, ← Nat.add_assoc] at h

theorem digits_snoc (within : Inside format start seen (ch :: rest))
    (hplain : ch ≠ ascii '%' ∧ ch ≠ 0) (closed : rest.foldl inside true = false) (loc : Locals) :
    Standing format (3 * rest.length + seen.length + 3) (start + seen.length + 1)
      (.digits loc) := by
  have h := Standing.digits loc (within.snoc hplain) closed
  rwa [List.length_append, List.length_singleton, ← Nat.add_assoc, ← Nat.add_assoc] at h

theorem text_succ (within : Inside format start seen (ch :: rest))
    (closed : rest.foldl inside false = false) :
    Standing format (weight rest + 1) (start + seen.length + 1) .text := by
  have hdrop := within.drop_rest
  have hlt : start + seen.length < format.length := by
    apply Nat.lt_of_not_le
    intro hle
    rw [List.drop_eq_nil_of_le hle] at hdrop
    cases hdrop
  exact .text hlt (drop_succ_of_drop hdrop) closed

theorem text_rewound (within : Inside format start seen (ch :: rest)) (hch : ch ≠ ascii '%')
    (closed : rest.foldl inside false = false) :
    Standing format (seen.length + weight rest + 2) start .text := by
  have hle : start ≤ format.length := by
    apply Nat.le_of_not_lt
    intro hlt
    have hdrop := within.drop_eq
    rw [List.drop_eq_nil_of_le (Nat.le_of_lt hlt)] at hdrop
    cases seen <;> cases hdrop
  have hclosed : (seen ++ ch :: rest).foldl inside false = false := by
    rw [inside_plain within.plain, List.foldl_cons]
    simpa [inside, hch] using closed
  have h := Standing.text hle within.drop_eq hclosed
  rw [weight_plain within.plain, weight, if_neg hch] at h
  exact h

end Standing

section
variable {σ : Type} {putch : Int → σ → σ} {printfmt : List UInt8 → List Arg → σ → Except Fault σ}

abbrev Goes (format : List UInt8) : Nat → Except Fault (State σ ⊕ σ) → Prop :=
  Loop.Round (fun k s => Standing format k s.fmt s.point) (fun r => ∃ fault, r = .error fault)

theorem switch_goes {format rest seen : List UInt8} {start : Nat} {ch : UInt8}
    (within : Inside format start seen (ch :: rest))
    (closed : (ch :: rest).foldl inside true = false) (loc : Locals) (ap : List Arg) (putdat : σ)
    (point : Point) {k : Nat} (hk : 3 * rest.length + seen.length + 4 ≤ k) :
    Goes format k (do
      let next ← reswitch putch printfmt format loc ch ⟨start + seen.length + 1, ap, putdat, point⟩
      return .inl next) := by
  have hweight := weight_le rest
  rw [List.foldl_cons] at closed
  unfold reswitch
  cases hlabel : label ch with
  | minus | zero | dot | sharp | long =>
    have hplain := label_plain hlabel (by decide) (by decide)
    simp only [inside, if_true, hlabel] at closed
    exact ⟨_, by omega, Standing.reswitch_snoc within hplain closed _⟩
  | digit =>
    have hplain := label_plain hlabel (by decide) (by decide)
    simp only [inside, if_true, hlabel] at closed
    exact ⟨_, by omega, Standing.digits_snoc within hplain closed _⟩
  | star =>
    have hplain := label_plain hlabel (by decide) (by decide)
    simp only [inside, if_true, hlabel] at closed
    dsimp only
    cases argInt ap with
    | error fault => exact ⟨fault, rfl⟩
    | ok arg => exact ⟨_, by omega, Standing.reswitch_snoc within hplain closed _⟩
  | convert conv =>
    simp only [inside, if_true, hlabel] at closed
    dsimp only
    cases conversion putch printfmt loc ch ap putdat conv with
    | error fault => exact ⟨fault, rfl⟩
    | ok result => exact ⟨_, by omega, Standing.text_succ within closed⟩
  | default =>
    simp only [inside, if_true, hlabel] at closed
    dsimp only
    rw [Nat.add_sub_cancel, within.rewind_eq]
    exact ⟨_, by omega, Standing.text_rewound within (ne_percent_of_default hlabel) closed⟩

/-- The step lemma of a closed format: it is never left before its end. -/
theorem Standing.goes {format : List UInt8} (hzero : 0 ∉ format) {k : Nat} {s : State σ}
    (h : Standing format k s.fmt s.point) (hlt : s.fmt < format.length) :
    Goes format k (round putch printfmt format s) := by
  obtain ⟨fmt, ap, putdat, point⟩ := s
  dsimp only at h hlt
  obtain ⟨ch, rest, hdrop⟩ : ∃ ch rest, format.drop fmt = ch :: rest :=
    ⟨_, _, List.drop_eq_getElem_cons hlt⟩
  unfold round
  rw [load_of_drop hdrop]
  cases h with
  | text _ hrest closed =>
    obtain rfl := hrest.symm.trans hdrop
    by_cases hp : ch = ascii '%'
    · subst hp
      have within : Inside format (fmt + 1) [] rest :=
        ⟨⟨fmt, rfl, load_of_drop hdrop⟩, drop_succ_of_drop hdrop, fun _ h => by cases h⟩
      refine ⟨_, ?_, Standing.reswitch .start within closed⟩
      simp [weight]
    · have h0 : ch ≠ 0 := by
        rintro rfl
        exact hzero (List.mem_of_mem_drop (hdrop ▸ List.mem_cons_self ..))
      simp only [bind, Except.bind, ne_eq, hp, not_false_eq_true, if_true, h0, if_false]
      refine ⟨weight rest + 1, ?_, .text hlt (drop_succ_of_drop hdrop) ?_⟩
      · simp [weight, hp]
      · simpa [inside, hp] using closed
  | @reswitch rest' seen start loc within closed =>
    obtain rfl := within.drop_rest.symm.trans hdrop
    exact switch_goes within closed loc ap putdat (.reswitch loc) (by rw [List.length_cons]; omega)
  | @digits rest' seen start loc within closed =>
    obtain rfl := within.drop_rest.symm.trans hdrop
    by_cases hdigit : isDigit ch = true
    · have hlabel := label_of_isDigit hdigit
      simp only [bind, Except.bind, hdigit, if_true]
      refine ⟨_, ?_, Standing.digits_snoc within (isDigit_plain hdigit) ?_ _⟩
      · rw [List.length_cons]
        omega
      · rcases hlabel with h | h <;> simpa [inside, h] using closed
    · simp only [bind, Except.bind, hdigit]
      exact ⟨_, by omega, Standing.reswitch _ within closed⟩

end

theorem Standing.at_end {format : List UInt8} {k fmt : Nat} {point : Point}
    (h : Standing format k fmt point) (hend : format.length ≤ fmt) :
    fmt = format.length ∧ point = .text := by
  have hdrop := List.drop_eq_nil_of_le hend
  cases h with
  | text hfmt _ _ => exact ⟨Nat.le_antisymm hfmt hend, rfl⟩
  | reswitch loc within closed | digits loc within closed =>
    rw [within.drop_rest] at hdrop
    rw [hdrop] at closed
    cases closed

section
variable {σ : Type} (putch : Int → σ → σ)

def Passes (format tail : List UInt8) (ap : List Arg) (putdat : σ) :
    Except Fault (List Arg × σ) → Prop
  | .ok (rest, sink) =>
    Loop.Reaches (round putch (vprintfmtNested putch 1) (format ++ tail)) ⟨0, ap, putdat, .text⟩
      ⟨format.length, rest, sink, .text⟩
  | .error fault => ∃ s,
    Loop.Reaches (round putch (vprintfmtNested putch 1) (format ++ tail)) ⟨0, ap, putdat, .text⟩ s ∧
      round putch (vprintfmtNested putch 1) (format ++ tail) s = .error fault

theorem vprintfmtRest_passes {format : List UInt8} (h : Closed format) (tail : List UInt8)
    (ap : List Arg) (putdat : σ) :
    Passes putch format tail ap putdat (vprintfmtRest putch putdat (format ++ [0]) ap) := by
  obtain ⟨hzero, hclosed⟩ := h
  have hfuel : weight format + 1 < 3 * (format ++ [0]).length + 1 := by
    have := weight_le format
    rw [List.length_append, List.length_singleton]
    omega
  refine Loop.run_spec
    (fun k s => Standing format k s.fmt s.point ∧
      Loop.Reaches (round putch (vprintfmtNested putch 1) (format ++ tail))
        ⟨0, ap, putdat, .text⟩ s)
    _ (fun k s ⟨hstanding, hreaches⟩ => ?_) _ _ _ ⟨.entry hclosed, .start⟩ hfuel
  by_cases hlt : s.fmt < format.length
  · have hgoes : Goes format k (round putch (vprintfmtNested putch 1) format s) :=
      hstanding.goes hzero hlt
    have htail := round_append putch (vprintfmtNested putch 1) format tail hlt
    unfold roundRest
    rw [round_append putch (vprintfmtNested putch 1) format [0] hlt]
    cases hround : round putch (vprintfmtNested putch 1) format s with
    | error fault => exact ⟨s, hreaches, htail.trans hround⟩
    | ok outcome =>
      rw [hround] at hgoes
      cases outcome with
      | inl next =>
        obtain ⟨k', hk, hnext⟩ := hgoes
        exact ⟨k', hk, hnext, hreaches.next (htail.trans hround)⟩
      | inr sink =>
        obtain ⟨fault, hfault⟩ := hgoes
        cases hfault
  · obtain ⟨hfmt, hpoint⟩ := hstanding.at_end (Nat.le_of_not_lt hlt)
    obtain ⟨fmt, rest, sink, point⟩ := s
    obtain rfl : fmt = format.length := hfmt
    obtain rfl : point = .text := hpoint
    unfold roundRest round
    rw [load_append]
    exact hreaches

theorem vprintfmt_passed {format tail : List UInt8} {ap : List Arg} {putdat : σ}
    {result : Except Fault (List Arg × σ)} (h : Passes putch format tail ap putdat result) :
    vprintfmt putch putdat (format ++ tail) ap =
      result >>= fun rest => vprintfmt putch rest.2 tail rest.1 := by
  cases result with
  | ok rest =>
    rw [vprintfmt_of_reaches putch h]
    apply run_from putch 1 List.drop_left _ rest.1 rest.2
    rw [List.length_append]
    omega
  | error fault =>
    obtain ⟨s, hreaches, hround⟩ := h
    rw [vprintfmt_of_reaches putch hreaches, Loop.run_error hround]
    rfl

/-- Formatting is compositional: a format that does not end inside a directive
leaves nothing behind for what follows but the sink and the arguments that it
has not consumed. -/
theorem vprintfmt_append {format : List UInt8} (h : Closed format) (tail : List UInt8)
    (ap : List Arg) (putdat : σ) :
    (vprintfmtRest putch putdat (format ++ [0]) ap).map Prod.snd =
        vprintfmt putch putdat (format ++ [0]) ap ∧
      vprintfmt putch putdat (format ++ tail) ap = (do
        let left ← vprintfmtRest putch putdat (format ++ [0]) ap
        vprintfmt putch left.2 tail left.1) ∧
      vprintfmt collect [] (format ++ tail) ap = (do
        let left ← vprintfmtRest collect [] (format ++ [0]) ap
        let after ← vprintfmt collect [] tail left.1
        return left.2 ++ after) := by
  refine ⟨vprintfmtRest_snd putch putdat _ ap,
    vprintfmt_passed putch (vprintfmtRest_passes putch h tail ap putdat), ?_⟩
  rw [vprintfmt_passed collect (vprintfmtRest_passes collect h tail ap [])]
  congr 1
  funext left
  have hout := vprintfmtNested_hom (append_hom left.2) 2 tail left.1 []
  rw [List.append_nil] at hout
  unfold vprintfmt
  rw [hout]
  cases vprintfmtNested collect 2 tail left.1 [] <;> rfl

theorem vprintfmt_append_directives :
    vprintfmt collect [] ("%-5d%%%q".toList.map Char.toUInt8 ++ cstr "%s".toList)
        [.int 42, .str (some (cstr "ok".toList))] = (do
      let left ← vprintfmtRest collect []
        ("%-5d%%%q".toList.map Char.toUInt8 ++ [0]) [.int 42, .str (some (cstr "ok".toList))]
      let after ← vprintfmt collect [] (cstr "%s".toList) left.1
      return left.2 ++ after) :=
  (vprintfmt_append collect (by decide) _ _ []).2.2

end

end JosKernel.Lib
