import JosKernel.Lib.Directive

/-! Directives that no label recognises: they are printed as they are written,
and of what they have set only the arguments of their `*`s are gone. -/
namespace JosKernel.Lib
open JosKernel.Inc JosKernel.General Sink

def fieldChars : List UInt8 := "-0123456789*.#l".toList.map ascii

def conversionChars : List UInt8 := "cesduopx%".toList.map ascii

theorem isField_of_mem {ch : UInt8} (h : ch ∈ fieldChars) : isField ch = true :=
  List.all_eq_true.mp (show fieldChars.all isField = true by decide) ch h

theorem isDigit_mem {ch : UInt8} (h : isDigit ch = true) : ch ∈ fieldChars := by
  have table : ∀ code < 58, 48 ≤ code → UInt8.ofNat code ∈ fieldChars := by decide
  obtain ⟨hlo, hhi⟩ : ascii '0' ≤ ch ∧ ch ≤ ascii '9' := of_decide_eq_true h
  have hcode := table ch.toNat (Nat.lt_succ_of_le (UInt8.le_iff_toNat_le.mp hhi))
    (UInt8.le_iff_toNat_le.mp hlo)
  rwa [UInt8.ofNat_toNat] at hcode

theorem label_default {ch : UInt8} (hfield : ch ∉ fieldChars) (hconversion : ch ∉ conversionChars) :
    label ch = .default ∧ isDigit ch = false := by
  have hne (other : UInt8) (hother : other ∈ fieldChars ++ conversionChars) : ch ≠ other := by
    rintro rfl
    exact (List.mem_append.mp hother).elim hfield hconversion
  have hdigit : isDigit ch = false := by
    cases hdigit : isDigit ch with
    | false => rfl
    | true => exact absurd (isDigit_mem hdigit) hfield
  have hrange : ¬(ascii '1' ≤ ch ∧ ch ≤ ascii '9') := by
    rintro ⟨hlo, hhi⟩
    have hin : isDigit ch = true := by
      apply decide_eq_true
      exact ⟨UInt8.le_trans (by decide) hlo, hhi⟩
    rw [hdigit] at hin
    cases hin
  refine ⟨?_, hdigit⟩
  unfold label
  rw [if_neg (hne _ (by decide)), if_neg (hne _ (by decide)), if_neg hrange]
  repeat rw [if_neg (hne _ (by decide))]

/-- The arguments behind those that the `*`s of a run of characters take. -/
def skipStars : List UInt8 → List Arg → Except Fault (List Arg)
  | [], ap => .ok ap
  | ch :: d, ap =>
    if ch = ascii '*' then do
      let (_, ap) ← argInt ap
      skipStars d ap
    else skipStars d ap

theorem skipStars_none {d : List UInt8} (h : ascii '*' ∉ d) (ap : List Arg) :
    skipStars d ap = .ok ap := by
  induction d with
  | nil => rfl
  | cons ch d ih =>
    have hch : ch ≠ ascii '*' := fun heq => h (heq ▸ List.mem_cons_self ..)
    rw [skipStars, if_neg hch]
    exact ih fun hmem => h (List.mem_cons_of_mem _ hmem)

section
variable (printfmt : List UInt8 → List Arg → List Int → Except Fault (List Int))

def literally (seen d tail : List UInt8) (ap : List Arg) : Except Fault (List Int) := do
  let ap ← skipStars d ap
  (read printfmt tail .text ap).map (codes (ascii '%' :: (seen ++ d)) ++ ·)

theorem directive_default (loc : Locals) (seen : List UInt8) {ch : UInt8}
    (h : label ch = .default) (rest : List UInt8) (ap : List Arg) :
    directive printfmt loc seen ch ap (read printfmt rest) =
      literally printfmt seen [] (ch :: rest) ap := by
  unfold directive onSwitch literally
  rw [h, List.append_nil]
  by_cases h0 : ch = 0
  · subst h0
    have hread : read printfmt (0 :: rest) .text ap = .ok [] := rfl
    simp only [skipStars, bind, Except.bind, hread, Except.map, List.append_nil]
    rfl
  · have hread := read_literal printfmt (ne_percent_of_default h) h0 rest ap
    simp only [skipStars, bind, Except.bind, if_neg h0, hread]
    rw [map_append_append]
    rfl

theorem label_star {ch : UInt8} (h : label ch = .star) : ch = ascii '*' := by
  have hite {p : Prop} [Decidable p] {l l' : Label} (hl : l ≠ .star) (hl' : l' ≠ .star) :
      (if p then l else l') ≠ .star :=
    iteInduction (motive := (· ≠ Label.star)) (fun _ => hl) (fun _ => hl')
  by_contra hstar
  revert h
  unfold label
  rw [if_neg hstar]
  repeat apply hite (by decide)
  decide

theorem directive_field (loc : Locals) (seen : List UInt8) {ch : UInt8} (h : isField ch = true)
    {d tail : List UInt8}
    (hreswitch : ∀ loc ap, read printfmt (d ++ tail) (.reswitch loc (seen ++ [ch])) ap =
      literally printfmt (seen ++ [ch]) d tail ap)
    (hdigits : ∀ loc ap, read printfmt (d ++ tail) (.digits loc (seen ++ [ch])) ap =
      literally printfmt (seen ++ [ch]) d tail ap) (ap : List Arg) :
    directive printfmt loc seen ch ap (read printfmt (d ++ tail)) =
      literally printfmt seen (ch :: d) tail ap := by
  have hskip (hstar : ch ≠ ascii '*') : literally printfmt seen (ch :: d) tail ap =
      literally printfmt (seen ++ [ch]) d tail ap := by
    unfold literally
    rw [skipStars, if_neg hstar, List.append_assoc]
    rfl
  unfold directive onSwitch
  cases hlabel : label ch with
  | minus | zero | dot | sharp | long =>
    rw [hskip fun heq => by rw [heq] at hlabel; cases hlabel]
    exact hreswitch _ ap
  | digit =>
    rw [hskip fun heq => by rw [heq] at hlabel; cases hlabel]
    exact hdigits _ ap
  | star =>
    have hstar := label_star hlabel
    subst hstar
    dsimp only
    unfold literally
    rw [skipStars, if_pos rfl]
    cases argInt ap with
    | error fault => rfl
    | ok arg =>
      refine (hreswitch _ arg.2).trans ?_
      rw [literally, List.append_assoc]
      rfl
  | convert conv => simp [isField, hlabel] at h
  | default => simp [isField, hlabel] at h

/-- The reading of a directive that turns out to be unrecognised: the induction
is on the characters before its end. -/
theorem read_unrecognised {d : List UInt8} (hd : ∀ ch ∈ d, isField ch = true) {ch : UInt8}
    (hlabel : label ch = .default) (hdigit : isDigit ch = false) (rest seen : List UInt8) :
    (∀ loc ap, read printfmt (d ++ ch :: rest) (.reswitch loc seen) ap =
      literally printfmt seen d (ch :: rest) ap) ∧
    ∀ loc ap, read printfmt (d ++ ch :: rest) (.digits loc seen) ap =
      literally printfmt seen d (ch :: rest) ap := by
  induction d generalizing seen with
  | nil =>
    constructor
    · intro loc ap
      exact directive_default printfmt loc seen hlabel rest ap
    · intro loc ap
      rw [List.nil_append, read, hdigit]
      exact directive_default printfmt loc.processPrecision seen hlabel rest ap
  | cons next d ih =>
    obtain ⟨hnext, hrest⟩ := List.forall_mem_cons.mp hd
    obtain ⟨hreswitch, hdigits⟩ := ih hrest (seen ++ [next])
    constructor
    · intro loc ap
      exact directive_field printfmt loc seen hnext hreswitch hdigits ap
    · intro loc ap
      by_cases hnumber : isDigit next = true
      · have hstar : next ≠ ascii '*' := by
          rintro rfl
          revert hnumber
          decide
        rw [List.cons_append, read, if_pos hnumber, hdigits, literally, literally, skipStars,
          if_neg hstar, List.append_assoc]
        rfl
      · rw [List.cons_append, read, if_neg hnumber]
        exact directive_field printfmt loc.processPrecision seen hnext hreswitch hdigits ap

end

/-- A directive that ends in a character of none of the lists, or with the
format, is printed as it is written. What follows is formatted with the
arguments behind those that its `*`s have taken, all of them if it has none. -/
theorem vprintfmt_unrecognised (d rest : List UInt8) (hd : d ⊆ fieldChars)
    (hrest : ∀ ch ∈ rest.head?, ch ∉ fieldChars ∧ ch ∉ conversionChars) (ap : List Arg) :
    vprintfmt collect [] (ascii '%' :: (d ++ (rest ++ [0]))) ap = (do
        let ap ← skipStars d ap
        (vprintfmt collect [] (rest ++ [0]) ap).map (codes (ascii '%' :: d) ++ ·)) ∧
      (ascii '*' ∉ d → skipStars d ap = .ok ap) := by
  refine ⟨?_, fun hstar => skipStars_none hstar ap⟩
  have hfields : ∀ ch ∈ d, isField ch = true := fun _ hch => isField_of_mem (hd hch)
  obtain ⟨ch, tail, htail, hfield, hconversion⟩ : ∃ ch tail, rest ++ [0] = ch :: tail ∧
      ch ∉ fieldChars ∧ ch ∉ conversionChars := by
    cases rest with
    | nil => exact ⟨0, [], rfl, by decide⟩
    | cons ch rest => exact ⟨ch, rest ++ [0], rfl, hrest ch rfl⟩
  obtain ⟨hlabel, hdigit⟩ := label_default hfield hconversion
  simp only [vprintfmt_eq_read]
  rw [htail]
  exact (read_unrecognised (vprintfmtNested collect 1) hfields hlabel hdigit tail []).1 .start ap

theorem vprintfmt_unrecognised_star :
    vprintfmt collect [] (cstr "%-*l!%c".toList) [.int 8, .int 0x35] =
      .ok (codes ("%-*l!5".toList.map ascii)) :=
  (vprintfmt_unrecognised ("-*l".toList.map ascii) ("!%c".toList.map ascii) (by decide)
    (by rintro _ ⟨⟩; decide) [.int 8, .int 0x35]).1.trans (by rfl)

/-- `%*z%c` of 5 and 7 prints `%*z` and a 7: the 5 is gone. -/
theorem vprintfmt_not_undone :
    ¬∀ (d rest : List UInt8), d ⊆ fieldChars →
      (∀ ch ∈ rest.head?, ch ∉ fieldChars ∧ ch ∉ conversionChars) → ∀ ap,
        vprintfmt collect [] (ascii '%' :: (d ++ (rest ++ [0]))) ap =
          (vprintfmt collect [] (rest ++ [0]) ap).map (codes (ascii '%' :: d) ++ ·) := by
  intro h
  have hsame := h [ascii '*'] ("z%c".toList.map ascii) (by decide) (by rintro _ ⟨⟩; decide)
    [.int 5, .int 7]
  have hleft : vprintfmt collect [] (cstr "%*z%c".toList) [.int 5, .int 7] =
      .ok [37, 42, 122, 7] := by rfl
  have hright : vprintfmt collect [] (cstr "z%c".toList) [.int 5, .int 7] = .ok [122, 5] := by rfl
  have hlists := hleft.symm.trans (hsame.trans (congrArg (Except.map _) hright))
  exact absurd (Except.ok.inj hlists) (by decide)

end JosKernel.Lib
