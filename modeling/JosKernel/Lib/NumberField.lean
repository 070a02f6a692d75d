import JosKernel.Lib.Fields
import JosKernel.Lib.Numeric

/-! Numbers in fields: where the sign and the `-` flag do what they do for
strings, and where they do not. -/
namespace JosKernel.Lib
open JosKernel.Inc JosKernel.General Sink

theorem Amount.decimal_eq {num : Nat} (hpos : 1 ≤ num) :
    ∃ digit digits, decimal num = .written (digit :: digits) ∧ digit ≠ 0 ∧
      positional 10 ((digit :: digits).map Fin.val) = num := by
  have hnumeral := isNumeral_numeral (show 2 ≤ 10 by decide) num
  have hvals : ((numeral 10 num).map (Fin.ofNat 10)).map Fin.val = numeral 10 num := by
    rw [List.map_map]
    conv => rhs; rw [← List.map_id (numeral 10 num)]
    apply List.map_congr_left
    intro digit hdigit
    exact Nat.mod_eq_of_lt (hnumeral.lt digit hdigit)
  obtain ⟨first, rest, hcons⟩ := List.exists_cons_of_ne_nil hnumeral.nonempty
  refine ⟨Fin.ofNat 10 first, rest.map (Fin.ofNat 10), ?_, ?_, ?_⟩
  · rw [decimal, hcons]
    rfl
  · intro hzero
    have hfirst : first = 0 := by
      have hlt := hnumeral.lt first (by rw [hcons]; exact List.mem_cons_self ..)
      have hmod : first % 10 = 0 := congrArg Fin.val hzero
      omega
    have hvalue := hnumeral.value
    rw [hnumeral.leading (by rw [hcons, hfirst]; rfl)] at hvalue
    simp [positional] at hvalue
    omega
  · rw [← List.map_cons, ← hcons, hvals]
    exact hnumeral.value

namespace Locals

theorem foldl_flag_lflag (flags : List Flag) (loc : Locals) :
    (flags.foldl flag loc).lflag = loc.lflag := by
  induction flags generalizing loc with
  | nil => rfl
  | cons flag flags ih =>
    rw [List.foldl_cons, ih]
    cases flag <;> rfl

theorem processPrecision_lflag (loc : Locals) : loc.processPrecision.lflag = loc.lflag := by
  unfold processPrecision
  split <;> rfl

theorem written_lflag (loc : Locals) (digits : List (Fin 10)) :
    (loc.written digits).lflag = loc.lflag := by
  induction digits generalizing loc with
  | nil => rfl
  | cons digit digits ih =>
    unfold written
    split
    · rw [ih]
    · rw [processPrecision_lflag]

theorem amount_lflag (loc : Locals) (number : Amount) : (loc.amount number).lflag = loc.lflag := by
  cases number with
  | written digits => exact written_lflag loc digits
  | argument value => exact processPrecision_lflag _

end Locals

theorem Directive.locals_lflag (d : Directive) : d.locals.lflag = d.longs := by
  have hsized : d.sized.lflag = 0 := by
    unfold sized
    cases d.width with
    | none => exact Locals.foldl_flag_lflag d.flags .start
    | some number =>
      exact (Locals.amount_lflag _ number).trans (Locals.foldl_flag_lflag d.flags .start)
  have hlimited : d.limited.lflag = 0 := by
    unfold limited
    cases d.precision with
    | none => exact hsized
    | some number => exact (Locals.amount_lflag _ number).trans hsized
  unfold locals
  rw [hlimited, Nat.zero_add]

def field (flags : List Flag) (width longs : Nat) : Directive :=
  ⟨flags, some (.decimal width), none, longs⟩

theorem field_locals (flags : List Flag) {width : Nat} (hwidth : 1 ≤ width) (longs : Nat) :
    (field flags width longs).locals.width = wrapInt width ∧
      (field flags width longs).locals.padc = (field flags width longs).padding := by
  obtain ⟨hneg, -, hpadc⟩ := foldl_flag flags .start
  obtain ⟨digit, digits, hdecimal, hzero, hvalue⟩ := Amount.decimal_eq hwidth
  have hstart : (flags.foldl Locals.flag .start).width < 0 := by
    rw [hneg]
    decide
  have hsized : (field flags width longs).sized =
      { flags.foldl Locals.flag .start with width := wrapInt width, precision := -1 } := by
    unfold Directive.sized
    simp only [field, Option.elim_some, hdecimal, Directive.flagged, Locals.amount, Locals.written,
      hzero, if_false, hvalue, Locals.processPrecision, hstart, if_true]
  have hlimited : (field flags width longs).limited = (field flags width longs).sized := rfl
  unfold Directive.locals
  rw [hlimited, hsized]
  exact ⟨by dsimp only, hpadc⟩

theorem vprintfmt_number (n : Number) {d : Directive} (hlongs : d.longs = n.longs) {ch : UInt8}
    {conv : Conv} {base : Nat} (hlabel : label ch = .convert conv)
    (hbase : numberBase conv = some base) :
    vprintfmt collect [] (ascii '%' :: (d.text ++ [ch, 0])) (d.args ++ [n.arg]) =
      .ok (n.codes conv base d.locals.width d.locals.padc.toNat) := by
  have hconv := conversion_number (vprintfmtNested collect 1) n
    (d.locals_lflag.trans hlongs) hbase ch []
  rw [vprintfmt_directive d hlabel, hconv]
  rfl

def plain (longs : Nat) : Directive := ⟨[], none, none, longs⟩

theorem vprintfmt_plain (n : Number) {ch : UInt8} {conv : Conv} {base : Nat}
    (hlabel : label ch = .convert conv) (hbase : numberBase conv = some base) :
    vprintfmt collect [] (ascii '%' :: ((plain n.longs).text ++ [ch, 0])) [n.arg] =
      .ok (n.sign conv ++ numeralCodes base (n.magnitude conv)) := by
  rw [← n.codes_unpadded hbase (ascii ' ').toNat]
  exact vprintfmt_number n (d := plain n.longs) rfl hlabel hbase

theorem vprintfmt_field (n : Number) (flags : List Flag) {ch : UInt8} {conv : Conv} {base : Nat}
    (hlabel : label ch = .convert conv) (hbase : numberBase conv = some base) {width : Nat}
    (hwidth : 1 ≤ width) :
    vprintfmt collect [] (ascii '%' :: ((field flags width n.longs).text ++ [ch, 0])) [n.arg] =
      .ok (n.sign conv ++
        (List.replicate (wrapInt (width - (numeral base (n.magnitude conv)).length)).toNat
            ((field flags width n.longs).padding.toNat : Int) ++
          numeralCodes base (n.magnitude conv))) := by
  have hprint := vprintfmt_number n (d := field flags width n.longs) rfl hlabel hbase
  obtain ⟨hw, hc⟩ := field_locals flags hwidth n.longs
  rw [hw, hc, Number.codes, wrapInt_wrapInt_sub] at hprint
  exact hprint

/-! ### The sign of a decimal number -/

def zeroFlag (zero : Bool) : List Flag := if zero then [.zero] else []

/-- `%Wd`, with or without the flag `0`, prints the sign and the digits in a field
of `W` characters, and nothing but zeros comes between the two. -/
def RespectsField (n : Number) (width : Nat) (zero : Bool) : Prop :=
  ∃ out, vprintfmt collect []
      (ascii '%' :: ((field (zeroFlag zero) width n.longs).text ++ [ascii 'd', 0])) [n.arg] =
        .ok out ∧
    out.length = max width (signedCodes n.signed).length ∧
    (n.signed < 0 → ∃ next rest, out = 45 :: next :: rest ∧ 48 ≤ next ∧ next ≤ 57)

theorem length_signedCodes (value : Int) : (signedCodes value).length =
    (if value < 0 then 1 else 0) + (numeral 10 value.natAbs).length := by
  unfold signedCodes
  split <;> simp [Nat.add_comm]

theorem vprintfmt_decimal (n : Number) {width : Nat} (hwidth : 1 ≤ width) (flags : List Flag) :
    vprintfmt collect []
        (ascii '%' :: ((field flags width n.longs).text ++ [ascii 'd', 0])) [n.arg] =
      .ok ((if n.signed < 0 then [45] else []) ++
        (List.replicate (wrapInt (width - (numeral 10 n.signed.natAbs).length)).toNat
            ((field flags width n.longs).padding.toNat : Int) ++
          numeralCodes 10 n.signed.natAbs)) := by
  have hprint := vprintfmt_field n flags (show label (ascii 'd') = .convert .decimal by decide) rfl
    hwidth
  simpa [Number.sign, Number.magnitude] using hprint

theorem digit_codes {base : Nat} (hbase : 2 ≤ base) (num : Nat) :
    ∃ digit rest, digit < base ∧ numeralCodes base num = ((digitChar digit).toNat : Int) :: rest := by
  have hnumeral := isNumeral_numeral hbase num
  obtain ⟨digit, rest, hcons⟩ := List.exists_cons_of_ne_nil hnumeral.nonempty
  refine ⟨digit, rest.map fun digit => ((digitChar digit).toNat : Int), ?_, ?_⟩
  · apply hnumeral.lt
    rw [hcons]
    exact List.mem_cons_self ..
  · rw [numeralCodes, hcons]
    rfl

theorem digitChar_bounds {digit : Nat} (h : digit < 10) :
    48 ≤ (digitChar digit).toNat ∧ (digitChar digit).toNat ≤ 57 := by
  have hvalue := (digitChar_label ⟨digit, h⟩).2.1
  dsimp only at hvalue
  omega

/-- The width counts for the digits alone, so a minus sign makes a padded field
one character too long. -/
theorem respectsField_iff (n : Number) {width : Nat} (hwidth : 1 ≤ width) (zero : Bool) :
    RespectsField n width zero ↔
      (0 ≤ n.signed ∧ width < 2 ^ 31 + (numeral 10 n.signed.natAbs).length) ∨
        (n.signed < 0 ∧ width ≤ (numeral 10 n.signed.natAbs).length) := by
  have hdigits : (numeral 10 n.signed.natAbs).length ≤ 64 :=
    length_numeral_word (by decide) n.natAbs_signed_lt
  have hprint := vprintfmt_decimal n hwidth (zeroFlag zero)
  generalize hpads : (wrapInt (width - (numeral 10 n.signed.natAbs).length)).toNat = pads at hprint
  rw [wrapInt, Int.bmod_def] at hpads
  constructor
  · rintro ⟨out, hout, hlength, -⟩
    rw [hprint] at hout
    cases hout
    rw [length_signedCodes] at hlength
    simp only [List.length_append, List.length_replicate, length_numeralCodes] at hlength
    split at hlength
    · rw [List.length_singleton] at hlength
      omega
    · rw [List.length_nil] at hlength
      omega
  · intro hfits
    refine ⟨_, hprint, ?_, fun hneg => ?_⟩
    · rw [length_signedCodes]
      simp only [List.length_append, List.length_replicate, length_numeralCodes]
      split
      · rw [List.length_singleton]
        omega
      · rw [List.length_nil]
        omega
    · obtain ⟨digit, rest, hdigit, hcodes⟩ := digit_codes (show 2 ≤ 10 by decide) n.signed.natAbs
      have hbounds := digitChar_bounds hdigit
      obtain rfl : pads = 0 := by omega
      rw [if_pos hneg, hcodes]
      exact ⟨_, rest, rfl, by omega, by omega⟩

theorem respectsField_positive : RespectsField ⟨0, .int 42, rfl⟩ 5 false :=
  (respectsField_iff ⟨0, .int 42, rfl⟩ (by decide) false).mpr (.inl ⟨by decide, by omega⟩)

/-- `%4d` of -5 prints five characters, with spaces behind the sign. -/
theorem not_respectsField :
    ¬∀ (n : Number) (width : Nat), 1 ≤ width → ∀ zero, RespectsField n width zero := by
  intro h
  obtain ⟨out, hout, hlength, -⟩ := h ⟨0, .int 0xFFFFFFFB, rfl⟩ 4 (by decide) false
  have hprint := vprintfmt_decimal ⟨0, .int 0xFFFFFFFB, rfl⟩ (show 1 ≤ 4 by decide) (zeroFlag false)
  have hsigned : Number.signed ⟨0, .int 0xFFFFFFFB, rfl⟩ = -5 := by decide
  have hnumeral : numeral 10 (-5 : Int).natAbs = [5] := numeral_last (by decide)
  have hwrap : (wrapInt ((4 : Nat) - ([5] : List Nat).length)).toNat = 3 := by decide
  rw [hprint, hsigned, hnumeral, hwrap] at hout
  cases hout
  rw [length_signedCodes, hsigned, hnumeral] at hlength
  simp only [List.length_append, List.length_replicate, length_numeralCodes, hnumeral] at hlength
  exact absurd hlength (by decide)

/-! ### The `-` flag -/

/-- `%-W` prints what the conversion prints without flag and width, followed by
spaces up to `W` characters. -/
def PadsRight (n : Number) (ch : UInt8) (width : Nat) : Prop :=
  ∃ text, vprintfmt collect [] (ascii '%' :: ((plain n.longs).text ++ [ch, 0])) [n.arg] =
      .ok text ∧
    vprintfmt collect [] (ascii '%' :: ((field [.minus] width n.longs).text ++ [ch, 0])) [n.arg] =
      .ok (text.rightpad width 32)

theorem minus_ne_digit {digit : Nat} (h : digit < 16) :
    ((field [.minus] 0 0).padding.toNat : Int) ≠ ((digitChar digit).toNat : Int) := by
  have table : ∀ digit < 16, (45 : Int) ≠ ((digitChar digit).toNat : Int) := by decide
  exact table digit h

/-- `printnum` puts the pad character in front of the digits, so the `-` flag
prints minus signs there as soon as there is something to pad. -/
theorem padsRight_iff (n : Number) {ch : UInt8} {conv : Conv} {base : Nat}
    (hlabel : label ch = .convert conv) (hbase : numberBase conv = some base) {width : Nat}
    (hwidth : 1 ≤ width) :
    PadsRight n ch width ↔ width ≤ (numeral base (n.magnitude conv)).length := by
  have hdigits := n.length_numeral_magnitude hbase
  have htext := vprintfmt_plain n hlabel hbase
  have hminus := vprintfmt_field n [.minus] hlabel hbase hwidth
  have hsign : (n.sign conv).length ≤ 1 := by
    unfold Number.sign
    split <;> simp
  have hbound : base ≤ 16 := by
    cases conv <;> cases hbase <;> decide
  constructor
  · rintro ⟨text, hout, hpadded⟩
    rw [htext] at hout
    cases hout
    rw [hminus, List.rightpad, List.append_assoc] at hpadded
    have hafter := List.append_cancel_left (Except.ok.inj hpadded)
    generalize hpads : (wrapInt (width - (numeral base (n.magnitude conv)).length)).toNat = pads
      at hafter
    rw [wrapInt, Int.bmod_def] at hpads
    cases pads with
    | zero =>
      have hlength := congrArg List.length hafter
      simp only [List.length_append, List.length_replicate, length_numeralCodes] at hlength
      omega
    | succ pads =>
      obtain ⟨digit, rest, hdigit, hcodes⟩ := digit_codes (numberBase_ge hbase) (n.magnitude conv)
      rw [hcodes, List.replicate_succ, List.cons_append, List.cons_append] at hafter
      exact absurd (List.cons.inj hafter).1 (minus_ne_digit (Nat.lt_of_lt_of_le hdigit hbound))
  · intro hle
    refine ⟨_, htext, hminus.trans ?_⟩
    have hpads : (wrapInt (width - (numeral base (n.magnitude conv)).length)).toNat = 0 := by
      rw [wrapInt, Int.bmod_def]
      omega
    have hfull : width - (n.sign conv ++ numeralCodes base (n.magnitude conv)).length = 0 := by
      rw [List.length_append, length_numeralCodes]
      omega
    rw [hpads, List.rightpad, hfull, List.replicate_zero, List.replicate_zero, List.nil_append,
      List.append_nil]

theorem padsRight_ff : PadsRight ⟨0, .int 255, rfl⟩ (ascii 'x') 2 := by
  refine (padsRight_iff ⟨0, .int 255, rfl⟩ (show label (ascii 'x') = .convert .hex by decide) rfl
    (by decide)).mpr ?_
  have hnumeral : numeral 16 255 = [15, 15] := by
    rw [numeral_step (by decide) (by decide), numeral_last (by decide)]
    rfl
  change 2 ≤ (numeral 16 255).length
  rw [hnumeral]
  decide

/-- `%-2u` of 5 prints `-5`. -/
theorem not_padsRight :
    ¬∀ (n : Number) (ch : UInt8) (conv : Conv) (base : Nat), label ch = .convert conv →
      numberBase conv = some base → ∀ width, 1 ≤ width → PadsRight n ch width := by
  intro h
  have hlabel : label (ascii 'u') = .convert .unsigned := by decide
  obtain ⟨text, hout, hpadded⟩ := h ⟨0, .int 5, rfl⟩ (ascii 'u') .unsigned 10 hlabel rfl 2 (by decide)
  have htext := vprintfmt_plain ⟨0, .int 5, rfl⟩ hlabel rfl
  have hminus := vprintfmt_field ⟨0, .int 5, rfl⟩ [.minus] hlabel rfl (show 1 ≤ 2 by decide)
  have hmagnitude : Number.magnitude ⟨0, .int 5, rfl⟩ .unsigned = 5 := by decide
  have hnumeral : numeral 10 5 = [5] := numeral_last (by decide)
  rw [hmagnitude, numeralCodes, hnumeral] at htext
  rw [hmagnitude, numeralCodes, hnumeral] at hminus
  have hsame := (Except.ok.inj (hout.symm.trans htext)) ▸ (hpadded.symm.trans hminus)
  exact absurd (Except.ok.inj hsame) (by decide)

end JosKernel.Lib
