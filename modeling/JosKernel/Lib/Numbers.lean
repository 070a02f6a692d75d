import JosKernel.Lib.Numeric
import JosKernel.Lib.Spelling

/-! The numbers that the formatter prints, and `strtol` on them. -/
namespace JosKernel.Lib
open JosKernel.Inc JosKernel.General Sink

def wordNumber (longs : Nat) (hlongs : ¬2 ≤ longs) (value : UInt32) : Number :=
  ⟨longs, .int value, if_neg hlongs⟩

section
variable (printfmt : List UInt8 → List Arg → List Int → Except Fault (List Int)) (loc : Locals)
  (hwidth : loc.width = -1) (hlflag : ¬2 ≤ loc.lflag) (ch : UInt8) (value : UInt32) (ap : List Arg)

include hwidth hlflag in
theorem conversion_decimal :
    conversion collect printfmt loc ch (.int value :: ap) [] .decimal =
      .ok (ap, signedCodes value.toInt32.toInt) := by
  have hconv := conversion_number printfmt (wordNumber loc.lflag hlflag value) rfl
    (show numberBase .decimal = some 10 from rfl) ch ap
  rw [hwidth, Number.codes_unpadded _ rfl, Number.codes_decimal] at hconv
  exact hconv

include hwidth hlflag in
theorem conversion_unsigned {conv : Conv} {base : Nat} (h : unsignedBase conv = some base) :
    conversion collect printfmt loc ch (.int value :: ap) [] conv =
      .ok (ap, numeralCodes base value.toNat) := by
  have hne : conv ≠ .decimal := by
    rintro rfl
    cases h
  have hbase : numberBase conv = some base := by
    rw [← h]
    cases conv with
    | decimal => exact absurd rfl hne
    | _ => rfl
  have hconv := conversion_number printfmt (wordNumber loc.lflag hlflag value) rfl hbase ch ap
  rw [hwidth, Number.codes_unpadded _ hbase, Number.sign, Number.magnitude, if_neg hne,
    if_neg fun hand => hne hand.1] at hconv
  exact hconv

include hwidth in
theorem conversion_pointer :
    conversion collect printfmt loc ch (.int value :: ap) [] .pointer =
      .ok (ap, 48 :: 120 :: numeralCodes 16 value.toNat) := by
  have hlength := length_numeral_word (show 2 ≤ 16 by decide) value.toUInt64.toNat_lt
  simp only [conversion, argPtr, bind, Except.bind, hwidth]
  rw [printnum_collect_eq (by decide), wrapInt_of_range (by omega) (by omega),
    Int.toNat_of_nonpos (by omega)]
  rfl

end

def Prints (format : List Char) (value : UInt32) (text : List UInt8) : Prop :=
  ∃ out, vprintfmt collect [] (cstr format) [.int value] = .ok out ∧
    text = out.map UInt8.ofInt ++ [0]

theorem map_numeralCodes (base num : Nat) :
    (numeralCodes base num).map UInt8.ofInt ++ [0] = digitChars (numeral base num) [] := by
  rw [numeralCodes, List.map_map, digitChars]
  congr 2
  funext digit
  exact ofInt_byte (digitChar digit)

theorem prints_conversion {ch : Char} {conv : Conv} (h : label (ascii ch) = .convert conv)
    {value : UInt32} {out : List Int}
    (hout : ∀ printfmt, conversion collect printfmt .start (ascii ch) [.int value] [] conv =
      .ok ([], out)) :
    Prints ['%', ch] value (out.map UInt8.ofInt ++ [0]) := by
  refine ⟨out, ?_, rfl⟩
  have hnested := vprintfmtNested_conversion 1 (show Plain [] by decide) h [.int value]
  rw [hout] at hnested
  exact hnested

theorem prints_long {value : UInt32} {out : List Int}
    (hout : ∀ printfmt, conversion collect printfmt { Locals.start with lflag := 1 } (ascii 'd')
      [.int value] [] .decimal = .ok ([], out)) :
    Prints ['%', 'l', 'd'] value (out.map UInt8.ofInt ++ [0]) := by
  refine ⟨out, ?_, rfl⟩
  rw [vprintfmt_eq_read]
  change (conversion collect (vprintfmtNested collect 1) { Locals.start with lflag := 1 } (ascii 'd')
      [.int value] [] .decimal >>= fun r => (read _ [0] .text r.1).map (r.2 ++ ·)) = .ok out
  rw [hout]
  exact congrArg Except.ok (List.append_nil out)

theorem strtol_signedCodes (value : Int32) :
    strtol ((signedCodes value.toInt).map UInt8.ofInt ++ [0]) 10 = .ok (value.toInt, [0]) := by
  unfold signedCodes
  by_cases hneg : value.toInt < 0
  · have habs : -(value.toInt.natAbs : Int) = value.toInt := by omega
    have hread := strtol_minus (show 2 ≤ 10 by decide) (by decide) value.toInt.natAbs []
    rw [habs, wrapInt_toInt] at hread
    rw [if_pos hneg, List.map_cons, List.cons_append, map_numeralCodes]
    exact hread
  · have habs : (value.toInt.natAbs : Int) = value.toInt := by omega
    have hread := strtol_numeral (show 2 ≤ 10 by decide) (by decide) value.toInt.natAbs []
    rw [habs, wrapInt_toInt] at hread
    rw [if_neg hneg, map_numeralCodes]
    exact hread

/-- The text that the format prints for the value is read back by `strtol` as
the `long` of these 32 bits, up to the end of the text. -/
def ReadsBack (format : List Char) (base : Int) (value : UInt32) : Prop :=
  ∃ text, Prints format value text ∧ strtol text base = .ok (value.toInt32.toInt, [0])

theorem readsBack_unsigned {ch : Char} {conv : Conv} (h : label (ascii ch) = .convert conv)
    {base : Nat} (hconv : unsignedBase conv = some base) (hlo : 2 ≤ base) (hhi : base ≤ 16)
    (value : UInt32) : ReadsBack ['%', ch] base value := by
  refine ⟨_, prints_conversion h fun printfmt =>
    conversion_unsigned printfmt .start rfl (by decide) (ascii ch) value [] hconv, ?_⟩
  rw [map_numeralCodes, strtol_numeral hlo hhi, wrapInt_toNat]

theorem readsBack_pointer {base : Nat} (hbase : base = 0 ∨ base = 16) (value : UInt32) :
    ReadsBack ['%', 'p'] base value := by
  refine ⟨_, prints_conversion (show label (ascii 'p') = .convert .pointer by decide)
    fun printfmt => conversion_pointer printfmt .start rfl (ascii 'p') value [], ?_⟩
  rw [List.map_cons, List.map_cons, List.cons_append, List.cons_append, map_numeralCodes]
  rw [← wrapInt_toNat]
  exact strtol_hex value.toNat [] hbase

/-- Every value comes back from each conversion with its base. -/
theorem strtol_printed (value : UInt32) :
    ReadsBack ['%', 'd'] 10 value ∧ ReadsBack ['%', 'l', 'd'] 10 value ∧
      ReadsBack ['%', 'u'] 10 value ∧ ReadsBack ['%', 'o'] 8 value ∧
      ReadsBack ['%', 'x'] 16 value ∧ ReadsBack ['%', 'p'] 0 value ∧
      ReadsBack ['%', 'p'] 16 value := by
  have hdecimal : ReadsBack ['%', 'd'] 10 value :=
    ⟨_, prints_conversion (show label (ascii 'd') = .convert .decimal by decide) fun printfmt =>
      conversion_decimal printfmt .start rfl (by decide) (ascii 'd') value [],
      strtol_signedCodes value.toInt32⟩
  have hlong : ReadsBack ['%', 'l', 'd'] 10 value :=
    ⟨_, prints_long fun printfmt => conversion_decimal printfmt { Locals.start with lflag := 1 } rfl
      (by decide) (ascii 'd') value [], strtol_signedCodes value.toInt32⟩
  exact ⟨hdecimal, hlong,
    readsBack_unsigned (by decide) (show unsignedBase .unsigned = some 10 from rfl) (by decide)
      (by decide) value,
    readsBack_unsigned (by decide) (show unsignedBase .octal = some 8 from rfl) (by decide)
      (by decide) value,
    readsBack_unsigned (by decide) (show unsignedBase .hex = some 16 from rfl) (by decide)
      (by decide) value,
    readsBack_pointer (Or.inl rfl) value, readsBack_pointer (Or.inr rfl) value⟩

end JosKernel.Lib
