import JosKernel.General.Numeral
import JosKernel.Lib.Conversions

/-! `printnum`: the digits of a number, and what is put in front of them. -/
namespace JosKernel.Lib
open JosKernel.Inc JosKernel.General Sink

def numeralCodes (base num : Nat) : List Int :=
  (numeral base num).map fun digit => ((digitChar digit).toNat : Int)

@[simp] theorem length_numeralCodes (base num : Nat) :
    (numeralCodes base num).length = (numeral base num).length :=
  List.length_map _

/-- Every level of the recursion takes one off the width, which wraps around as
an `int` does, and the innermost one pads with what is left. -/
theorem printnum_eq (putch : Int → σ → σ) {base : Nat} (hbase : 2 ≤ base) (num : Nat)
    (width padc : Int) (putdat : σ) :
    printnum putch num base width padc putdat =
      feed putch putdat
        (List.replicate (wrapInt (width - (numeral base num).length)).toNat padc ++
          numeralCodes base num) := by
  induction num using numeral_induction hbase generalizing width with
  | last num h =>
    rw [printnum_last putch (by omega), repeatPut_eq_feed, Nat.mod_eq_of_lt h, feed_append,
      numeralCodes, numeral_last h]
    rfl
  | step num h ih =>
    have hlength : (numeral base num).length = (numeral base (num / base)).length + 1 := by
      rw [numeral_step hbase h, List.length_append]
      rfl
    have hpads : wrapInt (wrapInt (width - 1) - (numeral base (num / base)).length) =
        wrapInt (width - (numeral base num).length) := by
      rw [wrapInt_wrapInt_sub, hlength]
      congr 1
      omega
    have hcodes : numeralCodes base num =
        numeralCodes base (num / base) ++ [((digitChar (num % base)).toNat : Int)] := by
      rw [numeralCodes, numeral_step hbase h, List.map_append]
      rfl
    rw [printnum_step putch ⟨h, hbase⟩, ih, hpads, hcodes, ← List.append_assoc,
      feed_append putch putdat (_ ++ _)]
    rfl

theorem printnum_collect_eq {base : Nat} (hbase : 2 ≤ base) (num : Nat) (width padc : Int)
    (out : List Int) :
    printnum collect num base width padc out =
      out ++ (List.replicate (wrapInt (width - (numeral base num).length)).toNat padc ++
        numeralCodes base num) := by
  rw [printnum_eq collect hbase, feed_collect]

theorem length_numeral_word {base : Nat} (hbase : 2 ≤ base) {num : Nat} (hnum : num < 2 ^ 64) :
    (numeral base num).length ≤ 64 :=
  length_numeral_le hbase (show num < 2 ^ (63 + 1) from hnum)

theorem digitChar_eq {digit : Nat} (h : digit < 16) :
    "0123456789abcdef".toList[digit]?.map ascii = some (digitChar digit) := by
  have table : ∀ digit < 16,
      "0123456789abcdef".toList[digit]?.map ascii = some (digitChar digit) := by decide
  exact table digit h

/-- A number in a field: the padding in front fills the width, and the digits
spell the number. -/
theorem printnum_field (putch : Int → σ → σ) (num : UInt64) {base : Nat} (hlo : 2 ≤ base)
    (hhi : base ≤ 16) {width : Int} (hwidth : -1 ≤ width) (hmax : width < 2 ^ 31) (padc : Int)
    (putdat : σ) :
    ∃ digits chars, IsNumeral base num.toNat digits ∧
      (∀ digit ∈ digits, "0123456789abcdef".toList[digit]?.map ascii = some (digitChar digit)) ∧
      chars = List.replicate (max 0 (width - digits.length)).toNat padc ++
        digits.map (fun digit => ((digitChar digit).toNat : Int)) ∧
      printnum putch num.toNat base width padc putdat = feed putch putdat chars ∧
      (chars.length : Int) = max width digits.length := by
  have hnumeral := isNumeral_numeral hlo num.toNat
  have hlength := length_numeral_word hlo num.toNat_lt
  have hpads : (wrapInt (width - (numeral base num.toNat).length)).toNat =
      (max 0 (width - (numeral base num.toNat).length)).toNat := by
    rw [wrapInt_of_range (by omega) (by omega)]
    omega
  refine ⟨numeral base num.toNat, _, hnumeral, fun digit hdigit => ?_, rfl, ?_, ?_⟩
  · exact digitChar_eq (Nat.lt_of_lt_of_le (hnumeral.lt digit hdigit) hhi)
  · rw [printnum_eq putch hlo, hpads]
    rfl
  · rw [List.length_append, List.length_replicate, List.length_map]
    omega

theorem printnum_field_ff :
    ∃ digits chars, IsNumeral 16 (255 : UInt64).toNat digits ∧
      (∀ digit ∈ digits, "0123456789abcdef".toList[digit]?.map ascii = some (digitChar digit)) ∧
      chars = List.replicate (max 0 (4 - (digits.length : Int))).toNat 48 ++
        digits.map (fun digit => ((digitChar digit).toNat : Int)) ∧
      printnum collect (255 : UInt64).toNat 16 4 48 [] = feed collect [] chars ∧
      (chars.length : Int) = max 4 (digits.length : Int) :=
  @printnum_field _ collect 255 16 (by decide) (by decide) 4 (by decide) (by decide) 48 []

end JosKernel.Lib
