import JosKernel.Lib.Matching
import JosKernel.Lib.Printnum

/-! The numeric conversions on the arguments they take. -/
namespace JosKernel.Lib
open JosKernel.Inc JosKernel.General Sink

def signedCodes (value : Int) : List Int :=
  if value < 0 then 45 :: numeralCodes 10 value.natAbs else numeralCodes 10 value.natAbs

def unsignedBase : Conv → Option Nat
  | .unsigned => some 10
  | .octal => some 8
  | .hex => some 16
  | _ => none

def numberBase : Conv → Option Nat
  | .decimal => some 10
  | conv => unsignedBase conv

theorem numberBase_ge {conv : Conv} {base : Nat} (h : numberBase conv = some base) : 2 ≤ base := by
  cases conv <;> cases h <;> decide

structure Number where
  longs : Nat
  arg : Arg
  fits : takesNumber longs [arg] = some []

namespace Number

def signed (n : Number) : Int :=
  match n.arg with
  | .int value => value.toInt32.toInt
  | .longlong value => value.toInt64.toInt
  | .str _ => 0

def unsigned (n : Number) : Nat :=
  match n.arg with
  | .int value => value.toNat
  | .longlong value => value.toNat
  | .str _ => 0

theorem getint_eq (n : Number) (ap : List Arg) :
    ∃ num, getint (n.arg :: ap) n.longs = .ok (num, ap) ∧ num.toInt64.toInt = n.signed := by
  obtain ⟨longs, arg, fits⟩ := n
  rcases takesNumber_cases fits with ⟨value, harg, hlongs⟩ | ⟨value, harg, hlongs⟩
  · cases harg
    refine ⟨value.toInt32.toInt64.toUInt64, if_neg hlongs, ?_⟩
    rw [Int64.toInt64_toUInt64, Int32.toInt_toInt64]
    rfl
  · cases harg
    exact ⟨value, if_pos hlongs, rfl⟩

theorem getuint_eq (n : Number) (ap : List Arg) :
    ∃ num, getuint (n.arg :: ap) n.longs = .ok (num, ap) ∧ num.toNat = n.unsigned := by
  obtain ⟨longs, arg, fits⟩ := n
  rcases takesNumber_cases fits with ⟨value, harg, hlongs⟩ | ⟨value, harg, hlongs⟩
  · cases harg
    exact ⟨value.toUInt64, if_neg hlongs, rfl⟩
  · cases harg
    exact ⟨value, if_pos hlongs, rfl⟩

def magnitude (n : Number) (conv : Conv) : Nat :=
  if conv = .decimal then n.signed.natAbs else n.unsigned

def sign (n : Number) (conv : Conv) : List Int :=
  if conv = .decimal ∧ n.signed < 0 then [45] else []

def codes (n : Number) (conv : Conv) (base : Nat) (width padc : Int) : List Int :=
  n.sign conv ++
    (List.replicate (wrapInt (width - (numeral base (n.magnitude conv)).length)).toNat padc ++
      numeralCodes base (n.magnitude conv))

end Number

namespace Number

theorem unsigned_lt (n : Number) : n.unsigned < 2 ^ 64 := by
  obtain ⟨num, -, hunsigned⟩ := n.getuint_eq []
  rw [← hunsigned]
  exact num.toNat_lt

theorem natAbs_signed_lt (n : Number) : n.signed.natAbs < 2 ^ 64 := by
  obtain ⟨num, -, hsigned⟩ := n.getint_eq []
  have hlo := num.toInt64.le_toInt
  have hhi := num.toInt64.toInt_lt
  omega

theorem length_numeral_magnitude (n : Number) {conv : Conv} {base : Nat}
    (h : numberBase conv = some base) : (numeral base (n.magnitude conv)).length ≤ 64 := by
  apply length_numeral_word (numberBase_ge h)
  unfold magnitude
  split
  · exact n.natAbs_signed_lt
  · exact n.unsigned_lt

theorem codes_unpadded (n : Number) {conv : Conv} {base : Nat} (h : numberBase conv = some base)
    (padc : Int) :
    n.codes conv base (-1) padc = n.sign conv ++ numeralCodes base (n.magnitude conv) := by
  have hlength := n.length_numeral_magnitude h
  unfold codes
  rw [wrapInt_of_range (by omega) (by omega), Int.toNat_of_nonpos (by omega)]
  rfl

theorem codes_decimal (n : Number) : n.sign .decimal ++ numeralCodes 10 (n.magnitude .decimal) =
    signedCodes n.signed := by
  unfold sign magnitude signedCodes
  by_cases hsign : n.signed < 0 <;> simp [hsign]

end Number

theorem toInt64_eq (num : UInt64) : num.toInt64.toInt = (num.toNat : Int).bmod (2 ^ 64) :=
  BitVec.toInt_eq_toNat_bmod num.toBitVec

theorem neg_toNat {num : UInt64} (h : num.toInt64.toInt < 0) :
    (-num).toNat = num.toInt64.toInt.natAbs := by
  have hlt := num.toNat_lt
  rw [toInt64_eq, Int.bmod_def] at h ⊢
  rw [UInt64.toNat_neg]
  change (2 ^ 64 - num.toNat) % 2 ^ 64 = _
  omega

theorem toNat_of_nonneg {num : UInt64} (h : ¬num.toInt64.toInt < 0) :
    num.toNat = num.toInt64.toInt.natAbs := by
  have hlt := num.toNat_lt
  rw [toInt64_eq, Int.bmod_def] at h ⊢
  omega

theorem conversion_number (printfmt : List UInt8 → List Arg → List Int → Except Fault (List Int))
    (n : Number) {loc : Locals} (hlflag : loc.lflag = n.longs) {conv : Conv} {base : Nat}
    (h : numberBase conv = some base) (ch : UInt8) (ap : List Arg) :
    conversion collect printfmt loc ch (n.arg :: ap) [] conv =
      .ok (ap, n.codes conv base loc.width loc.padc.toNat) := by
  have hbase := numberBase_ge h
  cases conv with
  | decimal =>
    cases h
    obtain ⟨num, hnum, hsigned⟩ := n.getint_eq ap
    have hneg : num.toInt64 < 0 ↔ num.toInt64.toInt < 0 := by
      rw [Int64.lt_iff_toInt_lt, Int64.toInt_zero]
    simp only [conversion, hlflag, hnum, bind, Except.bind, hneg]
    unfold Number.codes Number.sign Number.magnitude
    rw [if_pos rfl, ← hsigned]
    by_cases hsign : num.toInt64.toInt < 0
    · rw [if_pos hsign, if_pos ⟨rfl, hsign⟩, neg_toNat hsign, printnum_collect_eq hbase]
      rfl
    · rw [if_neg hsign, if_neg fun h => hsign h.2, toNat_of_nonneg hsign, printnum_collect_eq hbase]
      rfl
  | unsigned | octal | hex =>
    cases h
    obtain ⟨num, hnum, hunsigned⟩ := n.getuint_eq ap
    simp only [conversion, hlflag, hnum, bind, Except.bind, printnum_collect_eq hbase, hunsigned]
    rfl
  | _ => cases h

end JosKernel.Lib
