import Mathlib.Algebra.Group.Nat.Defs

/-! Words of flags: the bits of a `UInt32` by their positions, with the masks
`1 << position` through which programs test, set, flip and clear them, and what
shifts, low fields and sums are as numbers. -/
namespace JosKernel.General

def flag (position : Nat) (word : UInt32) : Bool := word.toBitVec.getLsbD position

def mask (position : Nat) : UInt32 := ⟨BitVec.twoPow 32 position⟩

section
variable (position : Nat) (left right : UInt32)

@[simp] theorem flag_or :
    flag position (left ||| right) = (flag position left || flag position right) := by
  simp [flag]

@[simp] theorem flag_and :
    flag position (left &&& right) = (flag position left && flag position right) := by
  simp [flag]

@[simp] theorem flag_xor :
    flag position (left ^^^ right) = (flag position left ^^ flag position right) := by
  simp [flag]

@[simp] theorem flag_zero : flag position 0 = false := by
  simp [flag]

theorem flag_not {position : Nat} (h : position < 32) (word : UInt32) :
    flag position (~~~word) = !flag position word := by
  simp [flag, h]

theorem flag_mask (other : Nat) (h : position < 32) :
    flag other (mask position) = decide (other = position) := by
  simp [flag, mask, h, eq_comm]

end

theorem flag_ext {left right : UInt32}
    (h : ∀ position < 32, flag position left = flag position right) : left = right := by
  apply UInt32.toBitVec_inj.mp
  apply BitVec.eq_of_getLsbD_eq
  intro position hposition
  exact h position hposition

theorem and_mask_ne_zero {position : Nat} (h : position < 32) (word : UInt32) :
    word &&& mask position ≠ 0 ↔ flag position word = true := by
  constructor
  · intro hne
    cases hflag : flag position word with
    | true => rfl
    | false =>
      refine absurd (flag_ext fun other hother => ?_) hne
      rw [flag_and, flag_mask position other h, flag_zero]
      by_cases heq : other = position
      · rw [heq, hflag, Bool.false_and]
      · rw [decide_eq_false heq, Bool.and_false]
  · intro hflag hzero
    have hand := congrArg (flag position) hzero
    rw [flag_and, flag_mask position position h, hflag, flag_zero, decide_eq_true rfl] at hand
    cases hand

theorem and_mask_eq_zero {position : Nat} (h : position < 32) (word : UInt32) :
    word &&& mask position = 0 ↔ flag position word = false := by
  rw [← Bool.not_eq_true, ← and_mask_ne_zero h, Decidable.not_not]

theorem and_mask {position : Nat} (h : position < 32) (word : UInt32) :
    word &&& mask position = if flag position word then mask position else 0 := by
  apply flag_ext
  intro other hother
  rw [flag_and, flag_mask position other h]
  by_cases heq : other = position
  · rw [heq, decide_eq_true rfl]
    cases flag position word <;> simp [flag_mask position position h]
  · rw [decide_eq_false heq]
    cases flag position word <;> simp [flag_mask position other h, heq]

theorem and_or (word left right : UInt32) :
    word &&& (left ||| right) = word &&& left ||| word &&& right := by
  apply flag_ext
  intro position hposition
  simp [Bool.and_or_distrib_left]

theorem clear_set {position : Nat} (h : position < 32) {word : UInt32}
    (hclear : flag position word = false) :
    (word ||| mask position) &&& ~~~mask position = word := by
  apply flag_ext
  intro other hother
  rw [flag_and, flag_or, flag_not hother, flag_mask position other h]
  by_cases heq : other = position
  · rw [heq, hclear, decide_eq_true rfl]
    rfl
  · rw [decide_eq_false heq, Bool.or_false, Bool.not_false, Bool.and_true]

theorem clear_or (word cleared set : UInt32) :
    (word ||| set) &&& ~~~(cleared ||| set) = word &&& ~~~(cleared ||| set) := by
  apply flag_ext
  intro position hposition
  rw [flag_and, flag_and, flag_or, flag_not hposition, flag_or]
  cases flag position set <;> simp

theorem flag_eq_testBit (position : Nat) (word : UInt32) :
    flag position word = word.toNat.testBit position :=
  (BitVec.testBit_toNat word.toBitVec).symm

theorem flag_eq_true (position : Nat) (word : UInt32) :
    flag position word = true ↔ word.toNat / 2 ^ position % 2 = 1 := by
  rw [flag_eq_testBit, Nat.testBit_eq_decide_div_mod_eq, decide_eq_true_eq]

theorem toNat_shiftRight_of_lt (word : UInt32) {count : UInt32} (h : count.toNat < 32) :
    (word >>> count).toNat = word.toNat / 2 ^ count.toNat := by
  rw [UInt32.toNat_shiftRight, Nat.mod_eq_of_lt h, Nat.shiftRight_eq_div_pow]

theorem toNat_add_of_lt {left right : UInt32} (h : left.toNat + right.toNat < 2 ^ 32) :
    (left + right).toNat = left.toNat + right.toNat := by
  rw [UInt32.toNat_add, Nat.mod_eq_of_lt h]

theorem toNat_offset {base : UInt32} {offset : Nat} (h : base.toNat + offset < 2 ^ 32) :
    (base + UInt32.ofNat offset).toNat = base.toNat + offset := by
  have hoffset : (UInt32.ofNat offset).toNat = offset := Nat.mod_eq_of_lt (by omega)
  rw [toNat_add_of_lt (by omega), hoffset]

section
variable {low : UInt32} {width : Nat} (hlow : low.toNat = 2 ^ width - 1) (word : UInt32)
include hlow

theorem toNat_and_low : (word &&& low).toNat = word.toNat % 2 ^ width := by
  rw [UInt32.toNat_and, hlow, Nat.and_two_pow_sub_one_eq_mod]

theorem toNat_or_low :
    (word ||| low).toNat = word.toNat / 2 ^ width * 2 ^ width + (2 ^ width - 1) := by
  have hlt : 2 ^ width - 1 < 2 ^ width := Nat.sub_lt (Nat.two_pow_pos width) Nat.one_pos
  have hor : 2 ^ width * (word.toNat / 2 ^ width) + (2 ^ width - 1) =
      2 ^ width * (word.toNat / 2 ^ width) ||| (2 ^ width - 1) :=
    Nat.two_pow_add_eq_or_of_lt hlt _
  rw [UInt32.toNat_or, hlow, Nat.mul_comm (word.toNat / 2 ^ width), hor]
  apply Nat.eq_of_testBit_eq
  intro position
  rw [Nat.testBit_or, Nat.testBit_or, Nat.testBit_two_pow_sub_one, Nat.testBit_two_pow_mul,
    Nat.testBit_div_two_pow]
  by_cases hposition : position < width
  · rw [decide_eq_true hposition, Bool.or_true, Bool.or_true]
  · have hwidth : width ≤ position := Nat.le_of_not_lt hposition
    rw [decide_eq_true hwidth, Bool.true_and, Nat.sub_add_cancel hwidth]

theorem toNat_and_not_low : (word &&& ~~~low).toNat = word.toNat / 2 ^ width * 2 ^ width := by
  apply Nat.eq_of_testBit_eq
  intro position
  rw [Nat.testBit_mul_two_pow, Nat.testBit_div_two_pow, ← flag_eq_testBit]
  by_cases hposition : position < 32
  · have hflag : flag position low = decide (position < width) := by
      rw [flag_eq_testBit, hlow, Nat.testBit_two_pow_sub_one]
    rw [flag_and, flag_not hposition, hflag, flag_eq_testBit]
    by_cases hwidth : width ≤ position
    · simp [hwidth]
    · simp [hwidth, Nat.lt_of_not_le hwidth]
  · have hbound (number : UInt32) (index : Nat) (h : 32 ≤ index) :
        number.toNat.testBit index = false := by
      apply Nat.testBit_lt_two_pow
      exact Nat.lt_of_lt_of_le number.toNat_lt (Nat.pow_le_pow_right (by decide) h)
    rw [flag_eq_testBit, hbound _ position (by omega)]
    by_cases hwidth : width ≤ position
    · rw [hbound word _ (by omega), Bool.and_false]
    · rw [decide_eq_false hwidth, Bool.false_and]

end

end JosKernel.General
