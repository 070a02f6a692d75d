import Mathlib.Data.List.Basic
import Mathlib.Data.Nat.Digits.Defs

/-! Positional numerals, most significant digit first. -/
namespace JosKernel.General

/-- The digits of a number without leading zeros; 0 has one digit. -/
def numeral (base num : Nat) : List Nat :=
  if num = 0 then [0] else (Nat.digits base num).reverse

def positional (base : Nat) (digits : List Nat) : Nat :=
  digits.foldl (fun value digit => value * base + digit) 0

theorem le_foldl_positional {base : Nat} (hbase : 1 ≤ base) (digits : List Nat) (value : Nat) :
    value ≤ digits.foldl (fun value digit => value * base + digit) value := by
  induction digits generalizing value with
  | nil => exact Nat.le_refl _
  | cons digit digits ih =>
    calc value ≤ value * base + digit := Nat.le_add_right_of_le (Nat.le_mul_of_pos_right _ hbase)
      _ ≤ _ := ih _

theorem positional_cons_ne_zero {base digit : Nat} (hbase : 1 ≤ base) (h : digit ≠ 0)
    (digits : List Nat) : positional base (digit :: digits) ≠ 0 := by
  have hle := le_foldl_positional hbase digits (0 * base + digit)
  unfold positional
  rw [List.foldl_cons]
  omega

theorem numeral_last {base num : Nat} (h : num < base) : numeral base num = [num] := by
  unfold numeral
  split
  · next hzero => rw [hzero]
  · next hpos => rw [Nat.digits_of_lt base num hpos h, List.reverse_singleton]

theorem numeral_step {base num : Nat} (hbase : 2 ≤ base) (h : base ≤ num) :
    numeral base num = numeral base (num / base) ++ [num % base] := by
  have hquot : num / base ≠ 0 := Nat.div_ne_zero_iff.mpr ⟨by omega, h⟩
  unfold numeral
  rw [if_neg (by omega), if_neg hquot, Nat.digits_def' (by omega) (by omega), List.reverse_cons]

theorem numeral_induction {base : Nat} (hbase : 2 ≤ base) {motive : Nat → Prop}
    (last : ∀ num, num < base → motive num)
    (step : ∀ num, base ≤ num → motive (num / base) → motive num) (num : Nat) : motive num := by
  induction num using Nat.strongRecOn with
  | ind num ih =>
    by_cases h : base ≤ num
    · exact step num h (ih _ (Nat.div_lt_self (by omega) hbase))
    · exact last num (Nat.lt_of_not_le h)

theorem numeral_ne_nil (base num : Nat) : numeral base num ≠ [] := by
  unfold numeral
  split
  · exact List.cons_ne_nil 0 []
  · next hpos => exact fun h => hpos (Nat.digits_eq_nil_iff_eq_zero.mp (List.reverse_eq_nil_iff.mp h))

theorem numeral_lt {base : Nat} (hbase : 2 ≤ base) (num : Nat) :
    ∀ digit ∈ numeral base num, digit < base := by
  induction num using numeral_induction hbase with
  | last num h =>
    rw [numeral_last h]
    simpa using h
  | step num h ih =>
    rw [numeral_step hbase h, List.forall_mem_append]
    refine ⟨ih, ?_⟩
    simpa using Nat.mod_lt num (by omega)

theorem positional_numeral {base : Nat} (hbase : 2 ≤ base) (num : Nat) :
    positional base (numeral base num) = num := by
  induction num using numeral_induction hbase with
  | last num h =>
    rw [numeral_last h]
    simp [positional]
  | step num h ih =>
    unfold positional at ih ⊢
    rw [numeral_step hbase h, List.foldl_append, ih]
    exact Nat.div_add_mod' num base

/-- Digits that spell a number: none is a leading zero, but for 0 itself. -/
structure IsNumeral (base num : Nat) (digits : List Nat) : Prop where
  nonempty : digits ≠ []
  lt : ∀ digit ∈ digits, digit < base
  value : positional base digits = num
  leading : digits.head? = some 0 → digits = [0]

theorem isNumeral_numeral {base : Nat} (hbase : 2 ≤ base) (num : Nat) :
    IsNumeral base num (numeral base num) where
  nonempty := numeral_ne_nil base num
  lt := numeral_lt hbase num
  value := positional_numeral hbase num
  leading := by
    induction num using numeral_induction hbase with
    | last num h =>
      rw [numeral_last h]
      simp
    | step num h ih =>
      have hquot : num / base ≠ 0 := Nat.div_ne_zero_iff.mpr ⟨by omega, h⟩
      rw [numeral_step hbase h, List.head?_append_of_ne_nil _ (numeral_ne_nil base _)]
      intro hhead
      have hvalue := positional_numeral hbase (num / base)
      rw [ih hhead] at hvalue
      exact absurd hvalue.symm (by simpa [positional] using hquot)

theorem length_numeral_le {base : Nat} (hbase : 2 ≤ base) {num k : Nat} (h : num < 2 ^ (k + 1)) :
    (numeral base num).length ≤ k + 1 := by
  induction num using numeral_induction hbase generalizing k with
  | last num hlast =>
    rw [numeral_last hlast]
    exact Nat.succ_le_succ (Nat.zero_le k)
  | step num hstep ih =>
    cases k with
    | zero => omega
    | succ k =>
      have hhalf : num / base < 2 ^ (k + 1) := by
        rw [Nat.div_lt_iff_lt_mul (by omega)]
        calc num < 2 ^ (k + 1) * 2 := by rw [← Nat.pow_succ]; exact h
          _ ≤ 2 ^ (k + 1) * base := Nat.mul_le_mul_left _ hbase
      rw [numeral_step hbase hstep, List.length_append, List.length_singleton]
      exact Nat.succ_le_succ (ih hhalf)

end JosKernel.General
