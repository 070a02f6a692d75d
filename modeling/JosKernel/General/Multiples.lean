import Mathlib.Order.GaloisConnection.Basic

/-! The multiples of a number that lie next to another one. -/
namespace JosKernel.General.Multiples

def below (n a : Nat) : Nat := a / n * n

def above (n a : Nat) : Nat := below n (a + n - 1)

section
variable {n : Nat} (hn : 0 < n)

theorem below_eq_sub_mod (n a : Nat) : below n a = a - a % n := Nat.div_mul_self_eq_mod_sub_self

theorem below_le (n a : Nat) : below n a ≤ a := Nat.div_mul_le_self a n

theorem dvd_below (n a : Nat) : n ∣ below n a := Nat.dvd_mul_left n _

include hn in
theorem le_below_iff {a m : Nat} (h : n ∣ m) : m ≤ below n a ↔ m ≤ a := by
  obtain ⟨k, rfl⟩ := h
  rw [below, Nat.mul_comm n k, Nat.mul_le_mul_right_iff hn]
  exact (Nat.galoisConnection_mul_div hn k a).symm

include hn in
theorem isGreatest_below (a : Nat) : IsGreatest {m | n ∣ m ∧ m ≤ a} (below n a) :=
  ⟨⟨dvd_below n a, below_le n a⟩, fun _ hm => (le_below_iff hn hm.1).mpr hm.2⟩

theorem below_of_lt {a : Nat} (h : a < n) : below n a = 0 := by
  rw [below, Nat.div_eq_of_lt h, Nat.zero_mul]

include hn in
theorem lt_below_add (a : Nat) : a < below n a + n := by
  have hmod := Nat.mod_lt a hn
  rw [below_eq_sub_mod]
  omega

theorem below_add_le {a b : Nat} (h : n ∣ b) (hlt : a < b) : below n a + n ≤ b := by
  have hle := below_le n a
  have hdvd : n ∣ b - below n a := Nat.dvd_sub h (dvd_below n a)
  have hgap := Nat.le_of_dvd (by omega) hdvd
  omega

include hn in
theorem le_above (a : Nat) : a ≤ above n a := by
  have hlt := lt_below_add hn (a + n - 1)
  rw [above]
  omega

theorem dvd_above (n a : Nat) : n ∣ above n a := dvd_below n _

include hn in
theorem above_le_iff {a m : Nat} (h : n ∣ m) : above n a ≤ m ↔ a ≤ m := by
  refine ⟨(le_above hn a).trans, fun hle => ?_⟩
  -- `a + n - 1` does not get to the multiple behind `m`
  have hnext := below_add_le (Nat.dvd_add h (Nat.dvd_refl n)) (show a + n - 1 < m + n by omega)
  rw [above]
  omega

include hn in
theorem above_zero : above n 0 = 0 := by
  apply Nat.le_zero.mp
  rw [above_le_iff hn (Nat.dvd_zero n)]

include hn in
theorem isLeast_above (a : Nat) : IsLeast {m | n ∣ m ∧ a ≤ m} (above n a) :=
  ⟨⟨dvd_above n a, le_above hn a⟩, fun _ hm => (above_le_iff hn hm.1).mpr hm.2⟩

include hn in
theorem above_le_iff_le_below {a b : Nat} : above n a ≤ b ↔ a ≤ below n b := by
  rw [← le_below_iff hn (dvd_above n a), above_le_iff hn (dvd_below n b)]

end

end JosKernel.General.Multiples
