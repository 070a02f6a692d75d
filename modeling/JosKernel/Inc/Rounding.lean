import JosKernel.General.Flags
import JosKernel.General.Multiples

/-! `ROUNDDOWN` and `ROUNDUP` of `inc/types.h` on values of 32 bits. -/
namespace JosKernel.Inc
open JosKernel.General Multiples

/-- `ROUNDDOWN(a, n)`, where `n` can have any integer type; `none` is a division
by zero. -/
def roundDown (a : UInt32) (n : Nat) : Option UInt32 :=
  if n = 0 then none else some (a - UInt32.ofNat (a.toNat % n))

def roundUp (a : UInt32) (n : Nat) : Option UInt32 :=
  let n := UInt32.ofNat n
  roundDown (a + n - 1) n.toNat

theorem roundDown_eq (a : UInt32) {n : Nat} (hn : 0 < n) :
    ∃ r, roundDown a n = some r ∧ r.toNat = below n a.toNat := by
  have hle := Nat.mod_le a.toNat n
  have hlt := a.toNat_lt
  have hmod : (UInt32.ofNat (a.toNat % n)).toNat = a.toNat % n := Nat.mod_eq_of_lt (by omega)
  refine ⟨_, if_neg (by omega), ?_⟩
  rw [below_eq_sub_mod, UInt32.toNat_sub_of_le _ _ (UInt32.le_iff_toNat_le.mpr (by omega)), hmod]

theorem roundUp_eq (a : UInt32) {n : Nat} (hn : n % 2 ^ 32 ≠ 0) :
    ∃ r, roundUp a n = some r ∧
      r.toNat = below (n % 2 ^ 32) ((a.toNat + n % 2 ^ 32 - 1) % 2 ^ 32) := by
  have hofNat : (UInt32.ofNat n).toNat = n % 2 ^ 32 := rfl
  have hlt := a.toNat_lt
  obtain ⟨r, hround, hr⟩ := roundDown_eq (a + UInt32.ofNat n - 1) (show 0 < n % 2 ^ 32 by omega)
  refine ⟨r, hround, hr.trans ?_⟩
  congr 1
  rw [UInt32.toNat_sub, UInt32.toNat_add, hofNat]
  change (2 ^ 32 - 1 + (a.toNat + n % 2 ^ 32) % 2 ^ 32) % 2 ^ 32 = _
  omega

theorem roundUp_none (a : UInt32) {n : Nat} (hn : n % 2 ^ 32 = 0) : roundUp a n = none :=
  if_pos hn

section
variable {a : UInt32} {n : Nat}

theorem roundUp_above (hn : n % 2 ^ 32 ≠ 0) (hfit : a.toNat + n % 2 ^ 32 ≤ 2 ^ 32) :
    ∃ r, roundUp a n = some r ∧ r.toNat = above (n % 2 ^ 32) a.toNat := by
  obtain ⟨r, hround, hr⟩ := roundUp_eq a hn
  have hsum : (a.toNat + n % 2 ^ 32 - 1) % 2 ^ 32 = a.toNat + n % 2 ^ 32 - 1 :=
    Nat.mod_eq_of_lt (by omega)
  refine ⟨r, hround, ?_⟩
  rw [hr, hsum, above]

theorem roundUp_wrapped (hn : n < 2 ^ 32) (hwrap : 2 ^ 32 < a.toNat + n) :
    ∃ r, roundUp a n = some r ∧ r.toNat = 0 := by
  have hlt := a.toNat_lt
  have hmod : n % 2 ^ 32 = n := Nat.mod_eq_of_lt hn
  obtain ⟨r, hround, hr⟩ := roundUp_eq a (show n % 2 ^ 32 ≠ 0 by omega)
  refine ⟨r, hround, ?_⟩
  rw [hr, hmod]
  apply below_of_lt
  omega

/-- `ROUNDDOWN` gives the greatest multiple of `n` up to `a`, and `ROUNDUP` the
least one from `a` on if that has 32 bits. -/
structure Rounds (a : UInt32) (n : Nat) : Prop where
  down : ∃ r, roundDown a n = some r ∧ IsGreatest {m | n ∣ m ∧ m ≤ a.toNat} r.toNat
  up : ∀ m, IsLeast {m | n ∣ m ∧ a.toNat ≤ m} m → m < 2 ^ 32 →
    ∃ r, roundUp a n = some r ∧ r.toNat = m

theorem roundDown_isGreatest (a : UInt32) (hn : 0 < n) :
    ∃ r, roundDown a n = some r ∧ IsGreatest {m | n ∣ m ∧ m ≤ a.toNat} r.toNat := by
  obtain ⟨r, hround, hr⟩ := roundDown_eq a hn
  exact ⟨r, hround, hr ▸ isGreatest_below hn a.toNat⟩

theorem rounds_of (hn : 0 < n) (h : n % 2 ^ 32 ≠ 0 ∧ a.toNat + n % 2 ^ 32 ≤ 2 ^ 32 ∨
    below n (2 ^ 32 - 1) < a.toNat) : Rounds a n := by
  refine ⟨roundDown_isGreatest a hn, fun m hm hlt => ?_⟩
  have hleast : m = above n a.toNat := hm.unique (isLeast_above hn a.toNat)
  have hle : a.toNat ≤ below n (2 ^ 32 - 1) := (above_le_iff_le_below hn).mp (by omega)
  obtain ⟨hmod, hfit⟩ := h.resolve_right (by omega)
  obtain ⟨r, hround, hr⟩ := roundUp_above hmod hfit
  refine ⟨r, hround, hr.trans ?_⟩
  rw [hleast]
  by_cases hwide : n < 2 ^ 32
  · rw [Nat.mod_eq_of_lt hwide]
  · -- the only multiple of a wider `n` that fits is 0
    have hzero : a.toNat = 0 := by
      rw [below_of_lt (by omega)] at hle
      omega
    rw [hzero, above_zero (by omega), above_zero hn]

/-- `ROUNDUP` is right exactly where its sum fits into 32 bits, or where there is
no multiple of 32 bits from `a` on. -/
theorem rounds_iff (a : UInt32) (n : Nat) (hn : 1 ≤ n) :
    Rounds a n ↔ n % 2 ^ 32 ≠ 0 ∧ a.toNat + n % 2 ^ 32 ≤ 2 ^ 32 ∨
      below n (2 ^ 32 - 1) < a.toNat := by
  refine ⟨fun h => ?_, rounds_of hn⟩
  by_cases hbelow : below n (2 ^ 32 - 1) < a.toNat
  · exact Or.inr hbelow
  have habove : above n a.toNat ≤ 2 ^ 32 - 1 := (above_le_iff_le_below hn).mpr (by omega)
  obtain ⟨r, hround, hr⟩ := h.up _ (isLeast_above hn a.toNat) (by omega)
  refine Or.inl ⟨fun hmod => ?_, ?_⟩
  · rw [roundUp_none a hmod] at hround
    cases hround
  by_cases hwide : n < 2 ^ 32
  · rw [Nat.mod_eq_of_lt hwide]
    refine Nat.le_of_not_lt fun hwrap => ?_
    obtain ⟨r', hround', hr'⟩ := roundUp_wrapped hwide hwrap
    cases hround.symm.trans hround'
    have hle := le_above hn a.toNat
    omega
  · have hmod := Nat.mod_lt n (show 0 < 2 ^ 32 by decide)
    rw [below_of_lt (by omega)] at hbelow
    omega

end

theorem rounds_ten : Rounds 0xFFFFFFF0 10 :=
  (rounds_iff 0xFFFFFFF0 10 (by decide)).mpr (.inl (by decide))

/-- The last number of 32 bits is itself a multiple of 3. -/
theorem not_rounds : ¬∀ (a : UInt32) (n : Nat), 1 ≤ n → Rounds a n := by
  intro h
  have hleast : IsLeast {m | 3 ∣ m ∧ (0xFFFFFFFF : UInt32).toNat ≤ m} 0xFFFFFFFF :=
    ⟨⟨by decide, Nat.le_refl _⟩, fun _ hm => hm.2⟩
  obtain ⟨r, hround, hr⟩ := (h 0xFFFFFFFF 3 (by decide)).up _ hleast (by decide)
  have hzero : roundUp 0xFFFFFFFF 3 = some 0 := rfl
  cases hround.symm.trans hzero
  cases hr

theorem rounds_of_dvd (a : UInt32) {n : Nat} (h : n ∣ 2 ^ 32) (hlt : n < 2 ^ 32) : Rounds a n := by
  have hn : 0 < n := Nat.pos_of_dvd_of_pos h (by decide)
  have hbelow := below_add_le h (show 2 ^ 32 - 1 < 2 ^ 32 by decide)
  apply rounds_of hn
  rw [Nat.mod_eq_of_lt hlt]
  omega

end JosKernel.Inc
