import JosKernel.Lib.Conversions
import JosKernel.Lib.String

/-! The comparisons of `lib/string.c` as one order of strings. -/
namespace JosKernel.Lib
open JosKernel.Inc

def strncmp : List UInt8 → List UInt8 → Nat → Except Fault Int
  | _, _, 0 => .ok 0
  | byte :: p, other :: q, n + 1 =>
    if byte ≠ 0 ∧ byte = other then strncmp p q n else .ok (byte.toNat - other.toNat)
  | _, _, _ + 1 => .error .badAccess

def memcmp : List UInt8 → List UInt8 → Nat → Except Fault Int
  | _, _, 0 => .ok 0
  | byte :: v1, other :: v2, n + 1 =>
    if byte ≠ other then .ok (byte.toNat - other.toNat) else memcmp v1 v2 n
  | _, _, _ + 1 => .error .badAccess

theorem memcmp_zero (v1 v2 : List UInt8) : memcmp v1 v2 0 = .ok 0 := by
  cases v1 <;> rfl

theorem byte_sub_neg (byte other : UInt8) : (byte.toNat : Int) - other.toNat < 0 ↔ byte < other := by
  rw [UInt8.lt_iff_toNat_lt]
  omega

theorem stringAt_lt_of_stop {byte other : UInt8} (h : ¬(byte ≠ 0 ∧ byte = other))
    (p q : List UInt8) : stringAt (byte :: p) < stringAt (other :: q) ↔ byte < other := by
  have hzero : ∀ b : UInt8, ¬b < 0 := fun b => UInt8.not_lt_zero
  rw [stringAt_cons, stringAt_cons]
  by_cases hbyte : byte = 0
  · by_cases hother : other = 0
    · simp [hbyte, hother]
    · have hpos : (0 : UInt8) < other := UInt8.pos_iff_ne_zero.mpr hother
      simp [hbyte, hother, hpos]
  · have hne : byte ≠ other := fun heq => h ⟨hbyte, heq⟩
    by_cases hother : other = 0
    · simp [hbyte, hother]
    · simp [hbyte, hother, hne, List.cons_lt_cons_iff]

theorem stringAt_lt_of_go {byte : UInt8} (h : byte ≠ 0) (p q : List UInt8) :
    stringAt (byte :: p) < stringAt (byte :: q) ↔ stringAt p < stringAt q := by
  simp [stringAt_cons, h]

theorem strcmp_neg {p q : List UInt8} {result : Int} (h : strcmp p q = .ok result) :
    result < 0 ↔ stringAt p < stringAt q := by
  induction p generalizing q with
  | nil => cases h
  | cons byte p ih =>
    cases q with
    | nil => cases h
    | cons other q =>
      unfold strcmp at h
      by_cases hgo : byte ≠ 0 ∧ byte = other
      · rw [if_pos hgo] at h
        rw [ih h, ← hgo.2, stringAt_lt_of_go hgo.1]
      · rw [if_neg hgo] at h
        cases h
        rw [byte_sub_neg, stringAt_lt_of_stop hgo]

theorem strcmp_swap {p q : List UInt8} {result : Int} (h : strcmp p q = .ok result) :
    strcmp q p = .ok (-result) := by
  induction p generalizing q with
  | nil => cases h
  | cons byte p ih =>
    cases q with
    | nil => cases h
    | cons other q =>
      unfold strcmp at h ⊢
      by_cases hgo : byte ≠ 0 ∧ byte = other
      · rw [if_pos hgo] at h
        rw [if_pos ⟨hgo.2 ▸ hgo.1, hgo.2.symm⟩]
        exact ih h
      · rw [if_neg hgo] at h
        have hstop : ¬(other ≠ 0 ∧ other = byte) := fun hswap => hgo ⟨hswap.2 ▸ hswap.1, hswap.2.symm⟩
        cases h
        rw [if_neg hstop, Int.neg_sub]

theorem strcmp_nonpos {p q : List UInt8} {result : Int} (h : strcmp p q = .ok result) :
    result ≤ 0 ↔ stringAt p ≤ stringAt q := by
  rw [← List.not_lt, ← strcmp_neg (strcmp_swap h)]
  omega

theorem strcmp_zero {p q : List UInt8} {result : Int} (h : strcmp p q = .ok result) :
    result = 0 ↔ stringAt p = stringAt q := by
  refine ⟨?_, fun hequal => ?_⟩
  · rintro rfl
    exact List.le_antisymm ((strcmp_nonpos h).mp (Int.le_refl 0))
      ((strcmp_nonpos (strcmp_swap h)).mp (by decide))
  · have hle := (strcmp_nonpos h).mpr (hequal ▸ List.le_refl _)
    have hge := (strcmp_nonpos (strcmp_swap h)).mpr (hequal ▸ List.le_refl _)
    omega

def comparedLength (p q : List UInt8) : Nat := min (stringAt p).length (stringAt q).length + 1

theorem comparedLength_cons {byte : UInt8} (h : byte ≠ 0) (p q : List UInt8) :
    comparedLength (byte :: p) (byte :: q) = comparedLength p q + 1 := by
  simp [comparedLength, stringAt_cons, h]

theorem comparedLength_end (p q : List UInt8) : comparedLength (0 :: p) q = 1 := by
  simp [comparedLength, stringAt_cons]

section
variable {p q : List UInt8} (hp : Terminated p) (hq : Terminated q)
include hp hq

theorem strncmp_of_le {n : Nat} (hn : comparedLength p q ≤ n) : strncmp p q n = strcmp p q := by
  induction p generalizing q n with
  | nil => cases hp
  | cons byte p ih =>
    cases q with
    | nil => cases hq
    | cons other q =>
      cases n with
      | zero => cases hn
      | succ n =>
        unfold strncmp strcmp
        by_cases hgo : byte ≠ 0 ∧ byte = other
        · obtain ⟨hbyte, rfl⟩ := hgo
          rw [comparedLength_cons hbyte] at hn
          rw [if_pos ⟨hbyte, rfl⟩, if_pos ⟨hbyte, rfl⟩]
          exact ih (hp.tail hbyte) (hq.tail hbyte) (by omega)
        · rw [if_neg hgo, if_neg hgo]

theorem memcmp_comparedLength : memcmp p q (comparedLength p q) = strcmp p q := by
  induction p generalizing q with
  | nil => cases hp
  | cons byte p ih =>
    cases q with
    | nil => cases hq
    | cons other q =>
      by_cases hgo : byte ≠ 0 ∧ byte = other
      · obtain ⟨hbyte, rfl⟩ := hgo
        rw [comparedLength_cons hbyte, memcmp, strcmp, if_neg (not_not_intro rfl),
          if_pos ⟨hbyte, rfl⟩]
        exact ih (hp.tail hbyte) (hq.tail hbyte)
      · obtain ⟨n, hn⟩ : ∃ n, comparedLength (byte :: p) (other :: q) = n + 1 := ⟨_, rfl⟩
        rw [hn, memcmp, strcmp, if_neg hgo]
        by_cases hsame : byte = other
        · -- both strings end here
          have hbyte : byte = 0 := Decidable.of_not_not fun hne => hgo ⟨hne, hsame⟩
          subst hsame hbyte
          rw [comparedLength_end] at hn
          cases hn
          rw [if_neg (not_not_intro rfl)]
          exact memcmp_zero p q
        · rw [if_pos hsame]

theorem strncmp_of_lt {n : Nat} (hn : n < comparedLength p q) :
    ∃ result, strncmp p q n = .ok result ∧ memcmp p q n = .ok result := by
  induction n generalizing p q with
  | zero => exact ⟨0, by cases p <;> rfl, memcmp_zero p q⟩
  | succ n ih =>
    cases p with
    | nil => cases hp
    | cons byte p =>
      cases q with
      | nil => cases hq
      | cons other q =>
        have hbyte : byte ≠ 0 := by
          rintro rfl
          rw [comparedLength_end] at hn
          omega
        rw [strncmp, memcmp]
        by_cases hsame : byte = other
        · subst hsame
          rw [comparedLength_cons hbyte] at hn
          rw [if_pos ⟨hbyte, rfl⟩, if_neg (not_not_intro rfl)]
          exact ih (hp.tail hbyte) (hq.tail hbyte) (by omega)
        · rw [if_neg fun hgo => hsame hgo.2, if_pos hsame]
          exact ⟨_, rfl, rfl⟩

end

/-- The three comparisons agree as far as their bounds let them, and their sign
is the order of the strings by their bytes, a total order. -/
structure OneOrder (p q : List UInt8) (result : Int) : Prop where
  strcmp_eq : strcmp p q = .ok result
  strncmp_long : ∀ n, comparedLength p q ≤ n → strncmp p q n = .ok result
  memcmp_eq : memcmp p q (comparedLength p q) = .ok result
  strncmp_short : ∀ n, n < comparedLength p q →
    ∃ result', strncmp p q n = .ok result' ∧ memcmp p q n = .ok result'
  neg_iff : result < 0 ↔ stringAt p < stringAt q
  pos_iff : 0 < result ↔ stringAt q < stringAt p
  zero_iff : result = 0 ↔ stringAt p = stringAt q
  antisymm : strcmp q p = .ok (-result)
  trans : ∀ s result₂ result₃, strcmp q s = .ok result₂ → strcmp p s = .ok result₃ →
    result ≤ 0 → result₂ ≤ 0 → result₃ ≤ 0 ∧ (result₃ = 0 → result = 0 ∧ result₂ = 0)

theorem strcmp_oneOrder (p q : List UInt8) (hp : Terminated p) (hq : Terminated q) :
    ∃ result, OneOrder p q result := by
  obtain ⟨result, hrun⟩ := strcmp_ok hp hq
  refine ⟨result, hrun, fun n hn => (strncmp_of_le hp hq hn).trans hrun,
    (memcmp_comparedLength hp hq).trans hrun, fun n hn => strncmp_of_lt hp hq hn,
    strcmp_neg hrun, ?_, strcmp_zero hrun, strcmp_swap hrun, ?_⟩
  · rw [← strcmp_neg (strcmp_swap hrun)]
    omega
  · intro s result₂ result₃ hrun₂ hrun₃ hle hle₂
    have hpq := (strcmp_nonpos hrun).mp hle
    have hqs := (strcmp_nonpos hrun₂).mp hle₂
    refine ⟨(strcmp_nonpos hrun₃).mpr (List.le_trans hpq hqs), fun hequal => ?_⟩
    rw [strcmp_zero hrun₃] at hequal
    rw [← hequal] at hqs
    rw [strcmp_zero hrun, strcmp_zero hrun₂, ← hequal]
    exact ⟨List.le_antisymm hpq hqs, List.le_antisymm hqs hpq⟩

theorem strcmp_oneOrder_high :
    ∃ result, OneOrder [0x61, 0x7F, 0] [0x61, 0x80, 0] result :=
  strcmp_oneOrder [0x61, 0x7F, 0] [0x61, 0x80, 0] (by decide) (by decide)

end JosKernel.Lib
