/-! Tables in which some entries carry a mark and others none, and bisection
for a mark, which steps back from each midpoint to the last marked entry. -/
namespace JosKernel.General.Marks

variable {κ : Type}

def last (marks : Int → Option κ) (l m : Int) : Option (Int × κ) :=
  if l ≤ m then
    match marks m with
    | some mark => some (m, mark)
    | none => last marks l (m - 1)
  else none
termination_by (m - l + 1).toNat

theorem last_empty (marks : Int → Option κ) {l m : Int} (h : m < l) : last marks l m = none := by
  rw [last, if_neg (by omega)]

theorem last_some {marks : Int → Option κ} {l m : Int} (h : l ≤ m) {mark : κ}
    (hmark : marks m = some mark) : last marks l m = some (m, mark) := by
  rw [last, if_pos h, hmark]

theorem last_none {marks : Int → Option κ} {l m : Int} (h : l ≤ m) (hmark : marks m = none) :
    last marks l m = last marks l (m - 1) := by
  rw [last, if_pos h, hmark]

theorem last_cases (marks : Int → Option κ) (l m : Int) :
    last marks l m = none ∧ (∀ i, l ≤ i → i ≤ m → marks i = none) ∨
    ∃ i mark, last marks l m = some (i, mark) ∧ l ≤ i ∧ i ≤ m ∧ marks i = some mark ∧
      ∀ j, i < j → j ≤ m → marks j = none := by
  by_cases h : l ≤ m
  · cases hmark : marks m with
    | some mark =>
      right
      exact ⟨m, mark, last_some h hmark, h, Int.le_refl m, hmark, fun j hlt hle => by omega⟩
    | none =>
      have hskip : ∀ j, j ≤ m → ¬j ≤ m - 1 → marks j = none := by
        intro j hle hgt
        have hj : j = m := by omega
        rw [hj, hmark]
      rw [last_none h hmark]
      rcases last_cases marks l (m - 1) with ⟨hlast, hall⟩ | ⟨i, mark, hlast, hlo, hhi, hi, hall⟩
      · refine Or.inl ⟨hlast, fun i hlo hle => ?_⟩
        by_cases hi : i ≤ m - 1
        · exact hall i hlo hi
        · exact hskip i hle hi
      · refine Or.inr ⟨i, mark, hlast, hlo, by omega, hi, fun j hlt hle => ?_⟩
        by_cases hj : j ≤ m - 1
        · exact hall j hlt hj
        · exact hskip j hle hj
  · exact Or.inl ⟨last_empty marks (by omega), fun i hlo hhi => by omega⟩
termination_by (m - l + 1).toNat

def mid (l r : Int) : Int := (l + r).tdiv 2

theorem mid_eq (l r : Int) : mid l r = if 0 ≤ l + r then (l + r) / 2 else -(-(l + r) / 2) := by
  unfold mid
  split
  · next h => exact Int.tdiv_eq_ediv_of_nonneg h
  · next h =>
    rw [← Int.neg_neg (l + r), Int.neg_tdiv, Int.neg_neg, Int.tdiv_eq_ediv_of_nonneg (by omega)]

theorem le_mid {l r : Int} (h : l ≤ r) : l ≤ mid l r := by
  rw [mid_eq]
  split <;> omega

theorem mid_le {l r : Int} (h : l ≤ r) : mid l r ≤ r := by
  rw [mid_eq]
  split <;> omega

variable [LT κ] [DecidableLT κ]

/-- Where bisection for `key` first lands on it, with the right end of the
range at that time. -/
def land (marks : Int → Option κ) (key : κ) (l r : Int) : Option (Int × Int) :=
  if _h : l ≤ r then
    match hlast : last marks l (mid l r) with
    | none => land marks key (mid l r + 1) r
    | some (m, mark) =>
      if mark < key then land marks key (mid l r + 1) r
      else if key < mark then land marks key l (m - 1)
      else some (m, r)
  else none
termination_by (r - l + 1).toNat
decreasing_by
  all_goals have hlo := le_mid _h
  all_goals have hhi := mid_le _h
  · omega
  · omega
  · rcases last_cases marks l (mid l r) with ⟨hnone, -⟩ | ⟨i, mark', hsome, hi, hle, -⟩
    · rw [hnone] at hlast
      cases hlast
    · rw [hsome] at hlast
      cases hlast
      omega

section
variable {marks : Int → Option κ} {key : κ} {l r : Int}

theorem land_empty (h : r < l) : land marks key l r = none := by
  rw [land, dif_neg (by omega)]

theorem land_none (h : l ≤ r) (hlast : last marks l (mid l r) = none) :
    land marks key l r = land marks key (mid l r + 1) r := by
  rw [land, dif_pos h]
  split
  · rfl
  · next hsome =>
    rw [hlast] at hsome
    cases hsome

theorem land_some (h : l ≤ r) {m : Int} {mark : κ} (hlast : last marks l (mid l r) = some (m, mark)) :
    land marks key l r =
      if mark < key then land marks key (mid l r + 1) r
      else if key < mark then land marks key l (m - 1)
      else some (m, r) := by
  rw [land, dif_pos h]
  split
  · next hnone =>
    rw [hlast] at hnone
    cases hnone
  · next hsome =>
    rw [hlast] at hsome
    cases hsome
    rfl

theorem land_mark {l r m r' : Int} (h : land marks key l r = some (m, r')) :
    l ≤ m ∧ m ≤ r' ∧ r' ≤ r ∧ ∃ mark, marks m = some mark ∧ ¬mark < key ∧ ¬key < mark := by
  by_cases hle : l ≤ r
  · have hlo := le_mid hle
    have hhi := mid_le hle
    rcases last_cases marks l (mid l r) with ⟨hlast, -⟩ | ⟨i, mark, hlast, hil, him, hmark, -⟩
    · rw [land_none hle hlast] at h
      obtain ⟨hl, hm, hr, hfound⟩ := land_mark h
      exact ⟨by omega, hm, hr, hfound⟩
    · rw [land_some hle hlast] at h
      split at h
      · obtain ⟨hl, hm, hr, hfound⟩ := land_mark h
        exact ⟨by omega, hm, hr, hfound⟩
      split at h
      · obtain ⟨hl, hm, hr, hfound⟩ := land_mark h
        exact ⟨hl, hm, by omega, hfound⟩
      · next hnot hnot' =>
        cases h
        exact ⟨hil, by omega, Int.le_refl r, mark, hmark, hnot, hnot'⟩
  · rw [land_empty (by omega)] at h
    cases h
termination_by (r - l + 1).toNat

end

end JosKernel.General.Marks
