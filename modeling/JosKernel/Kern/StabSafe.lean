import JosKernel.Kern.StabSearch

/-! `stab_binsearch` on tables with any contents, with the `int` arithmetic of the
machine: where it reads, and where its result lies. -/
namespace JosKernel.Kern
open JosKernel.Inc JosKernel.General Marks

namespace Wrapping

section
variable (stabs : StabReader)

def backRound (stop : Stab → Bool) (l m : Int) : Except Fault (Int ⊕ Int) :=
  if l ≤ m then do
    let stab ← readStab stabs m
    if stop stab then return .inr m else return .inl (wrapInt (m - 1))
  else .ok (.inr m)

def back (stop : Stab → Bool) (l m : Int) : Except Fault Int :=
  Loop.run .unfinished (backRound stabs stop l) ((m - l + 1).toNat + 1) m

variable (type : Int)

def earlier (l m : Int) : Except Fault Int := back stabs (·.hasType type) l m

def searchRound (s : Search) : Except Fault (Search ⊕ Search) :=
  if s.l ≤ s.r then do
    let trueM := (wrapInt (s.l + s.r)).tdiv 2
    let m ← earlier stabs type s.l trueM
    if m < s.l then return .inl { s with l := wrapInt (trueM + 1) }
    let stab ← readStab stabs m
    let s := { s with anyMatches := true }
    if stab.nValue < s.addr then
      return .inl { s with region := { s.region with left := m }, l := wrapInt (trueM + 1) }
    else if s.addr < stab.nValue then
      return .inl { s with region := { s.region with right := wrapInt (m - 1) }, r := wrapInt (m - 1) }
    else
      return .inl { s with region := { s.region with left := m }, l := m, addr := s.addr + 1 }
  else .ok (.inr s)

def rightmostRound (left l : Int) : Except Fault (Int ⊕ Int) :=
  if left < l then do
    let stab ← readStab stabs l
    if stab.hasType type then return .inr l else return .inl (wrapInt (l - 1))
  else .ok (.inr l)

/-- `stab_binsearch` on `int`s that wrap around. -/
def stabBinsearch (region : Region) (addr : UInt32) : Except Fault Region := do
  let s ← Loop.run .unfinished (searchRound stabs type)
    (2 * (region.right - region.left + 1).toNat + 2)
    ⟨region.left, region.right, false, region, addr⟩
  if s.anyMatches then
    let l ← Loop.run .unfinished (rightmostRound stabs type s.region.left)
      ((s.region.right - s.region.left).toNat + 1) s.region.right
    return ⟨l, s.region.right⟩
  else
    return ⟨s.region.left, wrapInt (s.region.left - 1)⟩

end

section
variable {stabs exact : StabReader} {left right : Int} (hleft : 0 ≤ left) (hright : right < 2 ^ 30)
  (hagree : ∀ index, left ≤ index → index ≤ right → stabs index = exact index)

include hleft hright hagree in
theorem backRound_eq (stop : Stab → Bool) {l m : Int} (hl : left ≤ l) (hm : m ≤ right) :
    backRound stabs stop l m = Kern.backRound exact stop l m := by
  unfold backRound Kern.backRound
  by_cases hle : l ≤ m
  · have hread : readStab stabs m = readStab exact m := by
      rw [readStab, readStab, hagree m (by omega) hm]
    have hwrap : wrapInt (m - 1) = m - 1 := wrapInt_of_range (by omega) (by omega)
    rw [if_pos hle, if_pos hle, hread, hwrap]
  · rw [if_neg hle, if_neg hle]

theorem backRound_next {stop : Stab → Bool} {l m next : Int}
    (h : Kern.backRound exact stop l m = .ok (.inl next)) : next = m - 1 := by
  unfold Kern.backRound at h
  split at h
  · obtain ⟨stab, -, h⟩ := exists_of_bind_eq_ok h
    split at h
    · cases h
    · cases h
      rfl
  · cases h

include hleft hright hagree in
theorem back_run (stop : Stab → Bool) {l : Int} (hl : left ≤ l) (fuel : Nat) {m : Int}
    (hm : m ≤ right) :
    Loop.run .unfinished (backRound stabs stop l) fuel m =
      Loop.run .unfinished (Kern.backRound exact stop l) fuel m := by
  refine Loop.run_congr (· ≤ right) (fun m next hm hround => ?_)
    (fun m hm => backRound_eq hleft hright hagree stop hl hm) fuel hm
  have hnext := backRound_next hround
  omega

include hleft hright hagree in
theorem searchRound_eq (type : Int) (hexact : Readable exact left right) {s : Search}
    (hs : Within left right s) : searchRound stabs type s = Kern.searchRound exact type s := by
  have hl := hs.le_l
  have hr := hs.r_le
  unfold searchRound Kern.searchRound
  by_cases hle : s.l ≤ s.r
  · have hmid := mid_le hle
    have hmid' := le_mid hle
    have hsum : wrapInt (s.l + s.r) = s.l + s.r := wrapInt_of_range (by omega) (by omega)
    have hnext : wrapInt (mid s.l s.r + 1) = mid s.l s.r + 1 :=
      wrapInt_of_range (by omega) (by omega)
    have hearlier : earlier stabs type s.l (mid s.l s.r) =
        Kern.earlier exact type s.l (mid s.l s.r) :=
      back_run hleft hright hagree (·.hasType type) hl _ (by omega)
    obtain ⟨m, hm, hlo, hhi⟩ := @back_bounds exact (·.hasType type) s.l (mid s.l s.r)
      (fun index hlo hhi => hexact index (by omega) (by omega)) (by omega)
    have hread : readStab stabs m = readStab exact m ∨ m < s.l := by
      by_cases hfound : m < s.l
      · exact Or.inr hfound
      · rw [readStab, readStab, hagree m (by omega) (by omega)]
        exact Or.inl rfl
    have hwrap : wrapInt (m - 1) = m - 1 := wrapInt_of_range (by omega) (by omega)
    rw [if_pos hle, if_pos hle, hsum, ← mid]
    dsimp only
    rw [hearlier, hnext, Kern.earlier, hm]
    simp only [bind, Except.bind]
    rw [hwrap]
    rcases hread with hread | hmissed
    · rw [hread]
    · rw [if_pos hmissed, if_pos hmissed]
  · rw [if_neg hle, if_neg hle]

include hleft hright hagree in
/-- On a range of valid indices the arithmetic of the machine is exact. -/
theorem stabBinsearch_eq (type : Int) (hexact : Readable exact left right)
    (hrange : left ≤ right + 1) (addr : UInt32) :
    stabBinsearch stabs type ⟨left, right⟩ addr = Kern.stabBinsearch exact type ⟨left, right⟩ addr := by
  obtain ⟨s, hrun, hs, -, -⟩ := search_rule type hexact hrange addr (fun _ => True) trivial
    (fun _ _ _ _ _ _ => trivial)
  have hsearch : Loop.run .unfinished (searchRound stabs type) (2 * (right - left + 1).toNat + 2)
      ⟨left, right, false, ⟨left, right⟩, addr⟩ = .ok s := by
    rw [← hrun]
    exact Loop.run_congr (Within left right) (fun s next hs hround => hs.round type hexact hround)
      (fun s hs => searchRound_eq hleft hright hagree type hexact hs) _ (.start hrange addr)
  have hstart := hs.le_left
  have hend := hs.right_eq
  have hr := hs.r_le
  have hstart' := hs.left_le
  have hscan : Loop.run .unfinished (rightmostRound stabs type s.region.left)
      ((s.region.right - s.region.left).toNat + 1) s.region.right =
      Loop.run .unfinished (Kern.rightmostRound exact type s.region.left)
        ((s.region.right - s.region.left).toNat + 1) s.region.right :=
    back_run hleft hright hagree (·.hasType type) (show left ≤ s.region.left + 1 by omega) _
      (by omega)
  have hwrap : wrapInt (s.region.left - 1) = s.region.left - 1 :=
    wrapInt_of_range (by omega) (by omega)
  unfold stabBinsearch Kern.stabBinsearch
  dsimp only
  rw [hsearch, hrun]
  simp only [bind, Except.bind]
  rw [hscan, hwrap]

end

end Wrapping

def window (table : List Stab) (left right : Int) : StabReader := fun index =>
  if left ≤ index ∧ index ≤ right then tableReader table index else none

/-- The search returns, whatever lies outside of the range it looks at, and the
region that it returns lies in the range or touches it. -/
structure Safe (table : List Stab) (type left right : Int) (addr : UInt32) (region : Region) :
    Prop where
  returns : Wrapping.stabBinsearch (tableReader table) type ⟨left, right⟩ addr = .ok region
  reads : Wrapping.stabBinsearch (window table left right) type ⟨left, right⟩ addr = .ok region
  le_left : left - 1 ≤ region.left
  left_le : region.left ≤ right
  le_right : left - 1 ≤ region.right
  right_le : region.right ≤ right

/-- `stab_binsearch` is safe on any table: its entries need no order, and the
next address may wrap around. -/
theorem stabBinsearch_safe (table : List Stab) (type left right : Int) (addr : UInt32)
    (hleft : 0 ≤ left) (hrange : left ≤ right) (hright : right < 2 ^ 30)
    (htable : right < table.length) : ∃ region, Safe table type left right addr region := by
  have hread := tableReader_readable table hleft htable
  obtain ⟨s, hs, -, -, hresult⟩ := stabBinsearch_rule type hread (show left ≤ right + 1 by omega)
    addr (fun _ => True) trivial (fun _ _ _ _ _ _ => trivial)
  have hwrapping : ∀ stabs : StabReader,
      (∀ index, left ≤ index → index ≤ right → stabs index = tableReader table index) →
      Wrapping.stabBinsearch stabs type ⟨left, right⟩ addr =
        .ok (finish (marks (tableReader table) type) s) := fun stabs hagree =>
    (Wrapping.stabBinsearch_eq hleft hright hagree type hread (by omega) addr).trans hresult
  have hle := hs.le_finish_right (marks (tableReader table) type)
  obtain ⟨hlo, hhi, hinner, -⟩ := @Within.finish (marks (tableReader table) type) _ _ _ hs
  exact ⟨_, hwrapping _ fun _ _ _ => rfl, hwrapping _ fun _ hlo hhi => if_pos ⟨hlo, hhi⟩, hlo,
    by omega, hle, hhi⟩

theorem stabBinsearch_safe_wrap :
    ∃ region, Safe [⟨0, 0x24, 0xffffffff⟩, ⟨0, 0x64, 7⟩, ⟨0, 0x24, 5⟩] nFun 0 2 0xffffffff region :=
  stabBinsearch_safe [⟨0, 0x24, 0xffffffff⟩, ⟨0, 0x64, 7⟩, ⟨0, 0x24, 5⟩] nFun 0 2 0xffffffff
    (by decide) (by decide) (by decide) (by decide)

end JosKernel.Kern
