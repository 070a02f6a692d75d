import JosKernel.General.Marks
import JosKernel.Kern.Stab

/-! `stab_binsearch` as steps of a search over the entries of one type, and the
rule by which an invariant of the steps holds of its result. -/
namespace JosKernel.Kern
open JosKernel.Inc JosKernel.General Marks

def stops (stabs : StabReader) (stop : Stab → Bool) : Int → Option UInt32 := fun index =>
  match stabs index with
  | some stab => if stop stab then some stab.nValue else none
  | none => none

def marks (stabs : StabReader) (type : Int) : Int → Option UInt32 := stops stabs (·.hasType type)

def Readable (stabs : StabReader) (left right : Int) : Prop :=
  ∀ index, left ≤ index → index ≤ right → ∃ stab, stabs index = some stab

theorem tableReader_readable (table : List Stab) {left right : Int} (hleft : 0 ≤ left)
    (hright : right < table.length) : Readable (tableReader table) left right := by
  intro index hlo hhi
  refine ⟨table[index.toNat], ?_⟩
  rw [tableReader, if_pos (by omega), List.getElem?_eq_getElem]

def advance (marks : Int → Option UInt32) (s : Search) : Search :=
  match last marks s.l (mid s.l s.r) with
  | none => { s with l := mid s.l s.r + 1 }
  | some (m, value) =>
    if value < s.addr then
      { s with anyMatches := true, region := { s.region with left := m }, l := mid s.l s.r + 1 }
    else if s.addr < value then
      { s with anyMatches := true, region := { s.region with right := m - 1 }, r := m - 1 }
    else { s with anyMatches := true, region := { s.region with left := m }, l := m, addr := s.addr + 1 }

def rightmost (marks : Int → Option UInt32) (left right : Int) : Int :=
  if left < right then ((last marks (left + 1) right).map (·.1)).getD left else right

theorem rightmost_of_lt {marks : Int → Option UInt32} {left right : Int} (h : right ≤ left) :
    rightmost marks left right = right :=
  if_neg (by omega)

theorem rightmost_cases (marks : Int → Option UInt32) {left right : Int} (h : left ≤ right) :
    left ≤ rightmost marks left right ∧ rightmost marks left right ≤ right ∧
      (∀ i, rightmost marks left right < i → i ≤ right → marks i = none) ∧
      (rightmost marks left right = left ∨
        ∃ value, marks (rightmost marks left right) = some value) := by
  unfold rightmost
  by_cases hlt : left < right
  · rw [if_pos hlt]
    rcases last_cases marks (left + 1) right with ⟨hlast, hnone⟩ | ⟨k, value, hlast, hlo, hhi, hk, hnone⟩
    · rw [hlast]
      exact ⟨Int.le_refl left, h, fun i hi => hnone i hi, Or.inl rfl⟩
    · rw [hlast]
      exact ⟨by dsimp; omega, hhi, hnone, Or.inr ⟨value, hk⟩⟩
  · rw [if_neg hlt]
    exact ⟨h, Int.le_refl right, fun i hi hir => by omega, Or.inl (by omega)⟩

def finish (marks : Int → Option UInt32) (s : Search) : Region :=
  if s.anyMatches then ⟨rightmost marks s.region.left s.region.right, s.region.right⟩
  else ⟨s.region.left, s.region.left - 1⟩

section
variable {stabs : StabReader} (stop : Stab → Bool)

theorem readStab_cases {left right index : Int} (h : Readable stabs left right)
    (hlo : left ≤ index) (hhi : index ≤ right) :
    ∃ stab, stabs index = some stab ∧ readStab stabs index = .ok stab ∧
      (stop stab = true ∧ stops stabs stop index = some stab.nValue ∨
        stop stab = false ∧ stops stabs stop index = none) := by
  obtain ⟨stab, hstab⟩ := h index hlo hhi
  refine ⟨stab, hstab, by rw [readStab, hstab], ?_⟩
  rw [stops, hstab]
  cases hstop : stop stab with
  | true => exact Or.inl ⟨rfl, if_pos hstop⟩
  | false => exact Or.inr ⟨rfl, by simp [hstop]⟩

theorem back_eq {l m : Int} (h : Readable stabs l m) (hle : l ≤ m + 1) :
    back stabs stop l m = .ok (((last (stops stabs stop) l m).map (·.1)).getD (l - 1)) := by
  refine Loop.run_spec
    (fun k current => current ≤ m ∧ l ≤ current + 1 ∧ k = (current - l + 1).toNat ∧
      last (stops stabs stop) l current = last (stops stabs stop) l m)
    (· = .ok (((last (stops stabs stop) l m).map (·.1)).getD (l - 1)))
    ?_ _ (m - l + 1).toNat m ⟨Int.le_refl m, hle, rfl, rfl⟩ (Nat.lt_succ_self _)
  rintro k current ⟨hcurrent, hlo, rfl, hlast⟩
  unfold backRound
  by_cases hin : l ≤ current
  · obtain ⟨stab, -, hread, ⟨hstop, hmark⟩ | ⟨hstop, hmark⟩⟩ := readStab_cases stop h hin hcurrent
    · rw [if_pos hin, hread]
      simp only [bind, Except.bind, hstop, if_true]
      change Except.ok current = _
      rw [← hlast, last_some hin hmark]
      rfl
    · rw [if_pos hin, hread]
      simp only [bind, Except.bind, hstop]
      refine ⟨(current - 1 - l + 1).toNat, by omega, by omega, by omega, rfl, ?_⟩
      rw [← hlast, last_none hin hmark]
  · rw [if_neg hin]
    change Except.ok current = _
    have hend : current = l - 1 := by omega
    rw [← hlast, last_empty _ (by omega), hend]
    rfl

theorem back_bounds {l m : Int} (h : Readable stabs l m) (hle : l ≤ m + 1) :
    ∃ m', back stabs stop l m = .ok m' ∧ l - 1 ≤ m' ∧ m' ≤ m := by
  refine ⟨_, back_eq stop h hle, ?_⟩
  rcases last_cases (stops stabs stop) l m with ⟨hlast, -⟩ | ⟨i, value, hlast, hlo, hhi, -⟩
  · rw [hlast]
    exact ⟨Int.le_refl _, by dsimp; omega⟩
  · rw [hlast]
    exact ⟨by dsimp; omega, hhi⟩

end

section
variable {stabs : StabReader} (type : Int)

theorem searchRound_eq {left right : Int} (h : Readable stabs left right) {s : Search}
    (hle : s.l ≤ s.r) (hlo : left ≤ s.l) (hhi : s.r ≤ right) :
    searchRound stabs type s = .ok (.inl (advance (marks stabs type) s)) := by
  have hmid := mid_le hle
  have hmid' := le_mid hle
  have hearlier : earlier stabs type s.l ((s.l + s.r).tdiv 2) =
      .ok (((last (marks stabs type) s.l (mid s.l s.r)).map (·.1)).getD (s.l - 1)) :=
    @back_eq stabs (·.hasType type) s.l (mid s.l s.r)
      (fun index hl hr => h index (by omega) (by omega)) (by omega)
  unfold searchRound advance
  rw [if_pos hle]
  simp only [hearlier, bind, Except.bind]
  rcases last_cases (marks stabs type) s.l (mid s.l s.r) with
    ⟨hlast, -⟩ | ⟨m, value, hlast, hm, hm', hmark, -⟩
  · rw [← mid, hlast]
    simp only [Option.map_none, Option.getD_none]
    rw [if_pos (by omega)]
    rfl
  · rw [← mid, hlast]
    simp only [Option.map_some, Option.getD_some]
    rw [if_neg (by omega)]
    obtain ⟨stab, -, hread, ⟨-, hmark'⟩ | ⟨-, hmark'⟩⟩ :=
      readStab_cases (·.hasType type) h (show left ≤ m by omega) (by omega)
    · cases hmark.symm.trans hmark'
      simp only [hread]
      split
      · rfl
      · split <;> rfl
    · cases hmark.symm.trans hmark'

theorem rightmost_eq {left right : Int} (h : Readable stabs (left + 1) right) :
    Loop.run .unfinished (rightmostRound stabs type left) ((right - left).toNat + 1) right =
      .ok (rightmost (marks stabs type) left right) := by
  have hround : rightmostRound stabs type left = backRound stabs (·.hasType type) (left + 1) := rfl
  unfold rightmost
  by_cases hlt : left < right
  · have hscan := back_eq (·.hasType type) h (by omega)
    have hfuel : (right - (left + 1) + 1).toNat = (right - left).toNat := by omega
    have hleft : left + 1 - 1 = left := by omega
    rw [back, hfuel, hleft] at hscan
    rw [if_pos hlt, hround, hscan]
    rfl
  · rw [if_neg hlt, Loop.run_done]
    rw [rightmostRound, if_neg hlt]

end

inductive Step (marks : Int → Option UInt32) (s : Search) : Search → Prop where
  /-- No entry of the type in the first half. -/
  | skip (hlast : last marks s.l (mid s.l s.r) = none)
      (hnone : ∀ i, s.l ≤ i → i ≤ mid s.l s.r → marks i = none) :
      Step marks s { s with l := mid s.l s.r + 1 }
  | less (m : Int) (value : UInt32) (hlast : last marks s.l (mid s.l s.r) = some (m, value))
      (hlo : s.l ≤ m) (hhi : m ≤ mid s.l s.r) (hmark : marks m = some value)
      (hnone : ∀ i, m < i → i ≤ mid s.l s.r → marks i = none) (hlt : value < s.addr) :
      Step marks s { s with
        anyMatches := true, region := { s.region with left := m }, l := mid s.l s.r + 1 }
  | greater (m : Int) (value : UInt32) (hlast : last marks s.l (mid s.l s.r) = some (m, value))
      (hlo : s.l ≤ m) (hhi : m ≤ mid s.l s.r) (hmark : marks m = some value)
      (hlt : s.addr < value) :
      Step marks s { s with
        anyMatches := true, region := { s.region with right := m - 1 }, r := m - 1 }
  /-- An exact match: the search goes on for the next address. -/
  | hit (m : Int) (hlast : last marks s.l (mid s.l s.r) = some (m, s.addr))
      (hlo : s.l ≤ m) (hhi : m ≤ mid s.l s.r) (hmark : marks m = some s.addr) :
      Step marks s { s with
        anyMatches := true, region := { s.region with left := m }, l := m, addr := s.addr + 1 }

theorem Step.compare {marks : Int → Option UInt32} {s s' : Search} (h : Step marks s s') {m : Int}
    {value : UInt32} (hlast : last marks s.l (mid s.l s.r) = some (m, value)) :
    value < s.addr ∨
      s.addr < value ∧ s' = { s with
        anyMatches := true, region := { s.region with right := m - 1 }, r := m - 1 } ∨
      value = s.addr ∧ s' = { s with
        anyMatches := true, region := { s.region with left := m }, l := m, addr := s.addr + 1 } := by
  cases h with
  | skip hlast' => cases hlast.symm.trans hlast'
  | less m' value' hlast' hlo hhi hmark hnone hlt =>
    cases hlast.symm.trans hlast'
    exact Or.inl hlt
  | greater m' value' hlast' hlo hhi hmark hlt =>
    cases hlast.symm.trans hlast'
    exact Or.inr (Or.inl ⟨hlt, rfl⟩)
  | hit m' hlast' =>
    cases hlast.symm.trans hlast'
    exact Or.inr (Or.inr ⟨rfl, rfl⟩)

theorem advance_step (marks : Int → Option UInt32) (s : Search) : Step marks s (advance marks s) := by
  unfold advance
  rcases last_cases marks s.l (mid s.l s.r) with
    ⟨hlast, hnone⟩ | ⟨m, value, hlast, hlo, hhi, hmark, hnone⟩
  · rw [hlast]
    exact .skip hlast hnone
  · rw [hlast]
    dsimp only
    split
    · next hlt => exact .less m value hlast hlo hhi hmark hnone hlt
    split
    · next hlt => exact .greater m value hlast hlo hhi hmark hlt
    · have hvalue : value = s.addr := by grind
      subst hvalue
      exact .hit m hlast hlo hhi hmark

/-- The potential of the search: an exact match at the left end keeps the
range, but its key moves on. -/
def potential (marks : Int → Option UInt32) (s : Search) : Nat :=
  2 * (s.r - s.l + 1).toNat + if s.l ≤ s.r ∧ marks s.l = some s.addr then 1 else 0

theorem Step.potential {marks : Int → Option UInt32} {s s' : Search} (h : Step marks s s')
    (hle : s.l ≤ s.r) : potential marks s' < potential marks s := by
  have hlo := le_mid hle
  have hhi := mid_le hle
  have hnext : s.addr ≠ s.addr + 1 := by grind
  unfold Kern.potential
  cases h with
  | skip =>
    dsimp only
    split <;> split <;> omega
  | less =>
    dsimp only
    split <;> split <;> omega
  | greater =>
    dsimp only
    split <;> split <;> omega
  | hit m hlast hl hm hmark =>
    dsimp only
    by_cases hfirst : m = s.l
    · have hnot : ¬(m ≤ s.r ∧ marks m = some (s.addr + 1)) := by
        rw [hmark]
        rintro ⟨-, heq⟩
        exact hnext (Option.some.inj heq)
      rw [if_neg hnot, if_pos ⟨hle, hfirst ▸ hmark⟩, hfirst]
      exact Nat.lt_succ_self _
    · split <;> split <;> omega

structure Within (left right : Int) (s : Search) : Prop where
  le_l : left ≤ s.l
  r_le : s.r ≤ right
  le_r : left - 1 ≤ s.r
  right_eq : s.region.right = s.r
  le_left : left ≤ s.region.left
  left_le : s.region.left ≤ right ∨ s.region.left = left
  fresh : s.anyMatches = false → s.region.left = left

theorem Step.within {marks : Int → Option UInt32} {left right : Int} {s s' : Search}
    (h : Step marks s s') (hle : s.l ≤ s.r) (hs : Within left right s) : Within left right s' := by
  obtain ⟨hl, hr, hlr, hright, hleft, hleft', hfresh⟩ := hs
  have hmid := le_mid hle
  have hmid' := mid_le hle
  cases h with
  | skip => exact ⟨by dsimp only; omega, hr, hlr, hright, hleft, hleft', hfresh⟩
  | less m value hlast hlo hhi =>
    exact ⟨by dsimp only; omega, hr, hlr, hright, by dsimp only; omega, by dsimp only; omega,
      fun hany => by cases hany⟩
  | greater m value hlast hlo hhi =>
    exact ⟨hl, by dsimp only; omega, by dsimp only; omega, rfl, hleft, hleft',
      fun hany => by cases hany⟩
  | hit m hlast hlo hhi =>
    exact ⟨by dsimp only; omega, hr, hlr, hright, by dsimp only; omega, by dsimp only; omega,
      fun hany => by cases hany⟩

theorem Within.finish {marks : Int → Option UInt32} {left right : Int} {s : Search}
    (hs : Within left right s) :
    left - 1 ≤ (finish marks s).left ∧ (finish marks s).right ≤ right ∧
      ((finish marks s).left ≤ (finish marks s).right ∨ (finish marks s).left = left) ∧
      (left ≤ s.r → left ≤ (finish marks s).left) := by
  obtain ⟨hl, hr, hlr, hright, hleft, -, hfresh⟩ := hs
  cases hany : s.anyMatches with
  | true =>
    rw [Kern.finish, if_pos hany]
    dsimp only
    by_cases hle : s.region.left ≤ s.region.right
    · obtain ⟨hlo, hhi, -⟩ := rightmost_cases marks hle
      exact ⟨by omega, by omega, Or.inl hhi, fun _ => by omega⟩
    · rw [rightmost_of_lt (by omega)]
      exact ⟨by omega, by omega, Or.inl (Int.le_refl _), fun h => by omega⟩
  | false =>
    have hstart := hfresh hany
    rw [Kern.finish, hany]
    exact ⟨by dsimp; omega, by dsimp; omega, Or.inr hstart, fun _ => by dsimp; omega⟩

theorem Within.le_finish_right (marks : Int → Option UInt32) {left right : Int} {s : Search}
    (hs : Within left right s) : left - 1 ≤ (Kern.finish marks s).right := by
  have hr := hs.le_r
  have hright := hs.right_eq
  have hleft := hs.le_left
  unfold Kern.finish
  split <;> dsimp only <;> omega

theorem Within.start {left right : Int} (hrange : left ≤ right + 1) (addr : UInt32) :
    Within left right ⟨left, right, false, ⟨left, right⟩, addr⟩ :=
  ⟨Int.le_refl left, Int.le_refl right, by dsimp only; omega, rfl, Int.le_refl left, Or.inr rfl,
    fun _ => rfl⟩

section
variable {stabs : StabReader} (type : Int)

theorem Within.round {left right : Int} {s next : Search} (hs : Within left right s)
    (h : Readable stabs left right) (hround : searchRound stabs type s = .ok (.inl next)) :
    Within left right next := by
  by_cases hle : s.l ≤ s.r
  · rw [searchRound_eq type h hle hs.le_l hs.r_le] at hround
    cases hround
    exact (advance_step (marks stabs type) s).within hle hs
  · rw [searchRound, if_neg hle] at hround
    cases hround

theorem search_rule {left right : Int} (h : Readable stabs left right)
    (hrange : left ≤ right + 1) (addr : UInt32) (inv : Search → Prop)
    (hstart : inv ⟨left, right, false, ⟨left, right⟩, addr⟩)
    (hstep : ∀ s s', Within left right s → s.l ≤ s.r → inv s → Step (marks stabs type) s s' →
      inv s') :
    ∃ s, Loop.run .unfinished (searchRound stabs type) (2 * (right - left + 1).toNat + 2)
        ⟨left, right, false, ⟨left, right⟩, addr⟩ = .ok s ∧
      Within left right s ∧ s.r < s.l ∧ inv s := by
  have hfuel : potential (marks stabs type) ⟨left, right, false, ⟨left, right⟩, addr⟩ <
      2 * (right - left + 1).toNat + 2 := by
    unfold potential
    dsimp only
    split <;> omega
  refine Loop.run_spec
    (fun k s => Within left right s ∧ inv s ∧ k = potential (marks stabs type) s)
    (fun result => ∃ s, result = .ok s ∧ Within left right s ∧ s.r < s.l ∧ inv s)
    ?_ _ _ _ ⟨.start hrange addr, hstart, rfl⟩ hfuel
  rintro k s ⟨hs, hinv, rfl⟩
  by_cases hle : s.l ≤ s.r
  · rw [searchRound_eq type h hle hs.le_l hs.r_le]
    have hround := advance_step (marks stabs type) s
    exact ⟨_, hround.potential hle, hround.within hle hs, hstep s _ hs hle hinv hround, rfl⟩
  · rw [searchRound, if_neg hle]
    exact ⟨s, rfl, hs, by omega, hinv⟩

/-- The rule of the search: it returns, reading only entries of its range, what
it makes of a state in which every invariant of its steps holds. -/
theorem stabBinsearch_rule {left right : Int} (h : Readable stabs left right)
    (hrange : left ≤ right + 1) (addr : UInt32) (inv : Search → Prop)
    (hstart : inv ⟨left, right, false, ⟨left, right⟩, addr⟩)
    (hstep : ∀ s s', Within left right s → s.l ≤ s.r → inv s → Step (marks stabs type) s s' →
      inv s') :
    ∃ s, Within left right s ∧ s.r < s.l ∧ inv s ∧
      stabBinsearch stabs type ⟨left, right⟩ addr = .ok (finish (marks stabs type) s) := by
  obtain ⟨s, hrun, hs, hlt, hinv⟩ := search_rule type h hrange addr inv hstart hstep
  refine ⟨s, hs, hlt, hinv, ?_⟩
  unfold stabBinsearch finish
  dsimp only
  rw [hrun]
  simp only [bind, Except.bind]
  by_cases hany : s.anyMatches
  · rw [if_pos hany, if_pos hany, rightmost_eq type]
    · rfl
    · intro index hlo hhi
      have hleft := hs.le_left
      have hright := hs.right_eq
      have hr := hs.r_le
      exact h index (by omega) (by omega)
  · rw [if_neg hany, if_neg hany]
    rfl

theorem stabBinsearch_bounds {left right : Int} (h : Readable stabs left right)
    (hrange : left ≤ right + 1) (addr : UInt32) :
    ∃ region, stabBinsearch stabs type ⟨left, right⟩ addr = .ok region ∧
      left - 1 ≤ region.left ∧ region.right ≤ right := by
  obtain ⟨s, hs, -, -, hresult⟩ := stabBinsearch_rule type h hrange addr (fun _ => True) trivial
    (fun _ _ _ _ _ _ => trivial)
  exact ⟨_, hresult, hs.finish.1, hs.finish.2.1⟩

end

end JosKernel.Kern
