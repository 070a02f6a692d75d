import JosKernel.Kern.StabBrackets

/-! `stab_binsearch` after an exact match: the search goes on for the next
address, and may then turn onto an entry that lies there. -/
namespace JosKernel.Kern
open JosKernel.Inc JosKernel.General Marks

section
variable {marks : Int → Option UInt32} {left right : Int} {addr : UInt32} {s s' : Search}

/-- The key has wrapped around on an entry at the last address: everything from
that entry on now seems to lie above it. -/
structure Wrapped (m : Int) (s : Search) : Prop where
  l : s.l = m
  key : s.addr = 0
  left : s.region.left = m
  matched : s.anyMatches = true
  le_r : m - 1 ≤ s.r

theorem Wrapped.step {m : Int} {value : UInt32} (hmark : marks m = some value)
    (habove : ∀ i value, m ≤ i → i ≤ right → marks i = some value → 0 < value)
    (hs : Within left right s) (hle : s.l ≤ s.r) (h : Wrapped m s) (hstep : Step marks s s') :
    Wrapped m s' := by
  have hlo := le_mid hle
  have hhi := mid_le hle
  have hl := h.l
  have hr := hs.r_le
  cases hstep with
  | skip hlast hnone =>
    rw [hnone m (by omega) (by omega)] at hmark
    cases hmark
  | less m' value' hlast hlm hmm hmark' hnone hlt =>
    rw [h.key] at hlt
    exact absurd hlt UInt32.not_lt_zero
  | greater m' value' hlast hlm hmm hmark' hlt =>
    exact ⟨h.l, h.key, h.left, rfl, by dsimp only; omega⟩
  | hit m' hlast hlm hmm hmark' =>
    have hpos := habove m' s.addr (by omega) (by omega) hmark'
    rw [h.key] at hpos
    exact absurd hpos (UInt32.lt_irrefl 0)

theorem Wrapped.finish {m : Int} (hs : Within left right s) (hend : s.r < s.l) (h : Wrapped m s) :
    finish marks s = ⟨m - 1, m - 1⟩ := by
  have hl := h.l
  have hr := h.le_r
  have hright := hs.right_eq
  have hleft := h.left
  rw [Kern.finish, if_pos h.matched, rightmost_of_lt (by omega)]
  congr 1 <;> omega

structure Heading (marks : Int → Option UInt32) (addr : UInt32) (m r : Int) (s : Search) : Prop where
  key : s.addr = addr + 1
  le_l : m ≤ s.l
  ahead : ∃ i, s.l ≤ i ∧ i ≤ s.r ∧ marks i = some (addr + 1)
  path : land marks (addr + 1) s.l s.r = land marks (addr + 1) m r

theorem Heading.step {m r : Int} (hsorted : Sorted marks left right) (hs : Within left right s)
    (hle : s.l ≤ s.r) (h : Heading marks addr m r s) (hstep : Step marks s s') :
    Heading marks addr m r s' ∨ ∃ m', m ≤ m' ∧ m' ≤ s.r ∧ marks m' = some (addr + 1) ∧
      land marks (addr + 1) m r = some (m', s.r) ∧
      s' = ⟨m', s.r, true, ⟨m', s.region.right⟩, addr + 1 + 1⟩ := by
  obtain ⟨hkey, hm, ⟨i, hi, hir, hmark⟩, hpath⟩ := h
  have hlo := le_mid hle
  have hhi := mid_le hle
  have hleft := hs.le_l
  have hright := hs.r_le
  cases hstep with
  | skip hlast hnone =>
    refine Or.inl ⟨hkey, by dsimp only; omega, ⟨i, ?_, hir, hmark⟩, ?_⟩
    · apply Int.lt_of_not_ge
      intro hle'
      rw [hnone i hi hle'] at hmark
      cases hmark
    · rw [← hpath, land_none hle hlast]
  | less m' value hlast hlm hmm hmark' hnone hlt =>
    refine Or.inl ⟨hkey, by dsimp only; omega, ⟨i, ?_, hir, hmark⟩, ?_⟩
    · apply Int.lt_of_not_ge
      intro hle'
      by_cases him : i ≤ m'
      · have hvalue := hsorted i m' _ _ (by omega) him (by omega) hmark hmark'
        exact UInt32.not_le.mpr (hkey ▸ hlt) hvalue
      · rw [hnone i (by omega) hle'] at hmark
        cases hmark
    · rw [← hpath, land_some hle hlast, if_pos (hkey ▸ hlt)]
  | greater m' value hlast hlm hmm hmark' hlt =>
    refine Or.inl ⟨hkey, hm, ⟨i, hi, ?_, hmark⟩, ?_⟩
    · dsimp only
      apply Int.le_sub_one_of_lt
      apply Int.lt_of_not_ge
      intro hle'
      have hvalue := hsorted m' i _ _ (by omega) hle' (by omega) hmark' hmark
      exact UInt32.not_le.mpr (hkey ▸ hlt) hvalue
    · have hnot : ¬value < addr + 1 := by grind
      rw [← hpath, land_some hle hlast, if_neg hnot, if_pos (hkey ▸ hlt)]
  | hit m' hlast hlm hmm hmark' =>
    refine Or.inr ⟨m', by omega, by omega, hkey ▸ hmark', ?_, by rw [hkey]⟩
    rw [← hpath, land_some hle hlast, hkey, if_neg (UInt32.lt_irrefl _),
      if_neg (UInt32.lt_irrefl _)]

structure Past (marks : Int → Option UInt32) (addr : UInt32) (i : Int) (s : Search) : Prop where
  mark : marks i = some (addr + 1)
  le_r : i ≤ s.r
  behind : i ≤ s.l ∧ addr + 1 < s.addr ∨ i < s.l

theorem Past.step {i : Int} (hle : s.l ≤ s.r) (h : Past marks addr i s) (hstep : Step marks s s') :
    Past marks addr i s' := by
  have hlo := le_mid hle
  have hhi := mid_le hle
  have hbehind := h.behind
  have hr := h.le_r
  cases hstep with
  | skip => exact ⟨h.mark, h.le_r, by dsimp only; omega⟩
  | less => exact ⟨h.mark, h.le_r, by dsimp only; omega⟩
  | greater m value hlast hlm hmm hmark hlt =>
    refine ⟨h.mark, ?_, hbehind⟩
    have hne : i ≠ m := by
      rintro rfl
      rcases hbehind with ⟨-, hkey⟩ | hlt'
      · rw [h.mark] at hmark
        cases hmark
        exact UInt32.lt_irrefl _ (UInt32.lt_trans hkey hlt)
      · omega
    dsimp only
    omega
  | hit m hlast hlm hmm hmark =>
    have hne : i ≠ m := by
      rintro rfl
      rcases hbehind with ⟨-, hkey⟩ | hlt'
      · rw [h.mark] at hmark
        rw [← Option.some.inj hmark] at hkey
        exact UInt32.lt_irrefl _ hkey
      · omega
    exact ⟨h.mark, h.le_r, Or.inr (by dsimp only; omega)⟩

theorem Past.not_brackets {i : Int} (hsorted : Sorted marks left right) (hi : left ≤ i)
    (hwrap : addr + 1 ≠ 0) (hs : Within left right s) (h : Past marks addr i s) :
    ¬Brackets marks left right addr (finish marks s) := by
  intro hbrackets
  have hr := h.le_r
  have hright := hs.right_eq
  have hr' := hs.r_le
  have hle := hbrackets.le_right
  obtain ⟨value, hmark, hvalue⟩ := hbrackets.contains
  have hnone := hbrackets.none
  unfold finish at hle hmark hnone
  split at hle
  · next hany =>
    rw [if_pos hany] at hmark hnone
    dsimp only at hle hmark hnone
    have hin : i ≤ rightmost marks s.region.left s.region.right := by
      apply Int.le_of_not_gt
      intro hlt
      have hmark' := hnone i hlt (by omega)
      rw [h.mark] at hmark'
      cases hmark'
    have hnext := hsorted i _ _ value hi hin (by omega) h.mark hmark
    grind
  · dsimp only at hle
    omega

theorem brackets_before_iff {m m' : Int} {value : UInt32} (hsorted : Sorted marks left right)
    (hm : left ≤ m) (hlt : m < m') (hm' : m' ≤ right) (hmark : marks m = some addr)
    (hmark' : marks m' = some value) (hvalue : addr < value) :
    Brackets marks left right addr ⟨m' - 1, m' - 1⟩ ↔ marks (m' - 1) = some addr := by
  constructor
  · intro hbrackets
    obtain ⟨found, hfound, hle⟩ := hbrackets.contains
    have hge := hsorted m (m' - 1) addr found hm (by omega) (by omega) hmark hfound
    rw [hfound, UInt32.le_antisymm hle hge]
  · intro hfound
    refine ⟨by dsimp only; omega, ⟨addr, hfound, UInt32.le_refl addr⟩, fun i v hi hir hv => ?_,
      Int.le_refl _, fun i hi hir => by dsimp only at hi hir; omega,
      Or.inr ⟨by dsimp only; omega, value, ?_⟩⟩
    · dsimp only at hi
      exact UInt32.lt_of_lt_of_le hvalue (hsorted m' i value v (by omega) (by omega) hir hmark' hv)
    · dsimp only
      rw [Int.sub_add_cancel]
      exact hmark'

end

/-- When an exact match does no harm: bisection for the address never lands on
an entry there, or only with no entry at the next address left in its range. At
the last address but one the key wraps around on that entry, which does no harm
either if the entry in front of it lies at the address. -/
def Harmless (marks : Int → Option UInt32) (left right : Int) (addr : UInt32) : Prop :=
  ∀ m r, land marks addr left right = some (m, r) →
    (addr + 1 ≠ 0 ∧ ∀ i, m ≤ i → i ≤ r → marks i ≠ some (addr + 1)) ∨
      addr + 2 = 0 ∧ ∃ m' r', land marks (addr + 1) m r = some (m', r') ∧
        marks (m' - 1) = some addr

section
variable {stabs : StabReader} (type : Int) {left right : Int} {addr : UInt32}

theorem stabBinsearch_landed (hread : Readable stabs left right) (hrange : left ≤ right + 1)
    {m r : Int} (hland : land (marks stabs type) addr left right = some (m, r))
    (after : Search → Prop)
    (hhit : left ≤ m → m ≤ r → r ≤ right → marks stabs type m = some addr →
      after ⟨m, r, true, ⟨m, r⟩, addr + 1⟩)
    (hafter : ∀ s s', Within left right s → s.l ≤ s.r → after s → Step (marks stabs type) s s' →
      after s') :
    ∃ s, Within left right s ∧ s.r < s.l ∧ after s ∧
      stabBinsearch stabs type ⟨left, right⟩ addr = .ok (finish (marks stabs type) s) := by
  obtain ⟨s, hs, hend, hinv, hresult⟩ := stabBinsearch_rule type hread hrange addr
    (fun s => s.addr = addr ∧ land (marks stabs type) addr s.l s.r = some (m, r) ∨ after s)
    (Or.inl ⟨rfl, hland⟩) (by
      rintro s s' hs hle (⟨hkey, hpath⟩ | hdone) hstep
      · cases hstep with
        | skip hlast =>
          exact Or.inl ⟨hkey, by rw [← hpath, land_none hle hlast]⟩
        | less m' value hlast hlm hmm hmark hnone hlt =>
          exact Or.inl ⟨hkey, by rw [← hpath, land_some hle hlast, if_pos (hkey ▸ hlt)]⟩
        | greater m' value hlast hlm hmm hmark hlt =>
          have hnot : ¬value < addr := by grind
          refine Or.inl ⟨hkey, ?_⟩
          rw [← hpath, land_some hle hlast, if_neg hnot, if_pos (hkey ▸ hlt)]
        | hit m' hlast hlm hmm hmark =>
          have hmid := mid_le hle
          have hleft := hs.le_l
          have hright := hs.r_le
          rw [land_some hle hlast, hkey, if_neg (UInt32.lt_irrefl _),
            if_neg (UInt32.lt_irrefl _)] at hpath
          cases hpath
          right
          simp only [hkey, hs.right_eq]
          exact hhit (by omega) (by omega) hright (hkey ▸ hmark)
      · exact Or.inr (hafter s s' hs hle hdone hstep))
  refine ⟨s, hs, hend, ?_, hresult⟩
  rcases hinv with ⟨-, hpath⟩ | hdone
  · rw [land_empty hend] at hpath
    cases hpath
  · exact hdone

theorem stabBinsearch_last {m r : Int} (hread : Readable stabs left right)
    (hrange : left ≤ right) (hsorted : Sorted (marks stabs type) left right)
    (hland : land (marks stabs type) addr left right = some (m, r)) (hwrap : addr + 1 = 0) :
    ∃ region, stabBinsearch stabs type ⟨left, right⟩ addr = .ok region ∧
      ¬Brackets (marks stabs type) left right addr region := by
  obtain ⟨s, hs, hend, ⟨hlo, hhi, hmark, hdone⟩, hresult⟩ :=
    stabBinsearch_landed type hread (by omega) hland
    (fun s => left ≤ m ∧ m ≤ right ∧ marks stabs type m = some addr ∧ Wrapped m s)
    (fun hlo hle hhi hmark =>
      ⟨hlo, by omega, hmark, rfl, hwrap, rfl, rfl, by dsimp only; omega⟩)
    (by
      rintro s s' hs hle ⟨hlo, hhi, hmark, h⟩ hstep
      refine ⟨hlo, hhi, hmark, h.step hmark (fun i value hi hir hv => ?_) hs hle hstep⟩
      have hvalue := hsorted m i addr value hlo hi hir hmark hv
      grind)
  refine ⟨_, hresult, fun hbrackets => ?_⟩
  rw [hdone.finish hs hend] at hbrackets
  exact UInt32.lt_irrefl _ (hbrackets.largest m addr (by dsimp only; omega) hhi hmark)

theorem stabBinsearch_next {m r i : Int} (hread : Readable stabs left right)
    (hrange : left ≤ right) (hsorted : Sorted (marks stabs type) left right)
    (hland : land (marks stabs type) addr left right = some (m, r)) (hwrap : addr + 1 ≠ 0)
    (hwrap' : addr + 2 ≠ 0) (hi : m ≤ i) (hir : i ≤ r)
    (hnext : marks stabs type i = some (addr + 1)) :
    ∃ region, stabBinsearch stabs type ⟨left, right⟩ addr = .ok region ∧
      ¬Brackets (marks stabs type) left right addr region := by
  obtain ⟨s, hs, hend, ⟨hlo, hdone⟩, hresult⟩ := stabBinsearch_landed type hread (by omega) hland
    (fun s => left ≤ m ∧ (Heading (marks stabs type) addr m r s ∨
      ∃ i, left ≤ i ∧ Past (marks stabs type) addr i s))
    (fun hlo hle hhi hmark => ⟨hlo, Or.inl ⟨rfl, Int.le_refl m, ⟨i, hi, hir, hnext⟩, rfl⟩⟩)
    (by
      rintro s s' hs hle ⟨hlo, h | ⟨j, hj, h⟩⟩ hstep
      · rcases h.step hsorted hs hle hstep with h' | ⟨m', hm, hmr, hmark, -, rfl⟩
        · exact ⟨hlo, Or.inl h'⟩
        · exact ⟨hlo, Or.inr ⟨m', by omega, hmark, hmr, Or.inl ⟨Int.le_refl m', by grind⟩⟩⟩
      · exact ⟨hlo, Or.inr ⟨j, hj, h.step hle hstep⟩⟩)
  refine ⟨_, hresult, ?_⟩
  rcases hdone with h | ⟨j, hj, h⟩
  · obtain ⟨j, hj, hjr, -⟩ := h.ahead
    omega
  · exact h.not_brackets hsorted hj hwrap hs

theorem stabBinsearch_lastButOne {m r i : Int} (hread : Readable stabs left right)
    (hrange : left ≤ right) (hsorted : Sorted (marks stabs type) left right)
    (hland : land (marks stabs type) addr left right = some (m, r)) (hwrap : addr + 2 = 0)
    (hi : m ≤ i) (hir : i ≤ r) (hnext : marks stabs type i = some (addr + 1)) :
    ∃ region m' r', stabBinsearch stabs type ⟨left, right⟩ addr = .ok region ∧
      land (marks stabs type) (addr + 1) m r = some (m', r') ∧
      (Brackets (marks stabs type) left right addr region ↔
        marks stabs type (m' - 1) = some addr) := by
  have hkey : addr + 1 + 1 = 0 := by grind
  have hlt : addr < addr + 1 := by grind
  obtain ⟨s, hs, hend, ⟨hlo, hmark, hdone⟩, hresult⟩ :=
    stabBinsearch_landed type hread (by omega) hland
    (fun s => left ≤ m ∧ marks stabs type m = some addr ∧
      (Heading (marks stabs type) addr m r s ∨
      ∃ m' r', m ≤ m' ∧ m' ≤ right ∧ marks stabs type m' = some (addr + 1) ∧
        land (marks stabs type) (addr + 1) m r = some (m', r') ∧ Wrapped m' s))
    (fun hlo hle hhi hmark =>
      ⟨hlo, hmark, Or.inl ⟨rfl, Int.le_refl m, ⟨i, hi, hir, hnext⟩, rfl⟩⟩)
    (by
      rintro s s' hs hle ⟨hlo, hmark, h | ⟨m', r', hm, hmr, hmark', hland', h⟩⟩ hstep
      · have hr := hs.r_le
        rcases h.step hsorted hs hle hstep with h' | ⟨m', hm, hmr, hmark', hland', rfl⟩
        · exact ⟨hlo, hmark, Or.inl h'⟩
        · exact ⟨hlo, hmark, Or.inr ⟨m', s.r, hm, by omega, hmark', hland', rfl, hkey, rfl, rfl,
            by dsimp only; omega⟩⟩
      · refine ⟨hlo, hmark, Or.inr ⟨m', r', hm, hmr, hmark', hland',
          h.step hmark' (fun j value hj hjr hv => ?_) hs hle hstep⟩⟩
        have hvalue := hsorted m' j _ value (by omega) hj hjr hmark' hv
        grind)
  rcases hdone with h | ⟨m', r', hm, hmr, hmark', hland', h⟩
  · obtain ⟨j, hj, hjr, -⟩ := h.ahead
    omega
  · refine ⟨_, m', r', hresult, hland', ?_⟩
    have hne : m ≠ m' := by
      rintro rfl
      rw [hmark] at hmark'
      exact UInt32.ne_of_lt hlt (Option.some.inj hmark')
    rw [h.finish hs hend]
    exact brackets_before_iff hsorted hlo (by omega) hmr hmark hmark' hlt

end

/-- The search brackets its address exactly when no exact match turns it onto
an entry at the next address. -/
theorem stabBinsearch_brackets_iff_harmless (table : List Stab) (type left right : Int)
    (addr : UInt32) (hleft : 0 ≤ left) (hrange : left ≤ right) (hright : right < table.length)
    (hsorted : Sorted (marks (tableReader table) type) left right)
    (hcontained : ∃ i value, left ≤ i ∧ i ≤ right ∧
      marks (tableReader table) type i = some value ∧ value ≤ addr) :
    (∃ region, stabBinsearch (tableReader table) type ⟨left, right⟩ addr = .ok region ∧
        Brackets (marks (tableReader table) type) left right addr region) ↔
      Harmless (marks (tableReader table) type) left right addr := by
  have hread := tableReader_readable table hleft hright
  constructor
  · rintro ⟨region, hresult, hbrackets⟩ m r hland
    have hfails : ∀ {region'}, stabBinsearch (tableReader table) type ⟨left, right⟩ addr =
        .ok region' → ¬Brackets (marks (tableReader table) type) left right addr region' →
        False := by
      intro region' hresult' hnot
      rw [hresult] at hresult'
      cases hresult'
      exact hnot hbrackets
    by_cases hwrap : addr + 1 = 0
    · obtain ⟨region', hresult', hnot⟩ := stabBinsearch_last type hread hrange hsorted hland hwrap
      exact (hfails hresult' hnot).elim
    by_cases hnext : ∃ i, m ≤ i ∧ i ≤ r ∧ marks (tableReader table) type i = some (addr + 1)
    · obtain ⟨i, hi, hir, hmark⟩ := hnext
      by_cases hwrap' : addr + 2 = 0
      · obtain ⟨region', m', r', hresult', hland', hiff⟩ :=
          stabBinsearch_lastButOne type hread hrange hsorted hland hwrap' hi hir hmark
        rw [hresult] at hresult'
        cases hresult'
        exact Or.inr ⟨hwrap', m', r', hland', hiff.mp hbrackets⟩
      · obtain ⟨region', hresult', hnot⟩ :=
          stabBinsearch_next type hread hrange hsorted hland hwrap hwrap' hi hir hmark
        exact (hfails hresult' hnot).elim
    · exact Or.inl ⟨hwrap, fun i hi hir hmark => hnext ⟨i, hi, hir, hmark⟩⟩
  · intro hharmless
    by_cases hquiet : Undisturbed (marks (tableReader table) type) left right addr
    · exact stabBinsearch_undisturbed type hread hrange hsorted hcontained hquiet
    · obtain ⟨m, r, hland, hnot⟩ : ∃ m r, land (marks (tableReader table) type) addr left right =
          some (m, r) ∧ ¬(addr + 1 ≠ 0 ∧ ∀ i, m ≤ i → i ≤ r →
            marks (tableReader table) type i ≠ some (addr + 1)) := by
        simpa only [Undisturbed, Classical.not_forall, exists_prop] using hquiet
      rcases hharmless m r hland with hquiet' | ⟨hwrap, m', r', hland', hmark⟩
      · exact absurd hquiet' hnot
      · have hne : addr + 1 ≠ 0 := by grind
        obtain ⟨i, hi, hir, hnext⟩ : ∃ i, m ≤ i ∧ i ≤ r ∧
            marks (tableReader table) type i = some (addr + 1) := by
          apply Classical.byContradiction
          intro hnone
          exact hnot ⟨hne, fun i hi hir hmark => hnone ⟨i, hi, hir, hmark⟩⟩
        obtain ⟨region, m'', r'', hresult, hland'', hiff⟩ :=
          stabBinsearch_lastButOne type hread hrange hsorted hland hwrap hi hir hnext
        rw [hland'] at hland''
        cases hland''
        exact ⟨region, hresult, hiff.mpr hmark⟩

def twoFiles (first second : UInt32) : List Stab := [⟨0, 0x64, first⟩, ⟨0, 0x64, second⟩]

theorem twoFiles_sorted {first second : UInt32} (h : first ≤ second) :
    Sorted (marks (tableReader (twoFiles first second)) nSo) 0 1 := by
  intro i j value value' hi hij hj hmark hmark'
  have hfirst : marks (tableReader (twoFiles first second)) nSo 0 = some first := rfl
  have hsecond : marks (tableReader (twoFiles first second)) nSo 1 = some second := rfl
  obtain rfl | rfl : i = 0 ∨ i = 1 := by omega
  · obtain rfl | rfl : j = 0 ∨ j = 1 := by omega
    · rw [hmark] at hmark'
      exact UInt32.le_of_eq (Option.some.inj hmark')
    · rw [hfirst] at hmark
      rw [hsecond] at hmark'
      cases hmark
      cases hmark'
      exact h
  · obtain rfl : j = 1 := by omega
    rw [hmark] at hmark'
    exact UInt32.le_of_eq (Option.some.inj hmark')

theorem stabBinsearch_brackets_twoFiles :
    ∃ region, stabBinsearch (tableReader (twoFiles 10 20)) nSo ⟨0, 1⟩ 15 = .ok region ∧
      Brackets (marks (tableReader (twoFiles 10 20)) nSo) 0 1 15 region := by
  refine (stabBinsearch_brackets_iff_harmless (twoFiles 10 20) nSo 0 1 15 (by decide) (by decide)
    (by decide) (twoFiles_sorted (by decide)) ⟨0, 10, by decide, by decide, rfl, by decide⟩).mpr ?_
  intro m r hland
  obtain ⟨hlo, hmr, hhi, mark, hmark, hnlt, hngt⟩ := land_mark hland
  obtain rfl | rfl : m = 0 ∨ m = 1 := by omega
  · cases hmark
    exact absurd hnlt (by decide)
  · cases hmark
    exact absurd hngt (by decide)

/-- The search for the first of two adjacent addresses ends at the second. -/
theorem stabBinsearch_not_brackets :
    Sorted (marks (tableReader (twoFiles 10 11)) nSo) 0 1 ∧
      (∃ i value, 0 ≤ i ∧ i ≤ 1 ∧ marks (tableReader (twoFiles 10 11)) nSo i = some value ∧
        value ≤ 10) ∧
      ¬∃ region, stabBinsearch (tableReader (twoFiles 10 11)) nSo ⟨0, 1⟩ 10 = .ok region ∧
        Brackets (marks (tableReader (twoFiles 10 11)) nSo) 0 1 10 region := by
  refine ⟨twoFiles_sorted (by decide), ⟨0, 10, by decide, by decide, rfl, by decide⟩, ?_⟩
  rintro ⟨region, hresult, hbrackets⟩
  have hrun : stabBinsearch (tableReader (twoFiles 10 11)) nSo ⟨0, 1⟩ 10 = .ok ⟨1, 1⟩ := rfl
  rw [hrun] at hresult
  cases hresult
  obtain ⟨value, hmark, hvalue⟩ := hbrackets.contains
  have hfound : marks (tableReader (twoFiles 10 11)) nSo 1 = some 11 := rfl
  rw [hfound] at hmark
  cases hmark
  exact absurd hvalue (by decide)

end JosKernel.Kern
