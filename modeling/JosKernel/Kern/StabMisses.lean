import JosKernel.Kern.DebuginfoFile
import JosKernel.Kern.StabBrackets

/-! What `stab_binsearch` reports of an address that no entry of the type lies
at or below, and what `debuginfo_eip` then takes for the containing function. -/
namespace JosKernel.Kern
open JosKernel.Inc JosKernel.General JosKernel.Lib Marks

structure Passing (marks : Int → Option UInt32) (left right : Int) (s : Search) : Prop where
  passed : s.anyMatches = false → s.r = right ∧ ∀ i, left ≤ i → i < s.l → marks i = none
  met : s.anyMatches = true → ∃ i value, left ≤ i ∧ i ≤ right ∧ marks i = some value

theorem Step.passing {marks : Int → Option UInt32} {left right : Int} {s s' : Search}
    (h : Step marks s s') (hle : s.l ≤ s.r) (hs : Within left right s)
    (hpassing : Passing marks left right s) : Passing marks left right s' := by
  have hl := hs.le_l
  have hr := hs.r_le
  have hmid := mid_le hle
  cases h with
  | skip hlast hnone =>
    refine ⟨fun hany => ?_, hpassing.met⟩
    obtain ⟨hright, hpassed⟩ := hpassing.passed hany
    refine ⟨hright, fun i hi hlt => ?_⟩
    by_cases hbefore : i < s.l
    · exact hpassed i hi hbefore
    · exact hnone i (by omega) (by dsimp only at hlt; omega)
  | less m value hlast hlo hhi hmark =>
    exact ⟨nofun, fun _ => ⟨m, value, by omega, by omega, hmark⟩⟩
  | greater m value hlast hlo hhi hmark =>
    exact ⟨nofun, fun _ => ⟨m, value, by omega, by omega, hmark⟩⟩
  | hit m hlast hlo hhi hmark =>
    exact ⟨nofun, fun _ => ⟨m, s.addr, by omega, by omega, hmark⟩⟩

theorem finish_empty_iff {marks : Int → Option UInt32} {left right : Int} {s : Search}
    (hend : s.r < s.l) (h : Passing marks left right s) :
    (finish marks s).right < (finish marks s).left ↔
      ∀ i, left ≤ i → i ≤ right → marks i = none := by
  cases hany : s.anyMatches with
  | true =>
    obtain ⟨i, value, hlo, hhi, hmark⟩ := h.met hany
    rw [finish, if_pos hany]
    dsimp only
    refine ⟨fun hlt => ?_, fun hnone => ?_⟩
    · by_cases hle : s.region.left ≤ s.region.right
      · have hright := (rightmost_cases marks hle).2.1
        omega
      · rw [rightmost_of_lt (by omega)] at hlt
        omega
    · cases hmark.symm.trans (hnone i hlo hhi)
  | false =>
    obtain ⟨hright, hpassed⟩ := h.passed hany
    rw [finish, hany]
    exact ⟨fun _ i hlo hhi => hpassed i hlo (by omega), fun _ => by dsimp; omega⟩

/-- The search ends, and reports that no entry contains the address exactly
when the range has no entry of the type. -/
theorem stabBinsearch_empty_iff {stabs : StabReader} (type : Int) {left right : Int}
    (h : Readable stabs left right) (hrange : left ≤ right + 1) (addr : UInt32) :
    ∃ region, stabBinsearch stabs type ⟨left, right⟩ addr = .ok region ∧
      (region.right < region.left ↔ ∀ i, left ≤ i → i ≤ right → marks stabs type i = none) := by
  obtain ⟨s, hs, hend, hpassing, hresult⟩ := stabBinsearch_rule type h hrange addr
    (Passing (marks stabs type) left right)
    ⟨fun _ => ⟨rfl, fun i hlo hhi => by dsimp only at hhi; omega⟩, nofun⟩
    (fun s s' hs hle hpassing hstep => hstep.passing hle hs hpassing)
  exact ⟨_, hresult, finish_empty_iff hend hpassing⟩

def containingFunction (stabs : StabReader) (fn : Region) : Option Stab :=
  if fn.left ≤ fn.right then stabs fn.left else none

theorem functionInfo_containing {stabs : StabReader} {stabstr : List UInt8} {lfile lline : Int}
    {fn : Region} {addr : UInt32} {info info' : Eipdebuginfo}
    (h : functionInfo stabs stabstr lfile fn addr info = .ok (info', lline)) :
    match containingFunction stabs fn with
    | some stab => lline = fn.left ∧ info' = { info with
        eipFnName := textAt stabstr stab info.eipFnName, eipFnAddr := stab.nValue }
    | none => lline = lfile ∧ info' = { info with eipFnAddr := addr } := by
  unfold containingFunction
  by_cases hle : fn.left ≤ fn.right
  · rw [if_pos hle]
    cases hstab : stabs fn.left with
    | some stab =>
      rw [functionInfo_found hle hstab] at h
      cases h
      exact ⟨rfl, rfl⟩
    | none =>
      rw [functionInfo, if_pos hle, readStab, hstab] at h
      cases h
  · rw [functionInfo_missing (by omega)] at h
    rw [if_neg hle]
    cases h
    exact ⟨rfl, rfl⟩

/-- The search reports that the address is not contained, so that no entry of
another type or above the address is taken for the containing function. -/
def ReportsMiss (stabs : StabReader) (type : Int) (range : Region) (addr : UInt32) : Prop :=
  ∃ region, stabBinsearch stabs type range addr = .ok region ∧ region.right < region.left ∧
    (type = nFun → ∀ stab, containingFunction stabs region = some stab →
      stab.hasType nFun = true ∧ stab.nValue ≤ addr)

/-- The search says so exactly when the range has no entry of the type at all,
wherever the entries lie. -/
theorem reportsMiss_iff (table : List Stab) (type : Int) (left right : Int) (addr : UInt32)
    (hleft : 0 ≤ left) (hle : left ≤ right) (hright : right < table.length) :
    ReportsMiss (tableReader table) type ⟨left, right⟩ addr ↔
      ∀ i, left ≤ i → i ≤ right → marks (tableReader table) type i = none := by
  obtain ⟨region, hsearch, hempty⟩ := stabBinsearch_empty_iff type
    (tableReader_readable table hleft hright) (by omega) addr
  unfold ReportsMiss
  refine ⟨?_, fun hnone => ?_⟩
  · rintro ⟨region', hsearch', hlt, -⟩
    cases hsearch.symm.trans hsearch'
    exact hempty.mp hlt
  · have hlt := hempty.mpr hnone
    refine ⟨region, hsearch, hlt, fun _ stab hstab => ?_⟩
    rw [containingFunction, if_neg (by omega)] at hstab
    cases hstab

theorem reportsMiss_pair :
    ReportsMiss (tableReader [⟨0, 0x64, 100⟩, ⟨0, 0x44, 0⟩]) nFun ⟨0, 1⟩ 150 := by
  refine (reportsMiss_iff [⟨0, 0x64, 100⟩, ⟨0, 0x44, 0⟩] nFun 0 1 150 (by decide) (by decide)
    (by decide)).mpr fun i hlo hhi => ?_
  obtain rfl | rfl : i = 0 ∨ i = 1 := by omega
  · rfl
  · rfl

/-- A file whose only function starts above the address: its `N_SO` entry is
taken for the containing function. -/
theorem not_reportsMiss :
    ¬∀ (table : List Stab) (type left right : Int) (addr : UInt32),
      0 ≤ left → left ≤ right → right < table.length →
      Sorted (marks (tableReader table) type) left right →
      (∀ i value, left ≤ i → i ≤ right → marks (tableReader table) type i = some value →
        addr < value) →
      ReportsMiss (tableReader table) type ⟨left, right⟩ addr := by
  intro h
  have hmark : ∀ i value, 0 ≤ i → i ≤ 1 →
      marks (tableReader [⟨0, 0x64, 100⟩, ⟨0, 0x24, 200⟩]) nFun i = some value →
      i = 1 ∧ value = 200 := by
    intro i value hlo hhi hmark
    obtain rfl | rfl : i = 0 ∨ i = 1 := by omega
    · cases hmark
    · exact ⟨rfl, (Option.some.inj hmark).symm⟩
  obtain ⟨region, hsearch, hlt, -⟩ := h [⟨0, 0x64, 100⟩, ⟨0, 0x24, 200⟩] nFun 0 1 150
    (by decide) (by decide) (by decide)
    (by
      intro i j value value' hi hij hj hvalue hvalue'
      rw [(hmark i value hi (by omega) hvalue).2, (hmark j value' (by omega) hj hvalue').2]
      exact UInt32.le_refl _)
    (by
      intro i value hlo hhi hvalue
      rw [(hmark i value hlo hhi hvalue).2]
      decide)
  have hregion : stabBinsearch (tableReader [⟨0, 0x64, 100⟩, ⟨0, 0x24, 200⟩]) nFun ⟨0, 1⟩ 150 =
      .ok ⟨0, 0⟩ := rfl
  cases hsearch.symm.trans hregion
  exact absurd hlt (by decide)

/-- There the address of the file stands for that of the function. -/
example : (debuginfoEip [⟨0, 0, 0⟩, ⟨0, 0x64, 0xf0100000⟩, ⟨0, 0x24, 0xf0100040⟩] [0]
    0xf0100010).map (·.2.eipFnAddr) = .ok 0xf0100000 := rfl

end JosKernel.Kern
