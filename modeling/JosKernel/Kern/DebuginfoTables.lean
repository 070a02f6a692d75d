import JosKernel.Kern.DebuginfoFile

/-! When `debuginfo_eip` stays inside its tables. -/
namespace JosKernel.Kern
open JosKernel.Inc JosKernel.General JosKernel.Lib Marks

/-- Bisection of `[0, r]` for an address runs off the front: the last entry of
the type in the first half lies above the address, and so on down to entry 0.
The last address of all wraps around on a match, so there entry 0 may also lie
at the address itself. -/
inductive FallsOff (marks : Int → Option UInt32) (addr : UInt32) : Int → Prop where
  | front {r : Int} {value : UInt32} (hr : 0 ≤ r) (hlast : last marks 0 (mid 0 r) = some (0, value))
      (hvalue : addr < value ∨ value = addr ∧ addr + 1 = 0) : FallsOff marks addr r
  | further {r m : Int} {value : UInt32} (hr : 0 ≤ r)
      (hlast : last marks 0 (mid 0 r) = some (m, value)) (hm : 0 < m) (hvalue : addr < value)
      (h : FallsOff marks addr (m - 1)) : FallsOff marks addr r

inductive Falling (marks : Int → Option UInt32) (addr : UInt32) (s : Search) : Prop where
  | above (hl : s.l = 0) (hkey : s.addr = addr) (hleft : s.region.left = 0)
      (h : FallsOff marks addr s.r)
  | wrapped (value : UInt32) (hl : s.l = 0) (hkey : s.addr = 0) (hleft : s.region.left = 0)
      (hr : 0 ≤ s.r) (hlast : last marks 0 (mid 0 s.r) = some (0, value)) (hvalue : 0 < value)
  | fallen (hleft : s.region.left = 0) (hr : s.r = -1) (hany : s.anyMatches = true)

inductive Landing (marks : Int → Option UInt32) (addr : UInt32) (s : Search) : Prop where
  | start (hl : s.l = 0) (hkey : s.addr = addr) (h : ¬FallsOff marks addr s.r)
  | inside (hl : 0 < s.l)
  | below (value : UInt32) (hl : s.l = 0) (hmark : marks 0 = some value) (hlt : value < s.addr)

section
variable {marks : Int → Option UInt32} {addr : UInt32} {s s' : Search}

theorem Falling.step {right : Int} (hs : Within 0 right s) (hle : s.l ≤ s.r)
    (h : Falling marks addr s) (hstep : Step marks s s') : Falling marks addr s' := by
  have hlo := hs.le_l
  have hfirst : ∀ {m value}, s.l = 0 → last marks 0 (mid 0 s.r) = some (m, value) →
      last marks s.l (mid s.l s.r) = some (m, value) := by
    intro m value hl hlast
    rw [hl]
    exact hlast
  cases h with
  | above hl hkey hleft h =>
    cases h with
    | front hr hlast hvalue =>
      rcases hstep.compare (hfirst hl hlast) with hlt | ⟨-, rfl⟩ | ⟨heq, rfl⟩
      · exact absurd hlt (by grind)
      · exact .fallen hleft rfl rfl
      · exact .wrapped _ rfl (by grind) rfl hr hlast (by grind)
    | further hr hlast hm hvalue h =>
      rcases hstep.compare (hfirst hl hlast) with hlt | ⟨-, rfl⟩ | ⟨heq, rfl⟩
      · exact absurd hlt (by grind)
      · exact .above hl hkey hleft h
      · exact absurd hvalue (by grind)
  | wrapped value hl hkey hleft hr hlast hvalue =>
    rcases hstep.compare (hfirst hl hlast) with hlt | ⟨-, rfl⟩ | ⟨heq, rfl⟩
    · exact absurd (hkey ▸ hlt) UInt32.not_lt_zero
    · exact .fallen hleft rfl rfl
    · exact absurd hvalue (by grind)
  | fallen hleft hr => omega

theorem Falling.finish {right : Int} (hs : Within 0 right s) (hend : s.r < s.l)
    (h : Falling marks addr s) : finish marks s = ⟨-1, -1⟩ := by
  have hright := hs.right_eq
  cases h with
  | above hl hkey hleft h =>
    cases h with
    | front hr => omega
    | further hr => omega
  | wrapped value hl hkey hleft hr => omega
  | fallen hleft hr hany =>
    rw [Kern.finish, if_pos hany, rightmost_of_lt (by omega), hright, hr]

theorem Landing.step {right : Int} (hs : Within 0 right s) (hle : s.l ≤ s.r) (hr : 0 ≤ s.r)
    (h : Landing marks addr s) (hstep : Step marks s s') : 0 ≤ s'.r ∧ Landing marks addr s' := by
  have hlo := hs.le_l
  have hmid := le_mid hle
  cases hstep with
  | skip => exact ⟨hr, .inside (by dsimp only; omega)⟩
  | less => exact ⟨hr, .inside (by dsimp only; omega)⟩
  | greater m value hlast hlm hmm hmark hlt =>
    cases h with
    | start hl hkey hnot =>
      rw [hl] at hlast
      have hm : m ≠ 0 := by
        rintro rfl
        exact hnot (.front hr hlast (Or.inl (hkey ▸ hlt)))
      exact ⟨by dsimp only; omega, .start hl hkey fun hfalls =>
        hnot (.further hr hlast (by omega) (hkey ▸ hlt) hfalls)⟩
    | inside hl => exact ⟨by dsimp only; omega, .inside hl⟩
    | below value' hl hmark' hlt' =>
      have hm : m ≠ 0 := by
        rintro rfl
        cases hmark.symm.trans hmark'
        exact UInt32.lt_irrefl _ (UInt32.lt_trans hlt hlt')
      exact ⟨by dsimp only; omega, .below value' hl hmark' hlt'⟩
  | hit m hlast hlm hmm hmark =>
    refine ⟨hr, ?_⟩
    by_cases hm : 0 < m
    · exact .inside hm
    have hm0 : m = 0 := by omega
    cases h with
    | start hl hkey hnot =>
      rw [hl, hm0] at hlast
      have hwrap : s.addr + 1 ≠ 0 :=
        fun hwrap => hnot (.front hr hlast (Or.inr ⟨hkey, hkey ▸ hwrap⟩))
      exact .below s.addr hm0 (hm0 ▸ hmark) (by grind)
    | inside hl => omega
    | below value' hl hmark' hlt' =>
      rw [hm0] at hmark
      cases hmark.symm.trans hmark'
      exact absurd hlt' (UInt32.lt_irrefl _)

end

section
variable (stabs : List Stab)

theorem stabBinsearch_fallsOff (type : Int) {addr : UInt32}
    (h : FallsOff (marks (tableReader stabs) type) addr (stabs.length - 1)) :
    stabBinsearch (tableReader stabs) type ⟨0, stabs.length - 1⟩ addr = .ok ⟨-1, -1⟩ := by
  obtain ⟨s, hs, hend, hfalling, hresult⟩ := stabBinsearch_rule type
    (tableReader_readable stabs (Int.le_refl 0) (by omega)) (by omega) addr
    (Falling (marks (tableReader stabs) type) addr) (.above rfl rfl rfl h)
    (fun s s' hs hle h hstep => h.step hs hle hstep)
  rw [hresult, hfalling.finish hs hend]

theorem stabBinsearch_landing (type : Int) {addr : UInt32}
    (h : ¬FallsOff (marks (tableReader stabs) type) addr (stabs.length - 1)) :
    ∃ region, stabBinsearch (tableReader stabs) type ⟨0, stabs.length - 1⟩ addr = .ok region ∧
      (region.left = 0 ∨ 0 < region.left ∧ region.left ≤ region.right ∧
        region.right ≤ stabs.length - 1) := by
  cases stabs with
  | nil => exact ⟨⟨0, -1⟩, rfl, Or.inl rfl⟩
  | cons stab rest =>
    have hlength : ((stab :: rest).length : Int) = rest.length + 1 := rfl
    obtain ⟨s, hs, hend, ⟨hr, -⟩, hresult⟩ := stabBinsearch_rule type
      (tableReader_readable (stab :: rest) (Int.le_refl 0) (by omega)) (by omega) addr
      (fun s => 0 ≤ s.r ∧ Landing (marks (tableReader (stab :: rest)) type) addr s)
      ⟨by dsimp only; omega, .start rfl rfl h⟩
      (fun s s' hs hle h hstep => h.2.step hs hle h.1 hstep)
    obtain ⟨-, hhi, hle, hlo⟩ := @Within.finish (marks (tableReader (stab :: rest)) type) _ _ _ hs
    refine ⟨_, hresult, ?_⟩
    have hleft := hlo hr
    omega

end

theorem stabBinsearch_front (stabs : List Stab) (type : Int) (addr : UInt32) :
    stabBinsearch (tableReader stabs) type ⟨-1, -1⟩ addr = .error .badAccess := rfl

/-- Within a file that does not start at entry 0, everything stays inside the
tables. -/
theorem debuginfoFile_ok {stabs : StabReader} {stabstr : List UInt8} {file : Region}
    (hread : Readable stabs (file.left - 1) file.right) (hle : file.left ≤ file.right)
    (hstrings : ValidStrings stabstr) (addr : UInt32) {info : Eipdebuginfo}
    (hinfo : info.Inside stabstr) :
    ∃ info', debuginfoFile stabs stabstr file addr info = .ok (0, info') ∧
      info'.Inside stabstr := by
  obtain ⟨fn, hsearch, hlo, hhi⟩ := stabBinsearch_bounds nFun
    (fun index hl hr => hread index (by omega) hr) (show file.left ≤ file.right + 1 by omega) addr
  obtain ⟨info₁, lline, hfn, hinfo₁, hlline, hlline'⟩ : ∃ info₁ lline,
      functionInfo stabs stabstr file.left fn addr info = .ok (info₁, lline) ∧
      info₁.Inside stabstr ∧ file.left - 1 ≤ lline ∧ lline ≤ file.right := by
    by_cases hfound : fn.left ≤ fn.right
    · obtain ⟨stab, hstab⟩ := hread fn.left hlo (by omega)
      exact ⟨_, _, functionInfo_found hfound hstab addr info,
        ⟨hinfo.file, textAt_inside stab hinfo.fnName⟩, hlo, by omega⟩
    · exact ⟨_, _, functionInfo_missing (by omega) addr info, ⟨hinfo.file, hinfo.fnName⟩,
        by omega, hle⟩
  have hfile : ∀ info, info.Inside stabstr → ∃ info',
      fileInfo stabs stabstr file.left lline info = .ok info' ∧ info'.Inside stabstr := by
    intro info hinfo
    rcases @fileInfo_cases stabstr stabs file.left lline
      (fun index hl hr => hread index (by omega) (by omega)) (by omega) info with
      ⟨hrun, -⟩ | ⟨k, stab, -, -, -, -, -, hrun⟩
    · exact ⟨_, hrun, hinfo⟩
    · exact ⟨_, hrun, textAt_inside stab hinfo.file, hinfo.fnName⟩
  obtain ⟨info₂, hrun₂, hinfo₂⟩ := hfile { info₁ with
    eipFnNamelen := ((info₁.eipFnName.bytes stabstr).takeWhile fun byte =>
      byte ≠ 0 ∧ byte ≠ ascii ':').length } ⟨hinfo₁.file, hinfo₁.fnName⟩
  obtain ⟨narg, hrun₃⟩ := @nargInfo_ok stabs fn
    (fun index hl hr => hread index (by omega) (by omega)) info₂
  have hnamelen := strfind_eq (hinfo₁.fnName.terminated hstrings) (ascii ':')
  exact ⟨_, debuginfoFile_eq hsearch hfn hnamelen hrun₂ hrun₃, hinfo₂.file, hinfo₂.fnName⟩

/-- `debuginfo_eip` returns, having read only inside its tables, and the string
pointers that it leaves in `*info` lie inside them too. -/
def StaysInside (stabs : List Stab) (stabstr : List UInt8) (addr : UInt32) : Prop :=
  ∃ result info, debuginfoEip stabs stabstr addr = .ok (result, info) ∧ info.Inside stabstr

/-- `debuginfo_eip` stays inside its tables exactly when its first search does
not run off the front of the table of symbols. -/
theorem debuginfoEip_inside_iff (stabs : List Stab) (stabstr : List UInt8) (addr : UInt32)
    (haddr : ulim ≤ addr) :
    StaysInside stabs stabstr addr ↔
      ¬(ValidStrings stabstr ∧
        FallsOff (marks (tableReader stabs) nSo) addr (stabs.length - 1)) := by
  unfold StaysInside
  rw [debuginfoEip_eq stabs stabstr haddr]
  by_cases hstrings : ValidStrings stabstr
  · rw [if_pos hstrings]
    by_cases hfalls : FallsOff (marks (tableReader stabs) nSo) addr (stabs.length - 1)
    · rw [stabBinsearch_fallsOff stabs nSo hfalls]
      refine ⟨?_, fun hnot => absurd ⟨hstrings, hfalls⟩ hnot⟩
      rintro ⟨result, info, hrun, -⟩
      have hfault : debuginfoFile (tableReader stabs) stabstr ⟨-1, -1⟩ addr (.initial addr) =
          .error .badAccess := by
        rw [debuginfoFile, stabBinsearch_front]
        rfl
      cases hfault.symm.trans hrun
    · obtain ⟨file, hsearch, hfile⟩ := stabBinsearch_landing stabs nSo hfalls
      refine ⟨fun _ hnot => hfalls hnot.2, fun _ => ?_⟩
      rw [hsearch]
      simp only [bind, Except.bind]
      rcases hfile with hzero | ⟨hpos, hle, hhi⟩
      · exact ⟨_, _, if_pos hzero, trivial, trivial⟩
      · rw [if_neg (by omega)]
        exact ⟨0, debuginfoFile_ok (tableReader_readable stabs (by omega) (by omega)) hle hstrings
          addr ⟨trivial, trivial⟩⟩
  · rw [if_neg hstrings]
    exact ⟨fun _ hnot => hstrings hnot.1, fun _ => ⟨_, _, rfl, trivial, trivial⟩⟩

theorem debuginfoEip_inside_single : StaysInside [⟨0, 0x64, 0xf0100000⟩] [0] 0xf0100004 := by
  refine (debuginfoEip_inside_iff [⟨0, 0x64, 0xf0100000⟩] [0] 0xf0100004 (by decide)).mpr ?_
  rintro ⟨-, hfalls⟩
  have hlast : last (marks (tableReader [⟨0, 0x64, 0xf0100000⟩]) nSo) 0 (mid 0 0) =
      some (0, 0xf0100000) := last_some (by decide) rfl
  cases hfalls with
  | front hr hfront hvalue =>
    cases hlast.symm.trans hfront
    exact absurd hvalue (by decide)
  | further hr hfront hm hvalue h =>
    cases hlast.symm.trans hfront
    exact absurd hm (by decide)

/-- An address below the only file of the table. -/
theorem debuginfoEip_not_inside :
    ¬∀ stabs stabstr addr, ulim ≤ addr → StaysInside stabs stabstr addr := by
  intro h
  obtain ⟨result, info, hrun, -⟩ := h [⟨0, 0x64, 0xf0100000⟩] [0] 0xf0000000 (by decide)
  have hfault : debuginfoEip [⟨0, 0x64, 0xf0100000⟩] [0] 0xf0000000 = .error .badAccess := rfl
  cases hfault.symm.trans hrun

end JosKernel.Kern
