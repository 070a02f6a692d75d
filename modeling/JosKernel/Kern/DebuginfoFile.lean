import JosKernel.Kern.Debuginfo
import JosKernel.Kern.StabSearch

/-! The steps of `debuginfo_eip` within one file's stabs. -/
namespace JosKernel.Kern
open JosKernel.Inc JosKernel.General JosKernel.Lib Marks

def ValidStrings (stabstr : List UInt8) : Prop := stabstr.getLast? = some 0

instance (stabstr : List UInt8) : Decidable (ValidStrings stabstr) :=
  inferInstanceAs (Decidable (stabstr.getLast? = some 0))

def Text.Inside (stabstr : List UInt8) : Text → Prop
  | .unknown => True
  | .entry offset => offset.toNat < stabstr.length

structure Eipdebuginfo.Inside (stabstr : List UInt8) (info : Eipdebuginfo) : Prop where
  file : info.eipFile.Inside stabstr
  fnName : info.eipFnName.Inside stabstr

theorem stringsValid_ok (stabstr : List UInt8) :
    ∃ valid, stringsValid stabstr = .ok valid ∧ (valid = true ↔ ValidStrings stabstr) := by
  unfold stringsValid ValidStrings
  by_cases hempty : stabstr.length ≤ 0
  · have hnil : stabstr = [] := List.length_eq_zero_iff.mp (by omega)
    refine ⟨false, if_pos hempty, ?_⟩
    rw [hnil]
    decide
  · have hlast : stabstr.getLast? = some (stabstr[stabstr.length - 1]) := by
      rw [List.getLast?_eq_getElem?, List.getElem?_eq_getElem]
    rw [if_neg hempty, load_eq (List.getElem?_eq_getElem (by omega)), hlast, Option.some.injEq]
    exact ⟨_, rfl, decide_eq_true_iff⟩

section
variable {stabstr : List UInt8}

theorem Text.Inside.terminated (h : ValidStrings stabstr) {text : Text}
    (htext : text.Inside stabstr) : Terminated (text.bytes stabstr) := by
  cases text with
  | unknown =>
    change 0 ∈ cstr "<unknown>".toList
    exact List.mem_append_right _ (List.mem_singleton.mpr rfl)
  | entry offset =>
    change 0 ∈ stabstr.drop offset.toNat
    have hlast : (stabstr.drop offset.toNat).getLast? = some 0 := by
      rw [List.getLast?_drop, if_neg (Nat.not_le.mpr htext)]
      exact h
    exact List.mem_of_getLast? hlast

theorem textAt_inside (stab : Stab) {default : Text} (h : default.Inside stabstr) :
    (textAt stabstr stab default).Inside stabstr := by
  unfold textAt
  split
  · next hin => exact hin
  · exact h

variable {stabs : StabReader}

theorem functionInfo_found {lfile : Int} {fn : Region} {stab : Stab} (h : fn.left ≤ fn.right)
    (hstab : stabs fn.left = some stab) (addr : UInt32) (info : Eipdebuginfo) :
    functionInfo stabs stabstr lfile fn addr info =
      .ok ({ info with
        eipFnName := textAt stabstr stab info.eipFnName, eipFnAddr := stab.nValue }, fn.left) := by
  rw [functionInfo, if_pos h, readStab, hstab]
  rfl

theorem functionInfo_missing {lfile : Int} {fn : Region} (h : fn.right < fn.left) (addr : UInt32)
    (info : Eipdebuginfo) :
    functionInfo stabs stabstr lfile fn addr info = .ok ({ info with eipFnAddr := addr }, lfile) := by
  rw [functionInfo, if_neg (by omega)]
  rfl

theorem fileInfo_cases {lfile lline : Int} (h : Readable stabs lfile lline)
    (hle : lfile ≤ lline + 1) (info : Eipdebuginfo) :
    fileInfo stabs stabstr lfile lline info = .ok info ∧
        (∀ i, lfile ≤ i → i ≤ lline → stops stabs Stab.namesFile i = none) ∨
      ∃ k stab, lfile ≤ k ∧ k ≤ lline ∧ stabs k = some stab ∧ stab.namesFile = true ∧
        (∀ j, k < j → j ≤ lline → stops stabs Stab.namesFile j = none) ∧
        fileInfo stabs stabstr lfile lline info =
          .ok { info with eipFile := textAt stabstr stab info.eipFile } := by
  unfold fileInfo
  rw [back_eq Stab.namesFile h hle]
  rcases last_cases (stops stabs Stab.namesFile) lfile lline with
    ⟨hlast, hnone⟩ | ⟨k, value, hlast, hlo, hhi, hmark, hnone⟩
  · refine Or.inl ⟨?_, hnone⟩
    rw [hlast]
    simp only [Option.map_none, Option.getD_none, bind, Except.bind]
    rw [if_neg (by omega)]
    rfl
  · obtain ⟨stab, hstab, hread, ⟨hstop, -⟩ | ⟨-, hmark'⟩⟩ := readStab_cases Stab.namesFile h hlo hhi
    · refine Or.inr ⟨k, stab, hlo, hhi, hstab, hstop, hnone, ?_⟩
      rw [hlast]
      simp only [Option.map_some, Option.getD_some, bind, Except.bind]
      rw [if_pos hlo, hread]
      rfl
    · cases hmark.symm.trans hmark'

theorem nargInfo_ok {fn : Region} (h : Readable stabs (fn.left + 1) (fn.right - 1))
    (info : Eipdebuginfo) :
    ∃ narg, nargInfo stabs fn info = .ok { info with eipFnNarg := narg } := by
  unfold nargInfo
  split
  · next hlt =>
    obtain ⟨narg, hrun⟩ : ∃ narg, Loop.run .unfinished (nargRound stabs fn.right)
        ((fn.right - (fn.left + 1)).toNat + 1) (fn.left + 1, info.eipFnNarg) = .ok narg := by
      refine Loop.run_spec
        (fun k s => fn.left + 1 ≤ s.1 ∧ s.1 ≤ fn.right ∧ k = (fn.right - s.1).toNat)
        (fun result => ∃ narg, result = .ok narg) ?_ _ (fn.right - (fn.left + 1)).toNat _
        ⟨Int.le_refl _, by dsimp only; omega, rfl⟩ (Nat.lt_succ_self _)
      rintro k ⟨lline, narg⟩ ⟨hlo, hhi, rfl⟩
      dsimp only at hlo hhi
      rw [nargRound]
      by_cases hin : lline < fn.right
      · obtain ⟨stab, hstab⟩ := h lline hlo (by omega)
        rw [if_pos hin, readStab, hstab]
        simp only [bind, Except.bind]
        split
        · exact ⟨(fn.right - (lline + 1)).toNat, by omega, by dsimp only; omega,
            by dsimp only; omega, rfl⟩
        · exact ⟨narg, rfl⟩
      · rw [if_neg hin]
        exact ⟨narg, rfl⟩
    rw [hrun]
    exact ⟨narg, rfl⟩
  · exact ⟨info.eipFnNarg, rfl⟩

theorem debuginfoFile_eq {file fn : Region} {addr : UInt32} {info info₁ info₂ info₃ : Eipdebuginfo}
    {lline : Int} {namelen : Nat} (hsearch : stabBinsearch stabs nFun file addr = .ok fn)
    (hfn : functionInfo stabs stabstr file.left fn addr info = .ok (info₁, lline))
    (hnamelen : strfind (info₁.eipFnName.bytes stabstr) (ascii ':') = .ok namelen)
    (hfile : fileInfo stabs stabstr file.left lline { info₁ with eipFnNamelen := namelen } =
      .ok info₂)
    (hnarg : nargInfo stabs fn info₂ = .ok info₃) :
    debuginfoFile stabs stabstr file addr info = .ok (0, info₃) := by
  unfold debuginfoFile
  simp only [hsearch, hfn, hnamelen, hfile, hnarg, bind, Except.bind, pure, Except.pure]

end

theorem debuginfoEip_eq (stabs : List Stab) (stabstr : List UInt8) {addr : UInt32}
    (haddr : ulim ≤ addr) :
    debuginfoEip stabs stabstr addr =
      if ValidStrings stabstr then do
        let file ← stabBinsearch (tableReader stabs) nSo ⟨0, stabs.length - 1⟩ addr
        if file.left = 0 then return (-1, .initial addr)
        debuginfoFile (tableReader stabs) stabstr file addr (.initial addr)
      else .ok (-1, .initial addr) := by
  obtain ⟨valid, hvalid, hstrings⟩ := stringsValid_ok stabstr
  unfold debuginfoEip
  rw [if_neg (not_not_intro haddr), hvalid]
  by_cases h : ValidStrings stabstr
  · rw [hstrings.mpr h, if_pos h]
    rfl
  · have hfalse : valid = false := by
      cases valid with
      | true => exact absurd (hstrings.mp rfl) h
      | false => rfl
    rw [hfalse, if_neg h]
    rfl

end JosKernel.Kern
