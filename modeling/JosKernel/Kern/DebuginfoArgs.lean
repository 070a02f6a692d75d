import JosKernel.Kern.DebuginfoTables

/-! The number of arguments that `debuginfo_eip` counts. -/
namespace JosKernel.Kern
open JosKernel.Inc JosKernel.General JosKernel.Lib Marks

def behind (table : List Stab) (fn : Region) : List Stab :=
  (table.drop (fn.left.toNat + 1)).take (fn.right - fn.left).toNat

def arguments (stabs : List Stab) : List Stab := stabs.takeWhile (·.hasType nPsym)

theorem arguments_cons (stab : Stab) (stabs : List Stab) :
    arguments (stab :: stabs) = if stab.hasType nPsym then stab :: arguments stabs else [] :=
  List.takeWhile_cons

theorem arguments_dropLast_length (stabs : List Stab) :
    (arguments stabs.dropLast).length = (arguments stabs).length ↔
      stabs = [] ∨ ∃ stab ∈ stabs, stab.hasType nPsym = false := by
  induction stabs with
  | nil => simp
  | cons stab rest ih =>
    cases rest with
    | nil =>
      rw [List.dropLast_singleton, arguments_cons]
      cases hpsym : stab.hasType nPsym <;> simp [hpsym, arguments]
    | cons second rest =>
      rw [List.dropLast_cons_of_ne_nil (List.cons_ne_nil second rest), arguments_cons, arguments_cons]
      cases hpsym : stab.hasType nPsym with
      | true => simpa [hpsym] using ih
      | false => simp [hpsym]

theorem nargRound_run (table : List Stab) {lline rfun : Int} (hlo : 0 ≤ lline) (hle : lline ≤ rfun)
    (hhi : rfun ≤ table.length) (narg : Int) :
    Loop.run .unfinished (nargRound (tableReader table) rfun) ((rfun - lline).toNat + 1)
      (lline, narg) =
      .ok (narg + (arguments ((table.drop lline.toNat).take (rfun - lline).toNat)).length) := by
  refine Loop.run_spec
    (fun k (s : Int × Int) => 0 ≤ s.1 ∧ s.1 ≤ rfun ∧ k = (rfun - s.1).toNat ∧
      s.2 + (arguments ((table.drop s.1.toNat).take (rfun - s.1).toNat)).length =
        narg + (arguments ((table.drop lline.toNat).take (rfun - lline).toNat)).length)
    (· = .ok (narg + (arguments ((table.drop lline.toNat).take (rfun - lline).toNat)).length))
    ?_ _ (rfun - lline).toNat (lline, narg) ⟨hlo, hle, rfl, rfl⟩ (Nat.lt_succ_self _)
  rintro k ⟨m, count⟩ ⟨hm, hmr, rfl, hcount⟩
  dsimp only at hm hmr hcount
  rw [nargRound]
  by_cases hin : m < rfun
  · have hlt : m.toNat < table.length := by omega
    have hread : readStab (tableReader table) m = .ok table[m.toNat] := by
      rw [readStab, tableReader, if_pos hm, List.getElem?_eq_getElem hlt]
    have htake : (rfun - m).toNat = (rfun - (m + 1)).toNat + 1 := by omega
    have hnext : m.toNat + 1 = (m + 1).toNat := by omega
    rw [List.drop_eq_getElem_cons hlt, htake, List.take_succ_cons, arguments_cons, hnext] at hcount
    rw [if_pos hin, hread]
    simp only [bind, Except.bind]
    cases hpsym : table[m.toNat].hasType nPsym with
    | true =>
      rw [hpsym, if_pos rfl, List.length_cons] at hcount
      exact ⟨(rfun - (m + 1)).toNat, by omega, by dsimp only; omega, by dsimp only; omega, rfl,
        by dsimp only; omega⟩
    | false =>
      rw [hpsym] at hcount
      change Except.ok count = _
      rw [← hcount]
      simp
  · have hend : (rfun - m).toNat = 0 := by omega
    rw [hend] at hcount
    rw [if_neg hin]
    change Except.ok count = _
    rw [← hcount]
    simp [arguments]

theorem nargInfo_eq (table : List Stab) {fn : Region} (hlo : 0 ≤ fn.left) (hle : fn.left ≤ fn.right)
    (hhi : fn.right < table.length) (info : Eipdebuginfo) :
    nargInfo (tableReader table) fn info = .ok { info with
      eipFnNarg := info.eipFnNarg + (arguments (behind table fn).dropLast).length } := by
  have hbehind : (behind table fn).dropLast =
      (table.drop (fn.left + 1).toNat).take (fn.right - (fn.left + 1)).toNat := by
    have hnext : fn.left.toNat + 1 = (fn.left + 1).toNat := by omega
    rw [behind, List.dropLast_eq_take, List.take_take, List.length_take, List.length_drop, hnext]
    congr 1
    omega
  unfold nargInfo
  by_cases hlt : fn.left < fn.right
  · rw [if_pos hlt, nargRound_run table (by omega) (by omega) (by omega), hbehind]
    rfl
  · have hend : (fn.right - (fn.left + 1)).toNat = 0 := by omega
    rw [if_neg hlt, hbehind, hend]
    simp [arguments]
    rfl

section
variable {stabs : StabReader} {stabstr : List UInt8}

theorem fileInfo_narg {lfile lline : Int} {info info' : Eipdebuginfo}
    (h : fileInfo stabs stabstr lfile lline info = .ok info') : info'.eipFnNarg = info.eipFnNarg := by
  unfold fileInfo at h
  obtain ⟨k, -, h⟩ := exists_of_bind_eq_ok h
  split at h
  · obtain ⟨stab, -, h⟩ := exists_of_bind_eq_ok h
    cases h
    rfl
  · cases h
    rfl

theorem functionInfo_narg {lfile lline : Int} {fn : Region} {addr : UInt32}
    {info info' : Eipdebuginfo}
    (h : functionInfo stabs stabstr lfile fn addr info = .ok (info', lline)) :
    info'.eipFnNarg = info.eipFnNarg := by
  unfold functionInfo at h
  split at h
  · obtain ⟨stab, -, h⟩ := exists_of_bind_eq_ok h
    cases h
    rfl
  · cases h
    rfl

theorem debuginfoFile_narg {file : Region} {addr : UInt32} {info info' : Eipdebuginfo} {result : Int}
    (h : debuginfoFile stabs stabstr file addr info = .ok (result, info')) :
    ∃ fn before, stabBinsearch stabs nFun file addr = .ok fn ∧
      before.eipFnNarg = info.eipFnNarg ∧ nargInfo stabs fn before = .ok info' := by
  unfold debuginfoFile at h
  obtain ⟨fn, hsearch, h⟩ := exists_of_bind_eq_ok h
  obtain ⟨⟨info₁, lline⟩, hfn, h⟩ := exists_of_bind_eq_ok h
  obtain ⟨namelen, -, h⟩ := exists_of_bind_eq_ok h
  obtain ⟨info₂, hfile, h⟩ := exists_of_bind_eq_ok h
  obtain ⟨info₃, hnarg, h⟩ := exists_of_bind_eq_ok h
  cases h
  have hcount := fileInfo_narg hfile
  dsimp only at hcount
  exact ⟨fn, info₂, hsearch, hcount.trans (functionInfo_narg hfn), hnarg⟩

end

/-- Both searches of `debuginfo_eip` succeed, the second within the file that
the first has found. -/
structure FindsFunction (stabs : List Stab) (addr : UInt32) (file fn : Region) : Prop where
  file_eq : stabBinsearch (tableReader stabs) nSo ⟨0, stabs.length - 1⟩ addr = .ok file
  file_ne : file.left ≠ 0
  fn_eq : stabBinsearch (tableReader stabs) nFun file addr = .ok fn
  fn_le : fn.left ≤ fn.right

theorem FindsFunction.bounds {stabs : List Stab} {addr : UInt32} {file fn : Region}
    (h : FindsFunction stabs addr file fn) :
    0 < file.left ∧ file.left ≤ file.right ∧ file.right < stabs.length ∧
      0 ≤ fn.left ∧ fn.right < stabs.length := by
  obtain ⟨hfile, hne, hfn, hle⟩ := h
  by_cases hfalls : FallsOff (marks (tableReader stabs) nSo) addr (stabs.length - 1)
  · rw [stabBinsearch_fallsOff stabs nSo hfalls] at hfile
    cases hfile
    cases (stabBinsearch_front stabs nFun addr).symm.trans hfn
  · obtain ⟨file', hfile', hbounds⟩ := stabBinsearch_landing stabs nSo hfalls
    cases hfile'.symm.trans hfile
    obtain hzero | ⟨hpos, hinner, hhi⟩ := hbounds
    · exact absurd hzero hne
    · obtain ⟨fn', hfn', hlo, hhi'⟩ := stabBinsearch_bounds nFun
        (tableReader_readable stabs (show 0 ≤ file.left by omega)
          (show file.right < stabs.length by omega)) (by omega) addr
      cases hfn'.symm.trans hfn
      exact ⟨hpos, hinner, by omega, by omega, by omega⟩

/-- `debuginfo_eip` succeeds and its count is that of the entries of type
`N_PSYM` that follow one another from the function's entry on. -/
def CountsArguments (stabs : List Stab) (stabstr : List UInt8) (addr : UInt32) (fn : Region) : Prop :=
  ∃ info, debuginfoEip stabs stabstr addr = .ok (0, info) ∧
    info.eipFnNarg = (arguments (behind stabs fn)).length

theorem debuginfoEip_narg {stabs : List Stab} {stabstr : List UInt8} {addr : UInt32}
    {file fn : Region} (haddr : ulim ≤ addr) (hstrings : ValidStrings stabstr)
    (h : FindsFunction stabs addr file fn) :
    ∃ info, debuginfoEip stabs stabstr addr = .ok (0, info) ∧
      info.eipFnNarg = (arguments (behind stabs fn).dropLast).length := by
  obtain ⟨hpos, hinner, hhi, hfnlo, hfnhi⟩ := h.bounds
  have hinfo : (Eipdebuginfo.initial addr).Inside stabstr := ⟨trivial, trivial⟩
  obtain ⟨info, hrun, -⟩ := debuginfoFile_ok
    (tableReader_readable stabs (show 0 ≤ file.left - 1 by omega) hhi) hinner hstrings addr hinfo
  refine ⟨info, ?_, ?_⟩
  · rw [debuginfoEip_eq stabs stabstr haddr, if_pos hstrings, h.file_eq]
    simp only [bind, Except.bind]
    rw [if_neg h.file_ne]
    exact hrun
  · obtain ⟨fn', before, hfn', hbefore, hnarg⟩ := debuginfoFile_narg hrun
    cases h.fn_eq.symm.trans hfn'
    rw [nargInfo_eq stabs hfnlo h.fn_le hfnhi, hbefore] at hnarg
    cases hnarg
    exact Int.zero_add _

/-- The count is right exactly when the region ends with its first entry or has
an entry of another type behind it. -/
theorem countsArguments_iff (stabs : List Stab) (stabstr : List UInt8) (addr : UInt32)
    (file fn : Region) (haddr : ulim ≤ addr) (hstrings : ValidStrings stabstr)
    (h : FindsFunction stabs addr file fn) :
    CountsArguments stabs stabstr addr fn ↔
      fn.left = fn.right ∨ ∃ stab ∈ behind stabs fn, stab.hasType nPsym = false := by
  obtain ⟨info, hrun, hnarg⟩ := debuginfoEip_narg haddr hstrings h
  obtain ⟨-, -, -, hlo, hhi⟩ := h.bounds
  have hle := h.fn_le
  have hempty : behind stabs fn = [] ↔ fn.left = fn.right := by
    rw [← List.length_eq_zero_iff, behind, List.length_take, List.length_drop]
    omega
  rw [← hempty, ← arguments_dropLast_length]
  unfold CountsArguments
  refine ⟨?_, fun heq => ⟨info, hrun, hnarg.trans (congrArg _ heq)⟩⟩
  rintro ⟨info', hrun', hcount⟩
  cases hrun.symm.trans hrun'
  exact Int.ofNat_inj.mp (hnarg.symm.trans hcount)

theorem countsArguments_line :
    CountsArguments
      [⟨0, 0, 0⟩, ⟨0, 0x64, 0xf0100000⟩, ⟨0, 0x24, 0xf0100040⟩, ⟨0, 0xa0, 8⟩, ⟨0, 0x44, 0⟩] [0]
      0xf0100044 ⟨2, 4⟩ :=
  (countsArguments_iff _ [0] 0xf0100044 ⟨1, 4⟩ ⟨2, 4⟩ (by decide) (by decide)
    ⟨rfl, by decide, rfl, by decide⟩).mpr (.inr ⟨⟨0, 0x44, 0⟩, by decide, by decide⟩)

/-- A function whose stabs are only its one parameter. -/
theorem not_countsArguments :
    ¬∀ (stabs : List Stab) (stabstr : List UInt8) (addr : UInt32) (file fn : Region) (stab : Stab),
      ulim ≤ addr → ValidStrings stabstr → FindsFunction stabs addr file fn →
      tableReader stabs fn.left = some stab → stab.hasType nFun = true →
      CountsArguments stabs stabstr addr fn := by
  intro h
  obtain ⟨info, hrun, hcount⟩ := h
    [⟨0, 0, 0⟩, ⟨0, 0x64, 0xf0100000⟩, ⟨0, 0x24, 0xf0100040⟩, ⟨0, 0xa0, 8⟩] [0] 0xf0100044
    ⟨1, 3⟩ ⟨2, 3⟩ ⟨0, 0x24, 0xf0100040⟩ (by decide) (by decide) ⟨rfl, by decide, rfl, by decide⟩
    rfl (by decide)
  have hresult : debuginfoEip
      [⟨0, 0, 0⟩, ⟨0, 0x64, 0xf0100000⟩, ⟨0, 0x24, 0xf0100040⟩, ⟨0, 0xa0, 8⟩] [0] 0xf0100044 =
      .ok (0, ⟨.entry 0, 0, .entry 0, 0, 0xf0100040, 0⟩) := rfl
  cases hresult.symm.trans hrun
  exact absurd hcount (by decide)

end JosKernel.Kern
