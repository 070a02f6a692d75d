import JosKernel.Kern.DebuginfoFile
import JosKernel.Kern.StabBrackets

/-! `debuginfo_eip` on tables of the shape that the linker gives them. -/
namespace JosKernel.Kern
open JosKernel.Inc JosKernel.General JosKernel.Lib Marks

/-- Entry `i` lies in the region of the source file that starts at entry `f`. -/
structure InFile (stabs : List Stab) (f i : Int) : Prop where
  start : ∃ value, marks (tableReader stabs) nSo f = some value
  le : f ≤ i
  lt : i < stabs.length
  next : ∀ k, f < k → k ≤ i → marks (tableReader stabs) nSo k = none

def Apart (marks : Int → Option UInt32) (range : Int → Prop) : Prop :=
  ∀ i j value, range i → range j → marks i = some value → marks j ≠ some (value + 1)

def Stab.isFilename (stab : Stab) : Prop := stab.hasType nSo = true ∨ stab.hasType nSol = true

structure LinkerShaped (stabs : List Stab) (stabstr : List UInt8) : Prop where
  first : marks (tableReader stabs) nSo 0 = none
  filesSorted : Sorted (marks (tableReader stabs) nSo) 0 (stabs.length - 1)
  filesApart : Apart (marks (tableReader stabs) nSo) fun _ => True
  functionsSorted : ∀ f r, InFile stabs f r → Sorted (marks (tableReader stabs) nFun) f r
  functionsApart : ∀ f, Apart (marks (tableReader stabs) nFun) (InFile stabs f)
  terminated : ValidStrings stabstr
  valid : ∀ stab, stab ∈ stabs → stab.isFilename ∨ stab.hasType nFun = true →
    stab.nValue ≠ 0 ∧ stab.nValue < 0xffffffff ∧ stab.nStrx.toNat < stabstr.length

/-- The last entry within a range that does not lie above the address. -/
structure LastUpTo (marks : Int → Option UInt32) (range : Int → Prop) (addr : UInt32) (i : Int) :
    Prop where
  inside : range i
  reaches : ∃ value, marks i = some value ∧ value ≤ addr
  last : ∀ j value, i < j → range j → marks j = some value → addr < value

structure Describes (stabs : List Stab) (stabstr : List UInt8) (g : Int) (fn : Stab)
    (info : Eipdebuginfo) : Prop where
  fnAddr : info.eipFnAddr = fn.nValue
  fnName : info.eipFnName = .entry fn.nStrx
  fnNamelen : info.eipFnNamelen =
    ((stabstr.drop fn.nStrx.toNat).takeWhile fun byte => byte ≠ 0 ∧ byte ≠ ascii ':').length
  /-- The file name is that of the nearest `N_SOL` or `N_SO` entry. -/
  file : ∃ k stab, k ≤ g ∧ tableReader stabs k = some stab ∧ stab.isFilename ∧
    (∀ j stab', k < j → j ≤ g → tableReader stabs j = some stab' → ¬stab'.isFilename) ∧
    info.eipFile = .entry stab.nStrx

theorem stops_some {stabs : StabReader} {stop : Stab → Bool} {i : Int} {value : UInt32}
    (h : stops stabs stop i = some value) :
    ∃ stab, stabs i = some stab ∧ stop stab = true ∧ stab.nValue = value := by
  unfold stops at h
  cases hstab : stabs i with
  | none =>
    rw [hstab] at h
    cases h
  | some stab =>
    rw [hstab] at h
    dsimp only at h
    split at h
    · next hstop => exact ⟨stab, rfl, hstop, Option.some.inj h⟩
    · cases h

theorem stops_of_stop {stabs : StabReader} {stop : Stab → Bool} {i : Int} {stab : Stab}
    (hstab : stabs i = some stab) (hstop : stop stab = true) :
    stops stabs stop i = some stab.nValue := by
  rw [stops, hstab]
  exact if_pos hstop

theorem tableReader_mem {stabs : List Stab} {i : Int} {stab : Stab}
    (h : tableReader stabs i = some stab) : 0 ≤ i ∧ i < stabs.length ∧ stab ∈ stabs := by
  unfold tableReader at h
  split at h
  · next hi =>
    obtain ⟨hlt, -⟩ := List.getElem?_eq_some_iff.mp h
    exact ⟨hi, by omega, List.mem_of_getElem? h⟩
  · cases h

section
variable {marks : Int → Option UInt32} {left right : Int} {addr : UInt32} {region : Region}

theorem Brackets.left_eq {range : Int → Prop} {i : Int}
    (h : Brackets marks left right addr region) (hlast : LastUpTo marks range addr i)
    (hi : i ≤ right) (hregion : range region.left) : region.left = i := by
  obtain ⟨value, hmark, hle⟩ := hlast.reaches
  obtain ⟨value', hmark', hle'⟩ := h.contains
  apply Int.le_antisymm
  · apply Int.le_of_not_gt
    intro hlt
    exact UInt32.not_le.mpr (hlast.last _ value' hlt hregion hmark') hle'
  · apply Int.le_of_not_gt
    intro hlt
    exact UInt32.not_le.mpr (h.largest i value hlt hi hmark) hle

end

section
variable {stabs : List Stab} {stabstr : List UInt8} {addr : UInt32}

theorem LinkerShaped.namesFile (h : LinkerShaped stabs stabstr) {i : Int} {stab : Stab}
    (hstab : tableReader stabs i = some stab) (htext : stab.isFilename) : stab.namesFile = true := by
  have hvalue := (h.valid stab (tableReader_mem hstab).2.2 (Or.inl htext)).1
  unfold Stab.namesFile
  rcases htext with hso | hsol
  · rw [hso]
    simp [hvalue]
  · rw [hsol]
    rfl

theorem Stab.isFilename_of_namesFile {stab : Stab} (h : stab.namesFile = true) :
    stab.isFilename := by
  unfold Stab.namesFile at h
  rcases Bool.or_eq_true _ _ |>.mp h with hsol | hso
  · exact Or.inr hsol
  · exact Or.inl (Bool.and_eq_true _ _ |>.mp hso).1

theorem LinkerShaped.files_undisturbed (h : LinkerShaped stabs stabstr) (left right : Int) :
    Undisturbed (marks (tableReader stabs) nSo) left right addr := by
  refine undisturbed_of_apart fun m hm hmr hmark => ?_
  obtain ⟨stab, hstab, htype, hvalue⟩ := stops_some hmark
  obtain ⟨-, hlt, -⟩ := h.valid stab (tableReader_mem hstab).2.2 (Or.inl (Or.inl htype))
  exact ⟨by grind, fun i hi hir => h.filesApart m i addr trivial trivial hmark⟩

theorem LinkerShaped.functions_undisturbed (h : LinkerShaped stabs stabstr) {f right : Int}
    (hfile : InFile stabs f right) :
    Undisturbed (marks (tableReader stabs) nFun) f right addr := by
  have hin : ∀ i, f ≤ i → i ≤ right → InFile stabs f i := fun i hi hir =>
    ⟨hfile.start, hi, Int.lt_of_le_of_lt hir hfile.lt,
      fun k hk hki => hfile.next k hk (Int.le_trans hki hir)⟩
  refine undisturbed_of_apart fun m hm hmr hmark => ?_
  obtain ⟨stab, hstab, htype, hvalue⟩ := stops_some hmark
  obtain ⟨-, hlt, -⟩ := h.valid stab (tableReader_mem hstab).2.2 (Or.inr htype)
  exact ⟨by grind, fun i hi hir =>
    h.functionsApart f m i addr (hin m hm hmr) (hin i (by omega) hir) hmark⟩

theorem LinkerShaped.search_none (h : LinkerShaped stabs stabstr)
    (habove : ∀ i value, marks (tableReader stabs) nSo i = some value → addr < value) :
    ∃ file, stabBinsearch (tableReader stabs) nSo ⟨0, stabs.length - 1⟩ addr = .ok file ∧
      file.left = 0 := by
  by_cases hempty : stabs = []
  · rw [hempty]
    exact ⟨⟨0, -1⟩, rfl, rfl⟩
  · have hlength : 0 < stabs.length := List.length_pos_iff.mpr hempty
    obtain ⟨s, hs, hend, hgood, hresult⟩ := stabBinsearch_good nSo
      (tableReader_readable stabs (Int.le_refl 0) (by omega)) (by omega) h.filesSorted
      (@LinkerShaped.files_undisturbed stabs stabstr addr h 0 (stabs.length - 1))
    exact ⟨_, hresult, hgood.finish_left hs hend (by omega) h.first
      fun i value _ _ hmark => habove i value hmark⟩

theorem LinkerShaped.search_file (h : LinkerShaped stabs stabstr) {f : Int}
    (hf : LastUpTo (marks (tableReader stabs) nSo) (fun _ => True) addr f) :
    ∃ right, stabBinsearch (tableReader stabs) nSo ⟨0, stabs.length - 1⟩ addr = .ok ⟨f, right⟩ ∧
      0 < f ∧ InFile stabs f right ∧ ∀ i, InFile stabs f i → i ≤ right := by
  obtain ⟨value, hmark, hle⟩ := hf.reaches
  obtain ⟨stab, hstab, htype, hvalue⟩ := stops_some hmark
  obtain ⟨hlo, hhi, -⟩ := tableReader_mem hstab
  have hpos : f ≠ 0 := by
    rintro rfl
    cases h.first.symm.trans hmark
  obtain ⟨⟨left, right⟩, hresult, hbrackets⟩ := stabBinsearch_undisturbed nSo
    (tableReader_readable stabs (Int.le_refl 0) (by omega)) (by omega) h.filesSorted
    ⟨f, value, hlo, by omega, hmark, hle⟩ (h.files_undisturbed 0 (stabs.length - 1))
  have hleft : left = f := hbrackets.left_eq hf (by omega) trivial
  subst hleft
  have hright := hbrackets.le_right
  have hnext := hbrackets.next
  dsimp only at hright hnext
  refine ⟨right, hresult, by omega, ⟨⟨value, hmark⟩, hright, by omega, hbrackets.none⟩, ?_⟩
  intro i hi
  rcases hnext with hend | ⟨-, value', hmark'⟩
  · have hlt := hi.lt
    omega
  · apply Int.le_of_not_gt
    intro hlt
    cases (hi.next (right + 1) (by omega) (by omega)).symm.trans hmark'

theorem LinkerShaped.search_function (h : LinkerShaped stabs stabstr) {f g right : Int}
    (hf : 0 ≤ f) (hright : InFile stabs f right) (hmax : ∀ i, InFile stabs f i → i ≤ right)
    (hg : LastUpTo (marks (tableReader stabs) nFun) (InFile stabs f) addr g) :
    ∃ final, stabBinsearch (tableReader stabs) nFun ⟨f, right⟩ addr = .ok ⟨g, final⟩ ∧ g ≤ final ∧
      final ≤ right := by
  obtain ⟨value, hmark, hle⟩ := hg.reaches
  have hlt := hright.lt
  have hfr := hright.le
  have hgr := hmax g hg.inside
  obtain ⟨⟨left, final⟩, hresult, hbrackets⟩ := stabBinsearch_undisturbed nFun
    (tableReader_readable stabs hf hlt) hfr (h.functionsSorted f right hright)
    ⟨g, value, hg.inside.le, hgr, hmark, hle⟩ (h.functions_undisturbed hright)
  have hle' := hbrackets.le_left
  have hend := hbrackets.le_right
  have hnext := hbrackets.next
  dsimp only at hle' hend hnext
  have hleft : left = g := hbrackets.left_eq hg hgr
    ⟨hright.start, hle', by dsimp only; omega, fun k hk hkl => hright.next k hk (by
      dsimp only at hkl
      omega)⟩
  subst hleft
  exact ⟨final, hresult, hend, by omega⟩

end

def Eipdebuginfo.withFunction (info : Eipdebuginfo) (stabstr : List UInt8) (stab : Stab) :
    Eipdebuginfo :=
  { info with
    eipFnName := .entry stab.nStrx
    eipFnNamelen := ((stabstr.drop stab.nStrx.toNat).takeWhile fun byte =>
      byte ≠ 0 ∧ byte ≠ ascii ':').length
    eipFnAddr := stab.nValue }

theorem debuginfoFile_found {stabs : StabReader} {stabstr : List UInt8} {file fn : Region}
    {addr : UInt32} {stab : Stab} (hsearch : stabBinsearch stabs nFun file addr = .ok fn)
    (hread : Readable stabs file.left file.right) (hle : file.left ≤ fn.left)
    (hfn : fn.left ≤ fn.right) (hright : fn.right ≤ file.right)
    (hstab : stabs fn.left = some stab) (hstrings : ValidStrings stabstr)
    (hname : stab.nStrx.toNat < stabstr.length) (info : Eipdebuginfo)
    (hfile : ∃ k, file.left ≤ k ∧ k ≤ fn.left ∧ ∃ value, stops stabs Stab.namesFile k = some value) :
    ∃ narg k stab', debuginfoFile stabs stabstr file addr info = .ok (0,
        { info.withFunction stabstr stab with
          eipFile := textAt stabstr stab' info.eipFile, eipFnNarg := narg }) ∧
      k ≤ fn.left ∧ stabs k = some stab' ∧ stab'.namesFile = true ∧
      ∀ j, k < j → j ≤ fn.left → stops stabs Stab.namesFile j = none := by
  have htext : textAt stabstr stab info.eipFnName = .entry stab.nStrx := if_pos hname
  have hinfo := @functionInfo_found stabstr stabs file.left fn stab hfn hstab addr info
  have hnamelen := strfind_eq (@Text.Inside.terminated stabstr hstrings (.entry stab.nStrx) hname)
    (ascii ':')
  rw [htext] at hinfo
  obtain ⟨i, hi, hile, value, hmark⟩ := hfile
  rcases @fileInfo_cases stabstr stabs file.left fn.left
    (fun index hl hr => hread index hl (by omega)) (by omega) (info.withFunction stabstr stab) with
    ⟨-, hnone⟩ | ⟨k, stab', hk, hkle, hstab', hnames, hlast, hrun⟩
  · cases (hnone i hi hile).symm.trans hmark
  · obtain ⟨narg, hrun'⟩ := @nargInfo_ok stabs fn
      (fun index hl hr => hread index (by omega) (by omega))
      { info.withFunction stabstr stab with eipFile := textAt stabstr stab' info.eipFile }
    exact ⟨narg, k, stab', debuginfoFile_eq hsearch hinfo hnamelen hrun hrun', hkle, hstab', hnames,
      hlast⟩

/-- On linker-shaped tables `debuginfo_eip` finds the function that contains the
address, and reports a failure for an address below all files. -/
theorem debuginfoEip_linked (stabs : List Stab) (stabstr : List UInt8) (addr : UInt32)
    (h : LinkerShaped stabs stabstr) (haddr : ulim ≤ addr) :
    ((∀ i value, marks (tableReader stabs) nSo i = some value → addr < value) →
      ∃ info, debuginfoEip stabs stabstr addr = .ok (-1, info)) ∧
    ∀ f g, LastUpTo (marks (tableReader stabs) nSo) (fun _ => True) addr f →
      LastUpTo (marks (tableReader stabs) nFun) (InFile stabs f) addr g →
      ∃ fn info, tableReader stabs g = some fn ∧ fn.hasType nFun = true ∧
        debuginfoEip stabs stabstr addr = .ok (0, info) ∧ Describes stabs stabstr g fn info := by
  rw [debuginfoEip_eq stabs stabstr haddr, if_pos h.terminated]
  constructor
  · intro habove
    obtain ⟨file, hsearch, hzero⟩ := h.search_none habove
    rw [hsearch]
    exact ⟨_, if_pos hzero⟩
  · intro f g hf hg
    obtain ⟨right, hsearch, hpos, hright, hmax⟩ := h.search_file hf
    obtain ⟨final, hsearch', hend, hend'⟩ :=
      h.search_function (Int.le_of_lt hpos) hright hmax hg
    obtain ⟨value, hmark, -⟩ := hg.reaches
    obtain ⟨fn, hfn, htype, -⟩ := stops_some hmark
    obtain ⟨value', hmark', -⟩ := hf.reaches
    obtain ⟨so, hso, htype', -⟩ := stops_some hmark'
    have hfile := hg.inside.le
    obtain ⟨narg, k, stab, hrun, hk, hstab, hnames, hlast⟩ :=
      debuginfoFile_found hsearch' (tableReader_readable stabs (Int.le_of_lt hpos) hright.lt)
        hfile hend hend' hfn h.terminated
        (h.valid fn (tableReader_mem hfn).2.2 (Or.inr htype)).2.2 (.initial addr)
        ⟨f, Int.le_refl f, hfile, so.nValue,
          stops_of_stop hso (h.namesFile hso (Or.inl htype'))⟩
    have htext := Stab.isFilename_of_namesFile hnames
    rw [hsearch]
    simp only [bind, Except.bind]
    rw [if_neg (by omega)]
    refine ⟨fn, _, hfn, htype, hrun, rfl, rfl, rfl, k, stab, hk, hstab, htext, ?_, ?_⟩
    · intro j stab' hkj hjg hstab' htext'
      cases (hlast j hkj hjg).symm.trans (stops_of_stop hstab' (h.namesFile hstab' htext'))
    · exact if_pos (h.valid stab (tableReader_mem hstab).2.2 (Or.inl htext)).2.2

def twoFunctions : List Stab :=
  [⟨0, 0, 0⟩, ⟨1, 0x64, 0xf0100000⟩, ⟨6, 0x64, 0xf0100000⟩, ⟨10, 0x24, 0xf0100040⟩,
    ⟨14, 0x24, 0xf0100080⟩]

def twoFunctionsStrings : List UInt8 :=
  [0, 47, 111, 115, 47, 0, 97, 46, 99, 0, 102, 58, 70, 0, 103, 58, 70, 0]

theorem twoFunctions_cases {i : Int} {stab : Stab} (h : tableReader twoFunctions i = some stab) :
    i = 0 ∧ stab = ⟨0, 0, 0⟩ ∨ i = 1 ∧ stab = ⟨1, 0x64, 0xf0100000⟩ ∨
      i = 2 ∧ stab = ⟨6, 0x64, 0xf0100000⟩ ∨ i = 3 ∧ stab = ⟨10, 0x24, 0xf0100040⟩ ∨
      i = 4 ∧ stab = ⟨14, 0x24, 0xf0100080⟩ := by
  obtain ⟨hlo, hhi, -⟩ := tableReader_mem h
  have hlength : (twoFunctions.length : Int) = 5 := rfl
  obtain rfl | rfl | rfl | rfl | rfl : i = 0 ∨ i = 1 ∨ i = 2 ∨ i = 3 ∨ i = 4 := by omega
  · exact .inl ⟨rfl, (Option.some.inj h).symm⟩
  · exact .inr (.inl ⟨rfl, (Option.some.inj h).symm⟩)
  · exact .inr (.inr (.inl ⟨rfl, (Option.some.inj h).symm⟩))
  · exact .inr (.inr (.inr (.inl ⟨rfl, (Option.some.inj h).symm⟩)))
  · exact .inr (.inr (.inr (.inr ⟨rfl, (Option.some.inj h).symm⟩)))

theorem twoFunctions_files {i : Int} {value : UInt32}
    (h : marks (tableReader twoFunctions) nSo i = some value) :
    (i = 1 ∨ i = 2) ∧ value = 0xf0100000 := by
  obtain ⟨stab, hstab, htype, rfl⟩ := stops_some h
  rcases twoFunctions_cases hstab with ⟨-, rfl⟩ | ⟨rfl, rfl⟩ | ⟨rfl, rfl⟩ | ⟨-, rfl⟩ | ⟨-, rfl⟩
  · exact absurd htype (by decide)
  · exact ⟨.inl rfl, rfl⟩
  · exact ⟨.inr rfl, rfl⟩
  · exact absurd htype (by decide)
  · exact absurd htype (by decide)

theorem twoFunctions_functions {i : Int} {value : UInt32}
    (h : marks (tableReader twoFunctions) nFun i = some value) :
    i = 3 ∧ value = 0xf0100040 ∨ i = 4 ∧ value = 0xf0100080 := by
  obtain ⟨stab, hstab, htype, rfl⟩ := stops_some h
  rcases twoFunctions_cases hstab with ⟨-, rfl⟩ | ⟨-, rfl⟩ | ⟨-, rfl⟩ | ⟨rfl, rfl⟩ | ⟨rfl, rfl⟩
  · exact absurd htype (by decide)
  · exact absurd htype (by decide)
  · exact absurd htype (by decide)
  · exact .inl ⟨rfl, rfl⟩
  · exact .inr ⟨rfl, rfl⟩

theorem twoFunctions_linkerShaped : LinkerShaped twoFunctions twoFunctionsStrings where
  first := rfl
  filesSorted := by
    intro i j value value' hi hij hj hmark hmark'
    rw [(twoFunctions_files hmark).2, (twoFunctions_files hmark').2]
    exact UInt32.le_refl _
  filesApart := by
    intro i j value _ _ hmark hmark'
    have hvalue := (twoFunctions_files hmark').2
    rw [(twoFunctions_files hmark).2] at hvalue
    exact absurd hvalue (by decide)
  functionsSorted := by
    intro f r hfile i j value value' hi hij hj hmark hmark'
    rcases twoFunctions_functions hmark with ⟨hfirst, rfl⟩ | ⟨hfirst, rfl⟩ <;>
      rcases twoFunctions_functions hmark' with ⟨hsecond, rfl⟩ | ⟨hsecond, rfl⟩
    · exact UInt32.le_refl _
    · decide
    · omega
    · exact UInt32.le_refl _
  functionsApart := by
    intro f i j value _ _ hmark hmark'
    rcases twoFunctions_functions hmark with ⟨-, rfl⟩ | ⟨-, rfl⟩ <;>
      rcases twoFunctions_functions hmark' with ⟨-, hvalue⟩ | ⟨-, hvalue⟩ <;>
        exact absurd hvalue (by decide)
  terminated := rfl
  valid := by
    intro stab hmem hkind
    obtain rfl | rfl | rfl | rfl | rfl : stab = ⟨0, 0, 0⟩ ∨ stab = ⟨1, 0x64, 0xf0100000⟩ ∨
        stab = ⟨6, 0x64, 0xf0100000⟩ ∨ stab = ⟨10, 0x24, 0xf0100040⟩ ∨
          stab = ⟨14, 0x24, 0xf0100080⟩ := by
      simpa [twoFunctions] using hmem
    · exact absurd hkind (by unfold Stab.isFilename; decide)
    all_goals decide

theorem debuginfoEip_linked_twoFunctions :
    ∃ info, debuginfoEip twoFunctions twoFunctionsStrings 0xf0100044 = .ok (0, info) ∧
      Describes twoFunctions twoFunctionsStrings 3 ⟨10, 0x24, 0xf0100040⟩ info := by
  have hfile : LastUpTo (marks (tableReader twoFunctions) nSo) (fun _ => True) 0xf0100044 2 := by
    refine ⟨trivial, ⟨0xf0100000, rfl, by decide⟩, fun j value hj _ hmark => ?_⟩
    have hindex := (twoFunctions_files hmark).1
    omega
  have hfunction : LastUpTo (marks (tableReader twoFunctions) nFun) (InFile twoFunctions 2)
      0xf0100044 3 := by
    refine ⟨⟨⟨0xf0100000, rfl⟩, by decide, by decide, fun k hk hk3 => ?_⟩,
      ⟨0xf0100040, rfl, by decide⟩, fun j value hj _ hmark => ?_⟩
    · obtain rfl : k = 3 := by omega
      rfl
    · rcases twoFunctions_functions hmark with ⟨hindex, -⟩ | ⟨-, rfl⟩
      · omega
      · decide
  obtain ⟨fn, info, hfn, -, hrun, hdescribes⟩ := (debuginfoEip_linked twoFunctions
    twoFunctionsStrings 0xf0100044 twoFunctions_linkerShaped (by decide)).2 2 3 hfile hfunction
  cases hfn
  exact ⟨info, hrun, hdescribes⟩

end JosKernel.Kern
