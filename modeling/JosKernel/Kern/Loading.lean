import JosKernel.Boot.Image
import JosKernel.Kern.Entrypgdir
import JosKernel.Lib.Memset

/-! The kernel in memory, as it sees itself through the early page tables: the
`memset` of `i386_init` completes what the boot loader has begun. -/
namespace JosKernel.Kern
open JosKernel.Inc JosKernel.General JosKernel.Boot JosKernel.Lib Block

def elfSegments (image : Nat → UInt8) : List (Proghdr × UInt32) :=
  (List.range (phnum image).toNat).map fun index =>
    (loadProghdr (page image) (elfhdr + phoff image + 32 * UInt32.ofNat index),
      load32 (page image) (elfhdr + phoff image + 32 * UInt32.ofNat index + 16))

def elfByte (image : Nat → UInt8) (seg : Proghdr × UInt32) (i : Nat) : UInt8 :=
  if i < seg.2.toNat then image (seg.1.offset.toNat + i) else 0

theorem elfSegments_fst (image : Nat → UInt8) :
    (elfSegments image).map Prod.fst = segments image := by
  rw [elfSegments, List.map_map]
  rfl

theorem mem_segments {image : Nat → UInt8} {seg : Proghdr × UInt32}
    (h : seg ∈ elfSegments image) : seg.1 ∈ segments image := by
  rw [← elfSegments_fst]
  exact List.mem_map_of_mem h

structure Layout where
  pgdir : UInt32
  pgtable : UInt32
  edata : UInt32
  stop : UInt32

def Layout.inBss (l : Layout) (pa : UInt32) : Bool := l.edata ≤ pa + kernbase ∧ pa + kernbase < l.stop

def Holds (image : Nat → UInt8) (l : Layout) (mem : Memory) : Prop :=
  ∀ seg ∈ elfSegments image, ∀ i < seg.1.memsz.toNat, l.inBss (seg.1.pa + UInt32.ofNat i) = false →
    mem (seg.1.pa + UInt32.ofNat i) = elfByte image seg i

/-- What the linker script makes: the kernel is in the 4MB that `entry.S` maps, the file has
all of it but the BSS and zeros there, and the page tables are in the file. -/
structure KernelImage (image : Nat → UInt8) (l : Layout) : Prop extends Linked image where
  window : kernbase ≤ l.edata ∧ l.edata ≤ l.stop ∧ l.stop ≤ kernbase + 0x400000
  inside : ∀ seg ∈ elfSegments image, seg.1.pa.toNat + seg.1.memsz.toNat ≤ 0x400000
  bss : ∀ seg ∈ elfSegments image, ∀ i < seg.1.memsz.toNat,
    l.inBss (seg.1.pa + UInt32.ofNat i) = true → elfByte image seg i = 0
  file : ∀ seg ∈ elfSegments image, ∀ i < seg.1.memsz.toNat,
    l.inBss (seg.1.pa + UInt32.ofNat i) = false → i < seg.2.toNat
  tables : ∀ mem, Holds image l mem → Loaded (load32 mem) l.pgdir l.pgtable

/-- A load by the kernel, through the page tables as they are. `none` is a page fault. -/
def loadByte (pgdir : UInt32) (mem : Memory) (va : UInt32) : Option UInt8 :=
  (walk (load32 mem) (reloc pgdir) va).map fun entry => mem entry.1

def storeByte (pgdir : UInt32) (mem : Memory) (va : UInt32) (byte : UInt8) :
    Option Memory :=
  match walk (load32 mem) (reloc pgdir) va with
  | some (pa, true) => some (Function.update mem pa byte)
  | _ => none

/-- The stores of `memset(va, 0, n)` in their order. -/
def clear (pgdir : UInt32) : Nat → UInt32 → Memory → Option Memory
  | 0, _, mem => some mem
  | n + 1, va, mem => do
    let mem ← storeByte pgdir mem va 0
    clear pgdir n (va + 1) mem

theorem walk_high {memory : UInt32 → UInt32} {pgdir pgtable : UInt32}
    (h : Loaded memory pgdir pgtable) {la : UInt32} (hlo : kernbase ≤ la)
    (hhi : la < kernbase + 0x400000) : walk memory (reloc pgdir) la = some (la - kernbase, true) := by
  have hbase : kernbase.toNat = 4026531840 := by decide
  have hlo' : kernbase.toNat ≤ la.toNat := UInt32.le_iff_toNat_le.mp hlo
  have hhi' : la.toNat < 4030726144 := UInt32.lt_iff_toNat_lt.mp hhi
  have hdirectory := h.directory la
  rw [if_pos (show la.toNat / 2 ^ 22 = 960 by omega)] at hdirectory
  have hpa : UInt32.ofNat (la.toNat % 2 ^ 22) = la - kernbase := by
    apply UInt32.toNat_inj.mp
    rw [UInt32.toNat_sub_of_le _ _ hlo, UInt32.toNat_ofNat_of_lt' (show _ < 2 ^ 32 by omega)]
    omega
  rw [h.walk_table la (hdirectory ▸ writable_entry h.pgtable_aligned), hpa]

theorem Holds.update {image : Nat → UInt8} {l : Layout} {mem : Memory} (h : Holds image l mem)
    {va : UInt32} (hlo : l.edata ≤ va) (hhi : va < l.stop) :
    Holds image l (Function.update mem (va - kernbase) 0) := by
  intro seg hseg i hi hout
  have hne : seg.1.pa + UInt32.ofNat i ≠ va - kernbase := by
    intro heq
    have hva : seg.1.pa + UInt32.ofNat i + kernbase = va := by rw [heq, UInt32.sub_add_cancel]
    rw [Layout.inBss, hva] at hout
    simp [hlo, hhi] at hout
  rw [Function.update_of_ne hne]
  exact h seg hseg i hi hout

def InPage (page address : UInt32) : Prop :=
  page.toNat ≤ address.toNat ∧ address.toNat < page.toNat + 4096

theorem load32_congr {mem mem' : UInt32 → UInt8} {address : UInt32}
    (h : ∀ k < 4, mem' (address + UInt32.ofNat k) = mem (address + UInt32.ofNat k)) :
    load32 mem' address = load32 mem address := by
  have h₀ : mem' address = mem address := by simpa using h 0 (by decide)
  have h₁ : mem' (address + 1) = mem (address + 1) := h 1 (by decide)
  have h₂ : mem' (address + 2) = mem (address + 2) := h 2 (by decide)
  have h₃ : mem' (address + 2 + 1) = mem (address + 2 + 1) := by
    have hthree : address + 2 + 1 = address + UInt32.ofNat 3 := by rw [UInt32.add_assoc]; rfl
    rw [hthree]
    exact h 3 (by decide)
  simp only [load32, load16, h₀, h₁, h₂, h₃]

theorem inPage_word {page : UInt32} (hpage : page.toNat % 2 ^ 12 = 0) {i : Nat} (hi : i < 1024)
    {k : Nat} (hk : k < 4) : InPage page (page + 4 * UInt32.ofNat i + UInt32.ofNat k) := by
  have hlt := page.toNat_lt
  have hword : page + 4 * UInt32.ofNat i = page + UInt32.ofNat (4 * i) := by
    rw [UInt32.ofNat_mul]
    rfl
  have haddress := @toNat_offset page (4 * i + k) (by omega)
  rw [hword, offset_add, InPage, haddress]
  omega

theorem Loaded.congr {mem mem' : UInt32 → UInt8} {pgdir pgtable : UInt32}
    (h : Loaded (load32 mem) pgdir pgtable) (hmem : ∀ address,
      InPage (reloc pgdir) address ∨ InPage (reloc pgtable) address → mem' address = mem address) :
    Loaded (load32 mem') pgdir pgtable := by
  have hpgdir {i : Nat} (hi : i < npdentries) : load32 mem' (reloc pgdir + 4 * UInt32.ofNat i) =
      load32 mem (reloc pgdir + 4 * UInt32.ofNat i) := load32_congr fun k hk =>
    hmem _ (.inl (inPage_word (reloc_aligned h.pgdir_aligned) hi hk))
  have hpgtable {i : Nat} (hi : i < nptentries) : load32 mem' (reloc pgtable + 4 * UInt32.ofNat i) =
      load32 mem (reloc pgtable + 4 * UInt32.ofNat i) := load32_congr fun k hk =>
    hmem _ (.inr (inPage_word (reloc_aligned h.pgtable_aligned) hi hk))
  exact ⟨h.pgdir_aligned, h.pgtable_aligned,
    fun i hi => (h.pgdir_entry i hi).trans (congrArg some (hpgdir hi).symm),
    fun i hi => (h.pgtable_entry i hi).trans (congrArg some (hpgtable hi).symm)⟩

section
variable {image : Nat → UInt8} {l : Layout} (h : KernelImage image l) {mem mem' : Memory}
  (hmem : Holds image l mem) (hpages : ∀ address,
    InPage (reloc l.pgdir) address ∨ InPage (reloc l.pgtable) address → mem' address = mem address)
include h hmem hpages

theorem KernelImage.store {va : UInt32} (hlo : l.edata ≤ va) (hhi : va < l.stop) (byte : UInt8) :
    storeByte l.pgdir mem' va byte = some (Function.update mem' (va - kernbase) byte) := by
  obtain ⟨hbase, -, hend⟩ := h.window
  have hwalk := walk_high ((h.tables mem hmem).congr hpages) (UInt32.le_trans hbase hlo)
    (UInt32.lt_of_lt_of_le hhi hend)
  rw [storeByte, hwalk]

/-- No store of `memset` faults, and the kernel stays as it is around it. Only the page tables
have to be there. -/
theorem KernelImage.clear {n : Nat} {va : UInt32} (hlo : l.edata ≤ va)
    (hhi : va.toNat + n ≤ l.stop.toNat) :
    Kern.clear l.pgdir n va mem' = some (fill mem' (va - kernbase) n fun _ => 0) ∧
      Holds image l (fill mem (va - kernbase) n fun _ => 0) := by
  induction n generalizing mem mem' va with
  | zero =>
    rw [fill_zero, fill_zero]
    exact ⟨rfl, hmem⟩
  | succ n ih =>
    have hstop := l.stop.toNat_lt
    have hva : va < l.stop := UInt32.lt_iff_toNat_lt.mpr (by omega)
    have hnext : (va + 1).toNat = va.toNat + 1 :=
      toNat_add_of_lt (show va.toNat + 1 < 2 ^ 32 by omega)
    have hle : va ≤ va + 1 := UInt32.le_iff_toNat_le.mpr (by omega)
    have hrest := @ih _ (Function.update mem' (va - kernbase) 0) (hmem.update hlo hva)
      (fun address hpage => by simp only [Function.update_apply, hpages address hpage]) (va + 1)
      (UInt32.le_trans hlo hle) (by omega)
    have hsplit (mem : Memory) : fill (Function.update mem (va - kernbase) 0) (va + 1 - kernbase) n
        (fun _ => 0) = fill mem (va - kernbase) (n + 1) fun _ => 0 := by
      have happend := fill_append mem (va - kernbase) (fun _ => (0 : UInt8)) (n := 1) (k := n)
        (by omega)
      have hone : va - kernbase + UInt32.ofNat 1 = va + 1 - kernbase := by grind
      rw [fill_one, hone, Nat.add_comm] at happend
      exact happend
    rw [hsplit, hsplit] at hrest
    refine ⟨?_, hrest.2⟩
    rw [Kern.clear, h.store hmem hpages hlo hva]
    exact hrest.1

end

section
variable {image : Nat → UInt8} {l : Layout} (h : KernelImage image l)
include h

theorem KernelImage.bss_end : l.edata.toNat + (l.stop - l.edata).toNat ≤ l.stop.toNat := by
  obtain ⟨-, hle, -⟩ := h.window
  have hle' : l.edata.toNat ≤ l.stop.toNat := UInt32.le_iff_toNat_le.mp hle
  rw [UInt32.toNat_sub_of_le _ _ hle]
  omega

theorem KernelImage.fill_bss (mem : Memory) (pa : UInt32) :
    fill mem (l.edata - kernbase) (l.stop - l.edata).toNat (fun _ => 0) pa =
      if l.inBss pa then 0 else mem pa := by
  obtain ⟨-, hle, -⟩ := h.window
  have hle' : l.edata.toNat ≤ l.stop.toNat := UInt32.le_iff_toNat_le.mp hle
  have hsize : (l.stop - l.edata).toNat = l.stop.toNat - l.edata.toNat :=
    UInt32.toNat_sub_of_le _ _ hle
  have hoffset : pa - (l.edata - kernbase) = pa + kernbase - l.edata := by grind
  have hiff : (pa + kernbase - l.edata).toNat < (l.stop - l.edata).toNat ↔
      l.edata ≤ pa + kernbase ∧ pa + kernbase < l.stop := by
    have hva := (pa + kernbase).toNat_lt
    have hstop := l.stop.toNat_lt
    rw [hsize, UInt32.toNat_sub, UInt32.le_iff_toNat_le, UInt32.lt_iff_toNat_lt]
    omega
  rw [fill, hoffset]
  simp only [hiff, Layout.inBss, decide_eq_true_eq]

omit h in
theorem memset_view (mem : Memory) (cpu : StringInstructions.Cpu) :
    (Asm.memset l.edata 0 (l.stop - l.edata)
      { cpu with mem := fun va => mem (va - kernbase) }).2.mem = fun va =>
        fill mem (l.edata - kernbase) (l.stop - l.edata).toNat (fun _ => 0) (va - kernbase) := by
  rw [Asm.memset_eq]
  funext va
  have hoffset : va - kernbase - (l.edata - kernbase) = va - l.edata := by grind
  rw [fill, fill, hoffset]
  rfl

theorem KernelImage.loadByte {mem : Memory} (htables : Loaded (load32 mem) l.pgdir l.pgtable)
    {seg : Proghdr × UInt32} (hseg : seg ∈ elfSegments image) {i : Nat} (hi : i < seg.1.memsz.toNat) :
    Kern.loadByte l.pgdir mem (kernbase + seg.1.pa + UInt32.ofNat i) =
      some (mem (seg.1.pa + UInt32.ofNat i)) := by
  have hinside := h.inside seg hseg
  have hpa : (seg.1.pa + UInt32.ofNat i).toNat = seg.1.pa.toNat + i := toNat_offset (by omega)
  have hva : (kernbase + seg.1.pa + UInt32.ofNat i).toNat = 4026531840 + (seg.1.pa.toNat + i) := by
    rw [UInt32.add_assoc, UInt32.toNat_add, hpa]
    exact Nat.mod_eq_of_lt (show 4026531840 + (seg.1.pa.toNat + i) < 2 ^ 32 by omega)
  have hback : kernbase + seg.1.pa + UInt32.ofNat i - kernbase = seg.1.pa + UInt32.ofNat i := by grind
  have hlo : kernbase ≤ kernbase + seg.1.pa + UInt32.ofNat i :=
    UInt32.le_iff_toNat_le.mpr (hva ▸ show 4026531840 ≤ _ by omega)
  have hhi : kernbase + seg.1.pa + UInt32.ofNat i < kernbase + 0x400000 :=
    UInt32.lt_iff_toNat_lt.mpr (hva ▸ show _ < 4030726144 by omega)
  rw [Kern.loadByte, walk_high htables hlo hhi, hback]
  rfl

/-- What the boot loader leaves. -/
theorem KernelImage.loaded {mem : Memory}
    (hmem : ∀ seg ∈ segments image, ∀ i, i < seg.memsz.toNat →
      mem (seg.pa + UInt32.ofNat i) = image (seg.offset.toNat + i)) : Holds image l mem := by
  intro seg hseg i hi hout
  rw [hmem seg.1 (mem_segments hseg) i hi, elfByte, if_pos (h.file seg hseg i hi hout)]

end

/-- What may have changed since the kernel was loaded: anything but the page tables. -/
def OffTables (l : Layout) (changed : UInt32 → Prop) : Prop :=
  ∀ pa, InPage (reloc l.pgdir) pa ∨ InPage (reloc l.pgtable) pa → ¬changed pa

section
variable {image : Nat → UInt8} {l : Layout} (h : KernelImage image l) {mem mem' : Memory}
  (hmem : Holds image l mem) {changed : UInt32 → Prop} (hoff : OffTables l changed)
  (hagrees : ∀ pa, ¬changed pa → mem' pa = mem pa)
include h hmem hoff hagrees

theorem KernelImage.clears {n : Nat} (hn : n ≤ (l.stop - l.edata).toNat) :
    Kern.clear l.pgdir n l.edata mem' = some (fill mem' (l.edata - kernbase) n fun _ => 0) ∧
      Loaded (load32 (fill mem' (l.edata - kernbase) n fun _ => 0)) l.pgdir l.pgtable := by
  have hend := h.bss_end
  have hpages : ∀ pa, InPage (reloc l.pgdir) pa ∨ InPage (reloc l.pgtable) pa → mem' pa = mem pa :=
    fun pa hpa => hagrees pa (hoff pa hpa)
  have hcleared := @KernelImage.clear _ _ h _ _ hmem hpages n _ (UInt32.le_refl l.edata) (by omega)
  refine ⟨hcleared.1, (h.tables _ hcleared.2).congr fun pa hpa => ?_⟩
  rw [fill, fill, hpages pa hpa]

/-- `memset` completes the kernel around whatever has changed. -/
theorem KernelImage.completed :
    ∃ after, Kern.clear l.pgdir (l.stop - l.edata).toNat l.edata mem' = some after ∧
      (∀ cpu : StringInstructions.Cpu, (Asm.memset l.edata 0 (l.stop - l.edata)
        { cpu with mem := fun va => mem' (va - kernbase) }).2.mem =
          fun va => after (va - kernbase)) ∧
      (∀ pa, after pa = if l.inBss pa then 0 else mem' pa) ∧
      ∀ seg ∈ elfSegments image, ∀ i < seg.1.memsz.toNat, ¬changed (seg.1.pa + UInt32.ofNat i) →
        Kern.loadByte l.pgdir after (kernbase + seg.1.pa + UInt32.ofNat i) =
          some (elfByte image seg i) := by
  obtain ⟨hclear, htables⟩ := h.clears hmem hoff hagrees (Nat.le_refl _)
  have hfill := h.fill_bss mem'
  refine ⟨_, hclear, memset_view mem', hfill, fun seg hseg i hi hsame => ?_⟩
  refine (h.loadByte htables hseg hi).trans (congrArg some ?_)
  rw [hfill]
  cases hbss : l.inBss (seg.1.pa + UInt32.ofNat i) with
  | true => exact (h.bss seg hseg i hi hbss).symm
  | false => exact (hagrees _ hsame).trans (hmem seg hseg i hi hbss)

end

/-- Loading the kernel is complete when `memset` returns: each of its stores goes through the
page tables of the kernel itself, which stay as they are, and the kernel finds every byte of
every segment above `KERNBASE` as the ELF file asks for it, but for what it has changed before,
such as its stack. -/
theorem kernel_complete (disk : Disk) {l : Layout} (h : KernelImage (image disk) l)
    {changed : UInt32 → Prop} (hoff : OffTables l changed) (m : Machine) :
    ∃ m', bootmain disk m = .ok (some (entryOf (image disk)), m') ∧
      ∀ mem : Memory, (∀ pa, ¬changed pa → mem pa = m'.mem pa) →
        (∀ n ≤ (l.stop - l.edata).toNat, ∃ after, clear l.pgdir n l.edata mem = some after ∧
          Loaded (load32 after) l.pgdir l.pgtable) ∧
        ∃ after, clear l.pgdir (l.stop - l.edata).toNat l.edata mem = some after ∧
          (∀ cpu : StringInstructions.Cpu, (Asm.memset l.edata 0 (l.stop - l.edata)
            { cpu with mem := fun va => mem (va - kernbase) }).2.mem =
              fun va => after (va - kernbase)) ∧
          (∀ pa, after pa = if l.inBss pa then 0 else mem pa) ∧
          ∀ seg ∈ elfSegments (image disk), ∀ i < seg.1.memsz.toNat,
            ¬changed (seg.1.pa + UInt32.ofNat i) →
              loadByte l.pgdir after (kernbase + seg.1.pa + UInt32.ofNat i) =
                some (elfByte (image disk) seg i) := by
  obtain ⟨m', hrun, hmem⟩ := bootmain_linked disk h.toLinked m
  refine ⟨m', hrun, fun mem hagrees => ⟨fun n hn => ?_, ?_⟩⟩
  · exact ⟨_, h.clears (h.loaded hmem) hoff hagrees hn⟩
  · exact h.completed (h.loaded hmem) hoff hagrees

theorem load16_toNat (mem : Memory) (address : UInt32) :
    (load16 mem address).toNat = (mem address).toNat + 256 * (mem (address + 1)).toNat := by
  have hlow := (mem address).toNat_lt
  have hhigh := (mem (address + 1)).toNat_lt
  rw [load16, UInt32.toNat_add, UInt32.toNat_shiftLeft, Nat.shiftLeft_eq, UInt8.toNat_toUInt32,
    UInt8.toNat_toUInt32]
  change (_ + _ * 2 ^ 8 % 2 ^ 32) % 2 ^ 32 = _
  omega

theorem load32_registerByte {mem : Memory} {address word : UInt32}
    (h : ∀ k < 4, mem (address + UInt32.ofNat k) = StringInstructions.registerByte word k) :
    load32 mem address = word := by
  have hbyte {k : Nat} (hk : k < 4) {at' : UInt32} (hat : address + UInt32.ofNat k = at') :
      (mem at').toNat = word.toNat / 2 ^ (8 * k) % 2 ^ 8 := by
    rw [← hat, h k hk, registerByte_toNat word hk]
  have h0 := hbyte (show 0 < 4 by decide) (UInt32.add_zero address)
  have h1 : (mem (address + 1)).toNat = _ := hbyte (show 1 < 4 by decide) rfl
  have h2 : (mem (address + 2)).toNat = _ := hbyte (show 2 < 4 by decide) rfl
  have h3 : (mem (address + 2 + 1)).toNat = _ := hbyte (show 3 < 4 by decide) (by grind)
  have hword := word.toNat_lt
  apply UInt32.toNat_inj.mp
  rw [load32, UInt32.toNat_add, UInt32.toNat_shiftLeft, Nat.shiftLeft_eq, load16_toNat, load16_toNat]
  change (_ + _ * 2 ^ 16 % 2 ^ 32) % 2 ^ 32 = _
  omega

def wordsImage (entry : UInt32) (seg : Proghdr) (words : List UInt32) (index : Nat) : UInt8 :=
  if index < 0x1000 then
    if 24 ≤ index ∧ index < 28 then StringInstructions.registerByte entry (index - 24)
    else (elfHeaders [seg]).getD index 0
  else StringInstructions.registerByte (words.getD ((index - 0x1000) / 4) 0) (index % 4)

structure TablesFirst (image : Nat → UInt8) (l : Layout) (entry : UInt32) (seg : Proghdr)
    (words : List UInt32) : Prop where
  file : image = wordsImage entry seg words
  segments : elfSegments image = [(seg, seg.memsz)]
  linked : Linked image
  offset : seg.offset = 0x1000
  pa : seg.pa = 0x100000
  bss : l.edata ≤ l.stop ∧ 0xF0100000 + 4 * words.length ≤ l.edata.toNat
  stop : l.stop.toNat = 0xF0100000 + seg.memsz.toNat
  size : seg.memsz.toNat ≤ 0x300000
  pgdir : l.pgdir = 0xF0100000
  pgtable : l.pgtable = 0xF0101000
  tables : ∃ rest, words = entryPgdir 0xF0101000 ++ entryPgtable ++ rest

theorem length_entryPgdir (pgtable : UInt32) : (entryPgdir pgtable).length = 1024 := by
  rw [entryPgdir, List.length_set, List.length_set, List.length_replicate]
  rfl

theorem length_entryPgtable : entryPgtable.length = 1024 := by
  rw [entryPgtable_eq, List.length_map, List.length_range]
  rfl

section
variable {image : Nat → UInt8} {l : Layout} {entry : UInt32} {seg : Proghdr} {words : List UInt32}
  (h : TablesFirst image l entry seg words)
include h

theorem TablesFirst.inBss {i : Nat} (hi : i < seg.memsz.toNat) :
    l.inBss (seg.pa + UInt32.ofNat i) = decide (l.edata.toNat ≤ 0xF0100000 + i) := by
  have hsize := h.size
  have hstop := h.stop
  have hbase : seg.pa.toNat = 0x100000 := congrArg UInt32.toNat h.pa
  have hpa : (seg.pa + UInt32.ofNat i + kernbase).toNat = 0xF0100000 + i := by
    rw [UInt32.toNat_add, toNat_offset (by omega), hbase]
    change (0x100000 + i + 4026531840) % 2 ^ 32 = _
    omega
  refine decide_eq_decide.mpr ?_
  rw [UInt32.le_iff_toNat_le, UInt32.lt_iff_toNat_lt, hpa]
  omega

theorem TablesFirst.elfByte {i : Nat} (hi : i < seg.memsz.toNat) :
    Kern.elfByte image (seg, seg.memsz) i =
      StringInstructions.registerByte (words.getD (i / 4) 0) (i % 4) := by
  have hindex : 0x1000 + i - 0x1000 = i := by omega
  have hplace : (0x1000 + i) % 4 = i % 4 := by omega
  rw [Kern.elfByte, if_pos hi, h.offset, h.file]
  change wordsImage entry seg words (0x1000 + i) = _
  rw [wordsImage, if_neg (by omega), hindex, hplace]

theorem TablesFirst.byte {mem : Memory} (hmem : Holds image l mem) {i : Nat}
    (hi : 0xF0100000 + i < l.edata.toNat) : mem (0x100000 + UInt32.ofNat i) =
      StringInstructions.registerByte (words.getD (i / 4) 0) (i % 4) := by
  have hstop := h.stop
  have hle := UInt32.le_iff_toNat_le.mp h.bss.1
  have hsize : i < seg.memsz.toNat := by omega
  have hbyte := hmem (seg, seg.memsz) (h.segments ▸ List.mem_singleton_self _) i hsize (by
    rw [h.inBss hsize]
    exact decide_eq_false (by omega))
  rw [h.elfByte hsize] at hbyte
  rw [← h.pa]
  exact hbyte

theorem TablesFirst.word {mem : Memory} (hmem : Holds image l mem) {i : Nat}
    (hi : i < words.length) :
    load32 mem (0x100000 + UInt32.ofNat (4 * i)) = words.getD i 0 := by
  have hbss := h.bss.2
  apply load32_registerByte
  intro k hk
  have hword : (4 * i + k) / 4 = i := by omega
  have hplace : (4 * i + k) % 4 = k := by omega
  have hbyte := h.byte hmem (show 0xF0100000 + (4 * i + k) < _ by omega)
  rw [hword, hplace] at hbyte
  rw [offset_add]
  exact hbyte

theorem TablesFirst.loaded {mem : Memory} (hmem : Holds image l mem) :
    Loaded (load32 mem) l.pgdir l.pgtable := by
  obtain ⟨rest, htables⟩ := h.tables
  have hpgdir := length_entryPgdir 0xF0101000
  have hpgtable := length_entryPgtable
  have hlength : words.length = 2048 + rest.length := by
    rw [htables, List.length_append, List.length_append, hpgdir, hpgtable]
  rw [h.pgdir, h.pgtable]
  refine ⟨by decide, by decide, fun i hi => ?_, fun i hi => ?_⟩
  · have hlt : i < 1024 := hi
    have hword := h.word hmem (show i < words.length by omega)
    have haddress : reloc 0xF0100000 + 4 * UInt32.ofNat i = 0x100000 + UInt32.ofNat (4 * i) := by
      rw [UInt32.ofNat_mul]
      rfl
    rw [haddress, hword, htables, List.append_assoc, List.getD_append _ _ _ _ (by omega),
      List.getD_eq_getElem?_getD, entryPgdir_get _ hi]
    rfl
  · have hlt : i < 1024 := hi
    have hword := h.word hmem (show 1024 + i < words.length by omega)
    have haddress : reloc 0xF0101000 + 4 * UInt32.ofNat i =
        0x100000 + UInt32.ofNat (4 * (1024 + i)) := by
      rw [Nat.mul_add, UInt32.ofNat_add, UInt32.ofNat_mul 4 i, ← UInt32.add_assoc]
      rfl
    rw [haddress, hword, htables, List.append_assoc, List.getD_append_right _ _ _ _ (by omega),
      hpgdir, Nat.add_sub_cancel_left, List.getD_append _ _ _ _ (by omega),
      List.getD_eq_getElem?_getD, entryPgtable_get hi]
    rfl

theorem TablesFirst.kernel : KernelImage image l where
  toLinked := h.linked
  window := by
    obtain ⟨hle, hedata⟩ := h.bss
    have hstop := h.stop
    have hsize := h.size
    refine ⟨UInt32.le_iff_toNat_le.mpr (show 4026531840 ≤ _ by omega), hle,
      UInt32.le_iff_toNat_le.mpr (show _ ≤ 4030726144 by omega)⟩
  inside := by
    rw [h.segments]
    rintro other hother
    have hbase : seg.pa.toNat = 0x100000 := congrArg UInt32.toNat h.pa
    have hsize := h.size
    rw [List.mem_singleton.mp hother]
    show seg.pa.toNat + seg.memsz.toNat ≤ 0x400000
    omega
  bss := by
    rw [h.segments]
    rintro other hother i hi hbss
    rw [List.mem_singleton.mp hother] at hi hbss ⊢
    rw [h.inBss hi] at hbss
    have hbeyond := of_decide_eq_true hbss
    have hedata := h.bss.2
    have hlength : words.length ≤ i / 4 := by omega
    rw [h.elfByte hi, List.getD_eq_default _ _ hlength]
    apply UInt8.toNat_inj.mp
    rw [registerByte_toNat 0 (Nat.mod_lt i (by decide))]
    exact congrArg (· % 2 ^ 8) (Nat.zero_div _)
  file := by
    rw [h.segments]
    rintro other hother i hi -
    rw [List.mem_singleton.mp hother] at hi ⊢
    exact hi
  tables := fun _ => h.loaded

end

def tables : Proghdr := ⟨0x1000, 0x100000, 0x2100⟩

def tablesLayout : Layout := ⟨0xF0100000, 0xF0101000, 0xF0102080, 0xF0102100⟩

def tablesWords : List UInt32 := entryPgdir tablesLayout.pgtable ++ entryPgtable

def tablesImage : Nat → UInt8 := wordsImage 0 tables tablesWords

def tablesDisk : Disk := readyDisk fun index => tablesImage (index - sectSize)

theorem image_tablesDisk : image tablesDisk = tablesImage := by
  funext index
  simp only [image, tablesDisk, readyDisk, Nat.add_sub_cancel_left]

theorem elfSegments_tables : elfSegments tablesImage = [(tables, 0x2100)] := by decide

theorem tables_linked : Linked tablesImage := by
  have hsegments : segments tablesImage = [tables] := by
    rw [← elfSegments_fst, elfSegments_tables]
    rfl
  refine ⟨⟨by decide, by decide, ?_, ?_, ?_⟩, ?_, ?_, ?_⟩ <;> rw [hsegments] <;> decide

theorem tables_kernel : KernelImage tablesImage tablesLayout := by
  have hlength : tablesWords.length = 2048 := by
    rw [tablesWords, List.length_append, length_entryPgdir, length_entryPgtable]
  exact TablesFirst.kernel ⟨rfl, elfSegments_tables, tables_linked, rfl, rfl,
    ⟨by decide, by rw [hlength]; decide⟩, rfl, by decide, rfl, rfl, [], (List.append_nil _).symm⟩

def TablesChanged (pa : UInt32) : Prop :=
  pa.toNat < 0x100000 ∨ 0x102000 ≤ pa.toNat ∧ pa.toNat < 0x102080

theorem tables_offTables : OffTables tablesLayout TablesChanged := by
  have hpgdir : (reloc tablesLayout.pgdir).toNat = 0x100000 := rfl
  have hpgtable : (reloc tablesLayout.pgtable).toNat = 0x101000 := rfl
  rintro pa hpa hchanged
  unfold InPage at hpa
  unfold TablesChanged at hchanged
  omega

theorem kernel_complete_tables :
    ∃ m', bootmain tablesDisk .zeroed = .ok (some (entryOf (image tablesDisk)), m') ∧
      ∀ mem : Memory, (∀ pa, ¬TablesChanged pa → mem pa = m'.mem pa) →
        (∀ n ≤ ((0xF0102100 - 0xF0102080 : UInt32)).toNat, ∃ after,
          clear 0xF0100000 n 0xF0102080 mem = some after ∧
            Loaded (load32 after) 0xF0100000 0xF0101000) ∧
        ∃ after, clear 0xF0100000 ((0xF0102100 - 0xF0102080 : UInt32)).toNat 0xF0102080 mem =
            some after ∧
          (∀ cpu : StringInstructions.Cpu, (Asm.memset 0xF0102080 0 (0xF0102100 - 0xF0102080)
            { cpu with mem := fun va => mem (va - kernbase) }).2.mem =
              fun va => after (va - kernbase)) ∧
          (∀ pa, after pa = if tablesLayout.inBss pa then 0 else mem pa) ∧
          ∀ seg ∈ elfSegments (image tablesDisk), ∀ i < seg.1.memsz.toNat,
            ¬TablesChanged (seg.1.pa + UInt32.ofNat i) →
              loadByte 0xF0100000 after (kernbase + seg.1.pa + UInt32.ofNat i) =
                some (elfByte (image tablesDisk) seg i) :=
  @kernel_complete tablesDisk tablesLayout (image_tablesDisk ▸ tables_kernel) TablesChanged
    tables_offTables .zeroed

end JosKernel.Kern
