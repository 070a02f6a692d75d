import JosKernel.Boot.BootBlock
import JosKernel.Kern.Entry

/-! The start of the kernel: from the boot loader's call to the end of the `memset` in
`i386_init`. -/
namespace JosKernel.Kern
open JosKernel.Inc JosKernel.General JosKernel.Boot JosKernel.Lib MachineCode Assembly BitFields
  Block

/-- A kernel with `entry.S` where the linker has put it, from 1MB on and in front of the BSS. -/
structure EntryImage (image : Nat → UInt8) (l : Layout) (symbol : EntryLabel → UInt32) : Prop
    extends KernelImage image l where
  header : entryOf image = symbol .start
  pgdir : l.pgdir = symbol .entryPgdir
  extended : ∀ seg ∈ segments image, seg.memsz = 0 ∨ 0x100000 ≤ seg.pa.toNat
  placed : TablesPlaced symbol l.pgtable 0x100000 (reloc l.edata).toNat
  text : ∃ address, ∀ mem, Holds image l mem →
    Placed mem 0x100000 (reloc l.edata).toNat symbol kernbase true address (entryText symbol)
  data : ∃ address, ∀ mem, Holds image l mem →
    Placed mem 0x100000 (reloc l.edata).toNat symbol kernbase true address entryData

/-- The processor at the entry point: `bootmain` has changed the memory, and other than that only
the general registers and the ports. -/
structure Handed (c : Cpu) (m : Machine) (c' : Cpu) : Prop where
  segs : c'.segs = c.segs
  cr0 : c'.cr0 = c.cr0
  a20 : c'.controller.a20 = c.controller.a20
  mem : ∀ pa : UInt32, 0x100000 ≤ pa.toNat → c'.mem pa = m.mem pa

def OnStack (symbol : EntryLabel → UInt32) (pa : UInt32) : Prop :=
  (reloc (symbol .bootstack)).toNat ≤ pa.toNat ∧ pa.toNat < (reloc (symbol .bootstacktop)).toNat

def Changed (symbol : EntryLabel → UInt32) (pa : UInt32) : Prop :=
  pa.toNat < 0x100000 ∨ OnStack symbol pa

theorem Handed.flat {c' : Cpu} {m : Machine} {c'' : Cpu} (h : Handed c' m c'')
    {symbol : StartLabel → UInt32} {c : Cpu} (hcalled : Called symbol c c')
    (hpaging : c.cr0 &&& cr0PG = 0) : FlatSegments c'' where
  cs := by rw [h.segs, hcalled.cs]
  ds := by rw [h.segs, hcalled.data .ds (by decide)]
  ss := by rw [h.segs, hcalled.data .ss (by decide)]
  unpaged := by rw [h.cr0, hcalled.cr0, unpaged_protected hpaging]
  a20 := h.a20.trans hcalled.a20

section
variable {image : Nat → UInt8} {l : Layout} {symbol : EntryLabel → UInt32}
  (h : EntryImage image l symbol) {mem : Memory}
include h

theorem EntryImage.above {seg : Proghdr × UInt32} (hseg : seg ∈ elfSegments image) {i : Nat}
    (hi : i < seg.1.memsz.toNat) : 0x100000 ≤ (seg.1.pa + UInt32.ofNat i).toNat := by
  have hinside := h.inside seg hseg
  have hnonempty : ¬seg.1.memsz = 0 := by
    intro hempty
    rw [hempty] at hi
    exact absurd hi (Nat.not_lt_zero i)
  have habove := (h.extended seg.1 (mem_segments hseg)).resolve_left hnonempty
  rw [toNat_offset (by omega)]
  omega

theorem EntryImage.handed {disk : Disk} (himage : Boot.image disk = image) {c c' : Cpu} {m : Machine}
    {entry : Option UInt32} (hrun : bootmain disk c.toMachine = .ok (entry, m))
    (hhanded : Handed c m c') : entry = some (symbol .start) ∧ Holds image l c'.mem := by
  obtain ⟨m', hrun', hmem⟩ := bootmain_linked disk (himage ▸ h.toLinked) c.toMachine
  have heq := Except.ok.inj (hrun.symm.trans hrun')
  have hm : m = m' := congrArg Prod.snd heq
  rw [← hm, himage] at hmem
  refine ⟨(congrArg Prod.fst heq).trans (by rw [himage, h.header]), fun seg hseg i hi hout => ?_⟩
  rw [hhanded.mem _ (h.above hseg hi)]
  exact h.toKernelImage.loaded hmem seg hseg i hi hout

theorem EntryImage.offTables : OffTables l (Changed symbol) := by
  have hplaced := h.placed
  intro pa hpa hchanged
  rw [h.pgdir] at hpa
  unfold Changed OnStack at hchanged
  rcases hpa with ⟨hfirst, hlast⟩ | ⟨hfirst, hlast⟩
  · have habove := hplaced.above _ (.head _)
    have hapart := hplaced.apart _ (.head _)
    omega
  · have habove := hplaced.above _ (.tail _ (.head _))
    have hapart := hplaced.apart _ (.tail _ (.head _))
    omega

end

/-- The kernel starts: from the call of the boot loader it gets to `i386_init` with paging on, and
the `memset` there completes it above `KERNBASE`, whatever the frames on the boot stack are. -/
theorem kernel_starts (disk : Disk) {boot : StartLabel → UInt32} {symbol : EntryLabel → UInt32}
    {l : Layout} (h : EntryImage (image disk) l symbol) {c c₁ c₂ : Cpu} {entry : Option UInt32}
    {m : Machine} (hpaging : c.cr0 &&& cr0PG = 0) (hcalled : Called boot c c₁)
    (hrun : bootmain disk c₁.toMachine = .ok (entry, m)) (hhanded : Handed c₁ m c₂) :
    entry = some (symbol .start) ∧
      ∃ c₃, Steps disk.device ⟨symbol .start, c₂⟩ ⟨symbol .i386Init, c₃⟩ ∧
        Entered symbol l.pgtable c₂ c₃ ∧
        ∀ mem : Memory,
          (∀ pa : UInt32, 0x100000 ≤ pa.toNat → ¬OnStack symbol pa → mem pa = c₃.mem pa) →
          (∀ n ≤ (l.stop - l.edata).toNat, ∃ after, clear l.pgdir n l.edata mem = some after ∧
            Loaded (load32 after) l.pgdir l.pgtable) ∧
          ∃ after, clear l.pgdir (l.stop - l.edata).toNat l.edata mem = some after ∧
            (∀ cpu : StringInstructions.Cpu, (Asm.memset l.edata 0 (l.stop - l.edata)
              { cpu with mem := fun va => mem (va - kernbase) }).2.mem =
                fun va => after (va - kernbase)) ∧
            (∀ pa, after pa = if l.inBss pa then 0 else mem pa) ∧
            ∀ seg ∈ elfSegments (image disk), ∀ i < seg.1.memsz.toNat,
              ¬OnStack symbol (seg.1.pa + UInt32.ofNat i) →
                loadByte l.pgdir after (kernbase + seg.1.pa + UInt32.ofNat i) =
                  some (elfByte (image disk) seg i) := by
  obtain ⟨hentry, hholds⟩ := h.handed rfl hrun hhanded
  obtain ⟨_, htext⟩ := h.text
  obtain ⟨_, hdata⟩ := h.data
  have htables := h.tables c₂.mem hholds
  rw [h.pgdir] at htables
  obtain ⟨c₃, hsteps, hentered⟩ := entryS_calls_i386Init disk.device h.placed
    (hhanded.flat hcalled hpaging) htables (htext _ hholds) (hdata _ hholds)
  refine ⟨hentry, c₃, hsteps, hentered, fun mem hsame => ?_⟩
  have hagrees : ∀ pa, ¬Changed symbol pa → mem pa = c₂.mem pa := by
    intro pa hpa
    obtain ⟨habove, hoff⟩ := not_or.mp hpa
    have habove' : 0x100000 ≤ pa.toNat := Nat.le_of_not_lt habove
    obtain ⟨-, htop, -⟩ := stack_bounds h.placed.window (hdata _ hholds)
    have hsize : kstksize = 32768 := rfl
    have hbelow : (reloc (symbol .bootstacktop) - 4).toNat =
        (reloc (symbol .bootstacktop)).toNat - 4 :=
      UInt32.toNat_sub_of_le _ _ (UInt32.le_iff_toNat_le.mpr (show 4 ≤ _ by omega))
    have hlt := (reloc (symbol .bootstacktop)).toNat_lt
    have hoff' := hoff
    rw [OnStack] at hoff'
    rw [hsame pa habove' hoff, hentered.mem, fill_frame _ _ _ (by omega) (by omega),
      warmBoot_high c₂.mem habove']
  constructor
  · exact fun n hn => ⟨_, h.clears hholds h.offTables hagrees hn⟩
  · obtain ⟨after, hclear, hmemset, hafter, hseen⟩ := h.completed hholds h.offTables hagrees
    refine ⟨after, hclear, hmemset, hafter, fun seg hseg i hi hoff => hseen seg hseg i hi ?_⟩
    have habove := h.above hseg hi
    rintro (hlow | hstack)
    · exact absurd habove (Nat.not_le.mpr hlow)
    · exact hoff hstack

def early : Proghdr := ⟨0x1000, 0x100000, 0xB100⟩

def earlyLayout : Layout := ⟨0xF0100000, 0xF0101000, 0xF010B000, 0xF010B100⟩

def earlySymbol : EntryLabel → UInt32
  | .start => 0x10200C
  | .entry => 0xF010200C
  | .relocated => 0xF010202F
  | .spin => 0xF010203E
  | .i386Init => 0xF0102040
  | .entryPgdir => 0xF0100000
  | .bootstack => 0xF0103000
  | .bootstacktop => 0xF010B000

def textWords : List UInt32 :=
  [0x1BADB002, 0x00000000, 0xE4524FFE, 0x7205C766, 0x34000004, 0x0000B812, 0x220F0010, 0xC0200FD8,
    0x0100010D, 0xC0220F80, 0x10202FB8, 0xBDE0FFF0, 0x00000000, 0x10B000BC, 0x0002E8F0, 0xFEEB0000]

def earlyWords : List UInt32 := entryPgdir earlyLayout.pgtable ++ entryPgtable ++ textWords

def earlyImage : Nat → UInt8 := wordsImage (earlySymbol .start) early earlyWords

theorem elfSegments_early : elfSegments earlyImage = [(early, 0xB100)] := by decide

theorem early_linked : Linked earlyImage := by
  have hsegments : segments earlyImage = [early] := by
    rw [← elfSegments_fst, elfSegments_early]
    rfl
  refine ⟨⟨by decide, by decide, ?_, ?_, ?_⟩, ?_, ?_, ?_⟩ <;> rw [hsegments] <;> decide

theorem length_earlyWords : earlyWords.length = 2064 := by
  rw [earlyWords, List.length_append, List.length_append, length_entryPgdir, length_entryPgtable]
  rfl

theorem early_first : TablesFirst earlyImage earlyLayout (earlySymbol .start) early earlyWords :=
  ⟨rfl, elfSegments_early, early_linked, rfl, rfl,
    ⟨by decide, by rw [length_earlyWords]; decide⟩, rfl, by decide, rfl, rfl, textWords, rfl⟩

def earlyByte (pa : UInt32) : UInt8 :=
  StringInstructions.registerByte (earlyWords.getD ((pa.toNat - 0x100000) / 4) 0) (pa.toNat % 4)

theorem early_text : Placed earlyByte 0x100000 0x10B000 earlySymbol kernbase true 0x102000
    (entryText earlySymbol) := by
  decide +kernel

theorem earlyByte_zero {pa : UInt32} (h : 0x102040 ≤ pa.toNat) : earlyByte pa = 0 := by
  have hbeyond : earlyWords.length ≤ (pa.toNat - 0x100000) / 4 := by
    rw [length_earlyWords]
    omega
  rw [earlyByte, List.getD_eq_default _ _ hbeyond]
  apply UInt8.toNat_inj.mp
  rw [registerByte_toNat 0 (Nat.mod_lt _ (by decide))]
  exact congrArg (· % 2 ^ 8) (Nat.zero_div _)

theorem early_data : Placed earlyByte 0x100000 0x10B000 earlySymbol kernbase true 0x102040
    entryData := by
  have haligned : UInt32.ofNat (Multiples.above pgsize.toNat (0x102040 + kernbase).toNat) - kernbase =
      0x103000 := by decide
  refine ⟨by decide, ⟨by decide, by rw [List.length_replicate]; decide, fun k hk => ?_⟩, ?_, trivial⟩
  · have hlt : k < kstksize := (List.length_replicate (n := kstksize) (a := (0 : UInt8))) ▸ hk
    have hsize : kstksize = 32768 := rfl
    have hpa := @toNat_offset 0x103000 k (show 0x103000 + k < 2 ^ 32 by omega)
    rw [List.getElem_replicate, haligned]
    exact earlyByte_zero (hpa ▸ show 0x102040 ≤ 0x103000 + k by omega)
  · rw [List.length_replicate]
    decide

theorem early_memory {mem : Memory} (h : Holds earlyImage earlyLayout mem) (pa : UInt32)
    (hlo : 0x100000 ≤ pa.toNat) (hhi : pa.toNat < 0x10B000) : mem pa = earlyByte pa := by
  have hpa : 0x100000 + UInt32.ofNat (pa.toNat - 0x100000) = pa := by
    apply UInt32.toNat_inj.mp
    rw [@toNat_offset 0x100000 _ (show 0x100000 + _ < 2 ^ 32 by omega)]
    exact Nat.add_sub_cancel' hlo
  have hplace : (pa.toNat - 0x100000) % 4 = pa.toNat % 4 := by omega
  have hbyte := @TablesFirst.byte _ _ _ _ _ early_first mem h (pa.toNat - 0x100000)
    (show 0xF0100000 + _ < 0xF010B000 by omega)
  rw [hpa, hplace] at hbyte
  exact hbyte

theorem entryImage_early : EntryImage earlyImage earlyLayout earlySymbol := by
  have hsegments : segments earlyImage = [early] := by
    rw [← elfSegments_fst, elfSegments_early]
    rfl
  have hend : (reloc earlyLayout.edata).toNat = 0x10B000 := by decide
  refine ⟨early_first.kernel, by decide, rfl, ?_, ?_, ⟨0x102000, fun mem hmem => ?_⟩,
    ⟨0x102040, fun mem hmem => ?_⟩⟩
  · rw [hsegments]
    decide
  · rw [hend]
    exact ⟨by decide, by decide,
      List.forall_mem_cons.mpr ⟨by decide, List.forall_mem_singleton.mpr (by decide)⟩,
      List.forall_mem_cons.mpr ⟨by decide, List.forall_mem_singleton.mpr (by decide)⟩⟩
  · rw [hend]
    exact early_text.congr (by decide) (early_memory hmem)
  · rw [hend]
    exact early_data.congr (by decide) (early_memory hmem)

def earlyDisk : Disk := readyDisk fun index => earlyImage (index - sectSize)

theorem image_earlyDisk : image earlyDisk = earlyImage := by
  funext index
  simp only [image, earlyDisk, readyDisk, Nat.add_sub_cancel_left]

def bootCalled : Cpu :=
  { (fromBios (fill (fun _ => 0) 0x7BFC 4 fun k => (bytes32 0x7C4A).getD k 0)).set .esp 0x7BFC with
    segs := fun s => if s = .cs then ⟨UInt16.ofNat protModeCseg, flatSegment (staX ||| staR)⟩
      else ⟨UInt16.ofNat protModeDseg, flatSegment staW⟩
    cr0 := cr0PE
    ports := ⟨2, [(0x64, 0xd1), (0x60, 0xdf)]⟩
    interrupts := false
    controller := ⟨false, false, true⟩ }

theorem called_bootCalled : Called bootSymbol (fromBios fun _ => 0) bootCalled where
  cs := rfl
  data := fun s hs => if_neg hs
  cr0 := rfl
  a20 := rfl
  interrupts := rfl
  down := rfl
  esp := by decide
  outs := rfl
  mem := rfl

theorem kernel_starts_early : ∃ m, bootmain earlyDisk bootCalled.toMachine = .ok (some 0x10200C, m) ∧
    ∃ c₃, Steps earlyDisk.device ⟨0x10200C, { bootCalled with mem := m.mem }⟩
        ⟨earlySymbol .i386Init, c₃⟩ ∧
      Entered earlySymbol earlyLayout.pgtable { bootCalled with mem := m.mem } c₃ ∧
      ∀ mem : Memory,
        (∀ pa : UInt32, 0x100000 ≤ pa.toNat → ¬OnStack earlySymbol pa → mem pa = c₃.mem pa) →
        (∀ n ≤ (earlyLayout.stop - earlyLayout.edata).toNat, ∃ after,
          clear earlyLayout.pgdir n earlyLayout.edata mem = some after ∧
            Loaded (load32 after) earlyLayout.pgdir earlyLayout.pgtable) ∧
        ∃ after, clear earlyLayout.pgdir (earlyLayout.stop - earlyLayout.edata).toNat
            earlyLayout.edata mem = some after ∧
          (∀ cpu : StringInstructions.Cpu,
            (Asm.memset earlyLayout.edata 0 (earlyLayout.stop - earlyLayout.edata)
              { cpu with mem := fun va => mem (va - kernbase) }).2.mem =
                fun va => after (va - kernbase)) ∧
          (∀ pa, after pa = if earlyLayout.inBss pa then 0 else mem pa) ∧
          ∀ seg ∈ elfSegments (image earlyDisk), ∀ i < seg.1.memsz.toNat,
            ¬OnStack earlySymbol (seg.1.pa + UInt32.ofNat i) →
              loadByte earlyLayout.pgdir after (kernbase + seg.1.pa + UInt32.ofNat i) =
                some (elfByte (image earlyDisk) seg i) := by
  have himage : EntryImage (image earlyDisk) earlyLayout earlySymbol :=
    image_earlyDisk ▸ entryImage_early
  obtain ⟨m, hrun, -⟩ := bootmain_linked earlyDisk himage.toLinked bootCalled.toMachine
  have hstart := @kernel_starts earlyDisk bootSymbol earlySymbol earlyLayout himage _ bootCalled
    { bootCalled with mem := m.mem } _ m UInt32.zero_and called_bootCalled hrun
    ⟨rfl, rfl, rfl, fun _ _ => rfl⟩
  refine ⟨m, ?_, hstart.2⟩
  rw [hrun, hstart.1]
  rfl

end JosKernel.Kern
