import JosKernel.Boot.Image
import JosKernel.Boot.Start

/-! The boot block, which `boot.S` and `main.c` make together: from the BIOS to the kernel. -/
namespace JosKernel.Boot
open JosKernel.Inc JosKernel.General MachineCode Assembly Block

section
variable (disk : Disk) {symbol : StartLabel → UInt32} {block sector kernel : List UInt8} {c : Cpu}

theorem placed_bios (hsign : sign block = some sector)
    (hdisk : ∀ i, disk.bytes i = (kernelImg sector kernel).getD i 0)
    (hbios : ∀ i < sectSize, c.mem (0x7C00 + UInt32.ofNat i) = disk.bytes i)
    (hplaced : Placed (fun pa => block.getD (pa.toNat - 0x7C00) 0) 0x7C00 (0x7C00 + block.length)
      symbol 0 false 0x7C00 (bootS symbol)) :
    Placed c.mem 0x7C00 (0x7C00 + block.length) symbol 0 false 0x7C00 (bootS symbol) := by
  have hsize := (sign_some hsign).1
  refine hplaced.congr (by omega) fun address hlo hhi => ?_
  have hindex : address.toNat - 0x7C00 < block.length := by omega
  have haddress : 0x7C00 + UInt32.ofNat (address.toNat - 0x7C00) = address := by
    apply UInt32.toNat_inj.mp
    rw [@toNat_offset 0x7C00 _ (show 0x7C00 + _ < 2 ^ 32 by omega)]
    exact Nat.add_sub_cancel' hlo
  have hbyte := hbios (address.toNat - 0x7C00) (Nat.lt_of_lt_of_le hindex
    (Nat.le_trans hsize (by decide)))
  rw [haddress, hdisk, kernelImg_block hsign kernel hindex] at hbyte
  exact hbyte

/-- The boot block, as the build makes it of `boot.S` and `main.c`, brings the kernel to its
entry point in protected mode. The code of the block and what is on the stack stay as they are. -/
theorem bootBlock_boots (hsign : sign block = some sector)
    (hdisk : ∀ i, disk.bytes i = (kernelImg sector kernel).getD i 0)
    (hplaced : Placed (fun pa => block.getD (pa.toNat - 0x7C00) 0) 0x7C00 (0x7C00 + block.length)
      symbol 0 false 0x7C00 (bootS symbol))
    (h : Linked fun i => kernel.getD i 0)
    (hextended : ∀ seg ∈ segments fun i => kernel.getD i 0,
      seg.memsz = 0 ∨ 0x100000 ≤ seg.pa.toNat)
    (hreal : Real c) (hbios : ∀ i < sectSize, c.mem (0x7C00 + UInt32.ofNat i) = disk.bytes i)
    (hready : ∀ reads, ∃ wait, disk.device (reads + wait) 0x64 &&& 0x2 = 0) :
    ∃ c' m, Steps disk.device ⟨0x7C00, c⟩ ⟨symbol .bootmain, c'⟩ ∧ Called symbol c c' ∧
      bootmain disk c'.toMachine = .ok (some (entryOf fun i => kernel.getD i 0), m) ∧
      (∀ seg ∈ segments fun i => kernel.getD i 0, ∀ i < seg.memsz.toNat,
        m.mem (seg.pa + UInt32.ofNat i) = kernel.getD (seg.offset.toNat + i) 0) ∧
      -- the frames of `bootmain` are below the stack pointer
      ∀ pa : UInt32, (c'.regs .esp).toNat ≤ pa.toNat ∧ pa.toNat < 0x10000 ∨
          0x11000 ≤ pa.toNat ∧ pa.toNat < 0x100000 →
        m.mem pa = c'.mem pa := by
  have hsize := (sign_some hsign).1
  have hmem := placed_bios disk hsign hdisk hbios hplaced
  have hstart : symbol .start = 0x7C00 := hmem.1
  obtain ⟨c', hsteps, hcalled⟩ := bootS_calls_bootmain disk.device (by omega) hreal hready hmem
  have himage := image_kernelImg disk (sign_some hsign).2.2 hdisk
  rw [← himage] at h hextended ⊢
  obtain ⟨m, hrun, hloaded⟩ := bootmain_linked disk h c'.toMachine
  refine ⟨c', m, hstart ▸ hsteps, hcalled, hrun, fun seg hseg i hi => ?_, fun pa hpa => ?_⟩
  · rw [hloaded seg hseg i hi, himage]
  · exact bootmain_frame disk h hextended hrun (hpa.imp_left And.right)

end

/-- What the assembler makes of the file at `0x7C00`. -/
def bootBlock : List UInt8 :=
  [0xFA, 0xFC, 0x31, 0xC0, 0x8E, 0xD8, 0x8E, 0xC0, 0x8E, 0xD0,
    0xE4, 0x64, 0xA8, 0x02, 0x75, 0xFA, 0xB0, 0xD1, 0xE6, 0x64,
    0xE4, 0x64, 0xA8, 0x02, 0x75, 0xFA, 0xB0, 0xDF, 0xE6, 0x60,
    0x0F, 0x01, 0x16, 0x64, 0x7C, 0x0F, 0x20, 0xC0, 0x66, 0x83, 0xC8, 0x01, 0x0F, 0x22, 0xC0,
    0xEA, 0x32, 0x7C, 0x08, 0x00,
    0x66, 0xB8, 0x10, 0x00, 0x8E, 0xD8, 0x8E, 0xC0, 0x8E, 0xE0, 0x8E, 0xE8, 0x8E, 0xD0,
    0xBC, 0x00, 0x7C, 0x00, 0x00, 0xE8, 0x20, 0x00, 0x00, 0x00, 0xEB, 0xFE] ++ gdt ++
  [0x17, 0x00, 0x4C, 0x7C, 0x00, 0x00]

def bootSymbol : StartLabel → UInt32
  | .start => 0x7C00
  | .seta20_1 => 0x7C0A
  | .seta20_2 => 0x7C14
  | .protcseg => 0x7C32
  | .spin => 0x7C4A
  | .gdt => 0x7C4C
  | .gdtdesc => 0x7C64
  | .bootmain => 0x7C6A

def fromBios (mem : UInt32 → UInt8) : Cpu where
  ports := ⟨0, []⟩
  mem := mem
  regs := fun _ => 0
  segs := fun _ => ⟨0, realSegment 0⟩
  cr0 := 0
  cr3 := 0
  gdtr := (0, 0)
  interrupts := true
  down := false
  zero := false
  controller := ⟨false, false, false⟩

theorem real_fromBios (mem : UInt32 → UInt8) : Real (fromBios mem) :=
  ⟨UInt32.zero_and, UInt32.zero_and, rfl, fun _ => ⟨0, rfl⟩⟩

def blockDisk : Disk := readyDisk fun i => (kernelImg (signed bootBlock) bareKernel).getD i 0

def blockMemory (pa : UInt32) : UInt8 := blockDisk.bytes (pa.toNat - 0x7C00)

theorem sign_bootBlock : sign bootBlock = some (signed bootBlock) :=
  (sign_eq bootBlock).trans (if_neg (by decide))

theorem bootBlock_placed : Placed (fun pa => bootBlock.getD (pa.toNat - 0x7C00) 0) 0x7C00
    (0x7C00 + bootBlock.length) bootSymbol 0 false 0x7C00 (bootS bootSymbol) := by
  decide +kernel

theorem mem_fromBios (mem : UInt32 → UInt8) : (fromBios mem).mem = mem := rfl

theorem blockMemory_bios : ∀ i < sectSize,
    (fromBios blockMemory).mem (0x7C00 + UInt32.ofNat i) = blockDisk.bytes i := by
  intro i hi
  have hlt : i < 512 := hi
  rw [mem_fromBios, blockMemory, @toNat_offset 0x7C00 i (show 0x7C00 + i < 2 ^ 32 by omega)]
  exact congrArg blockDisk.bytes (Nat.add_sub_cancel_left 0x7C00 i)

theorem bootBlock_boots_bare : ∃ c' m, Steps blockDisk.device ⟨0x7C00, fromBios blockMemory⟩
      ⟨bootSymbol .bootmain, c'⟩ ∧ Called bootSymbol (fromBios blockMemory) c' ∧
    bootmain blockDisk c'.toMachine = .ok (some (entryOf fun i => bareKernel.getD i 0), m) ∧
    (∀ seg ∈ segments fun i => bareKernel.getD i 0, ∀ i < seg.memsz.toNat,
      m.mem (seg.pa + UInt32.ofNat i) = bareKernel.getD (seg.offset.toNat + i) 0) ∧
    ∀ pa : UInt32, (c'.regs .esp).toNat ≤ pa.toNat ∧ pa.toNat < 0x10000 ∨
        0x11000 ≤ pa.toNat ∧ pa.toNat < 0x100000 →
      m.mem pa = c'.mem pa := by
  have hdisk : ∀ i, blockDisk.bytes i = (kernelImg (signed bootBlock) bareKernel).getD i 0 := by
    intro i
    simp only [blockDisk, readyDisk]
  refine @bootBlock_boots blockDisk bootSymbol bootBlock (signed bootBlock) bareKernel
    (fromBios blockMemory) sign_bootBlock hdisk bootBlock_placed linked_bareKernel ?_
    (real_fromBios _) blockMemory_bios fun _ => ⟨0, show (0x40 : UInt8) &&& 0x2 = 0 by decide⟩
  rw [segments_bareKernel]
  decide

end JosKernel.Boot
