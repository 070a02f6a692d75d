import JosKernel.Boot.Segments
import Mathlib.Data.List.GetD
import Mathlib.Data.List.Pairwise

/-! The disk that `boot/sign.pl` and `kern/Makefrag` make: the boot block with its
signature, and the kernel from the second sector on. -/
namespace JosKernel.Boot
open JosKernel.Inc JosKernel.General

def signed (buf : List UInt8) : List UInt8 :=
  buf ++ List.replicate (510 - buf.length) 0 ++ [0x55, 0xAA]

/-- `boot/sign.pl`, which exits where a block is too large. -/
def sign (block : List UInt8) : Option (List UInt8) :=
  let buf := block.take 1000
  if buf.length > 510 then none else some (signed buf)

/-- `dd if=input of=output seek=seek conv=notrunc` -/
def dd (input : List UInt8) (seek : Nat) (output : List UInt8) : List UInt8 :=
  output.take (sectSize * seek) ++ List.replicate (sectSize * seek - output.length) 0 ++ input ++
    output.drop (sectSize * seek + input.length)

def kernelImg (boot kernel : List UInt8) : List UInt8 :=
  dd kernel 1 (dd boot 0 (List.replicate (sectSize * 10000) 0))

theorem sign_eq (block : List UInt8) :
    sign block = if block.length > 510 then none else some (signed block) := by
  unfold sign
  by_cases hlarge : block.length > 510
  · rw [if_pos hlarge]
    exact if_pos (by rw [List.length_take]; omega)
  · rw [List.take_of_length_le (by omega)]

theorem signed_padded {block : List UInt8} (h : block.length ≤ 510) :
    (block ++ List.replicate (510 - block.length) (0 : UInt8)).length = 510 := by
  rw [List.length_append, List.length_replicate]
  omega

theorem dd_getD (input : List UInt8) (seek : Nat) (output : List UInt8) (i : Nat) :
    (dd input seek output).getD i 0 =
      if sectSize * seek ≤ i ∧ i < sectSize * seek + input.length then
        input.getD (i - sectSize * seek) 0
      else output.getD i 0 := by
  have hfront : (output.take (sectSize * seek) ++
      List.replicate (sectSize * seek - output.length) (0 : UInt8)).length = sectSize * seek := by
    rw [List.length_append, List.length_take, List.length_replicate]
    omega
  rw [dd, List.append_assoc]
  by_cases hbefore : i < sectSize * seek
  · rw [if_neg (by omega), List.getD_append _ _ _ _ (by omega)]
    by_cases hinside : i < output.length
    · rw [List.getD_append _ _ _ _ (by rw [List.length_take]; omega), List.getD_eq_getElem?_getD,
        List.getElem?_take_of_lt hbefore, ← List.getD_eq_getElem?_getD]
    · have hend : (output.take (sectSize * seek)).length ≤ i := by
        rw [List.length_take]
        omega
      rw [List.getD_append_right _ _ _ _ hend, List.getD_eq_default output 0 (by omega),
        List.getD_eq_getElem?_getD, List.getElem?_replicate]
      split <;> rfl
  · rw [List.getD_append_right _ _ _ _ (by omega), hfront]
    by_cases hinput : i < sectSize * seek + input.length
    · rw [if_pos ⟨by omega, hinput⟩, List.getD_append _ _ _ _ (by omega)]
    · rw [if_neg (by omega), List.getD_append_right _ _ _ _ (by omega),
        List.getD_eq_getElem?_getD, List.getElem?_drop, ← List.getD_eq_getElem?_getD]
      congr 1
      omega

theorem kernelImg_getD {boot : List UInt8} (hboot : boot.length = sectSize) (kernel : List UInt8)
    (i : Nat) :
    (kernelImg boot kernel).getD i 0 =
      if i < sectSize then boot.getD i 0 else kernel.getD (i - sectSize) 0 := by
  have hzeros : (List.replicate (sectSize * 10000) (0 : UInt8)).getD i 0 = 0 := by
    rw [List.getD_eq_getElem?_getD, List.getElem?_replicate]
    split <;> rfl
  rw [kernelImg, dd_getD, dd_getD, hzeros, Nat.mul_one, Nat.mul_zero, hboot]
  by_cases hfirst : i < sectSize
  · rw [if_neg (by omega), if_pos ⟨by omega, by omega⟩, if_pos hfirst, Nat.sub_zero]
  · rw [if_neg hfirst, if_neg (by omega : ¬(0 ≤ i ∧ i < 0 + sectSize))]
    by_cases hkernel : i < sectSize + kernel.length
    · rw [if_pos ⟨by omega, hkernel⟩]
    · rw [if_neg (by omega), List.getD_eq_default kernel 0 (by omega)]

def Apart (seg other : Proghdr) : Prop :=
  seg.pa.toNat + seg.memsz.toNat ≤ other.pa.toNat ∨ other.pa.toNat + other.memsz.toNat ≤ seg.pa.toNat

instance : Std.Symm Apart := ⟨fun _ _ h => h.symm⟩

instance (seg other : Proghdr) : Decidable (Apart seg other) :=
  inferInstanceAs (Decidable (_ ∨ _))

/-- What the linker script asks for: the segments start at sectors, as pages do, are
disjoint, and lie behind the loader, which runs in the sector at `0x7C00` with its stack
below. A header of no bytes, such as `GNU_STACK`, may be anywhere. -/
structure Linked (image : Nat → UInt8) : Prop extends Loadable image where
  aligned : ∀ seg ∈ segments image, seg.pa.toNat % 512 = 0
  apart : (segments image).Pairwise Apart
  loader : ∀ seg ∈ segments image, seg.memsz = 0 ∨ 0x7e00 ≤ seg.pa.toNat

theorem Linked.top {image : Nat → UInt8} (h : Linked image) {seg : Proghdr}
    (hseg : seg ∈ segments image) {i : Nat} (hi : i < seg.memsz.toNat) {last : Proghdr}
    (htop : (sectors image).top (segments image) (seg.pa + UInt32.ofNat i) = some last) :
    last = seg := by
  obtain ⟨hlast, hcovers⟩ := (sectors image).of_top htop
  have hbelow := h.below seg hseg
  have haddress : (seg.pa + UInt32.ofNat i).toNat = seg.pa.toNat + i := toNat_offset (by omega)
  rw [sectors, decide_eq_true_iff, haddress] at hcovers
  have hsegAligned := h.aligned seg hseg
  have hlastAligned := h.aligned last hlast
  apply Decidable.not_not.mp
  intro hne
  rcases h.apart.forall hlast hseg hne with hbefore | hafter <;> omega

def entryOf (image : Nat → UInt8) : UInt32 := load32 (page image) (elfhdr + 24)

section
variable (disk : Disk)

theorem Agrees.foldl {image : Nat → UInt8} {mem : UInt32 → UInt8} (h : Agrees image mem)
    {segs : List Proghdr} (hscratch : ∀ seg ∈ segs,
      seg.pa.toNat + seg.memsz.toNat ≤ 0x10000 ∨ 0x11000 ≤ seg.pa.toNat) :
    Agrees image (segs.foldl (sectors image).write mem) := by
  induction segs generalizing mem with
  | nil => exact h
  | cons seg segs ih =>
    obtain ⟨hhead, htail⟩ := List.forall_mem_cons.mp hscratch
    exact ih (h.write hhead) htail

theorem bootmain_result (h : Loadable (image disk)) (m : Machine) :
    ∃ m', bootmain disk m = .ok (some (entryOf (image disk)), m') ∧
      m'.mem = (⟨0, elfhdr, UInt32.ofNat (sectSize * 8)⟩ :: segments (image disk)).foldl
        (sectors (image disk)).write m.mem := by
  obtain ⟨m₁, hread, hagrees⟩ := readseg_page disk m
  obtain ⟨m₁', hread', hmem₁⟩ :=
    readseg_ok disk ⟨0, elfhdr, UInt32.ofNat (sectSize * 8)⟩ m (by decide)
  cases Except.ok.inj (hread.symm.trans hread')
  obtain ⟨m₂, hloop, hmem⟩ := bootmain_loop disk h hagrees
  have hmagic : load32 m₁.mem elfhdr = elfMagic := by
    rw [hagrees.load32 (by decide) (by decide), h.magic]
  have hphoff : load32 m₁.mem (elfhdr + 28) = phoff (image disk) :=
    hagrees.load32 (by decide) (by decide)
  have hphnum : load16 m₁.mem (elfhdr + 44) = phnum (image disk) :=
    hagrees.load16 (by decide) (by decide)
  have hlater : Agrees (image disk) m₂.mem := hmem ▸ hagrees.foldl h.scratch
  have hentry : load32 m₂.mem (elfhdr + 24) = entryOf (image disk) :=
    hlater.load32 (by decide) (by decide)
  refine ⟨m₂, ?_, by rw [hmem, hmem₁, List.foldl_cons]⟩
  rw [← hentry]
  simp only [bootmain, hread, bind, Except.bind, hmagic, hphoff, hphnum, hloop]
  rfl

/-- A linked kernel is in memory, as the file has it, when its entry point is called. -/
theorem bootmain_linked (h : Linked (image disk)) (m : Machine) :
    ∃ m', bootmain disk m = .ok (some (entryOf (image disk)), m') ∧
      ∀ seg ∈ segments (image disk), ∀ i, i < seg.memsz.toNat →
        m'.mem (seg.pa + UInt32.ofNat i) = image disk (seg.offset.toNat + i) := by
  obtain ⟨m', hrun, -⟩ := bootmain_result disk h.toLoadable m
  obtain ⟨entry, m'', hrun', hmem⟩ := bootmain_ok disk h.toLoadable m
  have heq : m'' = m' := congrArg Prod.snd (Except.ok.inj (hrun'.symm.trans hrun))
  rw [heq] at hmem
  refine ⟨m', hrun, fun seg hseg i hi => ?_⟩
  obtain ⟨last, htop, hbyte⟩ := hmem seg hseg i hi
  rw [h.top hseg hi htop] at hbyte
  rw [hbyte]
  congr 1
  omega

theorem bootmain_frame (h : Linked (image disk)) (hextended : ∀ seg ∈ segments (image disk),
      seg.memsz = 0 ∨ 0x100000 ≤ seg.pa.toNat) {m m' : Machine} {entry : UInt32}
    (hrun : bootmain disk m = .ok (some entry, m')) {pa : UInt32}
    (hpa : pa.toNat < 0x10000 ∨ 0x11000 ≤ pa.toNat ∧ pa.toNat < 0x100000) : m'.mem pa = m.mem pa := by
  obtain ⟨m'', hrun', hmem⟩ := bootmain_result disk h.toLoadable m
  have heq : m' = m'' := congrArg Prod.snd (Except.ok.inj (hrun.symm.trans hrun'))
  rw [heq, hmem, Pieces.foldl_write]
  cases htop : (sectors (image disk)).top
      (⟨0, elfhdr, UInt32.ofNat (sectSize * 8)⟩ :: segments (image disk)) pa with
  | none => rfl
  | some seg =>
    obtain ⟨hseg, hcovers⟩ := (sectors (image disk)).of_top htop
    rw [sectors, decide_eq_true_iff] at hcovers
    rcases List.mem_cons.mp hseg with rfl | hseg
    · change 65536 / 512 * 512 ≤ _ ∧ _ < 65536 + 4096 at hcovers
      omega
    · have haligned := h.aligned seg hseg
      rcases hextended seg hseg with hempty | habove
      · rw [hempty, UInt32.toNat_zero] at hcovers
        omega
      · omega

theorem image_kernelImg {boot kernel : List UInt8} (hboot : boot.length = sectSize)
    (hdisk : ∀ i, disk.bytes i = (kernelImg boot kernel).getD i 0) :
    image disk = fun i => kernel.getD i 0 := by
  funext i
  rw [image, hdisk, kernelImg_getD hboot, if_neg (by omega), Nat.add_sub_cancel_left]

theorem sign_some {block sector : List UInt8} (h : sign block = some sector) :
    block.length ≤ 510 ∧ sector = signed block ∧ sector.length = sectSize := by
  rw [sign_eq] at h
  split at h
  · cases h
  · next hlarge =>
    cases h
    refine ⟨Nat.le_of_not_lt hlarge, rfl, ?_⟩
    rw [signed, List.length_append, signed_padded (Nat.le_of_not_lt hlarge)]
    rfl

theorem kernelImg_block {block sector : List UInt8} (h : sign block = some sector)
    (kernel : List UInt8) {i : Nat} (hi : i < block.length) :
    (kernelImg sector kernel).getD i 0 = block.getD i 0 := by
  obtain ⟨hsize, hsigned, hlength⟩ := sign_some h
  have hinside : i < sectSize := Nat.lt_of_lt_of_le hi (Nat.le_trans hsize (by decide))
  rw [kernelImg_getD hlength, if_pos hinside, hsigned, signed, List.append_assoc,
    List.getD_append _ _ _ _ hi]

/-- From the files to memory: the disk that the build makes has the signature where
the BIOS looks for it, and the loader finds the kernel behind it. -/
theorem kernelImg_boots {block sector kernel : List UInt8} (hsign : sign block = some sector)
    (hdisk : ∀ i, disk.bytes i = (kernelImg sector kernel).getD i 0)
    (h : Linked fun i => kernel.getD i 0) (m : Machine) :
    (∀ i < block.length, disk.bytes i = block.getD i 0) ∧ disk.bytes 510 = 0x55 ∧
      disk.bytes 511 = 0xAA ∧
      ∃ m', bootmain disk m = .ok (some (entryOf fun i => kernel.getD i 0), m') ∧
        ∀ seg ∈ segments fun i => kernel.getD i 0, ∀ i, i < seg.memsz.toNat →
          m'.mem (seg.pa + UInt32.ofNat i) = kernel.getD (seg.offset.toNat + i) 0 := by
  obtain ⟨hsize, hsigned, hlength⟩ := sign_some hsign
  have hloaded := bootmain_linked disk (image_kernelImg disk hlength hdisk ▸ h) m
  rw [image_kernelImg disk hlength hdisk] at hloaded
  have hend {k : Nat} (hk : k < 2) :
      disk.bytes (510 + k) = ([0x55, 0xAA] : List UInt8).getD k 0 := by
    have hinside : 510 + k < sectSize := Nat.add_lt_add_left hk 510
    rw [hdisk, kernelImg_getD hlength, if_pos hinside, hsigned, signed,
      List.getD_append_right _ _ _ _ (by rw [signed_padded hsize]; omega), signed_padded hsize,
      Nat.add_sub_cancel_left]
  refine ⟨fun i hi => ?_, hend (show 0 < 2 by decide), hend (show 1 < 2 by decide), hloaded⟩
  rw [hdisk, kernelImg_block hsign kernel hi]

end

def bareHeaders : List Proghdr :=
  [⟨0x1000, 0x100000, 0x300⟩, ⟨0x2000, 0x101000, 0x80⟩, ⟨0, 0, 0⟩]

def bareKernel : List UInt8 := elfHeaders bareHeaders

theorem segments_bareKernel : segments (fun i => bareKernel.getD i 0) = bareHeaders := by decide

theorem linked_bareKernel : Linked fun i => bareKernel.getD i 0 := by
  refine ⟨⟨by decide, by decide, ?_, ?_, ?_⟩, ?_, ?_, ?_⟩ <;> rw [segments_bareKernel] <;> decide

def spin : List UInt8 := [0xEB, 0xFE]

theorem always_ready (read : Nat) :
    ∃ wait, wait < 1 ∧ (fun _ _ => 0x40 : Device) (read + wait) 0x1F7 &&& 0xC0 = 0x40 :=
  ⟨0, Nat.zero_lt_one, show (0x40 : UInt8) &&& 0xC0 = 0x40 by decide⟩

def readyDisk (bytes : Nat → UInt8) : Disk := ⟨bytes, fun _ _ => 0x40, 1, always_ready⟩

def bareDisk : Disk := readyDisk fun i => (kernelImg (signed spin) bareKernel).getD i 0

theorem kernelImg_boots_bare :
    (∀ i < 2, bareDisk.bytes i = spin.getD i 0) ∧ bareDisk.bytes 510 = 0x55 ∧
      bareDisk.bytes 511 = 0xAA ∧
      ∃ m', bootmain bareDisk .zeroed = .ok (some (entryOf fun i => bareKernel.getD i 0), m') ∧
        ∀ seg ∈ segments fun i => bareKernel.getD i 0, ∀ i, i < seg.memsz.toNat →
          m'.mem (seg.pa + UInt32.ofNat i) = bareKernel.getD (seg.offset.toNat + i) 0 := by
  have hdisk : ∀ i, bareDisk.bytes i = (kernelImg (signed spin) bareKernel).getD i 0 := by
    intro i
    simp only [bareDisk, readyDisk]
  exact @kernelImg_boots bareDisk spin _ _ (sign_eq spin) hdisk linked_bareKernel .zeroed

end JosKernel.Boot
