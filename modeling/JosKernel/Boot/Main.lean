import JosKernel.General.Loop
import JosKernel.Inc.X86

/-! `boot/main.c`: the boot loader reads an ELF image from the disk, sector by
sector. -/
namespace JosKernel.Boot
open JosKernel.Inc JosKernel.General

/-- The first IDE disk: its bytes, and a controller that gets ready whenever it
is polled often enough. -/
structure Disk where
  bytes : Nat → UInt8
  device : Device
  patience : Nat
  ready : ∀ read, ∃ wait, wait < patience ∧ device (read + wait) 0x1F7 &&& 0xC0 = 0x40

structure Ide where
  low : UInt8
  mid : UInt8
  high : UInt8
  drive : UInt8
  sector : Nat

/-- The 28-bit logical block address; the upper bits of the drive register
select the mode and the drive. -/
def Ide.lba (ide : Ide) : Nat :=
  ide.low.toNat + ide.mid.toNat * 2 ^ 8 + ide.high.toNat * 2 ^ 16 +
    (ide.drive &&& 0x0F).toNat * 2 ^ 24

def Ide.write (ide : Ide) (out : UInt16 × UInt8) : Ide :=
  if out.1 = 0x1F3 then { ide with low := out.2 }
  else if out.1 = 0x1F4 then { ide with mid := out.2 }
  else if out.1 = 0x1F5 then { ide with high := out.2 }
  else if out.1 = 0x1F6 then { ide with drive := out.2 }
  else if out.1 = 0x1F7 ∧ out.2 = 0x20 then { ide with sector := ide.lba }
  else ide

def sectorRead (ports : Ports) : Nat := (ports.outs.foldl Ide.write ⟨0, 0, 0, 0, 0⟩).sector

structure Machine where
  ports : Ports
  mem : UInt32 → UInt8

def sectSize : Nat := 512
def elfMagic : UInt32 := 0x464C457F
def elfhdr : UInt32 := 0x10000

section
variable (disk : Disk)

def waitdisk (ports : Ports) : Except Fault Ports :=
  Loop.run .unfinished (fun ports =>
    let (status, ports) := inb disk.device 0x1F7 ports
    if status &&& 0xC0 ≠ 0x40 then .ok (.inl ports) else .ok (.inr ports))
    disk.patience ports

def insl (dst : UInt32) (cnt : Nat) (m : Machine) : Machine :=
  { m with mem := fun address =>
    if (address - dst).toNat < 4 * cnt then
      disk.bytes (sectorRead m.ports * sectSize + (address - dst).toNat)
    else m.mem address }

def readsect (dst offset : UInt32) (m : Machine) : Except Fault Machine := do
  let ports ← waitdisk disk m.ports
  let ports := outb 0x1F2 1 ports
  let ports := outb 0x1F3 offset.toUInt8 ports
  let ports := outb 0x1F4 (offset >>> 8).toUInt8 ports
  let ports := outb 0x1F5 (offset >>> 16).toUInt8 ports
  let ports := outb 0x1F6 ((offset >>> 24) ||| 0xE0).toUInt8 ports
  let ports := outb 0x1F7 0x20 ports
  let ports ← waitdisk disk ports
  return insl disk dst (sectSize / 4) { m with ports }

def readsegRound (endPa : UInt32) :
    UInt32 × UInt32 × Machine → Except Fault ((UInt32 × UInt32 × Machine) ⊕ Machine)
  | (pa, offset, m) => do
    if pa < endPa then
      let m ← readsect disk pa offset m
      return .inl (pa + UInt32.ofNat sectSize, offset + 1, m)
    else return .inr m

/-- There are 2 ^ 23 sector boundaries: a loop that has passed them all comes
back to where it was. -/
def readseg (pa count offset : UInt32) (m : Machine) : Except Fault Machine :=
  let endPa := pa + count
  let pa := pa &&& ~~~(UInt32.ofNat sectSize - 1)
  let offset := offset / UInt32.ofNat sectSize + 1
  Loop.run .unfinished (readsegRound disk endPa) (2 ^ 23 + 1) (pa, offset, m)

end

def load16 (mem : UInt32 → UInt8) (address : UInt32) : UInt32 :=
  (mem address).toUInt32 + (mem (address + 1)).toUInt32 <<< 8

def load32 (mem : UInt32 → UInt8) (address : UInt32) : UInt32 :=
  load16 mem address + load16 mem (address + 2) <<< 16

structure Proghdr where
  offset : UInt32
  pa : UInt32
  memsz : UInt32
  deriving DecidableEq, Repr

def loadProghdr (mem : UInt32 → UInt8) (ph : UInt32) : Proghdr :=
  ⟨load32 mem (ph + 4), load32 mem (ph + 12), load32 mem (ph + 20)⟩

section
variable (disk : Disk)

def bootmainRound (eph : UInt32) :
    UInt32 × Machine → Except Fault ((UInt32 × Machine) ⊕ Machine)
  | (ph, m) => do
    if ph < eph then
      let hdr := loadProghdr m.mem ph
      let m ← readseg disk hdr.pa hdr.memsz hdr.offset m
      return .inl (ph + 32, m)
    else return .inr m

/-- `bootmain` up to the call of the entry point, which is `none` when the image
is no ELF image. -/
def bootmain (m : Machine) : Except Fault (Option UInt32 × Machine) := do
  let m ← readseg disk elfhdr (UInt32.ofNat (sectSize * 8)) 0 m
  if load32 m.mem elfhdr ≠ elfMagic then return (none, m)
  let ph := elfhdr + load32 m.mem (elfhdr + 28)
  let eph := ph + 32 * load16 m.mem (elfhdr + 44)
  let m ← Loop.run .unfinished (bootmainRound disk eph) (2 ^ 16) (ph, m)
  return (some (load32 m.mem (elfhdr + 24)), m)

end

end JosKernel.Boot
