import JosKernel.Boot.Gdt
import JosKernel.Boot.Main
import JosKernel.General.Assembly
import JosKernel.General.Block
import JosKernel.Inc.Mmu
import Mathlib.Logic.Relation

/-! The processor between reset and the first line of C: segments in real and in
protected mode, paging, and the address line 20 that the keyboard controller keeps low. -/
namespace JosKernel.Boot
open JosKernel.Inc JosKernel.General MachineCode Assembly BitFields Block

def cr0PE : UInt32 := 0x00000001

def cr0WP : UInt32 := 0x00010000

def cr0PG : UInt32 := 0x80000000

structure Segment where
  selector : UInt16
  cached : Descriptor

/-- The keyboard controller, which takes a byte when its status has shown that it can,
and loses it otherwise. -/
structure Controller where
  ready : Bool
  /-- The next byte of data goes to the output port. -/
  pending : Bool
  a20 : Bool

def Controller.read (port value : UInt8) (k : Controller) : Controller :=
  if port = 0x64 then { k with ready := value &&& 0x2 = 0 } else k

def Controller.write (port value : UInt8) (k : Controller) : Controller :=
  if !k.ready then k
  else if port = 0x64 then { k with ready := false, pending := value = 0xd1 }
  else if port = 0x60 then
    { ready := false, pending := false, a20 := if k.pending then value &&& 0x2 ≠ 0 else k.a20 }
  else k

structure Cpu extends Machine where
  regs : Reg → UInt32
  segs : Sreg → Segment
  cr0 : UInt32
  cr3 : UInt32
  gdtr : UInt32 × Nat
  interrupts : Bool
  /-- The direction flag. -/
  down : Bool
  zero : Bool
  controller : Controller

namespace Cpu
variable (c : Cpu)

/-- The address on the bus. With line 20 low, odd megabytes are seen as even ones. -/
def bus (pa : UInt32) : UInt32 := if c.controller.a20 then pa else pa &&& ~~~0x100000

def translate (la : UInt32) : Option (UInt32 × Bool) :=
  if c.cr0 &&& cr0PG = 0 then some (la, true)
  else (walk (load32 fun pa => c.mem (c.bus pa)) c.cr3 la).map fun entry =>
    (entry.1, entry.2 || c.cr0 &&& cr0WP = 0)

def linearByte (la : UInt32) : Option UInt8 := (c.translate la).map fun entry => c.mem (c.bus entry.1)

def readByte (s : Sreg) (offset : UInt32) : Option UInt8 :=
  (linear (c.segs s).cached offset).bind c.linearByte

def place (s : Sreg) (offset : UInt32) : Option UInt32 := do
  let la ← linear (c.segs s).cached offset
  let entry ← c.translate la
  if entry.2 ∧ (c.segs s).cached.type &&& (staX ||| staW) = staW then some (c.bus entry.1) else none

def fetch : Nat → UInt32 → List UInt8
  | 0, _ => []
  | n + 1, eip =>
    match c.readByte .cs eip with
    | some byte => byte :: fetch n (eip + 1)
    | none => []

def set (reg : Reg) (value : UInt32) : Cpu := { c with regs := Function.update c.regs reg value }

def setLow16 (reg : Reg) (value : UInt16) : Cpu :=
  c.set reg ((c.regs reg &&& 0xFFFF0000) ||| value.toUInt32)

def setSeg (s : Sreg) (segment : Segment) : Cpu := { c with segs := Function.update c.segs s segment }

def al : UInt8 := (c.regs .eax).toUInt8

def setAl (value : UInt8) : Cpu := c.set .eax ((c.regs .eax &&& 0xFFFFFF00) ||| value.toUInt32)

end Cpu

def readList (read : UInt32 → Option UInt8) : Nat → UInt32 → Option (List UInt8)
  | 0, _ => some []
  | n + 1, address => do
    let byte ← read address
    let bytes ← readList read n (address + 1)
    some (byte :: bytes)

def placeList (place : UInt32 → Option UInt32) : Nat → UInt32 → Option (List UInt32)
  | 0, _ => some []
  | n + 1, address => do
    let pa ← place address
    let pas ← placeList place n (address + 1)
    some (pa :: pas)

def deposit (mem : UInt32 → UInt8) : List UInt32 → List UInt8 → UInt32 → UInt8
  | pa :: pas, byte :: bytes => deposit (Function.update mem pa byte) pas bytes
  | _, _ => mem

namespace Cpu

def store (s : Sreg) (offset : UInt32) (bytes : List UInt8) (c : Cpu) : Option Cpu := do
  let pas ← placeList (c.place s) bytes.length offset
  some { c with mem := deposit c.mem pas bytes }

def push (value : UInt32) (c : Cpu) : Option Cpu :=
  if (c.segs .ss).cached.big then
    (c.set .esp (c.regs .esp - 4)).store .ss (c.regs .esp - 4) (bytes32 value)
  else none

def accepts (s : Sreg) (d : Descriptor) : Bool :=
  d.present && d.application &&
    match s with
    | .cs => d.type &&& staX ≠ 0
    | .ss => d.type &&& (staX ||| staW) = staW
    | _ => d.type &&& staX = 0 || d.type &&& staR ≠ 0

/-- In real mode only the base changes, which is 16 times the selector. -/
def loadSeg (s : Sreg) (selector : UInt16) (c : Cpu) : Option Cpu :=
  if c.cr0 &&& cr0PE = 0 then
    some (c.setSeg s ⟨selector, { (c.segs s).cached with base := 16 * selector.toNat }⟩)
  else do
    let table ← readList c.linearByte (c.gdtr.2 + 1) c.gdtr.1
    let d ← loadDescriptor table c.gdtr.2 selector.toNat
    if accepts s d then some (c.setSeg s ⟨selector, d⟩) else none

end Cpu

section
variable (device : Device)

/-- In 16-bit code `lgdt` takes 24 bits of the base. -/
def execute : Op → Cpu → Option Cpu
  | .cli, c => some { c with interrupts := false }
  | .cld, c => some { c with down := false }
  | .xorw src dst, c =>
    let value := (c.regs src ^^^ c.regs dst).toUInt16
    some { c.setLow16 dst value with zero := value = 0 }
  | .movwSeg src dst, c => c.loadSeg dst (c.regs src).toUInt16
  | .movb value, c => some (c.setAl value)
  | .movw value dst, c => some (c.setLow16 dst value)
  | .movl value dst, c => some (c.set dst value)
  | .movwStore value address, c => c.store .ds address (bytes16 value)
  | .testb value, c => some { c with zero := c.al &&& value = 0 }
  | .orl value dst, c =>
    some { c.set dst (c.regs dst ||| value) with zero := c.regs dst ||| value = 0 }
  | .inb port, c =>
    let result := inb device port.toUInt32 c.ports
    some { c.setAl result.1 with
      ports := result.2, controller := c.controller.read port result.1 }
  | .outb port, c =>
    some { c with
      ports := outb port.toUInt32 c.al c.ports, controller := c.controller.write port c.al }
  | .lgdt address, c => do
    let bytes ← readList (c.readByte .ds) 6 address.toUInt32
    some { c with gdtr := (UInt32.ofNat (ofBytes ((bytes.drop 2).take 3)), ofBytes (bytes.take 2)) }
  | .movlFrom .cr0 dst, c => some (c.set dst c.cr0)
  | .movlFrom .cr3 dst, c => some (c.set dst c.cr3)
  | .movlTo src .cr0, c =>
    if c.regs src &&& cr0PG ≠ 0 ∧ c.regs src &&& cr0PE = 0 then none
    else some { c with cr0 := c.regs src }
  | .movlTo src .cr3, c => some { c with cr3 := c.regs src }

structure State where
  eip : UInt32
  cpu : Cpu

def near (big : Bool) (eip : UInt32) : UInt32 := if big then eip else eip &&& 0xFFFF

def follow (big : Bool) (next : UInt32) : Instr → Cpu → Option State
  | .op o, c => (execute device o c).map (State.mk next)
  | .jump .jnz displacement, c =>
    some ⟨if c.zero then next else near big (next + displacement), c⟩
  | .jump .jmp displacement, c => some ⟨near big (next + displacement), c⟩
  | .jump .call displacement, c => (c.push next).map (State.mk (near big (next + displacement)))
  | .ljmp selector offset, c => (c.loadSeg .cs selector).map (State.mk offset.toUInt32)
  | .jmpReg target, c => some ⟨c.regs target, c⟩

/-- No instruction is longer than 15 bytes. -/
def step (s : State) : Option State :=
  let big := (s.cpu.segs .cs).cached.big
  (decode big (s.cpu.fetch 15 s.eip)).bind fun result =>
    follow device big (s.eip + UInt32.ofNat result.2) result.1 s.cpu

abbrev Steps : State → State → Prop := Relation.ReflTransGen fun s s' => step device s = some s'

end

theorem offset_zero (address : UInt32) : address + UInt32.ofNat 0 = address := UInt32.add_zero address

theorem offset_succ (address : UInt32) (k : Nat) :
    address + UInt32.ofNat (k + 1) = address + 1 + UInt32.ofNat k := by
  rw [Nat.add_comm, ← offset_add]
  rfl

theorem readList_eq {read : UInt32 → Option UInt8} {bytes : List UInt8} {address : UInt32}
    (h : ∀ k (hk : k < bytes.length), read (address + UInt32.ofNat k) = some bytes[k]) :
    readList read bytes.length address = some bytes := by
  induction bytes generalizing address with
  | nil => rfl
  | cons byte bytes ih =>
    have hfirst := h 0 (Nat.zero_lt_succ _)
    have hrest := @ih (address + 1) fun k hk => by
      have hnext := h (k + 1) (Nat.succ_lt_succ hk)
      rwa [offset_succ] at hnext
    rw [offset_zero] at hfirst
    rw [List.length_cons, readList, hfirst, hrest]
    rfl

theorem deposit_placeList {place : UInt32 → Option UInt32} {bytes : List UInt8}
    {address pa : UInt32} (hlength : bytes.length ≤ 2 ^ 32) (h : ∀ k < bytes.length,
      place (address + UInt32.ofNat k) = some (pa + UInt32.ofNat k)) (mem : UInt32 → UInt8) :
    ∃ pas, placeList place bytes.length address = some pas ∧
      deposit mem pas bytes = fill mem pa bytes.length fun k => bytes.getD k 0 := by
  induction bytes generalizing address pa mem with
  | nil => exact ⟨[], rfl, (fill_zero mem pa _).symm⟩
  | cons byte bytes ih =>
    have hfirst := h 0 (Nat.zero_lt_succ _)
    rw [List.length_cons] at hlength
    obtain ⟨pas, hpas, hmem⟩ := @ih (address + 1) (pa + 1) (by omega) (fun k hk => by
      have hnext := h (k + 1) (Nat.succ_lt_succ hk)
      rwa [offset_succ, offset_succ] at hnext) (Function.update mem pa byte)
    rw [offset_zero, offset_zero] at hfirst
    refine ⟨pa :: pas, ?_, ?_⟩
    · rw [List.length_cons, placeList, hfirst, hpas]
      rfl
    · have happend := fill_append mem pa (fun k => (byte :: bytes).getD k 0) (n := 1)
        (k := bytes.length) (by omega)
      rw [fill_one] at happend
      rw [deposit, hmem, List.length_cons, Nat.add_comm, ← happend]
      exact fill_congr _ _ fun k _ => by rw [Nat.add_comm 1 k]; rfl

namespace Cpu
variable {c c' : Cpu}

theorem store_eq {s : Sreg} {offset pa : UInt32} {bytes : List UInt8}
    (hlength : bytes.length ≤ 2 ^ 32) (h : ∀ k < bytes.length,
      c.place s (offset + UInt32.ofNat k) = some (pa + UInt32.ofNat k)) :
    c.store s offset bytes =
      some { c with mem := fill c.mem pa bytes.length fun k => bytes.getD k 0 } := by
  obtain ⟨pas, hpas, hmem⟩ := deposit_placeList hlength h c.mem
  rw [store, hpas, ← hmem]
  rfl

theorem push_eq {value pa : UInt32} (hbig : (c.segs .ss).cached.big = true)
    (h : ∀ k < 4, c.place .ss (c.regs .esp - 4 + UInt32.ofNat k) = some (pa + UInt32.ofNat k)) :
    c.push value = some { c.set .esp (c.regs .esp - 4) with
      mem := fill c.mem pa 4 fun k => (bytes32 value).getD k 0 } := by
  rw [push, if_pos hbig]
  exact @store_eq (c.set .esp (c.regs .esp - 4)) .ss _ pa (bytes32 value) (by simp) h

theorem fetch_eq {bytes : List UInt8} {eip : UInt32} (h : ∀ k (hk : k < bytes.length),
    c.readByte .cs (eip + UInt32.ofNat k) = some bytes[k]) (n : Nat) :
    ∃ rest, c.fetch (bytes.length + n) eip = bytes ++ rest := by
  induction bytes generalizing eip with
  | nil => exact ⟨_, rfl⟩
  | cons byte bytes ih =>
    have hfirst := h 0 (Nat.zero_lt_succ _)
    obtain ⟨rest, hrest⟩ := @ih (eip + 1) fun k hk => by
      have hnext := h (k + 1) (Nat.succ_lt_succ hk)
      rwa [offset_succ] at hnext
    rw [offset_zero] at hfirst
    refine ⟨rest, ?_⟩
    rw [List.length_cons, Nat.add_right_comm, fetch, hfirst]
    exact congrArg (byte :: ·) hrest

structure Same (c c' : Cpu) : Prop where
  cs : c'.segs .cs = c.segs .cs
  cr0 : c'.cr0 = c.cr0
  cr3 : c'.cr3 = c.cr3
  a20 : c'.controller.a20 = c.controller.a20
  mem : c'.mem = c.mem

theorem Same.trans {c'' : Cpu} (h : Same c c') (h' : Same c' c'') : Same c c'' :=
  ⟨h'.cs.trans h.cs, h'.cr0.trans h.cr0, h'.cr3.trans h.cr3, h'.a20.trans h.a20, h'.mem.trans h.mem⟩

theorem Same.readByte (h : Same c c') : c'.readByte .cs = c.readByte .cs := by
  funext offset
  have hbus : c'.bus = c.bus := by
    funext pa
    rw [bus, bus, h.a20]
  have htranslate : c'.translate = c.translate := by
    funext la
    rw [translate, translate, h.cr0, h.cr3, h.mem, hbus]
  have hlinear : c'.linearByte = c.linearByte := by
    funext la
    rw [linearByte, linearByte, htranslate, h.mem, hbus]
  rw [Cpu.readByte, Cpu.readByte, h.cs, hlinear]

theorem Same.setSeg {s : Sreg} (hs : s ≠ .cs) (segment : Segment) : Same c (c.setSeg s segment) :=
  ⟨Function.update_of_ne (Ne.symm hs) _ _, rfl, rfl, rfl, rfl⟩

theorem Same.loadSeg {s : Sreg} (hs : s ≠ .cs) {selector : UInt16}
    (h : c.loadSeg s selector = some c') : Same c c' := by
  unfold Cpu.loadSeg at h
  split at h
  · cases h
    exact .setSeg hs _
  · obtain ⟨table, -, h⟩ := Option.bind_eq_some_iff.mp h
    obtain ⟨d, -, h⟩ := Option.bind_eq_some_iff.mp h
    obtain ⟨-, h⟩ := Option.ite_none_right_eq_some.mp h
    cases h
    exact .setSeg hs _

end Cpu

def quiet : Op → Bool
  | .movwSeg _ dst => dst ≠ .cs
  | .movwStore _ _ | .outb _ | .movlTo _ _ => false
  | _ => true

theorem execute_quiet {device : Device} {o : Op} (ho : quiet o) {c c' : Cpu}
    (h : execute device o c = some c') : c.Same c' := by
  cases o with
  | movwSeg src dst => exact .loadSeg (of_decide_eq_true ho) h
  | movwStore | outb | movlTo => cases ho
  | inb port =>
    cases h
    refine ⟨rfl, rfl, rfl, ?_, rfl⟩
    unfold Controller.read
    split <;> rfl
  | lgdt address =>
    obtain ⟨bytes, -, h⟩ := Option.bind_eq_some_iff.mp h
    cases h
    exact ⟨rfl, rfl, rfl, rfl, rfl⟩
  | movlFrom src dst =>
    cases src <;> cases h <;> exact ⟨rfl, rfl, rfl, rfl, rfl⟩
  | cli | cld | xorw | movb | movw | movl | testb | orl =>
    cases h
    exact ⟨rfl, rfl, rfl, rfl, rfl⟩

@[simp] theorem Cpu.regs_set (c : Cpu) (reg : Reg) (value : UInt32) :
    (c.set reg value).regs reg = value := by
  simp [set]

theorem run_op {device : Device} {o : Op} {c c' : Cpu} (h : execute device o c = some c')
    (ops : List Op) : (o :: ops).foldlM (fun c o => execute device o c) c =
      ops.foldlM (fun c o => execute device o c) c' := by
  rw [List.foldlM_cons, h]
  rfl

theorem run_orCr0 (device : Device) (c : Cpu) (value : UInt32) (ops : List Op) :
    (Op.movlFrom .cr0 .eax :: .orl value .eax :: ops).foldlM (fun c o => execute device o c) c =
      ops.foldlM (fun c o => execute device o c)
        { c.set .eax (c.cr0 ||| value) with zero := c.cr0 ||| value = 0 } := by
  have hset : (c.set .eax c.cr0).set .eax (c.cr0 ||| value) = c.set .eax (c.cr0 ||| value) := by
    simp [Cpu.set, Function.update_idem]
  rw [run_op rfl, run_op rfl, Cpu.regs_set, hset]

/-- The processor finds the code between two bounds `shift` above the addresses where it
is loaded. -/
def Sees (c : Cpu) (shift : UInt32) (lo hi : Nat) (code : UInt32 → UInt8) : Prop :=
  ∀ address : UInt32, lo ≤ address.toNat → address.toNat < hi →
    c.readByte .cs (address + shift) = some (code address)

section
variable (device : Device) {Label : Type} {symbol : Label → UInt32} {code : UInt32 → UInt8}
  {slide shift address : UInt32} {lo hi : Nat} {big : Bool} {lines : List (Line Label)} {c c' : Cpu}
  (hhi : hi ≤ 2 ^ 32) (hsees : Sees c shift lo hi code)
  (hbig : (c.segs .cs).cached.big = big)

theorem Sees.same (hsees : Sees c shift lo hi code) (h : c.Same c') : Sees c' shift lo hi code := by
  intro address hlo hlt
  rw [h.readByte, hsees address hlo hlt]

include hhi hsees hbig

theorem step_of_lies {i : Instr} {bytes : List UInt8} (hcode : i.encode big = some bytes)
    (hlies : Lies code lo hi address bytes) : step device ⟨address + shift, c⟩ =
      follow device big (address + UInt32.ofNat bytes.length + shift) i c := by
  obtain ⟨hlo, hend, hbytes⟩ := hlies
  have hlength := i.length_encode hcode
  obtain ⟨rest, hfetch⟩ := @Cpu.fetch_eq c bytes (address + shift) (fun k hk => by
    have haddress := @toNat_offset address k (by omega)
    rw [UInt32.add_assoc, UInt32.add_comm shift, ← UInt32.add_assoc,
      hsees _ (by omega) (by omega), hbytes k hk]) (15 - bytes.length)
  rw [show bytes.length + (15 - bytes.length) = 15 by omega] at hfetch
  have hnext : address + shift + UInt32.ofNat bytes.length =
      address + UInt32.ofNat bytes.length + shift := by
    rw [UInt32.add_assoc, UInt32.add_comm shift, ← UInt32.add_assoc]
  simp only [step, hfetch, hbig, Instr.decode_encode hcode rest, Option.bind_some, hnext]

theorem step_instr {i : Instr} (h : Placed code lo hi symbol slide big address (.instr i :: lines)) :
    ∃ next, Placed code lo hi symbol slide big next lines ∧
      step device ⟨address + shift, c⟩ = follow device big (next + shift) i c := by
  obtain ⟨bytes, hcode, hlies, hrest⟩ := h
  exact ⟨_, hrest, step_of_lies device hhi hsees hbig hcode hlies⟩

theorem step_op {o : Op} (h : Placed code lo hi symbol slide big address (.op o :: lines))
    (hexecute : execute device o c = some c') :
    ∃ next, Placed code lo hi symbol slide big next lines ∧
      step device ⟨address + shift, c⟩ = some ⟨next + shift, c'⟩ := by
  obtain ⟨next, hplaced, hstep⟩ := step_instr device hhi hsees hbig h
  rw [follow, hexecute] at hstep
  exact ⟨next, hplaced, hstep⟩

theorem step_jump {jump : Jump} {target : Label}
    (h : Placed code lo hi symbol slide big address (.jump jump target :: lines)) :
    let next := address + UInt32.ofNat jump.size
    Placed code lo hi symbol slide big next lines ∧
      step device ⟨address + shift, c⟩ =
        follow device big (next + shift) (.jump jump (symbol target - (next + slide))) c := by
  obtain ⟨⟨bytes, hcode, hlies⟩, hrest⟩ := h
  have hsize := jump.encode_length hcode
  refine ⟨hrest, ?_⟩
  rw [step_of_lies device hhi hsees hbig hcode hlies, hsize]

/-- Straight-line code is executed as a whole. -/
theorem steps_ops (ops : List Op) (hquiet : ops.all quiet = true)
    (h : Placed code lo hi symbol slide big address (ops.map .op ++ lines))
    (hrun : ops.foldlM (fun c o => execute device o c) c = some c') :
    ∃ next, Placed code lo hi symbol slide big next lines ∧
      Steps device ⟨address + shift, c⟩ ⟨next + shift, c'⟩ ∧ Sees c' shift lo hi code := by
  induction ops generalizing address c with
  | nil =>
    cases hrun
    exact ⟨address, h, .refl, hsees⟩
  | cons o ops ih =>
    rw [List.all_cons, Bool.and_eq_true] at hquiet
    obtain ⟨ho, hops⟩ := hquiet
    obtain ⟨after, hexecute, hrest⟩ := Option.bind_eq_some_iff.mp hrun
    obtain ⟨next, hplaced, hstep⟩ := step_op device hhi hsees hbig h hexecute
    have hsame := execute_quiet ho hexecute
    obtain ⟨last, hlast, hsteps, hsees'⟩ :=
      ih (hsees.same hsame) (by rw [hsame.cs, hbig]) hops hplaced hrest
    exact ⟨last, hlast, .head hstep hsteps, hsees'⟩

end

def realSegment (base : Nat) : Descriptor where
  base := base
  limit := 0xFFFF
  type := staW
  application := true
  dpl := 0
  present := true
  available := false
  long := false
  big := false
  granular := false

theorem linear_realSegment {offset : UInt32} (h : offset.toNat < 0x10000) :
    linear (realSegment 0) offset = some offset := by
  have hinside : offset.toNat ≤ (realSegment 0).effectiveLimit := Nat.le_of_lt_succ h
  have hbase : UInt32.ofNat (realSegment 0).base + offset = offset := UInt32.zero_add offset
  have hup : expandDown (realSegment 0) = false := rfl
  unfold linear
  rw [hup, hbase, if_neg Bool.false_ne_true, decide_eq_true hinside]
  rfl

namespace Cpu
variable {c : Cpu}

theorem al_setAl (c : Cpu) (value : UInt8) : (c.setAl value).al = value := by
  rw [al, setAl, regs_set, UInt32.toUInt8_or, UInt32.toUInt8_and, UInt8.toUInt8_toUInt32]
  exact (congrArg (· ||| value) UInt8.and_zero).trans UInt8.zero_or

theorem toUInt16_setLow16 (c : Cpu) (reg : Reg) (value : UInt16) :
    ((c.setLow16 reg value).regs reg).toUInt16 = value := by
  rw [setLow16, regs_set, UInt32.toUInt16_or, UInt32.toUInt16_and, UInt16.toUInt16_toUInt32]
  exact (congrArg (· ||| value) UInt16.and_zero).trans UInt16.zero_or

theorem bus_low {pa : UInt32} (h : pa.toNat < 2 ^ 20) : c.bus pa = pa := by
  unfold bus
  split
  · rfl
  · apply flag_ext
    intro position hposition
    have hmask : flag position 0x100000 = decide (position = 20) := flag_mask 20 position (by decide)
    rw [flag_and, flag_not hposition, hmask]
    by_cases heq : position = 20
    · have hzero : flag position pa = false := by
        rw [heq, flag_eq_testBit]
        exact Nat.testBit_lt_two_pow h
      rw [hzero, Bool.false_and]
    · rw [decide_eq_false heq, Bool.not_false, Bool.and_true]

theorem bus_a20 (h : c.controller.a20 = true) (pa : UInt32) : c.bus pa = pa := if_pos h

theorem translate_unpaged (h : c.cr0 &&& cr0PG = 0) (la : UInt32) :
    c.translate la = some (la, true) :=
  if_pos h

theorem linearByte_unpaged (hpaging : c.cr0 &&& cr0PG = 0) {la : UInt32} (hbus : c.bus la = la) :
    c.linearByte la = some (c.mem la) := by
  rw [linearByte, translate_unpaged hpaging, Option.map_some, hbus]

theorem readByte_unpaged (hpaging : c.cr0 &&& cr0PG = 0) {s : Sreg} {offset : UInt32}
    (hlinear : linear (c.segs s).cached offset = some offset) (hbus : c.bus offset = offset) :
    c.readByte s offset = some (c.mem offset) := by
  rw [readByte, hlinear, Option.bind_some, linearByte_unpaged hpaging hbus]

theorem place_eq {s : Sreg} {offset la pa : UInt32}
    (hlinear : linear (c.segs s).cached offset = some la)
    (htranslate : c.translate la = some (pa, true))
    (hwritable : (c.segs s).cached.type &&& (staX ||| staW) = staW) :
    c.place s offset = some (c.bus pa) := by
  rw [place, hlinear]
  change (c.translate la).bind _ = _
  rw [htranslate]
  exact if_pos ⟨rfl, hwritable⟩

theorem place_flat {s : Sreg} (hs : (c.segs s).cached = flatSegment staW) {la pa : UInt32}
    (htranslate : c.translate la = some (pa, true)) (ha20 : c.controller.a20 = true) :
    c.place s la = some pa := by
  have hplace := @place_eq c s la la pa (hs ▸ linear_flatSegment rfl la) htranslate
    (hs ▸ show (flatSegment staW).type &&& (staX ||| staW) = staW by decide)
  rwa [bus_a20 ha20] at hplace

end Cpu

theorem or_mask_ne_zero {position : Nat} (h : position < 32) (word : UInt32) {set : UInt32}
    (hset : flag position set = true) : (word ||| set) &&& mask position ≠ 0 := by
  rw [and_mask_ne_zero h, flag_or, hset, Bool.or_true]

theorem sees_real {c : Cpu} (hpaging : c.cr0 &&& cr0PG = 0)
    (hcode : (c.segs .cs).cached = realSegment 0) (lo : Nat) {hi : Nat} (hhi : hi ≤ 0x10000) :
    Sees c 0 lo hi c.mem := by
  intro address hlo hlt
  rw [UInt32.add_zero]
  apply Cpu.readByte_unpaged hpaging
  · rw [hcode]
    exact linear_realSegment (Nat.lt_of_lt_of_le hlt hhi)
  · exact Cpu.bus_low (by omega)

theorem sees_flat {c : Cpu} (hpaging : c.cr0 &&& cr0PG = 0)
    (hcode : (c.segs .cs).cached = flatSegment (staX ||| staR)) (ha20 : c.controller.a20 = true)
    (lo hi : Nat) : Sees c 0 lo hi c.mem := by
  intro address hlo hlt
  rw [UInt32.add_zero]
  apply Cpu.readByte_unpaged hpaging
  · rw [hcode]
    exact linear_flatSegment rfl address
  · exact Cpu.bus_a20 ha20 address

theorem readList_lies {read : UInt32 → Option UInt8} {mem : UInt32 → UInt8} {lo hi : Nat}
    {address : UInt32} {bytes : List UInt8} (hhi : hi ≤ 2 ^ 32) (h : Lies mem lo hi address bytes)
    (hread : ∀ pa : UInt32, lo ≤ pa.toNat → pa.toNat < hi → read pa = some (mem pa)) :
    readList read bytes.length address = some bytes := by
  obtain ⟨hlo, hend, hbytes⟩ := h
  apply readList_eq
  intro k hk
  have haddress := @toNat_offset address k (by omega)
  rw [hread _ (by omega) (by omega), hbytes k hk]

theorem Cpu.push_flat {c : Cpu} (hpaging : c.cr0 &&& cr0PG = 0)
    (hss : (c.segs .ss).cached = flatSegment staW) (ha20 : c.controller.a20 = true) (value : UInt32) :
    c.push value = some { c.set .esp (c.regs .esp - 4) with
      mem := fill c.mem (c.regs .esp - 4) 4 fun k => (bytes32 value).getD k 0 } := by
  have hbig : (c.segs .ss).cached.big = true := by
    rw [hss]
    rfl
  exact push_eq hbig fun k _ => place_flat hss (translate_unpaged hpaging _) ha20

structure Bootstrapped (c : Cpu) : Prop where
  protect : c.cr0 &&& cr0PE ≠ 0
  unpaged : c.cr0 &&& cr0PG = 0
  limit : c.gdtr.2 = gdtLimit
  table : readList c.linearByte (gdtLimit + 1) c.gdtr.1 = some gdt

theorem Bootstrapped.loadSeg {c : Cpu} (h : Bootstrapped c) (s : Sreg) {selector : UInt16}
    {d : Descriptor} (hload : loadDescriptor gdt gdtLimit selector.toNat = some d)
    (haccepts : Cpu.accepts s d = true) :
    c.loadSeg s selector = some (c.setSeg s ⟨selector, d⟩) := by
  rw [Cpu.loadSeg, if_neg h.protect, h.limit, h.table]
  change (loadDescriptor gdt gdtLimit selector.toNat).bind _ = _
  rw [hload]
  exact if_pos haccepts

theorem Bootstrapped.setSeg {c : Cpu} (h : Bootstrapped c) (s : Sreg) (segment : Segment) :
    Bootstrapped (c.setSeg s segment) :=
  ⟨h.protect, h.unpaged, h.limit, h.table⟩

end JosKernel.Boot
