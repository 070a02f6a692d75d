import JosKernel.Boot.Processor

/-! `boot/boot.S`: from real mode, where the BIOS leaves the processor, to the call of
`bootmain` in protected mode. -/
namespace JosKernel.Boot
open JosKernel.Inc JosKernel.General MachineCode Assembly BitFields Block

inductive StartLabel where
  | start | seta20_1 | seta20_2 | protcseg | bootmain | spin | gdt | gdtdesc
  deriving DecidableEq, Repr

section
variable (symbol : StartLabel → UInt32)

def bootstrapGdt : List (Line StartLabel) :=
  [.align 4,
    .label .gdt,
    .data Asm.segNull,
    .data (Asm.seg (staX ||| staR) 0x0 0xffffffff),
    .data (Asm.seg staW 0x0 0xffffffff),
    .label .gdtdesc,
    .data (Asm.word gdtLimit),
    .data (littleEndian 4 (symbol .gdt).toNat)]

def bootS : List (Line StartLabel) :=
  [.label .start,
    .code false,
    .op .cli,
    .op .cld,
    .op (.xorw .eax .eax),
    .op (.movwSeg .eax .ds),
    .op (.movwSeg .eax .es),
    .op (.movwSeg .eax .ss),
    .label .seta20_1,
    .op (.inb 0x64),
    .op (.testb 0x2),
    .jump .jnz .seta20_1,
    .op (.movb 0xd1),
    .op (.outb 0x64),
    .label .seta20_2,
    .op (.inb 0x64),
    .op (.testb 0x2),
    .jump .jnz .seta20_2,
    .op (.movb 0xdf),
    .op (.outb 0x60),
    .op (.lgdt (symbol .gdtdesc).toUInt16),
    .op (.movlFrom .cr0 .eax),
    .op (.orl cr0PE .eax),
    .op (.movlTo .eax .cr0),
    .instr (.ljmp (UInt16.ofNat protModeCseg) (symbol .protcseg).toUInt16),
    .code true,
    .label .protcseg,
    .op (.movw (UInt16.ofNat protModeDseg) .eax),
    .op (.movwSeg .eax .ds),
    .op (.movwSeg .eax .es),
    .op (.movwSeg .eax .fs),
    .op (.movwSeg .eax .gs),
    .op (.movwSeg .eax .ss),
    .op (.movl (symbol .start) .esp),
    .jump .call .bootmain,
    .label .spin,
    .jump .jmp .spin] ++ bootstrapGdt symbol

end

def Cpu.polled (status : UInt8) (c : Cpu) : Cpu :=
  { c.setAl status with
    zero := status &&& 0x2 = 0
    ports := { c.ports with reads := c.ports.reads + 1 }
    controller := { c.controller with ready := status &&& 0x2 = 0 } }

def Cpu.waited (value : UInt32) (reads : Nat) (c : Cpu) : Cpu :=
  { c.set .eax value with
    zero := true, ports := { c.ports with reads }, controller := { c.controller with ready := true } }

def Cpu.sent (value : UInt32) (reads : Nat) (port byte : UInt8) (c : Cpu) : Cpu :=
  { c.set .eax value with
    zero := true
    ports := outb port.toUInt32 byte { c.ports with reads }
    controller := { c.controller with ready := true }.write port byte }

structure Real (c : Cpu) : Prop where
  real : c.cr0 &&& cr0PE = 0
  unpaged : c.cr0 &&& cr0PG = 0
  code : (c.segs .cs).cached = realSegment 0
  segments : ∀ s, ∃ base, (c.segs s).cached = realSegment base

theorem unpaged_protected {cr0 : UInt32} (h : cr0 &&& cr0PG = 0) : (cr0 ||| cr0PE) &&& cr0PG = 0 := by
  rw [UInt32.and_comm, and_or, UInt32.and_comm cr0PG, h]
  rfl

theorem waited_polled (c : Cpu) (status : UInt8) (value : UInt32) (reads : Nat) :
    (c.polled status).waited value reads = c.waited value reads := by
  simp [Cpu.polled, Cpu.waited, Cpu.setAl, Cpu.set, Function.update_idem]

theorem polled_ready (c : Cpu) {status : UInt8} (h : status &&& 0x2 = 0) :
    c.polled status =
      c.waited ((c.regs .eax &&& 0xFFFFFF00) ||| status.toUInt32) (c.ports.reads + 1) := by
  rw [Cpu.polled, decide_eq_true h]
  rfl

theorem execute_outb (device : Device) (c : Cpu) (value : UInt32) (reads : Nat) (port byte : UInt8) :
    execute device (.outb port) ((c.waited value reads).setAl byte) =
      some (c.sent ((value &&& 0xFFFFFF00) ||| byte.toUInt32) reads port byte) := by
  rw [execute, Cpu.al_setAl]
  simp [Cpu.waited, Cpu.sent, Cpu.setAl, Cpu.set, Function.update_idem]

section
variable (device : Device) {symbol : StartLabel → UInt32} {code : UInt32 → UInt8}
  {slide address : UInt32} {lo hi : Nat} {lines : List (Line StartLabel)} {c c' : Cpu}
  (hhi : hi ≤ 2 ^ 32)
include hhi

theorem wait_round {target : StartLabel}
    (h : Placed code lo hi symbol slide false address
      (.op (.inb 0x64) :: .op (.testb 0x2) :: .jump .jnz target :: lines))
    (hsees : Sees c slide lo hi code) (hbig : (c.segs .cs).cached.big = false) :
    let status := device c.ports.reads 0x64
    ∃ next, Placed code lo hi symbol slide false next lines ∧
      Sees (c.polled status) slide lo hi code ∧
      Steps device ⟨address + slide, c⟩
        ⟨if status &&& 0x2 = 0 then next + slide else symbol target &&& 0xFFFF, c.polled status⟩ := by
  intro status
  have hrun : [Op.inb 0x64, Op.testb 0x2].foldlM (fun c o => execute device o c) c =
      some (c.polled status) := by
    change some { c.polled status with zero := (c.setAl status).al &&& 0x2 = 0 } = _
    rw [Cpu.al_setAl]
    rfl
  obtain ⟨middle, hplaced, hsteps, hsees'⟩ :=
    steps_ops device hhi hsees hbig [.inb 0x64, .testb 0x2] rfl h hrun
  obtain ⟨hlines, hjump⟩ := step_jump device hhi hsees' hbig hplaced
  refine ⟨_, hlines, hsees', hsteps.tail ?_⟩
  rw [hjump, follow, near, if_neg Bool.false_ne_true, UInt32.add_comm _ (_ - _),
    UInt32.sub_add_cancel]
  simp only [Cpu.polled, decide_eq_true_eq]

theorem wait_ready {target : StartLabel} (htarget : symbol target = address + slide)
    (hnear : (address + slide).toNat < 2 ^ 16)
    (h : Placed code lo hi symbol slide false address
      (.op (.inb 0x64) :: .op (.testb 0x2) :: .jump .jnz target :: lines))
    (hsees : Sees c slide lo hi code) (hbig : (c.segs .cs).cached.big = false) {wait : Nat}
    (hready : device (c.ports.reads + wait) 0x64 &&& 0x2 = 0) :
    ∃ next value reads, Placed code lo hi symbol slide false next lines ∧
      Steps device ⟨address + slide, c⟩ ⟨next + slide, c.waited value reads⟩ := by
  induction wait generalizing c with
  | zero =>
    obtain ⟨next, hlines, -, hsteps⟩ := wait_round device hhi h hsees hbig
    rw [Nat.add_zero] at hready
    rw [if_pos hready, polled_ready c hready] at hsteps
    exact ⟨next, _, _, hlines, hsteps⟩
  | succ wait ih =>
    obtain ⟨next, hlines, hsees', hsteps⟩ := wait_round device hhi h hsees hbig
    by_cases hstatus : device c.ports.reads 0x64 &&& 0x2 = 0
    · rw [if_pos hstatus, polled_ready c hstatus] at hsteps
      exact ⟨next, _, _, hlines, hsteps⟩
    · have hback : symbol target &&& 0xFFFF = address + slide := by
        rw [htarget]
        exact UInt32.toNat_inj.mp
          ((@toNat_and_low 0xFFFF 16 rfl _).trans (Nat.mod_eq_of_lt hnear))
      rw [if_neg hstatus, hback] at hsteps
      obtain ⟨next', value, reads, hlines', hrest⟩ := ih hsees' hbig (by
        rwa [← Nat.add_assoc, Nat.add_right_comm] at hready)
      rw [waited_polled] at hrest
      exact ⟨next', value, reads, hlines', hsteps.trans hrest⟩

end

theorem Real.sees {c : Cpu} (h : Real c) {code : UInt32 → UInt8} (hmem : c.mem = code) (lo : Nat)
    {hi : Nat} (hlow : hi ≤ 0x10000) : Sees c 0 lo hi code :=
  hmem ▸ sees_real h.unpaged h.code lo hlow

theorem Real.big {c : Cpu} (h : Real c) : (c.segs .cs).cached.big = false := by
  rw [h.code]
  rfl

theorem Real.loadSeg {c : Cpu} (h : Real c) (s : Sreg) :
    c.loadSeg s 0 = some (c.setSeg s ⟨0, realSegment 0⟩) := by
  obtain ⟨base, hbase⟩ := h.segments s
  rw [Cpu.loadSeg, if_pos h.real, hbase]
  rfl

theorem Real.setSeg {c : Cpu} (h : Real c) {s : Sreg} (hs : s ≠ .cs) :
    Real (c.setSeg s ⟨0, realSegment 0⟩) where
  real := h.real
  unpaged := h.unpaged
  code := (congrArg Segment.cached (Function.update_of_ne (Ne.symm hs) _ _)).trans h.code
  segments := by
    intro r
    by_cases hr : r = s
    · exact ⟨0, by simp [Cpu.setSeg, hr]⟩
    · obtain ⟨base, hbase⟩ := h.segments r
      exact ⟨base, by simp [Cpu.setSeg, hr, hbase]⟩

section
variable (device : Device) {symbol : StartLabel → UInt32} {code : UInt32 → UInt8}
  {address : UInt32} {lo hi : Nat} {lines : List (Line StartLabel)} {c : Cpu}
  (hlow : hi ≤ 0x10000)
include hlow

theorem send_byte {target : StartLabel} (byte port : UInt8) (hreal : Real c) (hmem : c.mem = code)
    (h : Placed code lo hi symbol 0 false address
      (.label target :: .op (.inb 0x64) :: .op (.testb 0x2) :: .jump .jnz target ::
        .op (.movb byte) :: .op (.outb port) :: lines)) {wait : Nat}
    (hready : device (c.ports.reads + wait) 0x64 &&& 0x2 = 0) :
    ∃ next value reads, Placed code lo hi symbol 0 false next lines ∧
      Steps device ⟨address + 0, c⟩ ⟨next + 0, c.sent value reads port byte⟩ := by
  obtain ⟨htarget, h⟩ := h
  have hhi : hi ≤ 2 ^ 32 := Nat.le_trans hlow (by decide)
  have hnear : (address + 0).toNat < 2 ^ 16 := by
    rw [UInt32.add_zero]
    exact Nat.lt_of_lt_of_le h.instr_lt hlow
  obtain ⟨next, value, reads, hplaced, hsteps⟩ :=
    wait_ready device hhi htarget hnear h (hreal.sees hmem lo hlow) hreal.big hready
  have hreal' : Real (c.waited value reads) :=
    ⟨hreal.real, hreal.unpaged, hreal.code, hreal.segments⟩
  obtain ⟨next₁, hplaced₁, hstep₁⟩ :=
    step_op device hhi (hreal'.sees hmem lo hlow) hreal'.big hplaced rfl
  have hreal₁ : Real ((c.waited value reads).setAl byte) :=
    ⟨hreal.real, hreal.unpaged, hreal.code, hreal.segments⟩
  obtain ⟨next₂, hplaced₂, hstep₂⟩ := step_op device hhi (hreal₁.sees hmem lo hlow) hreal₁.big
    hplaced₁ (execute_outb device c value reads port byte)
  exact ⟨next₂, _, reads, hplaced₂, (hsteps.tail hstep₁).tail hstep₂⟩

structure Zeroed (c : Cpu) : Prop extends Real c where
  ds : (c.segs .ds).cached = realSegment 0
  interrupts : c.interrupts = false
  down : c.down = false

theorem enter (hreal : Real c) (hmem : c.mem = code)
    (h : Placed code lo hi symbol 0 false address
      ([Op.cli, .cld, .xorw .eax .eax, .movwSeg .eax .ds, .movwSeg .eax .es,
        .movwSeg .eax .ss].map .op ++ lines)) :
    ∃ next c', Placed code lo hi symbol 0 false next lines ∧
      Steps device ⟨address + 0, c⟩ ⟨next + 0, c'⟩ ∧ Zeroed c' ∧ c'.toMachine = c.toMachine ∧
      c'.cr0 = c.cr0 ∧ c'.controller = c.controller := by
  have hhi : hi ≤ 2 ^ 32 := Nat.le_trans hlow (by decide)
  let cleared : Cpu := { c.setLow16 .eax 0 with interrupts := false, down := false, zero := true }
  have hcleared : Real cleared := ⟨hreal.real, hreal.unpaged, hreal.code, hreal.segments⟩
  have hds := hcleared.setSeg (s := .ds) (by decide)
  have hes := hds.setSeg (s := .es) (by decide)
  have hax : (cleared.regs .eax).toUInt16 = 0 := Cpu.toUInt16_setLow16 c .eax 0
  have hrun : [Op.cli, .cld, .xorw .eax .eax, .movwSeg .eax .ds, .movwSeg .eax .es,
      .movwSeg .eax .ss].foldlM (fun c o => execute device o c) c =
      some (((cleared.setSeg .ds ⟨0, realSegment 0⟩).setSeg .es ⟨0, realSegment 0⟩).setSeg .ss
        ⟨0, realSegment 0⟩) := by
    have hxor : execute device (.xorw .eax .eax) { c with interrupts := false, down := false } =
        some cleared := by
      rw [execute, UInt32.xor_self]
      rfl
    have hload {c' : Cpu} (h : Real c') (heax : c'.regs = cleared.regs) (s : Sreg) :
        execute device (.movwSeg .eax s) c' = some (c'.setSeg s ⟨0, realSegment 0⟩) := by
      rw [execute, heax, hax]
      exact h.loadSeg s
    rw [run_op rfl, run_op rfl, run_op hxor, run_op (hload hcleared rfl .ds),
      run_op (hload hds rfl .es), run_op (hload hes rfl .ss)]
    rfl
  obtain ⟨next, hplaced, hsteps, -⟩ :=
    steps_ops device hhi (hreal.sees hmem lo hlow) hreal.big _ rfl h hrun
  have hss := hes.setSeg (s := .ss) (by decide)
  exact ⟨next, _, hplaced, hsteps, ⟨hss, rfl, rfl, rfl⟩, rfl, rfl, rfl⟩

theorem execute_lgdt (hzeroed : Zeroed c) (hmem : c.mem = code) {desc table : UInt32}
    (hdesc : Lies code lo hi desc (Asm.word gdtLimit ++ littleEndian 4 table.toNat))
    (htable : table.toNat < 2 ^ 24) :
    execute device (.lgdt desc.toUInt16) c = some { c with gdtr := (table, gdtLimit) } := by
  have hhi : hi ≤ 2 ^ 32 := Nat.le_trans hlow (by decide)
  have hbyte : ∀ pa : UInt32, lo ≤ pa.toNat → pa.toNat < hi → c.readByte .ds pa = some (code pa) := by
    intro pa _ hlt
    rw [← hmem]
    apply Cpu.readByte_unpaged hzeroed.unpaged
    · rw [hzeroed.ds]
      exact linear_realSegment (by omega)
    · exact Cpu.bus_low (by omega)
  have hread : readList (c.readByte .ds) 6 desc =
      some (Asm.word gdtLimit ++ littleEndian 4 table.toNat) := readList_lies hhi hdesc hbyte
  have hend : desc.toNat + 6 ≤ hi := hdesc.2.1
  have haddress : desc.toUInt16.toUInt32 = desc := by
    apply UInt32.toNat_inj.mp
    rw [UInt16.toNat_toUInt32, UInt32.toNat_toUInt16]
    exact Nat.mod_eq_of_lt (by omega)
  have hbase : ofBytes ((littleEndian 4 table.toNat).take 3) = table.toNat := by
    have hsplit : littleEndian 4 table.toNat = littleEndian 3 table.toNat ++ littleEndian 1 0 :=
      @littleEndian_append 3 table.toNat htable 1 0
    rw [hsplit, List.take_left' (length_littleEndian 3 _), ofBytes_littleEndian htable]
  have hdrop : (Asm.word gdtLimit ++ littleEndian 4 table.toNat).drop 2 =
      littleEndian 4 table.toNat := List.drop_left' rfl
  have htake : (Asm.word gdtLimit ++ littleEndian 4 table.toNat).take 2 = Asm.word gdtLimit :=
    List.take_left' rfl
  have hlimit : ofBytes (Asm.word gdtLimit) = gdtLimit := by decide
  rw [execute, haddress]
  change (readList (c.readByte .ds) 6 desc).bind _ = _
  rw [hread, Option.bind_some, hdrop, htake, hbase, hlimit, UInt32.ofNat_toNat]

theorem protect {o : Op} (hzeroed : Zeroed c) (hmem : c.mem = code)
    (hdesc : Lies code lo hi (symbol .gdtdesc)
      (Asm.word gdtLimit ++ littleEndian 4 (symbol .gdt).toNat))
    (hgdt : Lies code lo hi (symbol .gdt) gdt)
    (h : Placed code lo hi symbol 0 false address
      (.op (.lgdt (symbol .gdtdesc).toUInt16) :: .op (.movlFrom .cr0 .eax) ::
        .op (.orl cr0PE .eax) :: .op (.movlTo .eax .cr0) ::
        .instr (.ljmp (UInt16.ofNat protModeCseg) (symbol .protcseg).toUInt16) ::
        .code true :: .label .protcseg :: .op o :: lines)) :
    ∃ c', Placed code lo hi symbol 0 true (symbol .protcseg) (.op o :: lines) ∧
      Steps device ⟨address + 0, c⟩ ⟨symbol .protcseg, c'⟩ ∧ Bootstrapped c' ∧
      c'.segs .cs = ⟨UInt16.ofNat protModeCseg, flatSegment (staX ||| staR)⟩ ∧
      c'.toMachine = c.toMachine ∧ c'.cr0 = c.cr0 ||| cr0PE ∧ c'.controller = c.controller ∧
      c'.interrupts = false ∧ c'.down = false := by
  have hhi : hi ≤ 2 ^ 32 := Nat.le_trans hlow (by decide)
  have htable : (symbol .gdt).toNat < 2 ^ 24 := by
    have hend : (symbol .gdt).toNat + 24 ≤ hi := hgdt.2.1
    omega
  have hunpaged := unpaged_protected hzeroed.unpaged
  have hprotect : (c.cr0 ||| cr0PE) &&& cr0PE ≠ 0 :=
    @or_mask_ne_zero 0 (by decide) c.cr0 cr0PE (by decide)
  let ready : Cpu := { c.set .eax (c.cr0 ||| cr0PE) with
    gdtr := (symbol .gdt, gdtLimit), zero := c.cr0 ||| cr0PE = 0 }
  have hrun : [Op.lgdt (symbol .gdtdesc).toUInt16, .movlFrom .cr0 .eax, .orl cr0PE .eax].foldlM
      (fun c o => execute device o c) c = some ready := by
    rw [run_op (execute_lgdt device hlow hzeroed hmem hdesc htable), run_orCr0]
    rfl
  have heax : ready.regs .eax = c.cr0 ||| cr0PE := Cpu.regs_set c .eax _
  obtain ⟨next, hplaced, hsteps, hsees⟩ :=
    steps_ops device hhi (hzeroed.sees hmem lo hlow) hzeroed.big _ rfl h hrun
  let switched : Cpu := { ready with cr0 := c.cr0 ||| cr0PE }
  have hswitch : execute device (.movlTo .eax .cr0) ready = some switched := by
    rw [execute, heax, if_neg (fun hpaging => hpaging.1 hunpaged)]
  have hswitched : Bootstrapped switched := by
    refine ⟨hprotect, hunpaged, rfl, ?_⟩
    refine readList_lies hhi hgdt fun pa _ hlt => ?_
    rw [← hmem]
    exact Cpu.linearByte_unpaged hunpaged (Cpu.bus_low (by omega))
  obtain ⟨next', hplaced', hstep⟩ := step_op device hhi hsees hzeroed.big hplaced hswitch
  have hcode : Sees switched 0 lo hi code :=
    hmem ▸ @sees_real switched hunpaged hzeroed.code lo hi hlow
  obtain ⟨last, ⟨hprotcseg, hlines⟩, hjump⟩ := step_instr device hhi hcode hzeroed.big hplaced'
  have hload : switched.loadSeg .cs (UInt16.ofNat protModeCseg) = some (switched.setSeg .cs
      ⟨UInt16.ofNat protModeCseg, flatSegment (staX ||| staR)⟩) :=
    hswitched.loadSeg .cs ((loadDescriptor_gdt protModeCseg).trans (if_pos rfl)) rfl
  rw [UInt32.add_zero] at hprotcseg
  rw [← hprotcseg] at hlines
  have hoffset : (symbol .protcseg).toUInt16.toUInt32 = symbol .protcseg := by
    apply UInt32.toNat_inj.mp
    rw [UInt16.toNat_toUInt32, UInt32.toNat_toUInt16]
    exact Nat.mod_eq_of_lt (Nat.lt_of_lt_of_le (Placed.instr_lt hlines) hlow)
  rw [follow, hload, hoffset] at hjump
  exact ⟨_, hlines, (hsteps.tail hstep).tail hjump, hswitched.setSeg .cs _, rfl, rfl, rfl,
    rfl, hzeroed.interrupts, hzeroed.down⟩

end

/-- The processor when `bootmain` is called: flat segments, line 20 on, and a stack that grows
down from the boot block, with the address of `spin` on it. -/
structure Called (symbol : StartLabel → UInt32) (c c' : Cpu) : Prop where
  cs : c'.segs .cs = ⟨UInt16.ofNat protModeCseg, flatSegment (staX ||| staR)⟩
  data : ∀ s, s ≠ .cs → c'.segs s = ⟨UInt16.ofNat protModeDseg, flatSegment staW⟩
  cr0 : c'.cr0 = c.cr0 ||| cr0PE
  a20 : c'.controller.a20 = true
  interrupts : c'.interrupts = false
  down : c'.down = false
  esp : c'.regs .esp = symbol .start - 4
  outs : c'.ports.outs = c.ports.outs ++ [(0x64, 0xd1), (0x60, 0xdf)]
  mem : c'.mem = fill c.mem (symbol .start - 4) 4 fun k => (bytes32 (symbol .spin)).getD k 0

section
variable (device : Device) {symbol : StartLabel → UInt32} {code : UInt32 → UInt8}
  {address : UInt32} {lo hi : Nat} {lines : List (Line StartLabel)} {c : Cpu}
  (hhi : hi ≤ 2 ^ 32)
include hhi

theorem call_bootmain (hboot : Bootstrapped c) (hmem : c.mem = code)
    (hcs : c.segs .cs = ⟨UInt16.ofNat protModeCseg, flatSegment (staX ||| staR)⟩)
    (ha20 : c.controller.a20 = true)
    (h : Placed code lo hi symbol 0 true address
      ([Op.movw (UInt16.ofNat protModeDseg) .eax, .movwSeg .eax .ds, .movwSeg .eax .es,
        .movwSeg .eax .fs, .movwSeg .eax .gs, .movwSeg .eax .ss,
        .movl (symbol .start) .esp].map .op ++ .jump .call .bootmain :: .label .spin :: lines)) :
    ∃ c', Steps device ⟨address + 0, c⟩ ⟨symbol .bootmain, c'⟩ ∧
      c'.segs .cs = c.segs .cs ∧
      (∀ s, s ≠ .cs → c'.segs s = ⟨UInt16.ofNat protModeDseg, flatSegment staW⟩) ∧
      c'.cr0 = c.cr0 ∧ c'.controller = c.controller ∧ c'.interrupts = c.interrupts ∧
      c'.down = c.down ∧ c'.regs .esp = symbol .start - 4 ∧ c'.ports = c.ports ∧
      c'.mem = fill c.mem (symbol .start - 4) 4 fun k => (bytes32 (symbol .spin)).getD k 0 := by
  let data : Segment := ⟨UInt16.ofNat protModeDseg, flatSegment staW⟩
  let c₀ := c.setLow16 .eax (UInt16.ofNat protModeDseg)
  have hax : (c₀.regs .eax).toUInt16 = UInt16.ofNat protModeDseg := Cpu.toUInt16_setLow16 c .eax _
  have hload {c' : Cpu} (h : Bootstrapped c') (heax : c'.regs = c₀.regs) {s : Sreg}
      (haccepts : Cpu.accepts s (flatSegment staW) = true) :
      execute device (.movwSeg .eax s) c' = some (c'.setSeg s data) := by
    rw [execute, heax, hax]
    exact h.loadSeg s ((loadDescriptor_gdt protModeDseg).trans rfl) haccepts
  have h₀ : Bootstrapped c₀ := ⟨hboot.protect, hboot.unpaged, hboot.limit, hboot.table⟩
  have h₁ := h₀.setSeg .ds data
  have h₂ := h₁.setSeg .es data
  have h₃ := h₂.setSeg .fs data
  have h₄ := h₃.setSeg .gs data
  let loaded :=
    ((((c₀.setSeg .ds data).setSeg .es data).setSeg .fs data).setSeg .gs data).setSeg .ss data
  let ready := loaded.set .esp (symbol .start)
  have hrun : [Op.movw (UInt16.ofNat protModeDseg) .eax, .movwSeg .eax .ds, .movwSeg .eax .es,
      .movwSeg .eax .fs, .movwSeg .eax .gs, .movwSeg .eax .ss, .movl (symbol .start) .esp].foldlM
      (fun c o => execute device o c) c = some ready := by
    rw [run_op rfl, run_op (hload h₀ rfl rfl), run_op (hload h₁ rfl rfl),
      run_op (hload h₂ rfl rfl), run_op (hload h₃ rfl rfl), run_op (hload h₄ rfl rfl), run_op rfl]
    rfl
  have hbig : (c.segs .cs).cached.big = true := by
    rw [hcs]
    rfl
  have hcode : Sees c 0 lo hi code :=
    hmem ▸ sees_flat hboot.unpaged (congrArg Segment.cached hcs) ha20 lo hi
  obtain ⟨next, hplaced, hsteps, hsees⟩ := steps_ops device hhi hcode hbig _ rfl h hrun
  obtain ⟨⟨hspin, -⟩, hjump⟩ := step_jump device hhi hsees hbig hplaced
  have hesp : ready.regs .esp = symbol .start := Cpu.regs_set loaded .esp _
  have hpush := @Cpu.push_flat ready hboot.unpaged rfl ha20 (symbol .spin)
  rw [hesp] at hpush
  rw [follow, ← hspin, hpush, near, if_pos rfl, UInt32.add_comm _ (_ - _),
    UInt32.sub_add_cancel] at hjump
  refine ⟨_, hsteps.tail hjump, rfl, ?_, rfl, rfl, rfl, rfl, ?_, rfl, rfl⟩
  · rintro (_ | _ | _ | _ | _ | _) hs
    all_goals first | rfl | exact absurd rfl hs
  · exact Cpu.regs_set ready .esp _

end

section
variable {symbol : StartLabel → UInt32} {code : UInt32 → UInt8} {address : UInt32} {lo hi : Nat}
  (hhi : hi < 2 ^ 32)
include hhi

theorem gdt_lies {big : Bool}
    (h : Placed code lo hi symbol 0 big address (bootstrapGdt symbol)) :
    Lies code lo hi (symbol .gdt) gdt ∧
      Lies code lo hi (symbol .gdtdesc)
        (Asm.word gdtLimit ++ littleEndian 4 (symbol .gdt).toNat) := by
  obtain ⟨hgdt, hnull, hcode, hdata, hdesc, hlimit, hbase, -⟩ := h
  rw [UInt32.add_zero] at hgdt hdesc
  rw [← hgdt] at hnull hcode hdata
  refine ⟨hnull.append hhi (hcode.append hhi ?_), ?_⟩
  · exact hdata
  · rw [hdesc]
    exact hlimit.append hhi hbase

end

theorem bootS_calls_bootmain (device : Device) {symbol : StartLabel → UInt32} {address : UInt32}
    {lo hi : Nat} {c : Cpu} (hlow : hi ≤ 0x10000) (hreal : Real c)
    (hready : ∀ reads, ∃ wait, device (reads + wait) 0x64 &&& 0x2 = 0)
    (h : Placed c.mem lo hi symbol 0 false address (bootS symbol)) :
    ∃ c', Steps device ⟨symbol .start, c⟩ ⟨symbol .bootmain, c'⟩ ∧ Called symbol c c' := by
  have hhi : hi < 2 ^ 32 := Nat.lt_of_le_of_lt hlow (by decide)
  have hsplit : (bootS symbol).take 37 ++ bootstrapGdt symbol = bootS symbol :=
    List.take_append_drop 37 (bootS symbol)
  obtain ⟨_, _, htable⟩ := Placed.suffix ((bootS symbol).take 37) (hsplit ▸ h)
  obtain ⟨hgdt, hdesc⟩ := gdt_lies hhi htable
  obtain ⟨hstart, hentry⟩ := h
  obtain ⟨_, c₁, h₁, hsteps₁, hzeroed₁, hmachine₁, hcr0₁, -⟩ := enter device hlow hreal rfl hentry
  have hports₁ : c₁.ports = c.ports := congrArg Machine.ports hmachine₁
  have hmem₁ : c₁.mem = c.mem := congrArg Machine.mem hmachine₁
  obtain ⟨wait₁, hwait₁⟩ := hready c₁.ports.reads
  obtain ⟨_, value₁, reads₁, h₂, hsteps₂⟩ :=
    send_byte device hlow 0xd1 0x64 hzeroed₁.toReal hmem₁ h₁ hwait₁
  have hreal₂ : Real (c₁.sent value₁ reads₁ 0x64 0xd1) :=
    ⟨hzeroed₁.real, hzeroed₁.unpaged, hzeroed₁.code, hzeroed₁.segments⟩
  obtain ⟨wait₂, hwait₂⟩ := hready reads₁
  obtain ⟨_, value₂, reads₂, h₃, hsteps₃⟩ :=
    send_byte device hlow 0xdf 0x60 hreal₂ hmem₁ h₂ hwait₂
  have hzeroed₃ : Zeroed ((c₁.sent value₁ reads₁ 0x64 0xd1).sent value₂ reads₂ 0x60 0xdf) :=
    ⟨⟨hzeroed₁.real, hzeroed₁.unpaged, hzeroed₁.code, hzeroed₁.segments⟩, hzeroed₁.ds,
      hzeroed₁.interrupts, hzeroed₁.down⟩
  obtain ⟨c₄, h₄, hsteps₄, hboot₄, hcs₄, hmachine₄, hcr0₄, hcontroller₄, hinterrupts₄, hdown₄⟩ :=
    protect device hlow hzeroed₃ hmem₁ hdesc hgdt h₃
  have hmem₄ : c₄.mem = c.mem := (congrArg Machine.mem hmachine₄).trans hmem₁
  have ha20 : c₄.controller.a20 = true := congrArg Controller.a20 hcontroller₄
  obtain ⟨c', hsteps₅, hcs, hdata, hcr0, hcontroller, hinterrupts, hdown, hesp, hports, hmem⟩ :=
    call_bootmain device (Nat.le_of_lt hhi) hboot₄ hmem₄ hcs₄ ha20 h₄
  rw [UInt32.add_zero] at hsteps₅ hstart
  rw [UInt32.add_zero, ← hstart] at hsteps₁
  refine ⟨c', (((hsteps₁.trans hsteps₂).trans hsteps₃).trans hsteps₄).trans hsteps₅, ?_⟩
  exact {
    cs := hcs.trans hcs₄
    data := hdata
    cr0 := by rw [hcr0, hcr0₄, ← hcr0₁]; rfl
    a20 := by rw [hcontroller, ha20]
    interrupts := hinterrupts.trans hinterrupts₄
    down := hdown.trans hdown₄
    esp := hesp
    outs := by
      rw [hports, congrArg Machine.ports hmachine₄, ← hports₁]
      exact List.append_assoc _ _ _
    mem := by rw [hmem, hmem₄] }

end JosKernel.Boot
