import JosKernel.Boot.Start
import JosKernel.Kern.Loading

/-! `kern/entry.S`: the kernel turns paging on and goes on above `KERNBASE`. -/
namespace JosKernel.Kern
open JosKernel.Inc JosKernel.General JosKernel.Boot JosKernel.Lib MachineCode Assembly BitFields
  Block

def multibootHeaderMagic : UInt32 := 0x1BADB002
def multibootHeaderFlags : UInt32 := 0
def checksum : UInt32 := -(multibootHeaderMagic + multibootHeaderFlags)

def kstksize : Nat := 8 * 4096

inductive EntryLabel where
  | start | entry | relocated | i386Init | spin | entryPgdir | bootstack | bootstacktop
  deriving DecidableEq, Repr

def entryText (symbol : EntryLabel → UInt32) : List (Line EntryLabel) :=
  [.align 4,
    .data (bytes32 multibootHeaderMagic),
    .data (bytes32 multibootHeaderFlags),
    .data (bytes32 checksum),
    .set .start (reloc (symbol .entry)),
    .label .entry,
    .op (.movwStore 0x1234 0x472),
    .op (.movl (reloc (symbol .entryPgdir)) .eax),
    .op (.movlTo .eax .cr3),
    .op (.movlFrom .cr0 .eax),
    .op (.orl (cr0PE ||| cr0PG ||| cr0WP) .eax),
    .op (.movlTo .eax .cr0),
    .op (.movl (symbol .relocated) .eax),
    .instr (.jmpReg .eax),
    .label .relocated,
    .op (.movl 0x0 .ebp),
    .op (.movl (symbol .bootstacktop) .esp),
    .jump .call .i386Init,
    .label .spin,
    .jump .jmp .spin]

def entryData : List (Line EntryLabel) :=
  [.align pgsize.toNat,
    .label .bootstack,
    .data (List.replicate kstksize 0),
    .label .bootstacktop]

theorem high_window {va : UInt32} (h : (reloc va).toNat < 0x400000) :
    kernbase ≤ va ∧ va < kernbase + 0x400000 := by
  have hva := va.toNat_lt
  have hbase : kernbase.toNat = 4026531840 := by decide
  have hend : (kernbase + 0x400000).toNat = 4030726144 := by decide
  rw [reloc, UInt32.toNat_sub, hbase] at h
  rw [UInt32.le_iff_toNat_le, UInt32.lt_iff_toNat_lt, hbase, hend]
  omega

theorem walk_low {memory : UInt32 → UInt32} {pgdir pgtable : UInt32}
    (h : Loaded memory pgdir pgtable) {la : UInt32} (hla : la.toNat < 0x400000) :
    walk memory (reloc pgdir) la = some (la, false) := by
  have hdirectory := h.directory la
  rw [if_neg (show ¬la.toNat / 2 ^ 22 = 960 by omega),
    if_pos (show la.toNat / 2 ^ 22 = 0 by omega)] at hdirectory
  have hpa : UInt32.ofNat (la.toNat % 2 ^ 22) = la := by
    rw [Nat.mod_eq_of_lt (by omega), UInt32.ofNat_toNat]
  rw [h.walk_table la (hdirectory ▸ readable_entry h.pgtable_aligned), hpa]

structure Paged (c : Cpu) (pgdir pgtable : UInt32) : Prop where
  on : c.cr0 &&& cr0PG ≠ 0
  cr3 : c.cr3 = reloc pgdir
  a20 : c.controller.a20 = true
  tables : Loaded (load32 c.mem) pgdir pgtable

section
variable {c : Cpu} {pgdir pgtable : UInt32} (h : Paged c pgdir pgtable)
include h

theorem Paged.walk_eq (la : UInt32) : walk (load32 fun pa => c.mem (c.bus pa)) c.cr3 la =
    walk (load32 c.mem) (reloc pgdir) la := by
  have hmem : (fun pa => c.mem (c.bus pa)) = c.mem := by
    funext pa
    rw [Cpu.bus_a20 h.a20]
  rw [hmem, h.cr3]

theorem Paged.linearByte_low {la : UInt32} (hla : la.toNat < 0x400000) :
    c.linearByte la = some (c.mem la) := by
  rw [Cpu.linearByte, Cpu.translate, if_neg h.on, h.walk_eq, walk_low h.tables hla, Option.map_some,
    Option.map_some, Cpu.bus_a20 h.a20]

theorem Paged.translate_high {la : UInt32} (hlo : kernbase ≤ la) (hhi : la < kernbase + 0x400000) :
    c.translate la = some (la - kernbase, true) := by
  rw [Cpu.translate, if_neg h.on, h.walk_eq, walk_high h.tables hlo hhi, Option.map_some,
    Bool.true_or]

theorem Paged.linearByte_high {la : UInt32} (hlo : kernbase ≤ la) (hhi : la < kernbase + 0x400000) :
    c.linearByte la = some (c.mem (la - kernbase)) := by
  rw [Cpu.linearByte, h.translate_high hlo hhi, Option.map_some, Cpu.bus_a20 h.a20]

theorem Paged.sees_low (hcs : (c.segs .cs).cached = flatSegment (staX ||| staR)) (lo : Nat) {hi : Nat}
    (hhi : hi ≤ 0x400000) : Sees c 0 lo hi c.mem := by
  intro address _ hlt
  rw [UInt32.add_zero, Cpu.readByte, hcs, linear_flatSegment rfl, Option.bind_some,
    h.linearByte_low (by omega)]

theorem Paged.sees_high (hcs : (c.segs .cs).cached = flatSegment (staX ||| staR)) (lo : Nat)
    {hi : Nat} (hhi : hi ≤ 0x400000) : Sees c kernbase lo hi c.mem := by
  intro address _ hlt
  obtain ⟨hlo, hend⟩ := @high_window (address + kernbase) (by
    rw [reloc, UInt32.add_sub_cancel]
    omega)
  rw [Cpu.readByte, hcs, linear_flatSegment rfl, Option.bind_some, h.linearByte_high hlo hend,
    UInt32.add_sub_cancel]

theorem Paged.push (hss : (c.segs .ss).cached = flatSegment staW)
    (hlo : 4 ≤ (reloc (c.regs .esp)).toNat) (hhi : (reloc (c.regs .esp)).toNat ≤ 0x400000)
    (value : UInt32) : c.push value = some { c.set .esp (c.regs .esp - 4) with
      mem := fill c.mem (reloc (c.regs .esp) - 4) 4 fun k => (bytes32 value).getD k 0 } := by
  have hbig : (c.segs .ss).cached.big = true := by
    rw [hss]
    rfl
  refine Cpu.push_eq hbig fun k hk => ?_
  have hreloc : reloc (c.regs .esp - 4 + UInt32.ofNat k) =
      reloc (c.regs .esp) - 4 + UInt32.ofNat k := by
    unfold reloc
    grind
  have hbelow : (reloc (c.regs .esp) - 4).toNat = (reloc (c.regs .esp)).toNat - 4 :=
    UInt32.toNat_sub_of_le _ _ (UInt32.le_iff_toNat_le.mpr hlo)
  have hpa := @toNat_offset (reloc (c.regs .esp) - 4) k (by omega)
  obtain ⟨hbase, hend⟩ := @high_window (c.regs .esp - 4 + UInt32.ofNat k) (by rw [hreloc]; omega)
  rw [← hreloc]
  exact Cpu.place_flat hss (h.translate_high hbase hend) h.a20

end

def warmBoot (mem : Memory) : Memory := fill mem 0x472 2 fun k => (bytes16 0x1234).getD k 0

theorem warmBoot_high (mem : Memory) {pa : UInt32} (h : 0x100000 ≤ pa.toNat) :
    warmBoot mem pa = mem pa :=
  fill_frame mem 0x472 _ (by decide) (.inr (Nat.le_trans (by decide) h))

structure FlatSegments (c : Cpu) : Prop where
  cs : (c.segs .cs).cached = flatSegment (staX ||| staR)
  ds : (c.segs .ds).cached = flatSegment staW
  ss : (c.segs .ss).cached = flatSegment staW
  unpaged : c.cr0 &&& cr0PG = 0
  a20 : c.controller.a20 = true

theorem FlatSegments.sees {c c' : Cpu} {lo hi : Nat} (hlo : 0x100000 ≤ lo) (h : FlatSegments c')
    (hmem : c'.mem = warmBoot c.mem) : Sees c' 0 lo hi c.mem := by
  intro pa hpa hlt
  rw [sees_flat h.unpaged h.cs h.a20 lo hi pa hpa hlt, hmem, warmBoot_high c.mem (by omega)]

/-- `%ebp` ends a backtrace, and the call has left the address behind it on the new stack. -/
def calling (top behind : UInt32) (c : Cpu) : Cpu :=
  { (c.set .ebp 0).set .esp (top - 4) with
    mem := fill c.mem (reloc top - 4) 4 fun k => (bytes32 behind).getD k 0 }

section
variable (device : Device) {symbol : EntryLabel → UInt32} {pgtable : UInt32} {address : UInt32}
  {lo hi : Nat} {lines : List (Line EntryLabel)} {c : Cpu} (hlo : 0x100000 ≤ lo) (hhi : hi ≤ 0x400000)
include hlo hhi

/-- From the entry point to the jump above `KERNBASE`. -/
theorem turn_on (hflat : FlatSegments c)
    (htables : Loaded (load32 (warmBoot c.mem)) (symbol .entryPgdir) pgtable)
    (h : Placed c.mem lo hi symbol kernbase true address
      (.op (.movwStore 0x1234 0x472) :: .op (.movl (reloc (symbol .entryPgdir)) .eax) ::
        .op (.movlTo .eax .cr3) :: .op (.movlFrom .cr0 .eax) ::
        .op (.orl (cr0PE ||| cr0PG ||| cr0WP) .eax) :: .op (.movlTo .eax .cr0) ::
        .op (.movl (symbol .relocated) .eax) :: .instr (.jmpReg .eax) ::
        .label .relocated :: lines)) :
    ∃ next c', Placed c.mem lo hi symbol kernbase true next lines ∧
      symbol .relocated = next + kernbase ∧
      Steps device ⟨address + 0, c⟩ ⟨symbol .relocated, c'⟩ ∧
      Paged c' (symbol .entryPgdir) pgtable ∧ c'.segs = c.segs ∧
      c'.cr0 = c.cr0 ||| (cr0PE ||| cr0PG ||| cr0WP) ∧ c'.mem = warmBoot c.mem ∧
      c'.ports = c.ports ∧ c'.interrupts = c.interrupts ∧ c'.down = c.down := by
  have hwide : hi ≤ 2 ^ 32 := Nat.le_trans hhi (by decide)
  have hbig : (c.segs .cs).cached.big = true := by
    rw [hflat.cs]
    rfl
  let stored : Cpu := { c with mem := warmBoot c.mem }
  have hstore : execute device (.movwStore 0x1234 0x472) c = some stored :=
    @Cpu.store_eq c .ds 0x472 0x472 (bytes16 0x1234) (by decide) fun k _ =>
      Cpu.place_flat hflat.ds (Cpu.translate_unpaged hflat.unpaged _) hflat.a20
  let pointed : Cpu := { stored.set .eax (reloc (symbol .entryPgdir)) with
    cr3 := reloc (symbol .entryPgdir) }
  have hpoint : execute device (.movlTo .eax .cr3) (stored.set .eax (reloc (symbol .entryPgdir))) =
      some pointed := by
    rw [execute, Cpu.regs_set]
  have hpointed : FlatSegments pointed := ⟨hflat.cs, hflat.ds, hflat.ss, hflat.unpaged, hflat.a20⟩
  let cr0 := c.cr0 ||| (cr0PE ||| cr0PG ||| cr0WP)
  let asked : Cpu := { pointed.set .eax cr0 with zero := cr0 = 0 }
  have hask : [Op.movlFrom .cr0 .eax, .orl (cr0PE ||| cr0PG ||| cr0WP) .eax].foldlM
      (fun c o => execute device o c) pointed = some asked := by
    rw [run_orCr0]
    rfl
  have hpaging : cr0 &&& cr0PG ≠ 0 :=
    @or_mask_ne_zero 31 (by decide) c.cr0 (cr0PE ||| cr0PG ||| cr0WP) (by decide)
  have hprotect : cr0 &&& cr0PE ≠ 0 :=
    @or_mask_ne_zero 0 (by decide) c.cr0 (cr0PE ||| cr0PG ||| cr0WP) (by decide)
  let paged : Cpu := { asked with cr0 := cr0 }
  have hpage : execute device (.movlTo .eax .cr0) asked = some paged := by
    have heax : asked.regs .eax = cr0 := Cpu.regs_set pointed .eax cr0
    rw [execute, heax, if_neg (fun hfault => hprotect hfault.2)]
  have hpaged : Paged paged (symbol .entryPgdir) pgtable := ⟨hpaging, rfl, hflat.a20, htables⟩
  have hlow : Sees paged 0 lo hi c.mem := by
    intro pa hpa hlt
    rw [hpaged.sees_low hflat.cs lo hhi pa hpa hlt]
    exact congrArg some (warmBoot_high c.mem (by omega))
  have hstored : FlatSegments stored := ⟨hflat.cs, hflat.ds, hflat.ss, hflat.unpaged, hflat.a20⟩
  have hstart := sees_flat hflat.unpaged hflat.cs hflat.a20 lo hi
  obtain ⟨_, h₁, hstep₁⟩ := step_op device hwide hstart hbig h hstore
  obtain ⟨_, h₂, hstep₂⟩ := step_op device hwide (hstored.sees hlo rfl) hbig h₁ rfl
  have hmoved : FlatSegments (stored.set .eax (reloc (symbol .entryPgdir))) :=
    ⟨hflat.cs, hflat.ds, hflat.ss, hflat.unpaged, hflat.a20⟩
  obtain ⟨_, h₃, hstep₃⟩ := step_op device hwide (hmoved.sees hlo rfl) hbig h₂ hpoint
  obtain ⟨_, h₄, hsteps₄, hsees₄⟩ :=
    steps_ops device hwide (hpointed.sees hlo rfl) hbig _ rfl h₃ hask
  obtain ⟨_, h₅, hstep₅⟩ := step_op device hwide hsees₄ hbig h₄ hpage
  obtain ⟨_, h₆, hsteps₆, hsees₆⟩ :=
    steps_ops device hwide hlow hbig [.movl (symbol .relocated) .eax] rfl h₅ rfl
  obtain ⟨next, ⟨hrelocated, h₇⟩, hjump⟩ := step_instr device hwide hsees₆ hbig h₆
  rw [follow, Cpu.regs_set] at hjump
  have hsteps : Steps device ⟨address + 0, c⟩
      ⟨symbol .relocated, paged.set .eax (symbol .relocated)⟩ :=
    .head hstep₁ (.head hstep₂ (.head hstep₃ (hsteps₄.trans (.head hstep₅ (hsteps₆.tail hjump)))))
  exact ⟨next, _, h₇, hrelocated, hsteps, ⟨hpaging, rfl, hflat.a20, htables⟩, rfl, rfl, rfl, rfl, rfl,
    rfl⟩

/-- From there to the call of `i386_init`. -/
theorem call_i386Init {mem : Memory} {c' : Cpu}
    (hpaged : Paged c' (symbol .entryPgdir) pgtable) (hmem : c'.mem = warmBoot mem)
    (hcs : (c'.segs .cs).cached = flatSegment (staX ||| staR))
    (hss : (c'.segs .ss).cached = flatSegment staW)
    (hstack : 4 ≤ (reloc (symbol .bootstacktop)).toNat)
    (htop : (reloc (symbol .bootstacktop)).toNat ≤ 0x400000)
    (h : Placed mem lo hi symbol kernbase true address
      (.op (.movl 0x0 .ebp) :: .op (.movl (symbol .bootstacktop) .esp) :: .jump .call .i386Init ::
        .label .spin :: lines)) :
    Steps device ⟨address + kernbase, c'⟩
      ⟨symbol .i386Init, calling (symbol .bootstacktop) (symbol .spin) c'⟩ := by
  have hwide : hi ≤ 2 ^ 32 := Nat.le_trans hhi (by decide)
  have hbig : (c'.segs .cs).cached.big = true := by
    rw [hcs]
    rfl
  have hsees : Sees c' kernbase lo hi mem := by
    intro pa hpa hlt
    rw [hpaged.sees_high hcs lo hhi pa hpa hlt, hmem, warmBoot_high mem (by omega)]
  let ready : Cpu := (c'.set .ebp 0).set .esp (symbol .bootstacktop)
  obtain ⟨_, h₁, hsteps, hsees₁⟩ := steps_ops device hwide hsees hbig
    [.movl 0x0 .ebp, .movl (symbol .bootstacktop) .esp] rfl h rfl
  obtain ⟨⟨hspin, -⟩, hjump⟩ := step_jump device hwide hsees₁ hbig h₁
  have hready : Paged ready (symbol .entryPgdir) pgtable :=
    ⟨hpaged.on, hpaged.cr3, hpaged.a20, hpaged.tables⟩
  have hesp : ready.regs .esp = symbol .bootstacktop := Cpu.regs_set _ _ _
  have hpush := hready.push hss (hesp.symm ▸ hstack) (hesp.symm ▸ htop) (symbol .spin)
  have hset : ready.set .esp (symbol .bootstacktop - 4) =
      (c'.set .ebp 0).set .esp (symbol .bootstacktop - 4) := by
    simp [ready, Cpu.set, Function.update_idem]
  rw [hesp, hset] at hpush
  rw [follow, ← hspin, hpush, near, if_pos rfl, UInt32.add_comm _ (_ - _),
    UInt32.sub_add_cancel] at hjump
  exact hsteps.tail hjump

end

/-- Where the linker has to put the page tables: in the memory from 1MB on that `entry.S` maps,
and not on the stack. -/
structure TablesPlaced (symbol : EntryLabel → UInt32) (pgtable : UInt32) (lo hi : Nat) : Prop where
  extended : 0x100000 ≤ lo
  window : hi ≤ 0x400000
  above : ∀ page ∈ [reloc (symbol .entryPgdir), reloc pgtable], lo ≤ page.toNat
  apart : ∀ page ∈ [reloc (symbol .entryPgdir), reloc pgtable],
    page.toNat + 4096 ≤ (reloc (symbol .bootstack)).toNat ∨
      (reloc (symbol .bootstacktop)).toNat ≤ page.toNat

structure Entered (symbol : EntryLabel → UInt32) (pgtable : UInt32) (c c' : Cpu) : Prop where
  paged : Paged c' (symbol .entryPgdir) pgtable
  segs : c'.segs = c.segs
  cr0 : c'.cr0 = c.cr0 ||| (cr0PE ||| cr0PG ||| cr0WP)
  ebp : c'.regs .ebp = 0
  esp : c'.regs .esp = symbol .bootstacktop - 4
  mem : c'.mem = fill (warmBoot c.mem) (reloc (symbol .bootstacktop) - 4) 4
    fun k => (bytes32 (symbol .spin)).getD k 0
  ports : c'.ports = c.ports
  interrupts : c'.interrupts = c.interrupts
  down : c'.down = c.down

section
variable {symbol : EntryLabel → UInt32} {pgtable : UInt32} {lo hi : Nat}

theorem stack_bounds {mem : Memory} {data : UInt32} (hhi : hi ≤ 0x400000)
    (h : Placed mem lo hi symbol kernbase true data entryData) :
    lo ≤ (reloc (symbol .bootstack)).toNat ∧
      (reloc (symbol .bootstacktop)).toNat = (reloc (symbol .bootstack)).toNat + kstksize ∧
      (reloc (symbol .bootstacktop)).toNat ≤ hi := by
  obtain ⟨hbottom, ⟨hlo, hend, -⟩, htop, -⟩ := h
  rw [List.length_replicate] at hend htop
  have hsize := toNat_offset (Nat.lt_of_le_of_lt hend (Nat.lt_of_le_of_lt hhi (by decide)))
  rw [hbottom, htop, reloc, reloc, UInt32.add_sub_cancel, UInt32.add_sub_cancel, hsize]
  exact ⟨hlo, rfl, hend⟩

theorem TablesPlaced.push (h : TablesPlaced symbol pgtable lo hi) {mem : Memory} {data : UInt32}
    (hdata : Placed mem lo hi symbol kernbase true data entryData) {mem' : Memory}
    (htables : Loaded (load32 mem') (symbol .entryPgdir) pgtable) (f : Nat → UInt8) :
    Loaded (load32 (fill mem' (reloc (symbol .bootstacktop) - 4) 4 f)) (symbol .entryPgdir)
      pgtable := by
  obtain ⟨-, htop, hend⟩ := stack_bounds h.window hdata
  have hsize : kstksize = 32768 := rfl
  have hwindow := h.window
  have hbelow : (reloc (symbol .bootstacktop) - 4).toNat = (reloc (symbol .bootstacktop)).toNat - 4 :=
    UInt32.toNat_sub_of_le _ _ (UInt32.le_iff_toNat_le.mpr (show 4 ≤ _ by omega))
  refine htables.congr fun address haddress => fill_frame _ _ _ (by omega) ?_
  rcases haddress with ⟨hfirst, hlast⟩ | ⟨hfirst, hlast⟩
  · have hapart := h.apart _ (.head _)
    omega
  · have hapart := h.apart _ (.tail _ (.head _))
    omega

end

theorem entryS_calls_i386Init (device : Device) {symbol : EntryLabel → UInt32} {pgtable : UInt32}
    {text data : UInt32} {lo hi : Nat} {c : Cpu} (hplaced : TablesPlaced symbol pgtable lo hi)
    (hflat : FlatSegments c) (htables : Loaded (load32 c.mem) (symbol .entryPgdir) pgtable)
    (htext : Placed c.mem lo hi symbol kernbase true text (entryText symbol))
    (hdata : Placed c.mem lo hi symbol kernbase true data entryData) :
    ∃ c', Steps device ⟨symbol .start, c⟩ ⟨symbol .i386Init, c'⟩ ∧ Entered symbol pgtable c c' := by
  have hwarm : Loaded (load32 (warmBoot c.mem)) (symbol .entryPgdir) pgtable := by
    refine htables.congr fun address haddress => warmBoot_high c.mem ?_
    have hlo := hplaced.extended
    rcases haddress with ⟨hfirst, -⟩ | ⟨hfirst, -⟩
    · have habove := hplaced.above _ (.head _)
      omega
    · have habove := hplaced.above _ (.tail _ (.head _))
      omega
  obtain ⟨hbottom, htop, hend⟩ := stack_bounds hplaced.window hdata
  have hsize : kstksize = 32768 := rfl
  have hwindow := hplaced.window
  obtain ⟨-, -, -, hstart, hentry, hcode⟩ := htext
  rw [hentry, reloc, UInt32.add_sub_cancel] at hstart
  obtain ⟨_, c₁, h₁, hrelocated, hsteps₁, hpaged₁, hsegs₁, hcr0₁, hmem₁, hports₁, hinterrupts₁,
    hdown₁⟩ :=
    turn_on device hplaced.extended hplaced.window hflat hwarm hcode
  have hsteps₂ := call_i386Init device hplaced.extended hplaced.window hpaged₁ hmem₁
    (hsegs₁ ▸ hflat.cs) (hsegs₁ ▸ hflat.ss) (show 4 ≤ _ by omega) (show _ ≤ 0x400000 by omega) h₁
  rw [UInt32.add_zero, ← hstart] at hsteps₁
  rw [← hrelocated] at hsteps₂
  refine ⟨_, hsteps₁.trans hsteps₂, ?_⟩
  exact {
    paged := ⟨hpaged₁.on, hpaged₁.cr3, hpaged₁.a20, hplaced.push hdata hpaged₁.tables _⟩
    segs := hsegs₁
    cr0 := hcr0₁
    ebp := by simp [calling, Cpu.set]
    esp := by simp [calling]
    mem := by rw [calling, hmem₁]
    ports := hports₁
    interrupts := hinterrupts₁
    down := hdown₁ }

end JosKernel.Kern
