import JosKernel.Lib.Messages
import JosKernel.Lib.ReadlineScreen

/-! The serial port of `kern/console.c`: how `serial_init` programs it, and what
is handed to its transmitter afterwards. -/
namespace JosKernel.Kern.Serial
open JosKernel.Inc JosKernel.Lib JosKernel.General Sink
open Readline (onConsole)

def comRx : UInt32 := 0
def comDll : UInt32 := 0
def comDlm : UInt32 := 1
def comIer : UInt32 := 1
def comIerRdi : UInt8 := 0x01
def comIir : UInt32 := 2
def comFcr : UInt32 := 2
def comLcr : UInt32 := 3
def comLcrDlab : UInt8 := 0x80
def comLcrWlen8 : UInt8 := 0x03
def comMcr : UInt32 := 4
def comLsrData : UInt8 := 0x01

def serialInit (device : Device) (ports : Ports) : Bool × Ports :=
  -- turn off the FIFO
  let ports := outb (com1 + comFcr) 0 ports
  -- set speed; requires DLAB latch
  let ports := outb (com1 + comLcr) comLcrDlab ports
  let ports := outb (com1 + comDll) (UInt8.ofNat (115200 / 9600)) ports
  let ports := outb (com1 + comDlm) 0 ports
  -- 8 data bits, 1 stop bit, parity off; turn off DLAB latch
  let ports := outb (com1 + comLcr) (comLcrWlen8 &&& ~~~comLcrDlab) ports
  -- no modem controls
  let ports := outb (com1 + comMcr) 0 ports
  -- enable rcv interrupts
  let ports := outb (com1 + comIer) comIerRdi ports
  let (lsr, ports) := inb device (com1 + comLsr) ports
  let (_, ports) := inb device (com1 + comIir) ports
  let (_, ports) := inb device (com1 + comRx) ports
  (lsr ≠ 0xFF, ports)

/-- The registers of the UART, and what has been written to its transmit buffer. -/
structure Uart where
  dll : UInt8
  dlm : UInt8
  ier : UInt8
  fcr : UInt8
  lcr : UInt8
  mcr : UInt8
  tx : List UInt8

namespace Uart

def dlab (uart : Uart) : Bool := uart.lcr &&& comLcrDlab ≠ 0

/-- A byte written to a port, seen from the UART: the latch bit decides what is
behind the first two ports. -/
def write (uart : Uart) (out : UInt16 × UInt8) : Uart :=
  if out.1 = (com1 + comTx).toUInt16 then
    if uart.dlab then { uart with dll := out.2 } else { uart with tx := uart.tx ++ [out.2] }
  else if out.1 = (com1 + comIer).toUInt16 then
    if uart.dlab then { uart with dlm := out.2 } else { uart with ier := out.2 }
  else if out.1 = (com1 + comFcr).toUInt16 then { uart with fcr := out.2 }
  else if out.1 = (com1 + comLcr).toUInt16 then { uart with lcr := out.2 }
  else if out.1 = (com1 + comMcr).toUInt16 then { uart with mcr := out.2 }
  else uart

def behind (uart : Uart) (ports : Ports) : Uart := ports.outs.foldl write uart

/-- 9600 baud, 8 data bits, no parity, 1 stop bit, receive interrupts, no FIFO
and no modem controls; `tx` has been written to the transmit buffer. -/
def programmed (tx : List UInt8) : Uart := ⟨12, 0, 0x01, 0, 0x03, 0, tx⟩

end Uart

theorem serialInit_programs (device : Device) (ports : Ports) (uart : Uart) :
    uart.behind (serialInit device ports).2 = .programmed (uart.behind ports).tx := by
  have houts : (serialInit device ports).2.outs = ports.outs ++
      [((com1 + comFcr).toUInt16, 0), ((com1 + comLcr).toUInt16, 0x80), ((com1 + comDll).toUInt16, 12),
       ((com1 + comDlm).toUInt16, 0), ((com1 + comLcr).toUInt16, 0x03), ((com1 + comMcr).toUInt16, 0),
       ((com1 + comIer).toUInt16, 0x01)] := by
    simp only [serialInit, outb, inb, List.append_assoc]
    rfl
  rw [Uart.behind, houts, List.foldl_append]
  change List.foldl Uart.write (uart.behind ports) _ = _
  simp +decide only [List.foldl_cons, List.foldl_nil, Uart.write, Uart.dlab, if_true, if_false]
  rfl

def Beside (out : UInt16 × UInt8) : Prop := ¬(0x3F9 ≤ out.1 ∧ out.1 ≤ 0x3FC)

theorem write_beside {tx : List UInt8} {out : UInt16 × UInt8} (h : Beside out) :
    (Uart.programmed tx).write out =
      .programmed (tx ++ if out.1 = 0x3F8 then [out.2] else []) := by
  have hport (port : UInt16) (hport : 0x3F9 ≤ port ∧ port ≤ 0x3FC) : ¬out.1 = port := by
    rintro rfl
    exact h hport
  have hdlab : ¬(Uart.programmed tx).dlab = true := by
    change ¬decide (comLcrWlen8 &&& comLcrDlab ≠ 0) = true
    decide
  by_cases htx : out.1 = 0x3F8
  · rw [if_pos htx]
    unfold Uart.write
    rw [if_pos (show out.1 = (com1 + comTx).toUInt16 from htx), if_neg hdlab]
    rfl
  · rw [if_neg htx, List.append_nil]
    unfold Uart.write
    rw [if_neg (show ¬out.1 = (com1 + comTx).toUInt16 from htx), if_neg (hport _ (by decide)),
      if_neg (hport _ (by decide)), if_neg (hport _ (by decide)), if_neg (hport _ (by decide))]

theorem foldl_beside {tx : List UInt8} {outs : List (UInt16 × UInt8)}
    (h : ∀ out ∈ outs, Beside out) :
    outs.foldl Uart.write (.programmed tx) =
      .programmed (tx ++ (outs.filter (·.1 = 0x3F8)).map (·.2)) := by
  induction outs generalizing tx with
  | nil => exact congrArg _ (List.append_nil tx).symm
  | cons out outs ih =>
    obtain ⟨hout, houts⟩ := List.forall_mem_cons.mp h
    rw [List.foldl_cons, write_beside hout, ih houts, List.filter_cons, List.append_assoc]
    by_cases htx : out.1 = 0x3F8 <;> simp [htx]

/-- What has been written from `s` to `s'` reprograms neither the UART nor where
the 6845 is. -/
structure Quiet (s s' : Console) : Prop where
  addr : s'.addr6845 = s.addr6845
  outs : ∃ outs, s'.ports.outs = s.ports.outs ++ outs ∧ ∀ out ∈ outs, Beside out

theorem Quiet.of_outs {s s' : Console} (haddr : s'.addr6845 = s.addr6845)
    (houts : s'.ports.outs = s.ports.outs) : Quiet s s' :=
  ⟨haddr, [], by rw [houts, List.append_nil], List.forall_mem_nil _⟩

theorem Quiet.trans {s s' s'' : Console} (h : Quiet s s') (h' : Quiet s' s'') : Quiet s s'' := by
  obtain ⟨outs, houts, hbeside⟩ := h.outs
  obtain ⟨outs', houts', hbeside'⟩ := h'.outs
  refine ⟨h'.addr.trans h.addr, outs ++ outs', by rw [houts', houts, List.append_assoc], ?_⟩
  intro out hout
  rcases List.mem_append.mp hout with hout | hout
  · exact hbeside out hout
  · exact hbeside' out hout

section
variable {device : Device} {s s' : Console}

theorem quiet_mirrored (c : UInt32) (s : Console) :
    Quiet s (lptPutc device c (serialPutc device c s)) := by
  refine ⟨rfl, [(0x3F8, c.toUInt8), (0x378, c.toUInt8), (0x37A, 0x0d), (0x37A, 0x08)], ?_, ?_⟩
  · rw [lptPutc_outs, serialPutc_outs, List.append_assoc]
    rfl
  · simp only [List.forall_mem_cons, Beside]
    exact ⟨by decide, by decide, by decide, by decide, List.forall_mem_nil _⟩

theorem quiet_moveCursor (h : s.addr6845 = monoBase ∨ s.addr6845 = cgaBase) :
    Quiet s (moveCursor s) := by
  refine ⟨rfl, _, moveCursor_outs s, ?_⟩
  simp only [List.forall_mem_cons, Beside]
  rcases h with h | h <;> rw [h] <;>
    exact ⟨by decide, by decide, by decide, by decide, List.forall_mem_nil _⟩

theorem quiet_scrollUp (h : scrollUp s = .ok s') : Quiet s s' := by
  unfold scrollUp at h
  split at h
  · obtain ⟨moved, -, h⟩ := exists_of_bind_eq_ok h
    obtain ⟨blanked, -, h⟩ := exists_of_bind_eq_ok h
    cases h
    exact .of_outs rfl rfl
  · cases h
    exact .of_outs rfl rfl

variable {consPutc : UInt32 → Console → Except Fault Console}

theorem quiet_cgaSwitch {c : UInt32} (haddr : s.addr6845 = monoBase ∨ s.addr6845 = cgaBase)
    (hspace : ∀ s s', s.addr6845 = monoBase ∨ s.addr6845 = cgaBase → consPutc 0x20 s = .ok s' →
      Quiet s s') (h : cgaSwitch consPutc c s = .ok s') : Quiet s s' := by
  unfold cgaSwitch at h
  dsimp only at h
  split at h
  · split at h
    · obtain ⟨crtBuf, -, h⟩ := exists_of_bind_eq_ok h
      cases h
      exact .of_outs rfl rfl
    · cases h
      exact .of_outs rfl rfl
  split at h
  · cases h
    exact .of_outs rfl rfl
  split at h
  · cases h
    exact .of_outs rfl rfl
  split at h
  · obtain ⟨s₁, h₁, h⟩ := exists_of_bind_eq_ok h
    obtain ⟨s₂, h₂, h⟩ := exists_of_bind_eq_ok h
    obtain ⟨s₃, h₃, h⟩ := exists_of_bind_eq_ok h
    obtain ⟨s₄, h₄, h⟩ := exists_of_bind_eq_ok h
    have hq₁ := hspace _ _ haddr h₁
    have hq₂ := hq₁.trans (hspace _ _ (hq₁.addr ▸ haddr) h₂)
    have hq₃ := hq₂.trans (hspace _ _ (hq₂.addr ▸ haddr) h₃)
    have hq₄ := hq₃.trans (hspace _ _ (hq₃.addr ▸ haddr) h₄)
    exact hq₄.trans (hspace _ _ (hq₄.addr ▸ haddr) h)
  · obtain ⟨crtBuf, -, h⟩ := exists_of_bind_eq_ok h
    cases h
    exact .of_outs rfl rfl

theorem quiet_cgaPutcWith {c : UInt32} (haddr : s.addr6845 = monoBase ∨ s.addr6845 = cgaBase)
    (hspace : ∀ s s', s.addr6845 = monoBase ∨ s.addr6845 = cgaBase → consPutc 0x20 s = .ok s' →
      Quiet s s') (h : cgaPutcWith consPutc c s = .ok s') : Quiet s s' := by
  obtain ⟨s₁, hswitch, h⟩ := exists_of_bind_eq_ok h
  obtain ⟨s₂, hscroll, h⟩ := exists_of_bind_eq_ok h
  cases h
  have hq₁ := quiet_cgaSwitch haddr hspace hswitch
  have hq₂ := hq₁.trans (quiet_scrollUp hscroll)
  exact hq₂.trans (quiet_moveCursor (hq₂.addr ▸ haddr))

theorem quiet_cgaPutcNested {depth : Nat} {c : UInt32}
    (haddr : s.addr6845 = monoBase ∨ s.addr6845 = cgaBase)
    (h : cgaPutcNested device depth c s = .ok s') : Quiet s s' := by
  induction depth generalizing c s s' with
  | zero => cases h
  | succ depth ih =>
    refine quiet_cgaPutcWith haddr (fun s s' haddr h => ?_) h
    exact (quiet_mirrored 0x20 s).trans (ih haddr h)

theorem quiet_cputchars {text : List UInt32} (haddr : s.addr6845 = monoBase ∨ s.addr6845 = cgaBase)
    (h : cputchars device text s = .ok s') : Quiet s s' := by
  induction text generalizing s with
  | nil =>
    cases h
    exact .of_outs rfl rfl
  | cons c text ih =>
    obtain ⟨next, hputc, h⟩ := exists_of_bind_eq_ok h
    have hquiet := (quiet_mirrored c s).trans (quiet_cgaPutcNested haddr hputc)
    exact hquiet.trans (ih (hquiet.addr ▸ haddr) h)

end

theorem cputchars_tx {device : Device} {s : Console} (hready : Ready s) (uart : Uart)
    {tx : List UInt8} (huart : uart.behind s.ports = .programmed tx) (text : List UInt32) :
    ∃ s', cputchars device text s = .ok s' ∧ Ready s' ∧
      uart.behind s'.ports = .programmed (tx ++ text.flatMap mirrored) := by
  obtain ⟨s', hrun, hready', hsends⟩ := cputchars_sends device text hready
  refine ⟨s', hrun, hready', ?_⟩
  obtain ⟨outs, houts, hbeside⟩ := (quiet_cputchars hready.addr hrun).outs
  have hserial := hsends.serial
  rw [sent, houts, List.filter_append, List.map_append] at hserial
  have hbytes := List.append_cancel_left hserial
  rw [Uart.behind, houts, List.foldl_append]
  change List.foldl Uart.write (uart.behind s.ports) outs = _
  rw [huart, foldl_beside hbeside, ← hbytes]
  rfl

theorem waitReady_ready {device : Device} {port : UInt32} {ready : UInt8 → Bool}
    {pause : Ports → Ports} {pauses : Nat}
    (hpause : ∀ ports, (pause ports).reads = ports.reads + pauses) {count : Nat} {ports : Ports}
    (h : ∃ i ≤ count, ready (device (ports.reads + (pauses + 1) * i) port.toUInt16) = true) :
    ∃ poll, (waitReady device port ready pause count ports).reads = poll + 1 ∧
      ready (device poll port.toUInt16) = true := by
  obtain ⟨i, hi, hready⟩ := h
  induction count generalizing ports i with
  | zero =>
    rw [Nat.le_zero.mp hi] at hready
    exact ⟨ports.reads, rfl, hready⟩
  | succ count ih =>
    unfold waitReady
    dsimp only
    split
    · next hfirst => exact ⟨ports.reads, rfl, hfirst⟩
    · next hfirst =>
      cases i with
      | zero => exact absurd hready hfirst
      | succ i =>
        refine ih i (Nat.le_of_succ_le_succ hi) ?_
        rw [hpause]
        change ready (device (ports.reads + 1 + pauses + (pauses + 1) * i) port.toUInt16) = true
        rw [Nat.mul_succ] at hready
        convert hready using 3
        omega

/-- The transmit buffer gets empty while `serial_putc` polls the line status. -/
def Prompt (device : Device) : Prop :=
  ∀ reads, ∃ i ≤ 12800, device (reads + 5 * i) (com1 + comLsr).toUInt16 &&& comLsrTxrdy ≠ 0

theorem serialPutc_prompt {device : Device} (h : Prompt device) (c : UInt32) (s : Console) :
    ∃ poll, (serialPutc device c s).ports.reads = poll + 1 ∧
      device poll (com1 + comLsr).toUInt16 &&& comLsrTxrdy ≠ 0 := by
  obtain ⟨i, hi, hready⟩ := h s.ports.reads
  obtain ⟨poll, hreads, hpoll⟩ := @waitReady_ready device (com1 + comLsr)
    (fun lsr => decide (lsr &&& comLsrTxrdy ≠ 0)) (delay device) 4 (fun _ => rfl) 12800 s.ports
    ⟨i, hi, decide_eq_true hready⟩
  exact ⟨poll, hreads, of_decide_eq_true hpoll⟩

structure Hardware where
  device : Device
  video : Video
  ports : Ports

instance : Inhabited Hardware :=
  ⟨fun _ _ => 0, ⟨List.replicate 2000 blankCell, List.replicate 2000 blankCell, 0xA55A,
    List.length_replicate, List.length_replicate⟩, ⟨0, []⟩⟩

def Hardware.OnScreen (machine : Hardware) : Prop :=
  bootCursor machine.device machine.video machine.ports < crtSize

instance (machine : Hardware) : Decidable machine.OnScreen := inferInstanceAs (Decidable (_ < _))

def consInit (device : Device) (video : Video) (ports : Ports) : Except Fault (Bool × Console) := do
  let s ← cgaInit device video ports
  -- `kbd_init` does nothing
  let (serialExists, ports) := serialInit device s.ports
  let s := { s with ports }
  if serialExists then return (serialExists, s)
  else
    let console ← say (onConsole device) "Serial port does not exist!\n".toList [] (.ok s)
    let s ← console
    return (serialExists, s)

theorem feed_onConsole (device : Device) (out : List Int) (s : Console) :
    feed (onConsole device) (.ok s) out = cputchars device (out.map UInt32.ofInt) s := by
  induction out generalizing s with
  | nil => rfl
  | cons c out ih =>
    rw [feed_cons, List.map_cons, cputchars, List.foldlM_cons]
    change feed (onConsole device) (cputchar device (UInt32.ofInt c) s) out = _
    cases hputc : cputchar device (UInt32.ofInt c) s with
    | ok next => exact ih next
    | error fault =>
      clear ih hputc
      induction out with
      | nil => rfl
      | cons c out ih => exact ih

def lineBytes (out : List Int) : List UInt8 := (out.map UInt32.ofInt).flatMap mirrored

theorem feed_tx {device : Device} {s : Console} (hready : Ready s) (uart : Uart)
    {tx : List UInt8} (huart : uart.behind s.ports = .programmed tx) (out : List Int) :
    ∃ s', feed (onConsole device) (.ok s) out = .ok s' ∧ Ready s' ∧
      uart.behind s'.ports = .programmed (tx ++ lineBytes out) := by
  rw [feed_onConsole]
  exact cputchars_tx hready uart huart (out.map UInt32.ofInt)

theorem write_elsewhere (uart : Uart) {out : UInt16 × UInt8} (h : out.1 < 0x3F8) :
    uart.write out = uart := by
  have hport (port : UInt16) (hport : 0x3F8 ≤ port) : ¬out.1 = port := by
    rintro rfl
    exact absurd hport (UInt16.not_le.mpr h)
  unfold Uart.write
  rw [if_neg (hport _ (by decide)), if_neg (hport _ (by decide)), if_neg (hport _ (by decide)),
    if_neg (hport _ (by decide)), if_neg (hport _ (by decide))]

theorem cgaInit_uart {device : Device} {video : Video} {ports : Ports} {s : Console}
    (h : cgaInit device video ports = .ok s) (uart : Uart) :
    uart.behind s.ports = uart.behind ports := by
  obtain ⟨⟨crtBuf, addr⟩, hprobe, h⟩ := exists_of_bind_eq_ok h
  obtain ⟨crtBuf', hprobe', -⟩ := cgaProbe_eq video
  rw [hprobe] at hprobe'
  cases hprobe'
  cases h
  have haddr : (bootAddr video).toUInt16 < 0x3F8 := by
    unfold bootAddr
    split <;> decide
  simp only [Uart.behind, outb, List.foldl_append, List.foldl_cons, List.foldl_nil]
  rw [write_elsewhere _ haddr, write_elsewhere _ haddr]

def Hardware.serialExists (machine : Hardware) : Bool :=
  machine.device (machine.ports.reads + 2) (com1 + comLsr).toUInt16 ≠ 0xFF

def Hardware.complaint (machine : Hardware) : List Int :=
  if machine.serialExists then [] else plainCodes "Serial port does not exist!\n".toList

theorem serialInit_exists (machine : Hardware) {s : Console}
    (h : cgaInit machine.device machine.video machine.ports = .ok s) :
    (serialInit machine.device s.ports).1 = machine.serialExists := by
  obtain ⟨⟨crtBuf, addr⟩, -, h⟩ := exists_of_bind_eq_ok h
  cases h
  rfl

theorem consInit_programs {machine : Hardware} (hcursor : machine.OnScreen) (uart : Uart) :
    ∃ s, consInit machine.device machine.video machine.ports = .ok (machine.serialExists, s) ∧
      Ready s ∧ uart.behind s.ports =
        .programmed ((uart.behind machine.ports).tx ++ lineBytes machine.complaint) := by
  obtain ⟨s, hinit, hsize, haddr, hpos⟩ :=
    cgaInit_eq machine.device machine.video machine.ports
  have hready : Ready { s with ports := (serialInit machine.device s.ports).2 } := by
    refine ⟨?_, Nat.le_of_eq hsize.symm, Or.inl (hpos ▸ hcursor)⟩
    change s.addr6845 = monoBase ∨ s.addr6845 = cgaBase
    rw [haddr, bootAddr]
    split
    · exact Or.inl rfl
    · exact Or.inr rfl
  have huart := serialInit_programs machine.device s.ports uart
  rw [cgaInit_uart hinit uart] at huart
  have hexists := serialInit_exists machine hinit
  unfold Hardware.complaint
  cases hmachine : machine.serialExists with
  | true =>
    rw [hmachine] at hexists
    refine ⟨_, ?_, hready, huart.trans (congrArg _ (List.append_nil _).symm)⟩
    rw [consInit, bind_of_ok hinit]
    dsimp only
    rw [hexists]
    rfl
  | false =>
    rw [hmachine] at hexists
    obtain ⟨s', hfeed, hready', htx⟩ := @feed_tx machine.device _ hready uart _ huart
      (plainCodes "Serial port does not exist!\n".toList)
    refine ⟨s', ?_, hready', htx⟩
    rw [consInit, bind_of_ok hinit]
    dsimp only
    rw [hexists, if_neg Bool.false_ne_true, bind_of_ok (say_text _ _ (by decide) _), hfeed]
    rfl

/-- After `cons_init` the UART is programmed, whatever it was before, and every
later output leaves it so and is written to the transmit buffer, when that is empty. -/
theorem consInit_line (machine : Hardware) (hcursor : machine.OnScreen) (uart : Uart)
    (text : List UInt32) :
    (∃ s s', consInit machine.device machine.video machine.ports = .ok (machine.serialExists, s) ∧
      cputchars machine.device text s = .ok s' ∧
      uart.behind s'.ports = .programmed ((uart.behind machine.ports).tx ++
        lineBytes machine.complaint ++ text.flatMap mirrored)) ∧
    (Prompt machine.device → ∀ c s, ∃ poll,
      (serialPutc machine.device c s).ports.reads = poll + 1 ∧
        machine.device poll (com1 + comLsr).toUInt16 &&& comLsrTxrdy ≠ 0) := by
  obtain ⟨s, hinit, hready, htx⟩ := consInit_programs hcursor uart
  obtain ⟨s', hrun, -, htx'⟩ := cputchars_tx hready uart htx text
  exact ⟨⟨s, s', hinit, hrun, htx'⟩, serialPutc_prompt⟩

def portless : Hardware := { (default : Hardware) with
  device := fun _ port => if port = 0x3D5 then 1 else 0xFF }

theorem consInit_line_portless :
    (∃ s s', consInit portless.device portless.video portless.ports =
        .ok (portless.serialExists, s) ∧
      cputchars portless.device [0x61, 0x09] s = .ok s' ∧
      (⟨0, 0, 0, 0, 0, 0, []⟩ : Uart).behind s'.ports =
        .programmed (lineBytes (plainCodes "Serial port does not exist!\n".toList) ++
          [0x61, 0x09, 0x20, 0x20, 0x20, 0x20, 0x20])) ∧
    ∀ c s, ∃ poll, (serialPutc portless.device c s).ports.reads = poll + 1 ∧
      portless.device poll (com1 + comLsr).toUInt16 &&& comLsrTxrdy ≠ 0 := by
  have hprompt : Prompt portless.device := fun _ => ⟨0, Nat.zero_le _, by
    show (0xFF : UInt8) &&& comLsrTxrdy ≠ 0
    decide⟩
  obtain ⟨hline, hpolls⟩ := consInit_line portless (by decide) ⟨0, 0, 0, 0, 0, 0, []⟩ [0x61, 0x09]
  exact ⟨hline, hpolls hprompt⟩

end JosKernel.Kern.Serial
