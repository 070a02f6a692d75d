import JosKernel.General.Terminal
import JosKernel.Inc.X86
import JosKernel.Lib.String

/-! The output half of `kern/console.c`: every character goes to the serial
port, to the parallel port and to the CGA screen. -/
namespace JosKernel.Kern
open JosKernel.Inc JosKernel.Lib JosKernel.General

def com1 : UInt32 := 0x3F8
def comTx : UInt32 := 0
def comLsr : UInt32 := 5
def comLsrTxrdy : UInt8 := 0x20

def crtRows : Nat := 25
def crtCols : Nat := 80
def crtSize : Nat := crtRows * crtCols

def blankCell : UInt16 := 0x0700 ||| 0x20

structure Console where
  ports : Ports
  addr6845 : UInt32
  crtBuf : List UInt16
  crtPos : UInt16

section
variable (device : Device)

def delay (ports : Ports) : Ports :=
  let ports := (inb device 0x84 ports).2
  let ports := (inb device 0x84 ports).2
  let ports := (inb device 0x84 ports).2
  (inb device 0x84 ports).2

def serialPutc (c : UInt32) (s : Console) : Console :=
  let ports := waitReady device (com1 + comLsr) (· &&& comLsrTxrdy ≠ 0) (delay device) 12800 s.ports
  { s with ports := outb (com1 + comTx) c.toUInt8 ports }

def lptPutc (c : UInt32) (s : Console) : Console :=
  let ports := waitReady device (0x378 + 1) (· &&& 0x80 ≠ 0) (delay device) 12800 s.ports
  let ports := outb (0x378 + 0) c.toUInt8 ports
  let ports := outb (0x378 + 2) (0x08 ||| 0x04 ||| 0x01) ports
  { s with ports := outb (0x378 + 2) 0x08 ports }

end

/-- `for (i = CRT_SIZE - CRT_COLS; i < CRT_SIZE; i++) crt_buf[i] = 0x0700 | ' ';`
with the number of cells left. -/
def blankCells (crtBuf : List UInt16) (i : Nat) : Nat → Except Fault (List UInt16)
  | 0 => .ok crtBuf
  | left + 1 => do
    let crtBuf ← store crtBuf i blankCell
    blankCells crtBuf (i + 1) left

def scrollUp (s : Console) : Except Fault Console :=
  if s.crtPos.toNat ≥ crtSize then do
    let crtBuf ← memmove s.crtBuf 0 crtCols (crtSize - crtCols)
    let crtBuf ← blankCells crtBuf (crtSize - crtCols) crtCols
    return { s with crtBuf, crtPos := s.crtPos - UInt16.ofNat crtCols }
  else .ok s

def moveCursor (s : Console) : Console :=
  let ports := outb s.addr6845 14 s.ports
  let ports := outb (s.addr6845 + 1) (s.crtPos >>> 8).toUInt8 ports
  let ports := outb s.addr6845 15 ports
  { s with ports := outb (s.addr6845 + 1) s.crtPos.toUInt8 ports }

theorem moveCursor_outs (s : Console) : (moveCursor s).ports.outs =
    s.ports.outs ++ [(s.addr6845.toUInt16, (14 : UInt8)),
      ((s.addr6845 + 1).toUInt16, (s.crtPos >>> 8).toUInt8), (s.addr6845.toUInt16, 15),
      ((s.addr6845 + 1).toUInt16, s.crtPos.toUInt8)] := by
  simp only [moveCursor, outb, List.append_assoc, List.cons_append, List.nil_append]

def withAttribute (c : UInt32) : UInt32 := if c &&& ~~~0xFF = 0 then c ||| 0x0700 else c

section
variable (consPutc : UInt32 → Console → Except Fault Console)

def cgaSwitch (c : UInt32) (s : Console) : Except Fault Console :=
  let key := c &&& 0xFF
  if key = 0x08 then
    if s.crtPos > 0 then do
      let crtPos := s.crtPos - 1
      let crtBuf ← store s.crtBuf crtPos.toNat ((c &&& ~~~0xFF) ||| 0x20).toUInt16
      return { s with crtBuf, crtPos }
    else .ok s
  else if key = 0x0a then
    -- falls through to the carriage return
    let crtPos := s.crtPos + UInt16.ofNat crtCols
    .ok { s with crtPos := crtPos - crtPos % UInt16.ofNat crtCols }
  else if key = 0x0d then
    .ok { s with crtPos := s.crtPos - s.crtPos % UInt16.ofNat crtCols }
  else if key = 0x09 then do
    let s ← consPutc 0x20 s
    let s ← consPutc 0x20 s
    let s ← consPutc 0x20 s
    let s ← consPutc 0x20 s
    consPutc 0x20 s
  else do
    let crtBuf ← store s.crtBuf s.crtPos.toNat c.toUInt16
    return { s with crtBuf, crtPos := s.crtPos + 1 }

def cgaPutcWith (c : UInt32) (s : Console) : Except Fault Console := do
  let s ← cgaSwitch consPutc (withAttribute c) s
  let s ← scrollUp s
  return moveCursor s

end

section
variable (device : Device)

/-- `cga_putc` to a given depth of calls from itself. -/
def cgaPutcNested : Nat → UInt32 → Console → Except Fault Console
  | 0 => fun _ _ => .error .unfinished
  | depth + 1 => cgaPutcWith fun c s =>
    cgaPutcNested depth c (lptPutc device c (serialPutc device c s))

/-- A tab is five spaces, which call nothing. -/
def cgaPutc : UInt32 → Console → Except Fault Console := cgaPutcNested device 2

def consPutc (c : UInt32) (s : Console) : Except Fault Console :=
  cgaPutc device c (lptPutc device c (serialPutc device c s))

def cgaPuts (text : List UInt32) (s : Console) : Except Fault Console :=
  text.foldlM (fun s c => cgaPutc device c s) s

end

end JosKernel.Kern
