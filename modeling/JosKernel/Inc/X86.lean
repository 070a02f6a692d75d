import JosKernel.Inc.Types

/-! `inc/x86.h`: port input and output. The hardware behind the ports is a
parameter: it answers every read, and what is written to the ports is kept. -/
namespace JosKernel.Inc

/-- What the hardware answers when a port is read for the given time. -/
abbrev Device := Nat → UInt16 → UInt8

structure Ports where
  reads : Nat
  outs : List (UInt16 × UInt8)

variable (device : Device)

def inb (port : UInt32) (ports : Ports) : UInt8 × Ports :=
  (device ports.reads port.toUInt16, { ports with reads := ports.reads + 1 })

def outb (port : UInt32) (data : UInt8) (ports : Ports) : Ports :=
  { ports with outs := ports.outs ++ [(port.toUInt16, data)] }

/-- Read a port until it is `ready`, for at most `count` more times after the
first, with the reads of `pause` in between. -/
def waitReady (port : UInt32) (ready : UInt8 → Bool) (pause : Ports → Ports) : Nat → Ports → Ports
  | 0, ports => (inb device port ports).2
  | count + 1, ports =>
    let (status, ports) := inb device port ports
    if ready status then ports else waitReady port ready pause count (pause ports)

end JosKernel.Inc
