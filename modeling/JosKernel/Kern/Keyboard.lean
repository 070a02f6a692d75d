import JosKernel.Kern.ConsoleInput
import JosKernel.Kern.Printf

/-! The keyboard driver of `kern/console.c` with `inc/kbdreg.h`: the controller
as the two ports that the driver reads, and `kbd_proc_data`, which turns scan
codes into characters and keeps the state of the modifier keys. -/
namespace JosKernel.Kern.Keyboard
open JosKernel.Inc JosKernel.Lib JosKernel.General

def kbStatP : UInt32 := 0x64
def kbDatAP : UInt32 := 0x60
def kbsDib : UInt8 := 0x01
def kbsTerr : UInt8 := 0x20

def keyHome : UInt8 := 0xE0
def keyEnd : UInt8 := 0xE1
def keyUp : UInt8 := 0xE2
def keyDn : UInt8 := 0xE3
def keyLf : UInt8 := 0xE4
def keyRt : UInt8 := 0xE5
def keyPgup : UInt8 := 0xE6
def keyPgdn : UInt8 := 0xE7
def keyIns : UInt8 := 0xE8
def keyDel : UInt8 := 0xE9

def no : UInt8 := 0

namespace Mask

def shift : UInt32 := (1 : UInt32) <<< 0
def ctl : UInt32 := (1 : UInt32) <<< 1
def alt : UInt32 := (1 : UInt32) <<< 2
def capsLock : UInt32 := (1 : UInt32) <<< 3
def numLock : UInt32 := (1 : UInt32) <<< 4
def scrollLock : UInt32 := (1 : UInt32) <<< 5
def e0Esc : UInt32 := (1 : UInt32) <<< 6

end Mask

/-- A `static uint8_t [256]` with an initializer: leading elements, then
designated ones; the others are 0. -/
def static (leading : List UInt8) (designated : List (UInt8 × UInt8)) (index : UInt8) : UInt8 :=
  match designated.lookup index with
  | some element => element
  | none => (leading[index.toNat]?).getD 0

def shiftcode : UInt8 → UInt8 := static []
  [(0x1D, Mask.ctl.toUInt8), (0x2A, Mask.shift.toUInt8), (0x36, Mask.shift.toUInt8),
   (0x38, Mask.alt.toUInt8), (0x9D, Mask.ctl.toUInt8), (0xB8, Mask.alt.toUInt8)]

def togglecode : UInt8 → UInt8 := static []
  [(0x3A, Mask.capsLock.toUInt8), (0x45, Mask.numLock.toUInt8),
   (0x46, Mask.scrollLock.toUInt8)]

def normalmap : UInt8 → UInt8 := static
  [no, 0x1B, ascii '1', ascii '2', ascii '3', ascii '4', ascii '5', ascii '6',
   ascii '7', ascii '8', ascii '9', ascii '0', ascii '-', ascii '=', 0x08, 0x09,
   ascii 'q', ascii 'w', ascii 'e', ascii 'r', ascii 't', ascii 'y', ascii 'u', ascii 'i',
   ascii 'o', ascii 'p', ascii '[', ascii ']', 0x0A, no, ascii 'a', ascii 's',
   ascii 'd', ascii 'f', ascii 'g', ascii 'h', ascii 'j', ascii 'k', ascii 'l', ascii ';',
   -- the apostrophe, the grave accent and the backslash
   0x27, 0x60, no, 0x5C, ascii 'z', ascii 'x', ascii 'c', ascii 'v',
   ascii 'b', ascii 'n', ascii 'm', ascii ',', ascii '.', ascii '/', no, ascii '*',
   no, ascii ' ', no, no, no, no, no, no,
   no, no, no, no, no, no, no, ascii '7',
   ascii '8', ascii '9', ascii '-', ascii '4', ascii '5', ascii '6', ascii '+', ascii '1',
   ascii '2', ascii '3', ascii '0', ascii '.', no, no, no, no]
  [(0xC7, keyHome), (0x9C, 0x0A), (0xB5, ascii '/'), (0xC8, keyUp),
   (0xC9, keyPgup), (0xCB, keyLf), (0xCD, keyRt), (0xCF, keyEnd),
   (0xD0, keyDn), (0xD1, keyPgdn), (0xD2, keyIns), (0xD3, keyDel)]

def shiftmap : UInt8 → UInt8 := static
  [no, 0x1B, ascii '!', ascii '@', ascii '#', ascii '$', ascii '%', ascii '^',
   ascii '&', ascii '*', ascii '(', ascii ')', ascii '_', ascii '+', 0x08, 0x09,
   ascii 'Q', ascii 'W', ascii 'E', ascii 'R', ascii 'T', ascii 'Y', ascii 'U', ascii 'I',
   ascii 'O', ascii 'P', ascii '{', ascii '}', 0x0A, no, ascii 'A', ascii 'S',
   ascii 'D', ascii 'F', ascii 'G', ascii 'H', ascii 'J', ascii 'K', ascii 'L', ascii ':',
   -- the quotation mark
   0x22, ascii '~', no, ascii '|', ascii 'Z', ascii 'X', ascii 'C', ascii 'V',
   ascii 'B', ascii 'N', ascii 'M', ascii '<', ascii '>', ascii '?', no, ascii '*',
   no, ascii ' ', no, no, no, no, no, no,
   no, no, no, no, no, no, no, ascii '7',
   ascii '8', ascii '9', ascii '-', ascii '4', ascii '5', ascii '6', ascii '+', ascii '1',
   ascii '2', ascii '3', ascii '0', ascii '.', no, no, no, no]
  [(0xC7, keyHome), (0x9C, 0x0A), (0xB5, ascii '/'), (0xC8, keyUp),
   (0xC9, keyPgup), (0xCB, keyLf), (0xCD, keyRt), (0xCF, keyEnd),
   (0xD0, keyDn), (0xD1, keyPgdn), (0xD2, keyIns), (0xD3, keyDel)]

def ctrl (x : UInt8) : UInt8 := x - ascii '@'

def ctlmap : UInt8 → UInt8 := static
  [no, no, no, no, no, no, no, no,
   no, no, no, no, no, no, no, no,
   ctrl (ascii 'Q'), ctrl (ascii 'W'), ctrl (ascii 'E'), ctrl (ascii 'R'),
   ctrl (ascii 'T'), ctrl (ascii 'Y'), ctrl (ascii 'U'), ctrl (ascii 'I'),
   ctrl (ascii 'O'), ctrl (ascii 'P'), no, no, 0x0D, no, ctrl (ascii 'A'), ctrl (ascii 'S'),
   ctrl (ascii 'D'), ctrl (ascii 'F'), ctrl (ascii 'G'), ctrl (ascii 'H'),
   ctrl (ascii 'J'), ctrl (ascii 'K'), ctrl (ascii 'L'), no,
   no, no, no, ctrl 0x5C, ctrl (ascii 'Z'), ctrl (ascii 'X'), ctrl (ascii 'C'), ctrl (ascii 'V'),
   ctrl (ascii 'B'), ctrl (ascii 'N'), ctrl (ascii 'M'), no, no, ctrl (ascii '/'), no, no]
  [(0x97, keyHome), (0xB5, ctrl (ascii '/')), (0xC8, keyUp), (0xC9, keyPgup),
   (0xCB, keyLf), (0xCD, keyRt), (0xCF, keyEnd), (0xD0, keyDn),
   (0xD1, keyPgdn), (0xD2, keyIns), (0xD3, keyDel)]

def charcode (mode : UInt32) : UInt8 → UInt8 :=
  if mode = 0 then normalmap else if mode = Mask.shift then shiftmap else ctlmap

inductive Source where
  | keyboard | mouse
  deriving DecidableEq, Repr

abbrev Controller := List (Source × UInt8)

def Controller.status : Controller → UInt8
  | [] => 0
  | (.keyboard, _) :: _ => kbsDib
  | (.mouse, _) :: _ => kbsDib ||| kbsTerr

def Controller.inb (port : UInt32) (controller : Controller) : UInt8 × Controller :=
  if port = kbDatAP then
    match controller with
    | [] => (0, [])
    | (_, data) :: rest => (data, rest)
  else if port = kbStatP then (controller.status, controller)
  else (0, controller)

/-- What `kbd_proc_data` keeps and writes: its static `shift`, the console of
`cprintf` and the ports. -/
structure Driver (σ : Type) where
  shift : UInt32
  console : σ
  outs : List (UInt16 × UInt8)

def Driver.boot (console : σ) : Driver σ := ⟨0, console, []⟩

def swapCase (c : UInt8) : UInt8 :=
  if ascii 'a' ≤ c ∧ c ≤ ascii 'z' then c + (ascii 'A' - ascii 'a')
  else if ascii 'A' ≤ c ∧ c ≤ ascii 'Z' then c + (ascii 'a' - ascii 'A')
  else c

def toggled (data : UInt8) (shift : UInt32) : UInt32 :=
  let shift := shift ||| (shiftcode data).toUInt32
  shift ^^^ (togglecode data).toUInt32

def character (shift : UInt32) (data : UInt8) : UInt8 :=
  let c := charcode (shift &&& (Mask.ctl ||| Mask.shift)) data
  if shift &&& Mask.capsLock ≠ 0 then swapCase c else c

section
variable {σ : Type} (cputchar : Int → σ → σ)

def announce (console : σ) : σ :=
  match cprintf cputchar (cstr "Rebooting!\n".toList) [] console with
  | .ok (_, console) => console
  | .error _ => console

def reboot (driver : Driver σ) : Driver σ :=
  { driver with console := announce cputchar driver.console, outs := driver.outs ++ [(0x92, 0x3)] }

/-- The rest of `kbd_proc_data` on a make code, whose E0 prefix is in `data`. -/
def keyPressed (data : UInt8) (driver : Driver σ) : UInt8 × Driver σ :=
  let shift := toggled data driver.shift
  let c := character shift data
  let driver := { driver with shift }
  -- Ctrl-Alt-Del
  (c, if ~~~shift &&& (Mask.ctl ||| Mask.alt) = 0 ∧ c = keyDel then reboot cputchar driver
    else driver)

theorem keyPressed_shift (data : UInt8) (driver : Driver σ) :
    (keyPressed cputchar data driver).2.shift = toggled data driver.shift := by
  unfold keyPressed
  dsimp only
  split <;> rfl

def scanCode (data : UInt8) (driver : Driver σ) : UInt8 × Driver σ :=
  if data = 0xE0 then (0, { driver with shift := driver.shift ||| Mask.e0Esc })
  else if data &&& 0x80 ≠ 0 then
    let data := if driver.shift &&& Mask.e0Esc ≠ 0 then data else data &&& 0x7F
    (0, { driver with shift := driver.shift &&& ~~~((shiftcode data).toUInt32 ||| Mask.e0Esc) })
  else if driver.shift &&& Mask.e0Esc ≠ 0 then
    keyPressed cputchar (data ||| 0x80) { driver with shift := driver.shift &&& ~~~Mask.e0Esc }
  else keyPressed cputchar data driver

/-- Get data from the keyboard: the character that a byte finishes, 0 for a byte
that finishes none, `none` (the `-1`) without data. -/
def kbdProcData : Controller × Driver σ → Option UInt8 × Controller × Driver σ
  | (controller, driver) =>
    let (stat, controller) := controller.inb kbStatP
    if stat &&& kbsDib = 0 then (none, controller, driver)
    -- ignore data from the mouse
    else if stat &&& kbsTerr ≠ 0 then (none, controller, driver)
    else
      let (data, controller) := controller.inb kbDatAP
      let (c, driver) := scanCode cputchar data driver
      (some c, controller, driver)

def kbdIntr (controller : Controller) (driver : Driver σ) (cons : Cons) :
    Except Fault ((Controller × Driver σ) × Cons) :=
  consIntr (kbdProcData cputchar) controller.length (controller, driver) cons

def decode : List UInt8 → Driver σ → List UInt8 × Driver σ
  | [], driver => ([], driver)
  | data :: bytes, driver =>
    let (c, driver) := scanCode cputchar data driver
    let (chars, driver) := decode bytes driver
    (c :: chars, driver)

theorem decode_append (left right : List UInt8) (driver : Driver σ) :
    decode cputchar (left ++ right) driver =
      ((decode cputchar left driver).1 ++ (decode cputchar right (decode cputchar left driver).2).1,
        (decode cputchar right (decode cputchar left driver).2).2) := by
  induction left generalizing driver with
  | nil => rfl
  | cons data left ih => simp [decode, ih]

theorem inb_status (controller : Controller) :
    controller.inb kbStatP = (controller.status, controller) := by
  unfold Controller.inb
  rw [if_neg (by decide), if_pos rfl]

theorem kbdProcData_keyboard (data : UInt8) (rest : Controller) (driver : Driver σ) :
    kbdProcData cputchar ((.keyboard, data) :: rest, driver) =
      (some (scanCode cputchar data driver).1, rest, (scanCode cputchar data driver).2) := by
  have hdib : ¬kbsDib &&& kbsDib = 0 := by decide
  have hterr : ¬kbsDib &&& kbsTerr ≠ 0 := by decide
  simp only [kbdProcData, inb_status, Controller.status]
  rw [if_neg hdib, if_neg hterr]
  rfl

theorem kbdProcData_mouse (data : UInt8) (rest : Controller) (driver : Driver σ) :
    kbdProcData cputchar ((.mouse, data) :: rest, driver) =
      (none, (.mouse, data) :: rest, driver) := by
  have hdib : ¬(kbsDib ||| kbsTerr) &&& kbsDib = 0 := by decide
  have hterr : (kbsDib ||| kbsTerr) &&& kbsTerr ≠ 0 := by decide
  simp only [kbdProcData, inb_status, Controller.status]
  rw [if_neg hdib, if_pos hterr]

theorem kbdProcData_empty (driver : Driver σ) :
    kbdProcData cputchar ([], driver) = (none, [], driver) := by
  have hdib : (0 : UInt8) &&& kbsDib = 0 := by decide
  simp only [kbdProcData, inb_status, Controller.status]
  rw [if_pos hdib]

def sent (bytes : List UInt8) : Controller := bytes.map fun data => (.keyboard, data)

theorem kbdProcData_yields (bytes : List UInt8) (rest : Controller) (driver : Driver σ) :
    Yields (kbdProcData cputchar) (sent bytes ++ rest, driver) (decode cputchar bytes driver).1
      (rest, (decode cputchar bytes driver).2) := by
  induction bytes generalizing driver with
  | nil => exact .here _
  | cons data bytes ih =>
    exact .next (kbdProcData_keyboard cputchar data (sent bytes ++ rest) driver)
      (ih (scanCode cputchar data driver).2)

end

end JosKernel.Kern.Keyboard
