import JosKernel.General.Loop
import JosKernel.Inc.Types

/-! `lib/printfmt.c`: the formatter behind `cprintf` and `snprintf`. It is
generic in the state behind `putdat`, as the source is through its `void *`.
The `while (1)` loop with its `reswitch` label is a machine whose rounds each
read one character of the format through the pointer `fmt`, which the default
case moves backwards. -/
namespace JosKernel.Lib
open JosKernel.Inc JosKernel.General

/-- What `va_arg` can find: a 4-byte slot (`int`, `long`, their unsigned forms
and `void *`), an 8-byte one, or a `char *` with the bytes that can be read
from it on (`none` is `NULL`). -/
inductive Arg where
  | int (value : UInt32)
  | longlong (value : UInt64)
  | str (bytes : Option (List UInt8))
  deriving DecidableEq, Repr

def argInt : List Arg → Except Fault (Int × List Arg)
  | .int value :: ap => .ok (value.toInt32.toInt, ap)
  | _ => .error .badArgument

def argStr : List Arg → Except Fault (Option (List UInt8) × List Arg)
  | .str bytes :: ap => .ok (bytes, ap)
  | _ => .error .badArgument

def argPtr : List Arg → Except Fault (UInt64 × List Arg)
  | .int value :: ap => .ok (value.toUInt64, ap)
  | _ => .error .badArgument

def getuint (ap : List Arg) (lflag : Nat) : Except Fault (UInt64 × List Arg) :=
  if 2 ≤ lflag then
    match ap with
    | .longlong value :: ap => .ok (value, ap)
    | _ => .error .badArgument
  else
    match ap with
    | .int value :: ap => .ok (value.toUInt64, ap)
    | _ => .error .badArgument

/-- Same as `getuint` but signed; the result is the `long long` converted to
`unsigned long long`, as its caller stores it. -/
def getint (ap : List Arg) (lflag : Nat) : Except Fault (UInt64 × List Arg) :=
  if 2 ≤ lflag then
    match ap with
    | .longlong value :: ap => .ok (value, ap)
    | _ => .error .badArgument
  else
    match ap with
    | .int value :: ap => .ok (value.toInt32.toInt64.toUInt64, ap)
    | _ => .error .badArgument

def maxError : Int := 7
def eInval : Int := 3

/-- `error_string`; the designated initializers leave slot 0 `NULL`. -/
def errorString : List (Option (List UInt8)) :=
  [none,
   some (cstr "unspecified error".toList),
   some (cstr "bad environment".toList),
   some (cstr "invalid parameter".toList),
   some (cstr "out of memory".toList),
   some (cstr "out of environments".toList),
   some (cstr "segmentation fault".toList)]

/-- `error_string[err]`: the address `error_string + 4 * err` is taken modulo 2^32,
so the index counts modulo 2^30. -/
def loadErrorString (err : Int) : Except Fault (Option (List UInt8)) :=
  match errorString[(err % 2 ^ 30).toNat]? with
  | some entry => .ok entry
  | none => .error .badAccess

def strnlen : List UInt8 → Nat → Except Fault Nat
  | [], size => if 0 < size then .error .badAccess else .ok 0
  | byte :: s, size =>
    if 0 < size then
      if byte ≠ 0 then do
        let n ← strnlen s (size - 1)
        return n + 1
      else .ok 0
    else .ok 0

section Emit
variable {σ : Type} (putch : Int → σ → σ)

def repeatPut (ch : Int) : Nat → σ → σ
  | 0, putdat => putdat
  | count + 1, putdat => repeatPut ch count (putch ch putdat)

def digitChar (digit : Nat) : UInt8 :=
  if digit < 10 then UInt8.ofNat (48 + digit) else UInt8.ofNat (87 + digit)

/-- Print a number (base <= 16) in reverse order. Every caller passes a base of
at least 2; the test for it only shows that the recursion ends. -/
def printnum (num base : Nat) (width padc : Int) (putdat : σ) : σ :=
  let putdat :=
    if _h : base ≤ num ∧ 2 ≤ base then
      printnum (num / base) base (wrapInt (width - 1)) padc putdat
    else
      -- `while (--width > 0)` makes as many rounds as the first decrement leaves
      repeatPut putch padc (wrapInt (width - 1)).toNat putdat
  putch (digitChar (num % base)).toNat putdat
termination_by num
decreasing_by exact Nat.div_lt_self (by omega) (by omega)

theorem printnum_step {num base : Nat} (h : base ≤ num ∧ 2 ≤ base) (width padc : Int)
    (putdat : σ) :
    printnum putch num base width padc putdat =
      putch (digitChar (num % base)).toNat
        (printnum putch (num / base) base (wrapInt (width - 1)) padc putdat) := by
  rw [printnum, dif_pos h]

theorem printnum_last {num base : Nat} (h : ¬(base ≤ num ∧ 2 ≤ base)) (width padc : Int)
    (putdat : σ) :
    printnum putch num base width padc putdat =
      putch (digitChar (num % base)).toNat
        (repeatPut putch padc (wrapInt (width - 1)).toNat putdat) := by
  rw [printnum, dif_neg h]

structure Locals where
  padc : UInt8
  width : Int
  precision : Int
  lflag : Nat
  altflag : Bool
  deriving DecidableEq, Repr

def Locals.start : Locals := ⟨ascii ' ', -1, -1, 0, false⟩

def Locals.processPrecision (loc : Locals) : Locals :=
  if loc.width < 0 then { loc with width := loc.precision, precision := -1 } else loc

def Locals.digit (loc : Locals) (ch : UInt8) : Locals :=
  { loc with precision := wrapInt (loc.precision * 10 + ch.toNat - 48) }

/-- The printing loop of case `s`, which also counts `width` down. The byte is
loaded before the precision is tested. -/
def putString (altflag : Bool) : List UInt8 → Int → Int → σ → Except Fault (Int × σ)
  | [], _, _, _ => .error .badAccess
  | byte :: p, precision, width, putdat =>
    if byte ≠ 0 ∧ (precision < 0 ∨ 0 ≤ precision - 1) then
      let ch := charInt byte
      let shown := if altflag ∧ (ch < 32 ∨ 126 < ch) then 63 else ch
      putString altflag p (if precision < 0 then precision else precision - 1)
        (wrapInt (width - 1)) (putch shown putdat)
    else .ok (width, putdat)

def printString (loc : Locals) (p : List UInt8) (putdat : σ) : Except Fault σ := do
  let (width, putdat) ←
    if 0 < loc.width ∧ loc.padc ≠ ascii '-' then do
      let n ← strnlen p (UInt32.ofInt loc.precision).toNat
      let width := wrapInt (loc.width - n)
      pure (if 0 < width then (0, repeatPut putch loc.padc.toNat width.toNat putdat)
        else (width, putdat))
    else pure (loc.width, putdat)
  let (width, putdat) ← putString putch loc.altflag p loc.precision width putdat
  return repeatPut putch 32 width.toNat putdat

end Emit

inductive Conv where
  | char | error | string | decimal | unsigned | octal | pointer | hex | percent
  deriving DecidableEq, Repr

inductive Label where
  | minus | zero | digit | star | dot | sharp | long
  | convert (conv : Conv)
  | default
  deriving DecidableEq, Repr

def label (ch : UInt8) : Label :=
  if ch = ascii '-' then .minus
  else if ch = ascii '0' then .zero
  else if ascii '1' ≤ ch ∧ ch ≤ ascii '9' then .digit
  else if ch = ascii '*' then .star
  else if ch = ascii '.' then .dot
  else if ch = ascii '#' then .sharp
  else if ch = ascii 'l' then .long
  else if ch = ascii 'c' then .convert .char
  else if ch = ascii 'e' then .convert .error
  else if ch = ascii 's' then .convert .string
  else if ch = ascii 'd' then .convert .decimal
  else if ch = ascii 'u' then .convert .unsigned
  else if ch = ascii 'o' then .convert .octal
  else if ch = ascii 'p' then .convert .pointer
  else if ch = ascii 'x' then .convert .hex
  else if ch = ascii '%' then .convert .percent
  else .default

def isDigit (ch : UInt8) : Bool := ascii '0' ≤ ch ∧ ch ≤ ascii '9'

/-- `for (fmt--; fmt[-1] != '%'; fmt--)` from the position after the
decrement: back to just after the nearest `%`. -/
def rewind (text : List UInt8) : Nat → Except Fault Nat
  | 0 => .error .badAccess
  | fmt + 1 => do
    let ch ← load text fmt
    if ch ≠ ascii '%' then rewind text fmt else return fmt + 1

/-- Where the formatter is: in literal text, at `reswitch`, or in the digit
loop after the increment of `fmt`. -/
inductive Point where
  | text
  | reswitch (loc : Locals)
  | digits (loc : Locals)

structure State (σ : Type) where
  fmt : Nat
  ap : List Arg
  putdat : σ
  point : Point

section Formatter
variable {σ : Type} (putch : Int → σ → σ)
  (printfmt : List UInt8 → List Arg → σ → Except Fault σ)

/-- The conversions and `%%`: what is read from `ap` and printed before the
formatter is back in literal text. -/
def conversion (loc : Locals) (ch : UInt8) (ap : List Arg) (putdat : σ) :
    Conv → Except Fault (List Arg × σ)
  | .char => do
    let (value, ap) ← argInt ap
    return (ap, putch value putdat)
  | .error => do
    let (value, ap) ← argInt ap
    let err := if value < 0 then wrapInt (-value) else value
    if maxError ≤ err then
      return (ap, ← printfmt (cstr "error %d".toList) [.int (UInt32.ofInt err)] putdat)
    else
      match ← loadErrorString err with
      | none => return (ap, ← printfmt (cstr "error %d".toList) [.int (UInt32.ofInt err)] putdat)
      | some p => return (ap, ← printfmt (cstr "%s".toList) [.str (some p)] putdat)
  | .string => do
    let (p, ap) ← argStr ap
    return (ap, ← printString putch loc (p.getD (cstr "(null)".toList)) putdat)
  | .decimal => do
    let (num, ap) ← getint ap loc.lflag
    if num.toInt64 < 0 then
      return (ap, printnum putch (-num).toNat 10 loc.width loc.padc.toNat (putch 45 putdat))
    else
      return (ap, printnum putch num.toNat 10 loc.width loc.padc.toNat putdat)
  | .unsigned => do
    let (num, ap) ← getuint ap loc.lflag
    return (ap, printnum putch num.toNat 10 loc.width loc.padc.toNat putdat)
  | .octal => do
    let (num, ap) ← getuint ap loc.lflag
    return (ap, printnum putch num.toNat 8 loc.width loc.padc.toNat putdat)
  | .pointer => do
    let (num, ap) ← argPtr ap
    return (ap, printnum putch num.toNat 16 loc.width loc.padc.toNat (putch 120 (putch 48 putdat)))
  | .hex => do
    let (num, ap) ← getuint ap loc.lflag
    return (ap, printnum putch num.toNat 16 loc.width loc.padc.toNat putdat)
  | .percent => return (ap, putch ch.toNat putdat)

def reswitch (text : List UInt8) (loc : Locals) (ch : UInt8) (s : State σ) :
    Except Fault (State σ) :=
  match label ch with
  | .minus => .ok { s with point := .reswitch { loc with padc := ascii '-' } }
  | .zero => .ok { s with point := .reswitch { loc with padc := ascii '0' } }
  | .digit => .ok { s with point := .digits (Locals.digit { loc with precision := 0 } ch) }
  | .star => do
    let (precision, ap) ← argInt s.ap
    return { s with ap, point := .reswitch (Locals.processPrecision { loc with precision }) }
  | .dot =>
    .ok { s with point := .reswitch { loc with width := if loc.width < 0 then 0 else loc.width } }
  | .sharp => .ok { s with point := .reswitch { loc with altflag := true } }
  | .long => .ok { s with point := .reswitch { loc with lflag := loc.lflag + 1 } }
  | .default => do
    let fmt ← rewind text (s.fmt - 1)
    return { s with fmt, putdat := putch 37 s.putdat, point := .text }
  | .convert conv => do
    let (ap, putdat) ← conversion putch printfmt loc ch s.ap s.putdat conv
    return { s with ap, putdat, point := .text }

def round (text : List UInt8) (s : State σ) : Except Fault (State σ ⊕ σ) := do
  let ch ← load text s.fmt
  match s.point with
  | .text =>
    if ch ≠ ascii '%' then
      if ch = 0 then return .inr s.putdat
      else return .inl { s with fmt := s.fmt + 1, putdat := putch ch.toNat s.putdat }
    else return .inl { s with fmt := s.fmt + 1, point := .reswitch .start }
  | .reswitch loc =>
    return .inl (← reswitch putch printfmt text loc ch { s with fmt := s.fmt + 1 })
  | .digits loc =>
    if isDigit ch then
      return .inl { s with fmt := s.fmt + 1, point := .digits (loc.digit ch) }
    else return .inl { s with point := .reswitch loc.processPrecision }

end Formatter

/-- `vprintfmt` with at most `depth` nested calls of itself through `printfmt`,
on the format `text` with its NUL. No format asks for more than `3 * length`
rounds. -/
def vprintfmtNested {σ : Type} (putch : Int → σ → σ) :
    Nat → List UInt8 → List Arg → σ → Except Fault σ
  | 0, _, _, _ => .error .unfinished
  | depth + 1, text, ap, putdat =>
    Loop.run .unfinished (round putch (vprintfmtNested putch depth) text)
      (3 * text.length + 1) ⟨0, ap, putdat, .text⟩

/-- Main function to format and print a string. Only case `e` calls it again,
with formats that hold no `%e`. -/
def vprintfmt {σ : Type} (putch : Int → σ → σ) (putdat : σ) (text : List UInt8) (ap : List Arg) :
    Except Fault σ :=
  vprintfmtNested putch 2 text ap putdat

end JosKernel.Lib
