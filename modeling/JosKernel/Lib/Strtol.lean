import JosKernel.General.Numeral
import JosKernel.Lib.Printfmt

/-! `strtol` of `lib/string.c`. A pointer into the string is the bytes that can
be read from it on, and `long` has 32 bits. -/
namespace JosKernel.Lib
open JosKernel.Inc JosKernel.General

def skipBlanks : List UInt8 → Except Fault (List UInt8)
  | [] => .error .badAccess
  | byte :: s => if byte = ascii ' ' ∨ byte = 0x09 then skipBlanks s else .ok (byte :: s)

def takeSign (s : List UInt8) : Except Fault (List UInt8 × Bool) := do
  let byte ← load s 0
  if byte = ascii '+' then return (s.drop 1, false)
  else if byte = ascii '-' then return (s.drop 1, true)
  else return (s, false)

def hexAhead (s : List UInt8) (base : Int) : Except Fault Bool := do
  if base = 0 ∨ base = 16 then
    if (← load s 0) = ascii '0' then return (← load s 1) = ascii 'x'
  return false

def takeBase (s : List UInt8) (base : Int) : Except Fault (List UInt8 × Int) := do
  if ← hexAhead s base then return (s.drop 2, 16)
  else if base = 0 then
    if (← load s 0) = ascii '0' then return (s.drop 1, 8)
    else return (s, 10)
  else return (s, base)

def digitOf (byte : UInt8) : Option Int :=
  if ascii '0' ≤ byte ∧ byte ≤ ascii '9' then some (byte.toNat - 48)
  else if ascii 'a' ≤ byte ∧ byte ≤ ascii 'z' then some (byte.toNat - 97 + 10)
  else if ascii 'A' ≤ byte ∧ byte ≤ ascii 'Z' then some (byte.toNat - 65 + 10)
  else none

/-- The digit loop. Overflow is not detected. -/
def takeDigits (base : Int) : List UInt8 → Int → Except Fault (List UInt8 × Int)
  | [], _ => .error .badAccess
  | byte :: s, val =>
    match digitOf byte with
    | none => .ok (byte :: s, val)
    | some dig =>
      if base ≤ dig then .ok (byte :: s, val)
      else takeDigits base s (wrapInt (wrapInt (val * base) + dig))

def strtol (s : List UInt8) (base : Int) : Except Fault (Int × List UInt8) := do
  let s ← skipBlanks s
  let (s, neg) ← takeSign s
  let (s, base) ← takeBase s base
  let (s, val) ← takeDigits base s 0
  return (if neg then wrapInt (-val) else val, s)

def digitChars (digits : List Nat) (after : List UInt8) : List UInt8 :=
  digits.map digitChar ++ 0 :: after

theorem digitOf_digitChar {digit : Nat} (h : digit < 16) :
    digitOf (digitChar digit) = some (digit : Int) := by
  have hall : ∀ digit < 16, digitOf (digitChar digit) = some (digit : Int) := by decide
  exact hall digit h

theorem wrapInt_step (value base digit : Int) :
    wrapInt (wrapInt (wrapInt value * base) + digit) = wrapInt (value * base + digit) := by
  unfold wrapInt
  rw [Int.bmod_mul_bmod, Int.bmod_add_bmod]

end JosKernel.Lib
