import JosKernel.General.Loop
import JosKernel.Inc.Types

/-! `stab_binsearch` of `kern/kdebug.c`: bisection of a table of debugging
symbols for the entry of one type that contains an address. Indices are `int`s
that cannot overflow: a table of 12-byte entries has less than 2^30 of them. -/
namespace JosKernel.Kern
open JosKernel.Inc JosKernel.General

structure Stab where
  nStrx : UInt32
  nType : UInt8
  nValue : UInt32
  deriving DecidableEq, Repr

def nFun : Int := 0x24
def nSo : Int := 0x64
def nSol : Int := 0x84
def nPsym : Int := 0xa0

/-- What is readable behind the pointer `stabs`. -/
abbrev StabReader := Int → Option Stab

def tableReader (table : List Stab) : StabReader := fun index =>
  if 0 ≤ index then table[index.toNat]? else none

def readStab (stabs : StabReader) (index : Int) : Except Fault Stab :=
  match stabs index with
  | some stab => .ok stab
  | none => .error .badAccess

def Stab.hasType (stab : Stab) (type : Int) : Bool := (stab.nType.toNat : Int) = type

structure Region where
  left : Int
  right : Int
  deriving DecidableEq, Repr

structure Search where
  l : Int
  r : Int
  anyMatches : Bool
  region : Region
  addr : UInt32

section
variable (stabs : StabReader)

def backRound (stop : Stab → Bool) (l m : Int) : Except Fault (Int ⊕ Int) :=
  if l ≤ m then do
    let stab ← readStab stabs m
    if stop stab then return .inr m else return .inl (m - 1)
  else .ok (.inr m)

def back (stop : Stab → Bool) (l m : Int) : Except Fault Int :=
  Loop.run .unfinished (backRound stabs stop l) ((m - l + 1).toNat + 1) m

variable (type : Int)

def earlier (l m : Int) : Except Fault Int := back stabs (·.hasType type) l m

def searchRound (s : Search) : Except Fault (Search ⊕ Search) :=
  if s.l ≤ s.r then do
    let trueM := (s.l + s.r).tdiv 2
    -- search for earliest stab with right type
    let m ← earlier stabs type s.l trueM
    if m < s.l then return .inl { s with l := trueM + 1 }
    let stab ← readStab stabs m
    let s := { s with anyMatches := true }
    if stab.nValue < s.addr then
      return .inl { s with region := { s.region with left := m }, l := trueM + 1 }
    else if s.addr < stab.nValue then
      return .inl { s with region := { s.region with right := m - 1 }, r := m - 1 }
    else
      -- exact match, but continue to find the right end
      return .inl { s with region := { s.region with left := m }, l := m, addr := s.addr + 1 }
  else .ok (.inr s)

def rightmostRound (left l : Int) : Except Fault (Int ⊕ Int) :=
  if left < l then do
    let stab ← readStab stabs l
    if stab.hasType type then return .inr l else return .inl (l - 1)
  else .ok (.inr l)

/-- An exact match keeps the range for one more round. -/
def stabBinsearch (region : Region) (addr : UInt32) : Except Fault Region := do
  let s ← Loop.run .unfinished (searchRound stabs type)
    (2 * (region.right - region.left + 1).toNat + 2)
    ⟨region.left, region.right, false, region, addr⟩
  if s.anyMatches then
    let l ← Loop.run .unfinished (rightmostRound stabs type s.region.left)
      ((s.region.right - s.region.left).toNat + 1) s.region.right
    return ⟨l, s.region.right⟩
  else
    return ⟨s.region.left, s.region.left - 1⟩

end

/-- The example of the source: the index, type and address of seven entries
within a table of other entries. -/
example : stabBinsearch (tableReader ((List.range 24).map fun index =>
      ⟨0, if index ∈ [0, 3, 17, 18, 20, 21, 23] then 0x64 else 0x44, UInt32.ofNat (100 + 10 * index)⟩))
    nSo ⟨0, 23⟩ 295 = .ok ⟨18, 19⟩ := rfl

end JosKernel.Kern
