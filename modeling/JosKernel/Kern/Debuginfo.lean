import JosKernel.Kern.Stab
import JosKernel.Lib.String

/-! `debuginfo_eip` of `kern/kdebug.c`: what the debugging symbols of the kernel
say about an instruction address. -/
namespace JosKernel.Kern
open JosKernel.Inc JosKernel.General JosKernel.Lib

def ulim : UInt32 := 0xef800000

/-- What the string pointers of the structure point to. -/
inductive Text where
  | unknown
  /-- An offset into the string table. -/
  | entry (offset : UInt32)
  deriving DecidableEq, Repr

structure Eipdebuginfo where
  eipFile : Text
  eipLine : Int
  eipFnName : Text
  eipFnNamelen : Int
  eipFnAddr : UInt32
  eipFnNarg : Int
  deriving DecidableEq, Repr

def Eipdebuginfo.initial (addr : UInt32) : Eipdebuginfo := ⟨.unknown, 0, .unknown, 9, addr, 0⟩

def Text.bytes (stabstr : List UInt8) : Text → List UInt8
  | .unknown => cstr "<unknown>".toList
  | .entry offset => stabstr.drop offset.toNat

def stringsValid (stabstr : List UInt8) : Except Fault Bool :=
  if stabstr.length ≤ 0 then .ok false
  else do return (← load stabstr (stabstr.length - 1)) = 0

/-- An offset is only followed into the string table. -/
def textAt (stabstr : List UInt8) (stab : Stab) (default : Text) : Text :=
  if stab.nStrx.toNat < stabstr.length then .entry stab.nStrx else default

def Stab.namesFile (stab : Stab) : Bool :=
  stab.hasType nSol || (stab.hasType nSo && stab.nValue != 0)

section
variable (stabs : StabReader)

def nargRound (rfun : Int) : Int × Int → Except Fault ((Int × Int) ⊕ Int)
  | (lline, narg) =>
    if lline < rfun then do
      let stab ← readStab stabs lline
      if stab.hasType nPsym then return .inl (lline + 1, narg + 1) else return .inr narg
    else .ok (.inr narg)

variable (stabstr : List UInt8)

def functionInfo (lfile : Int) (fn : Region) (addr : UInt32) (info : Eipdebuginfo) :
    Except Fault (Eipdebuginfo × Int) :=
  if fn.left ≤ fn.right then do
    let stab ← readStab stabs fn.left
    return ({ info with
      eipFnName := textAt stabstr stab info.eipFnName, eipFnAddr := stab.nValue }, fn.left)
  else
    -- couldn't find function stab: maybe an assembly file
    return ({ info with eipFnAddr := addr }, lfile)

def fileInfo (lfile lline : Int) (info : Eipdebuginfo) : Except Fault Eipdebuginfo := do
  let lline ← back stabs Stab.namesFile lfile lline
  if lfile ≤ lline then do
    let stab ← readStab stabs lline
    return { info with eipFile := textAt stabstr stab info.eipFile }
  else return info

def nargInfo (fn : Region) (info : Eipdebuginfo) : Except Fault Eipdebuginfo :=
  if fn.left < fn.right then do
    let narg ← Loop.run .unfinished (nargRound stabs fn.right)
      ((fn.right - (fn.left + 1)).toNat + 1) (fn.left + 1, info.eipFnNarg)
    return { info with eipFnNarg := narg }
  else return info

def debuginfoFile (file : Region) (addr : UInt32) (info : Eipdebuginfo) :
    Except Fault (Int × Eipdebuginfo) := do
  let fn ← stabBinsearch stabs nFun file addr
  let (info, lline) ← functionInfo stabs stabstr file.left fn addr info
  -- ignore stuff after the colon
  let namelen ← strfind (info.eipFnName.bytes stabstr) (ascii ':')
  let info := { info with eipFnNamelen := namelen }
  let info ← fileInfo stabs stabstr file.left lline info
  let info ← nargInfo stabs fn info
  return (0, info)

end

def debuginfoEip (stabs : List Stab) (stabstr : List UInt8) (addr : UInt32) :
    Except Fault (Int × Eipdebuginfo) := do
  let info := Eipdebuginfo.initial addr
  if ¬ulim ≤ addr then throw .userAddress
  if ¬(← stringsValid stabstr) then return (-1, info)
  let file ← stabBinsearch (tableReader stabs) nSo ⟨0, stabs.length - 1⟩ addr
  if file.left = 0 then return (-1, info)
  debuginfoFile (tableReader stabs) stabstr file addr info

end JosKernel.Kern
