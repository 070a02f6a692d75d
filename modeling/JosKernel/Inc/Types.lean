import Mathlib.Algebra.Group.Int.Defs
import Mathlib.Algebra.Group.Nat.Defs

/-! The C types of `inc/types.h` on the i386 target, as the rest of the model
uses them: `int` is an `Int` that is wrapped to 32 bits where the source can
leave its range, objects in memory are lists of bytes or wider cells, and an
access outside an object is an explicit fault. -/
namespace JosKernel.Inc

/-- The ways in which a modelled function can fail to return. -/
inductive Fault where
  /-- A load or store outside the object it belongs to. -/
  | badAccess
  /-- `va_arg` finds no argument of the requested type. -/
  | badArgument
  /-- A loop is still running after its bound. -/
  | unfinished
  /-- `panic("User address")`. -/
  | userAddress
  deriving DecidableEq, Repr

theorem exists_of_bind_eq_ok {x : Except ε α} {f : α → Except ε β} {result : β}
    (h : (x >>= f) = .ok result) : ∃ value, x = .ok value ∧ f value = .ok result := by
  cases x with
  | error fault => cases h
  | ok value => exact ⟨value, rfl, h⟩

def wrapInt (value : Int) : Int := value.bmod (2 ^ 32)

theorem wrapInt_of_range {value : Int} (hlo : -2 ^ 31 ≤ value) (hhi : value < 2 ^ 31) :
    wrapInt value = value := by
  unfold wrapInt
  rw [Int.bmod_def]
  omega

theorem wrapInt_ge (value : Int) : -2 ^ 31 ≤ wrapInt value := by
  unfold wrapInt
  rw [Int.bmod_def]
  omega

theorem wrapInt_lt (value : Int) : wrapInt value < 2 ^ 31 := by
  unfold wrapInt
  rw [Int.bmod_def]
  omega

theorem wrapInt_wrapInt_sub (left right : Int) :
    wrapInt (wrapInt left - right) = wrapInt (left - right) := by
  unfold wrapInt
  rw [Int.bmod_sub_bmod]

theorem wrapInt_toNat (value : UInt32) : wrapInt value.toNat = value.toInt32.toInt :=
  (BitVec.toInt_eq_toNat_bmod value.toBitVec).symm

theorem wrapInt_toInt (value : Int32) : wrapInt value.toInt = value.toInt :=
  wrapInt_of_range value.le_toInt value.toInt_lt

theorem wrapInt_neg (value : Int) : wrapInt (-wrapInt value) = wrapInt (-value) := by
  unfold wrapInt
  rw [Int.bmod_neg_bmod]

def load (object : List α) (index : Nat) : Except Fault α :=
  match object[index]? with
  | some cell => .ok cell
  | none => .error .badAccess

def store (object : List α) (index : Nat) (cell : α) : Except Fault (List α) :=
  if index < object.length then .ok (object.set index cell) else .error .badAccess

theorem load_eq {object : List α} {index : Nat} {cell : α} (h : object[index]? = some cell) :
    load object index = .ok cell := by
  rw [load, h]

theorem store_eq {object : List α} {index : Nat} (h : index < object.length) (cell : α) :
    store object index cell = .ok (object.set index cell) :=
  if_pos h

theorem load_append (before : List α) (cell : α) (after : List α) :
    load (before ++ cell :: after) before.length = .ok cell := by
  apply load_eq
  rw [List.getElem?_append_right (Nat.le_refl _), Nat.sub_self]
  rfl

theorem store_append (before : List α) (cell : α) (after : List α) (new : α) :
    store (before ++ cell :: after) before.length new = .ok (before ++ new :: after) := by
  rw [store_eq]
  · rw [List.set_append_right _ _ (Nat.le_refl _), Nat.sub_self]
    rfl
  · rw [List.length_append, List.length_cons]
    omega

/-- The `int` to which a plain (signed) `char` is promoted. -/
def charInt (byte : UInt8) : Int := byte.toInt8.toInt

theorem ofInt_byte (byte : UInt8) : UInt8.ofInt (byte.toNat : Int) = byte := by
  have hlt := byte.toNat_lt
  have hmod : ((byte.toNat : Int) % 2 ^ 8).toNat = byte.toNat := by omega
  rw [UInt8.ofInt, hmod, UInt8.ofNat_toNat]

abbrev ascii (c : Char) : UInt8 := c.toUInt8

def cstr (text : List Char) : List UInt8 := text.map Char.toUInt8 ++ [0]

/-- A NUL occurs among the bytes that can be read from a pointer on. -/
def Terminated (bytes : List UInt8) : Prop := 0 ∈ bytes

instance (bytes : List UInt8) : Decidable (Terminated bytes) :=
  inferInstanceAs (Decidable (0 ∈ bytes))

theorem Terminated.tail {byte : UInt8} {bytes : List UInt8} (h : Terminated (byte :: bytes))
    (hbyte : byte ≠ 0) : Terminated bytes :=
  (List.mem_cons.mp h).resolve_left hbyte.symm

end JosKernel.Inc
