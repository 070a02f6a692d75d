import JosKernel.General.Flags
import JosKernel.General.MachineCode
import JosKernel.General.Multiples

/-! Assembly files of instructions, labels and data, and what it means that an assembler
and a linker have put one into memory. -/
namespace JosKernel.General.Assembly
open MachineCode Multiples

inductive Line (Label : Type) where
  /-- `.code32` or `.code16` -/
  | code (big : Bool)
  | label (name : Label)
  | instr (i : Instr)
  | jump (jump : Jump) (target : Label)
  | align (n : Nat)
  | data (bytes : List UInt8)
  /-- `name = value` -/
  | set (name : Label) (value : UInt32)

abbrev Line.op (o : Op) : Line Label := .instr (.op o)

section
variable {Label : Type} (mem : UInt32 → UInt8) (lo hi : Nat)

def Lies (address : UInt32) (bytes : List UInt8) : Prop :=
  lo ≤ address.toNat ∧ address.toNat + bytes.length ≤ hi ∧
    ∀ k (h : k < bytes.length), mem (address + UInt32.ofNat k) = bytes[k]

instance (address : UInt32) (bytes : List UInt8) : Decidable (Lies mem lo hi address bytes) :=
  inferInstanceAs (Decidable (_ ∧ _))

/-- The file is in the memory from an address on. Its symbols are for a memory that is
shifted by `slide`. -/
def Placed (symbol : Label → UInt32) (slide : UInt32) (big : Bool) (address : UInt32) :
    List (Line Label) → Prop
  | [] => True
  | .code big :: lines => Placed symbol slide big address lines
  | .label name :: lines => symbol name = address + slide ∧ Placed symbol slide big address lines
  | .instr i :: lines => ∃ bytes ∈ i.encode big, Lies mem lo hi address bytes ∧
      Placed symbol slide big (address + UInt32.ofNat bytes.length) lines
  | .jump jump target :: lines =>
    let next := address + UInt32.ofNat jump.size
    (∃ bytes ∈ (Instr.jump jump (symbol target - (next + slide))).encode big,
      Lies mem lo hi address bytes) ∧ Placed symbol slide big next lines
  | .align n :: lines =>
    Placed symbol slide big (UInt32.ofNat (above n (address + slide).toNat) - slide) lines
  | .data bytes :: lines => Lies mem lo hi address bytes ∧
      Placed symbol slide big (address + UInt32.ofNat bytes.length) lines
  | .set name value :: lines => symbol name = value ∧ Placed symbol slide big address lines

instance decidablePlaced (symbol : Label → UInt32) (slide : UInt32) (big : Bool) (address : UInt32)
    (lines : List (Line Label)) : Decidable (Placed mem lo hi symbol slide big address lines) :=
  match lines with
  | [] => inferInstanceAs (Decidable True)
  | .code big :: lines => decidablePlaced symbol slide big address lines
  | .label _ :: lines =>
    have := decidablePlaced symbol slide big address lines
    inferInstanceAs (Decidable (_ ∧ _))
  | .instr i :: lines =>
    have : ∀ address, Decidable (Placed mem lo hi symbol slide big address lines) :=
      fun address => decidablePlaced symbol slide big address lines
    inferInstanceAs (Decidable (∃ bytes ∈ i.encode big, _ ∧ _))
  | .jump _ _ :: lines =>
    have : ∀ address, Decidable (Placed mem lo hi symbol slide big address lines) :=
      fun address => decidablePlaced symbol slide big address lines
    inferInstanceAs (Decidable ((∃ _ ∈ _, _) ∧ _))
  | .align _ :: lines => decidablePlaced symbol slide big _ lines
  | .data _ :: lines =>
    have : ∀ address, Decidable (Placed mem lo hi symbol slide big address lines) :=
      fun address => decidablePlaced symbol slide big address lines
    inferInstanceAs (Decidable (_ ∧ _))
  | .set _ _ :: lines =>
    have := decidablePlaced symbol slide big address lines
    inferInstanceAs (Decidable (_ ∧ _))

end

section
variable {Label : Type} {mem mem' : UInt32 → UInt8} {lo hi : Nat} (hhi : hi ≤ 2 ^ 32)
  (hmem : ∀ address : UInt32, lo ≤ address.toNat → address.toNat < hi → mem' address = mem address)

include hhi hmem

theorem Lies.congr {address : UInt32} {bytes : List UInt8} (h : Lies mem lo hi address bytes) :
    Lies mem' lo hi address bytes := by
  obtain ⟨hlo, hend, hbytes⟩ := h
  refine ⟨hlo, hend, fun k hk => ?_⟩
  have haddress := @toNat_offset address k (by omega)
  rw [hmem _ (by omega) (by omega), hbytes k hk]

theorem Placed.congr {symbol : Label → UInt32} {slide : UInt32} {big : Bool} {address : UInt32}
    {lines : List (Line Label)} (h : Placed mem lo hi symbol slide big address lines) :
    Placed mem' lo hi symbol slide big address lines := by
  induction lines generalizing big address with
  | nil => exact h
  | cons line lines ih =>
    cases line with
    | code big => exact @ih big _ h
    | label name => exact ⟨h.1, ih h.2⟩
    | instr i =>
      obtain ⟨bytes, hcode, hlies, hrest⟩ := h
      exact ⟨bytes, hcode, hlies.congr hhi hmem, ih hrest⟩
    | jump jump target =>
      obtain ⟨⟨bytes, hcode, hlies⟩, hrest⟩ := h
      exact ⟨⟨bytes, hcode, hlies.congr hhi hmem⟩, ih hrest⟩
    | align n => exact @ih big _ h
    | data bytes => exact ⟨h.1.congr hhi hmem, ih h.2⟩
    | set name value => exact ⟨h.1, ih h.2⟩

end

section
variable {Label : Type} {mem : UInt32 → UInt8} {lo hi : Nat}

theorem Lies.append {address : UInt32} {bytes bytes' : List UInt8} (hhi : hi < 2 ^ 32)
    (h : Lies mem lo hi address bytes)
    (h' : Lies mem lo hi (address + UInt32.ofNat bytes.length) bytes') :
    Lies mem lo hi address (bytes ++ bytes') := by
  obtain ⟨hlo, hend, hbytes⟩ := h
  obtain ⟨-, hend', hbytes'⟩ := h'
  have hnext := @toNat_offset address bytes.length (by omega)
  refine ⟨hlo, by rw [List.length_append]; omega, fun k hk => ?_⟩
  rw [List.length_append] at hk
  by_cases hfirst : k < bytes.length
  · rw [hbytes k hfirst, List.getElem_append_left hfirst]
  · obtain ⟨j, rfl⟩ := Nat.exists_eq_add_of_le (Nat.le_of_not_lt hfirst)
    have hj : j < bytes'.length := by omega
    rw [UInt32.ofNat_add, ← UInt32.add_assoc, hbytes' j hj,
      List.getElem_append_right (Nat.le_add_right _ _)]
    congr 1
    omega

theorem Placed.instr_lt {symbol : Label → UInt32} {slide : UInt32} {big : Bool} {address : UInt32}
    {i : Instr} {lines : List (Line Label)}
    (h : Placed mem lo hi symbol slide big address (.instr i :: lines)) : address.toNat < hi := by
  obtain ⟨bytes, hcode, ⟨-, hend, -⟩, -⟩ := h
  have hpositive := List.length_pos_iff.mpr (i.encode_ne_nil hcode)
  omega

theorem Placed.suffix {symbol : Label → UInt32} {slide : UInt32} {big : Bool} {address : UInt32}
    (before : List (Line Label)) {lines : List (Line Label)}
    (h : Placed mem lo hi symbol slide big address (before ++ lines)) :
    ∃ big' address', Placed mem lo hi symbol slide big' address' lines := by
  induction before generalizing big address with
  | nil => exact ⟨big, address, h⟩
  | cons line before ih =>
    cases line with
    | code big' => exact @ih big' _ h
    | label name => exact ih h.2
    | instr i =>
      obtain ⟨bytes, -, -, hrest⟩ := h
      exact ih hrest
    | jump jump target => exact ih h.2
    | align n => exact @ih big _ h
    | data bytes => exact ih h.2
    | set name value => exact ih h.2

end

end JosKernel.General.Assembly
