import Mathlib.Algebra.Group.Nat.Defs

/-! Bit-fields that are allocated from the least significant bit on, and the
bytes of a number, the lowest first. -/
namespace JosKernel.General.BitFields

structure Field where
  width : Nat
  bits : BitVec width

def width : List Field → Nat
  | [] => 0
  | field :: fields => field.width + width fields

def pack : List Field → Nat
  | [] => 0
  | field :: fields => field.bits.toNat + 2 ^ field.width * pack fields

theorem pack_lt (fields : List Field) : pack fields < 2 ^ width fields := by
  induction fields with
  | nil => exact Nat.one_pos
  | cons field fields ih =>
    have hbits := field.bits.isLt
    rw [width, Nat.pow_add]
    calc pack (field :: fields) < 2 ^ field.width + 2 ^ field.width * pack fields :=
          Nat.add_lt_add_right hbits _
      _ = 2 ^ field.width * (pack fields + 1) := by rw [Nat.mul_succ, Nat.add_comm]
      _ ≤ 2 ^ field.width * 2 ^ width fields := Nat.mul_le_mul_left _ ih

theorem pack_append (fields fields' : List Field) :
    pack (fields ++ fields') = pack fields + 2 ^ width fields * pack fields' := by
  induction fields with
  | nil => simp [pack, width]
  | cons field fields ih =>
    rw [List.cons_append, pack, pack, ih, width, Nat.pow_add, Nat.mul_add, Nat.add_assoc,
      Nat.mul_assoc]

theorem pack_head (field : Field) (fields : List Field) :
    pack (field :: fields) % 2 ^ field.width = field.bits.toNat := by
  rw [pack, Nat.add_mul_mod_self_left, Nat.mod_eq_of_lt field.bits.isLt]

theorem pack_field (fields : List Field) {k : Nat} (hk : k < fields.length) :
    pack fields / 2 ^ width (fields.take k) % 2 ^ fields[k].width = fields[k].bits.toNat := by
  have hsplit : fields.take k ++ fields[k] :: fields.drop (k + 1) = fields := by
    rw [← List.drop_eq_getElem_cons hk, List.take_append_drop]
  have hpack := pack_append (fields.take k) (fields[k] :: fields.drop (k + 1))
  rw [hsplit] at hpack
  rw [hpack, Nat.add_mul_div_left _ _ (Nat.two_pow_pos _), Nat.div_eq_of_lt (pack_lt _),
    Nat.zero_add, pack_head]

def littleEndian : Nat → Nat → List UInt8
  | 0, _ => []
  | n + 1, value => UInt8.ofNat value :: littleEndian n (value / 2 ^ 8)

def ofBytes : List UInt8 → Nat
  | [] => 0
  | byte :: bytes => byte.toNat + 2 ^ 8 * ofBytes bytes

@[simp] theorem length_littleEndian (n value : Nat) : (littleEndian n value).length = n := by
  induction n generalizing value with
  | zero => rfl
  | succ n ih => rw [littleEndian, List.length_cons, ih]

theorem quotient_lt {n value : Nat} (h : value < 2 ^ (8 * (n + 1))) :
    value / 2 ^ 8 < 2 ^ (8 * n) := by
  apply Nat.div_lt_of_lt_mul
  rwa [← Nat.pow_add, Nat.add_comm]

theorem ofBytes_littleEndian {n value : Nat} (h : value < 2 ^ (8 * n)) :
    ofBytes (littleEndian n value) = value := by
  induction n generalizing value with
  | zero =>
    have hzero : value = 0 := by simpa using h
    rw [hzero]
    rfl
  | succ n ih =>
    rw [littleEndian, ofBytes, ih (quotient_lt h)]
    exact Nat.mod_add_div value (2 ^ 8)

theorem ofBytes_pack {fields : List Field} {n : Nat} (h : width fields = 8 * n) :
    ofBytes (littleEndian n (pack fields)) = pack fields :=
  ofBytes_littleEndian (h ▸ pack_lt fields)

theorem littleEndian_succ_add (n value rest : Nat) :
    littleEndian (n + 1) (value + 2 ^ 8 * rest) =
      UInt8.ofNat value :: littleEndian n (value / 2 ^ 8 + rest) := by
  have hbyte : UInt8.ofNat (value + 2 ^ 8 * rest) = UInt8.ofNat value := by
    apply UInt8.toNat_inj.mp
    exact Nat.add_mul_mod_self_left value (2 ^ 8) rest
  rw [littleEndian, hbyte, Nat.add_mul_div_left _ _ (Nat.two_pow_pos 8)]

theorem littleEndian_append {m value : Nat} (h : value < 2 ^ (8 * m)) (n rest : Nat) :
    littleEndian (m + n) (value + 2 ^ (8 * m) * rest) =
      littleEndian m value ++ littleEndian n rest := by
  induction m generalizing value with
  | zero =>
    have hzero : value = 0 := by simpa using h
    rw [hzero]
    simp [littleEndian]
  | succ m ih =>
    have hpow : 2 ^ (8 * (m + 1)) * rest = 2 ^ 8 * (2 ^ (8 * m) * rest) := by
      rw [Nat.mul_succ, Nat.add_comm, Nat.pow_add, Nat.mul_assoc]
    rw [Nat.add_right_comm, hpow, littleEndian_succ_add, ih (quotient_lt h)]
    rfl

theorem littleEndian_pack_append {fields : List Field} {m : Nat} (h : width fields = 8 * m)
    (n : Nat) (fields' : List Field) :
    littleEndian (m + n) (pack (fields ++ fields')) =
      littleEndian m (pack fields) ++ littleEndian n (pack fields') := by
  have hlt := pack_lt fields
  rw [h] at hlt
  rw [pack_append, h, littleEndian_append hlt]

end JosKernel.General.BitFields
