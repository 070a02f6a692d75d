import JosKernel.General.BitFields

/-! Machine code of the x86: some of its instructions with their encodings in 16-bit
and in 32-bit code. -/
namespace JosKernel.General.MachineCode
open BitFields

inductive Reg where
  | eax | ecx | edx | ebx | esp | ebp | esi | edi
  deriving DecidableEq, Repr

inductive Sreg where
  | es | cs | ss | ds | fs | gs
  deriving DecidableEq, Repr

inductive Creg where
  | cr0 | cr3
  deriving DecidableEq, Repr

/-- Instructions after which the next one follows. The ports and the byte operations
work on `%al`. -/
inductive Op where
  | cli
  | cld
  | xorw (src dst : Reg)
  | movwSeg (src : Reg) (dst : Sreg)
  | movb (value : UInt8)
  | movw (value : UInt16) (dst : Reg)
  | movl (value : UInt32) (dst : Reg)
  | movwStore (value : UInt16) (address : UInt32)
  | testb (value : UInt8)
  | orl (value : UInt32) (dst : Reg)
  | inb (port : UInt8)
  | outb (port : UInt8)
  | lgdt (address : UInt16)
  | movlFrom (src : Creg) (dst : Reg)
  | movlTo (src : Reg) (dst : Creg)
  deriving DecidableEq, Repr

inductive Jump where
  | jnz | jmp | call
  deriving DecidableEq, Repr

inductive Instr where
  | op (op : Op)
  | jump (jump : Jump) (displacement : UInt32)
  | ljmp (selector offset : UInt16)
  | jmpReg (target : Reg)
  deriving DecidableEq, Repr

def Reg.code : Reg → UInt8
  | eax => 0 | ecx => 1 | edx => 2 | ebx => 3 | esp => 4 | ebp => 5 | esi => 6 | edi => 7

def Sreg.code : Sreg → UInt8
  | es => 0 | cs => 1 | ss => 2 | ds => 3 | fs => 4 | gs => 5

def Creg.code : Creg → UInt8
  | cr0 => 0 | cr3 => 3

def Reg.ofCode (code : UInt8) : Reg :=
  match code with
  | 0 => eax | 1 => ecx | 2 => edx | 3 => ebx | 4 => esp | 5 => ebp | 6 => esi | _ => edi

def Sreg.ofCode? (code : UInt8) : Option Sreg :=
  match code with
  | 0 => some es | 1 => some cs | 2 => some ss | 3 => some ds | 4 => some fs | 5 => some gs
  | _ => none

def Creg.ofCode? (code : UInt8) : Option Creg :=
  match code with
  | 0 => some cr0 | 3 => some cr3 | _ => none

def signExtend (byte : UInt8) : UInt32 :=
  if byte < 0x80 then byte.toUInt32 else byte.toUInt32 ||| 0xFFFFFF00

def modRegs (reg rm : UInt8) : UInt8 := (reg <<< 3) ||| rm ||| 0xC0

def bytes16 (value : UInt16) : List UInt8 := littleEndian 2 value.toNat
def bytes32 (value : UInt32) : List UInt8 := littleEndian 4 value.toNat

/-- An instruction on words or doublewords in code of the given size, which has a prefix
where the two differ. -/
def sized (wide big : Bool) (bytes : List UInt8) : List UInt8 :=
  if wide = big then bytes else 0x66 :: bytes

def orlCode (value : UInt32) (dst : Reg) : List UInt8 :=
  if signExtend value.toUInt8 = value then [0x83, modRegs 1 dst.code, value.toUInt8]
  else if dst = .eax then 0x0D :: bytes32 value
  else 0x81 :: modRegs 1 dst.code :: bytes32 value

def Op.encode (big : Bool) : Op → Option (List UInt8)
  | cli => some [0xFA]
  | cld => some [0xFC]
  | xorw src dst => some (sized false big [0x31, modRegs src.code dst.code])
  | movwSeg src dst => if dst = .cs then none else some [0x8E, modRegs dst.code src.code]
  | movb value => some [0xB0, value]
  | movw value dst => some (sized false big ((0xB8 ||| dst.code) :: bytes16 value))
  | movl value dst => some (sized true big ((0xB8 ||| dst.code) :: bytes32 value))
  | movwStore value address =>
    if big then some (sized false big (0xC7 :: 0x05 :: (bytes32 address ++ bytes16 value))) else none
  | testb value => some [0xA8, value]
  | orl value dst => some (sized true big (orlCode value dst))
  | inb port => some [0xE4, port]
  | outb port => some [0xE6, port]
  | lgdt address => if big then none else some (0x0F :: 0x01 :: 0x16 :: bytes16 address)
  | movlFrom src dst => some [0x0F, 0x20, modRegs src.code dst.code]
  | movlTo src dst => some [0x0F, 0x22, modRegs dst.code src.code]

/-- The size of a jump. Only a call goes further than a signed byte. -/
def Jump.size : Jump → Nat
  | jnz | jmp => 2
  | call => 5

def Instr.encode (big : Bool) : Instr → Option (List UInt8)
  | op o => o.encode big
  | jump .jnz displacement =>
    if signExtend displacement.toUInt8 = displacement then some [0x75, displacement.toUInt8] else none
  | jump .jmp displacement =>
    if signExtend displacement.toUInt8 = displacement then some [0xEB, displacement.toUInt8] else none
  | jump .call displacement => if big then some (0xE8 :: bytes32 displacement) else none
  | ljmp selector offset => if big then none else some (0xEA :: (bytes16 offset ++ bytes16 selector))
  | jmpReg target => if big then some [0xFF, modRegs 4 target.code] else none

def operand (n : Nat) (bytes : List UInt8) : Option Nat :=
  if n ≤ bytes.length then some (ofBytes (bytes.take n)) else none

def operand16 (bytes : List UInt8) : Option UInt16 := (operand 2 bytes).map UInt16.ofNat
def operand32 (bytes : List UInt8) : Option UInt32 := (operand 4 bytes).map UInt32.ofNat

def registers (modrm : UInt8) : Option (UInt8 × UInt8) :=
  if modrm < 0xC0 then none else some ((modrm >>> 3) &&& 7, modrm &&& 7)

def decodeSized (big wide : Bool) : List UInt8 → Option (Instr × Nat)
  | 0xFA :: _ => some (.op .cli, 1)
  | 0xFC :: _ => some (.op .cld, 1)
  | 0x31 :: modrm :: _ => do
    let (reg, rm) ← registers modrm
    if wide then none else some (.op (.xorw (.ofCode reg) (.ofCode rm)), 2)
  | 0x8E :: modrm :: _ => do
    let (reg, rm) ← registers modrm
    let dst ← Sreg.ofCode? reg
    if dst = .cs then none else some (.op (.movwSeg (.ofCode rm) dst), 2)
  | 0xB0 :: value :: _ => some (.op (.movb value), 2)
  | 0xC7 :: 0x05 :: bytes => do
    let address ← operand32 bytes
    let value ← operand16 (bytes.drop 4)
    if big && !wide then some (.op (.movwStore value address), 8) else none
  | 0xA8 :: value :: _ => some (.op (.testb value), 2)
  | 0x83 :: modrm :: value :: _ => do
    let (reg, rm) ← registers modrm
    if wide && reg = 1 then some (.op (.orl (signExtend value) (.ofCode rm)), 3) else none
  | 0x0D :: bytes => do
    let value ← operand32 bytes
    if wide then some (.op (.orl value .eax), 5) else none
  | 0x81 :: modrm :: bytes => do
    let (reg, rm) ← registers modrm
    let value ← operand32 bytes
    if wide && reg = 1 then some (.op (.orl value (.ofCode rm)), 6) else none
  | 0xE4 :: port :: _ => some (.op (.inb port), 2)
  | 0xE6 :: port :: _ => some (.op (.outb port), 2)
  | 0x0F :: 0x01 :: 0x16 :: bytes => do
    let address ← operand16 bytes
    if big || wide then none else some (.op (.lgdt address), 5)
  | 0x0F :: 0x20 :: modrm :: _ => do
    let (reg, rm) ← registers modrm
    let src ← Creg.ofCode? reg
    some (.op (.movlFrom src (.ofCode rm)), 3)
  | 0x0F :: 0x22 :: modrm :: _ => do
    let (reg, rm) ← registers modrm
    let dst ← Creg.ofCode? reg
    some (.op (.movlTo (.ofCode rm) dst), 3)
  | 0x75 :: displacement :: _ => some (.jump .jnz (signExtend displacement), 2)
  | 0xEB :: displacement :: _ => some (.jump .jmp (signExtend displacement), 2)
  | 0xE8 :: bytes => do
    let displacement ← operand32 bytes
    if wide then some (.jump .call displacement, 5) else none
  | 0xEA :: bytes => do
    let offset ← operand16 bytes
    let selector ← operand16 (bytes.drop 2)
    if wide then none else some (.ljmp selector offset, 5)
  | 0xFF :: modrm :: _ => do
    let (reg, rm) ← registers modrm
    if wide && reg = 4 then some (.jmpReg (.ofCode rm), 2) else none
  | opcode :: bytes =>
    if opcode &&& 0xF8 = 0xB8 then
      if wide then (operand32 bytes).map fun value => (.op (.movl value (.ofCode (opcode &&& 7))), 5)
      else (operand16 bytes).map fun value => (.op (.movw value (.ofCode (opcode &&& 7))), 3)
    else none
  | [] => none

def decode (big : Bool) : List UInt8 → Option (Instr × Nat)
  | 0x66 :: bytes => (decodeSized big (!big) bytes).map fun result => (result.1, result.2 + 1)
  | bytes => decodeSized big big bytes

theorem operand_littleEndian {n value : Nat} (h : value < 2 ^ (8 * n)) (rest : List UInt8) :
    operand n (littleEndian n value ++ rest) = some value := by
  have hlength := length_littleEndian n value
  rw [operand, if_pos (by rw [List.length_append, hlength]; omega), List.take_left' hlength,
    ofBytes_littleEndian h]

theorem operand16_bytes16 (value : UInt16) (rest : List UInt8) :
    operand16 (bytes16 value ++ rest) = some value := by
  rw [operand16, bytes16, operand_littleEndian value.toNat_lt, Option.map_some, UInt16.ofNat_toNat]

theorem operand32_bytes32 (value : UInt32) (rest : List UInt8) :
    operand32 (bytes32 value ++ rest) = some value := by
  rw [operand32, bytes32, operand_littleEndian value.toNat_lt, Option.map_some, UInt32.ofNat_toNat]

@[simp] theorem length_bytes16 (value : UInt16) : (bytes16 value).length = 2 :=
  length_littleEndian 2 _

@[simp] theorem length_bytes32 (value : UInt32) : (bytes32 value).length = 4 :=
  length_littleEndian 4 _

@[simp] theorem Reg.ofCode_code (reg : Reg) : Reg.ofCode reg.code = reg := by
  cases reg <;> rfl

@[simp] theorem Sreg.ofCode?_code (sreg : Sreg) : Sreg.ofCode? sreg.code = some sreg := by
  cases sreg <;> rfl

@[simp] theorem Creg.ofCode?_code (creg : Creg) : Creg.ofCode? creg.code = some creg := by
  cases creg <;> rfl

theorem Reg.code_lt (reg : Reg) : reg.code.toNat < 8 := by
  cases reg <;> decide

theorem Sreg.code_lt (sreg : Sreg) : sreg.code.toNat < 8 := by
  cases sreg <;> decide

theorem Creg.code_lt (creg : Creg) : creg.code.toNat < 8 := by
  cases creg <;> decide

theorem registers_modRegs {reg rm : UInt8} (hreg : reg.toNat < 8) (hrm : rm.toNat < 8) :
    registers (modRegs reg rm) = some (reg, rm) := by
  have hcodes : ∀ i < 8, ∀ j < 8, registers (modRegs (UInt8.ofNat i) (UInt8.ofNat j)) =
      some (UInt8.ofNat i, UInt8.ofNat j) := by decide
  have hpair := hcodes _ hreg _ hrm
  rwa [UInt8.ofNat_toNat, UInt8.ofNat_toNat] at hpair

theorem decode_unsized {opcode : UInt8} (hopcode : opcode ≠ 0x66) (big : Bool)
    (bytes : List UInt8) : decode big (opcode :: bytes) = decodeSized big big (opcode :: bytes) := by
  unfold decode
  split
  · next heq =>
    cases heq
    exact absurd rfl hopcode
  · rfl

theorem decode_prefixed (big : Bool) (bytes : List UInt8) : decode big (0x66 :: bytes) =
    (decodeSized big (!big) bytes).map fun result => (result.1, result.2 + 1) := rfl

theorem decode_sized {big wide : Bool} {opcode : UInt8} (hopcode : opcode ≠ 0x66)
    {bytes rest : List UInt8} {i : Instr}
    (h : decodeSized big wide (opcode :: (bytes ++ rest)) = some (i, bytes.length + 1)) :
    decode big (sized wide big (opcode :: bytes) ++ rest) =
      some (i, (sized wide big (opcode :: bytes)).length) := by
  by_cases hsize : wide = big
  · rw [sized, if_pos hsize, List.cons_append, decode_unsized hopcode, ← hsize]
    rwa [← hsize] at h
  · have hother : (!big) = wide := (Bool.eq_not.mpr hsize).symm
    rw [sized, if_neg hsize, List.cons_append, List.cons_append, decode_prefixed, hother, h]
    rfl

theorem decodeSized_movw (big : Bool) (value : UInt16) (dst : Reg) (rest : List UInt8) :
    decodeSized big false ((0xB8 ||| dst.code) :: (bytes16 value ++ rest)) =
      some (.op (.movw value dst), 3) := by
  have hmap : (operand16 (bytes16 value ++ rest)).map (fun value => (Instr.op (.movw value dst), 3)) =
      some (.op (.movw value dst), 3) := by rw [operand16_bytes16]; rfl
  cases dst <;> exact hmap

theorem decodeSized_movl (big : Bool) (value : UInt32) (dst : Reg) (rest : List UInt8) :
    decodeSized big true ((0xB8 ||| dst.code) :: (bytes32 value ++ rest)) =
      some (.op (.movl value dst), 5) := by
  have hmap : (operand32 (bytes32 value ++ rest)).map (fun value => (Instr.op (.movl value dst), 5)) =
      some (.op (.movl value dst), 5) := by rw [operand32_bytes32]; rfl
  cases dst <;> exact hmap

theorem Reg.opcode_ne (reg : Reg) : 0xB8 ||| reg.code ≠ 0x66 := by
  cases reg <;> decide

theorem decodeSized_orl (big : Bool) (value : UInt32) (dst : Reg) (rest : List UInt8) :
    decodeSized big true (orlCode value dst ++ rest) =
      some (.op (.orl value dst), (orlCode value dst).length) := by
  have hregs := registers_modRegs (show (1 : UInt8).toNat < 8 by decide) dst.code_lt
  unfold orlCode
  split
  · next hbyte => simp [decodeSized, hregs, hbyte]
  · split
    · next heax => simp [decodeSized, operand32_bytes32, heax]
    · simp [decodeSized, operand32_bytes32, hregs]

theorem orlCode_head (value : UInt32) (dst : Reg) :
    ∃ opcode bytes, orlCode value dst = opcode :: bytes ∧ opcode ≠ 0x66 := by
  unfold orlCode
  split
  · exact ⟨_, _, rfl, by decide⟩
  · split <;> exact ⟨_, _, rfl, by decide⟩

/-- The code of an instruction is decoded as that instruction, whatever follows it. -/
theorem Op.decode_encode {big : Bool} {o : Op} {bytes : List UInt8} (h : o.encode big = some bytes)
    (rest : List UInt8) : decode big (bytes ++ rest) = some (.op o, bytes.length) := by
  cases o with
  | cli => cases h; rfl
  | cld => cases h; rfl
  | movb value => cases h; rfl
  | testb value => cases h; rfl
  | inb port => cases h; rfl
  | outb port => cases h; rfl
  | xorw src dst =>
    cases h
    refine decode_sized (by decide) ?_
    simp [decodeSized, registers_modRegs src.code_lt dst.code_lt]
  | movwSeg src dst =>
    rw [Op.encode, Option.ite_none_left_eq_some] at h
    obtain ⟨hcode, h⟩ := h
    cases h
    rw [List.cons_append, decode_unsized (by decide)]
    simp [decodeSized, registers_modRegs dst.code_lt src.code_lt, hcode]
  | movw value dst =>
    cases h
    refine decode_sized dst.opcode_ne ?_
    rw [decodeSized_movw, length_bytes16]
  | movl value dst =>
    cases h
    refine decode_sized dst.opcode_ne ?_
    rw [decodeSized_movl, length_bytes32]
  | movwStore value address =>
    rw [Op.encode, Option.ite_none_right_eq_some] at h
    obtain ⟨hbig, h⟩ := h
    cases h
    refine decode_sized (by decide) ?_
    rw [List.cons_append, List.append_assoc]
    simp [decodeSized, operand32_bytes32, operand16_bytes16, hbig]
  | orl value dst =>
    cases h
    have hdecode := decodeSized_orl big value dst rest
    obtain ⟨opcode, bytes, hcode, hopcode⟩ := orlCode_head value dst
    rw [hcode] at hdecode ⊢
    exact decode_sized hopcode hdecode
  | lgdt address =>
    rw [Op.encode, Option.ite_none_left_eq_some] at h
    obtain ⟨hbig, h⟩ := h
    cases h
    rw [List.cons_append, decode_unsized (by decide)]
    simp [decodeSized, operand16_bytes16, hbig]
  | movlFrom src dst =>
    cases h
    rw [List.cons_append, decode_unsized (by decide)]
    simp [decodeSized, registers_modRegs src.code_lt dst.code_lt]
  | movlTo src dst =>
    cases h
    rw [List.cons_append, decode_unsized (by decide)]
    simp [decodeSized, registers_modRegs dst.code_lt src.code_lt]

theorem Instr.decode_encode {big : Bool} {i : Instr} {bytes : List UInt8}
    (h : i.encode big = some bytes) (rest : List UInt8) :
    decode big (bytes ++ rest) = some (i, bytes.length) := by
  cases i with
  | op o => exact o.decode_encode h rest
  | jump jump displacement =>
    cases jump with
    | jnz =>
      rw [Instr.encode, Option.ite_none_right_eq_some] at h
      obtain ⟨hbyte, h⟩ := h
      cases h
      rw [List.cons_append, decode_unsized (by decide)]
      simp [decodeSized, hbyte]
    | jmp =>
      rw [Instr.encode, Option.ite_none_right_eq_some] at h
      obtain ⟨hbyte, h⟩ := h
      cases h
      rw [List.cons_append, decode_unsized (by decide)]
      simp [decodeSized, hbyte]
    | call =>
      rw [Instr.encode, Option.ite_none_right_eq_some] at h
      obtain ⟨hbig, h⟩ := h
      cases h
      rw [List.cons_append, decode_unsized (by decide)]
      simp [decodeSized, operand32_bytes32, hbig]
  | ljmp selector offset =>
    rw [Instr.encode, Option.ite_none_left_eq_some] at h
    obtain ⟨hbig, h⟩ := h
    cases h
    rw [List.cons_append, List.append_assoc, decode_unsized (by decide)]
    simp [decodeSized, operand16_bytes16, hbig]
  | jmpReg target =>
    rw [Instr.encode, Option.ite_none_right_eq_some] at h
    obtain ⟨hbig, h⟩ := h
    cases h
    have hregs := registers_modRegs (show (4 : UInt8).toNat < 8 by decide) target.code_lt
    rw [List.cons_append, decode_unsized (by decide)]
    simp [decodeSized, hregs, hbig]

theorem Jump.encode_length {big : Bool} {jump : Jump} {displacement : UInt32} {bytes : List UInt8}
    (h : (Instr.jump jump displacement).encode big = some bytes) : bytes.length = jump.size := by
  cases jump <;> simp only [Instr.encode, Option.ite_none_right_eq_some] at h <;>
    obtain ⟨-, h⟩ := h <;> cases h <;> rfl

theorem length_sized (wide big : Bool) (bytes : List UInt8) :
    (sized wide big bytes).length ≤ bytes.length + 1 := by
  unfold sized
  split
  · exact Nat.le_succ _
  · exact Nat.le_refl _

theorem length_orlCode (value : UInt32) (dst : Reg) : (orlCode value dst).length ≤ 6 := by
  unfold orlCode
  split
  · simp
  · split <;> simp

theorem Op.length_encode {big : Bool} {o : Op} {bytes : List UInt8} (h : o.encode big = some bytes) :
    bytes.length ≤ 9 := by
  cases o with
  | cli | cld | movb | testb | inb | outb | movlFrom | movlTo => cases h; simp
  | xorw src dst => cases h; exact Nat.le_trans (length_sized _ _ _) (by simp)
  | movw value dst => cases h; exact Nat.le_trans (length_sized _ _ _) (by simp)
  | movl value dst => cases h; exact Nat.le_trans (length_sized _ _ _) (by simp)
  | orl value dst =>
    cases h
    have hcode := length_orlCode value dst
    exact Nat.le_trans (length_sized _ _ _) (by omega)
  | movwSeg src dst =>
    rw [Op.encode, Option.ite_none_left_eq_some] at h
    cases h.2
    simp
  | movwStore value address =>
    rw [Op.encode, Option.ite_none_right_eq_some] at h
    cases h.2
    exact Nat.le_trans (length_sized _ _ _) (by simp)
  | lgdt address =>
    rw [Op.encode, Option.ite_none_left_eq_some] at h
    cases h.2
    simp

theorem Instr.length_encode {big : Bool} {i : Instr} {bytes : List UInt8}
    (h : i.encode big = some bytes) : bytes.length ≤ 9 := by
  cases i with
  | op o => exact o.length_encode h
  | jump jump displacement =>
    rw [jump.encode_length h]
    cases jump <;> decide
  | ljmp selector offset =>
    rw [Instr.encode, Option.ite_none_left_eq_some] at h
    cases h.2
    simp
  | jmpReg target =>
    rw [Instr.encode, Option.ite_none_right_eq_some] at h
    cases h.2
    simp

theorem Instr.encode_ne_nil {big : Bool} {i : Instr} {bytes : List UInt8}
    (h : i.encode big = some bytes) : bytes ≠ [] := by
  rintro rfl
  have hdecode := i.decode_encode h []
  cases hdecode

end JosKernel.General.MachineCode
