import JosKernel.Inc.Segdesc

/-! The bootstrap table of segments of `boot/boot.S`, which makes virtual addresses
identical to their physical addresses. -/
namespace JosKernel.Boot
open JosKernel.Inc JosKernel.General BitFields

def staX : Nat := 0x8
def staE : Nat := 0x4
def staW : Nat := 0x2
def staR : Nat := 0x2

def protModeCseg : Nat := 0x8
def protModeDseg : Nat := 0x10

def gdt : List UInt8 :=
  [Asm.segNull,
    Asm.seg (staX ||| staR) 0x0 0xffffffff,
    Asm.seg staW 0x0 0xffffffff].flatten

def gdtLimit : Nat := 0x17

/-- What the processor loads for a selector, at the highest privilege. There is no local
table, and the first entry of the global one cannot be used. -/
def loadDescriptor (table : List UInt8) (limit selector : Nat) : Option Descriptor :=
  if selector / 4 % 2 = 1 ∨ selector / 8 = 0 then none
  else if limit < 8 * (selector / 8) + 7 then none
  else decode ((table.drop (8 * (selector / 8))).take 8)

def expandDown (d : Descriptor) : Bool := d.type &&& staX = 0 ∧ d.type &&& staE ≠ 0

def linear (d : Descriptor) (offset : UInt32) : Option UInt32 :=
  let inside : Bool :=
    if expandDown d then
      d.effectiveLimit < offset.toNat ∧ offset.toNat < if d.big then 2 ^ 32 else 2 ^ 16
    else offset.toNat ≤ d.effectiveLimit
  if d.present ∧ d.application ∧ inside then some (UInt32.ofNat d.base + offset) else none

theorem take_drop_flatten {entries : List (List UInt8)} {size : Nat}
    (hsize : ∀ entry ∈ entries, entry.length = size) {index : Nat}
    (hindex : index < entries.length) :
    (entries.flatten.drop (size * index)).take size = entries[index] := by
  induction entries generalizing index with
  | nil => cases hindex
  | cons entry entries ih =>
    have hentry : entry.length = size := hsize entry List.mem_cons_self
    cases index with
    | zero => exact List.take_left' hentry
    | succ index =>
      have hrest : ∀ other ∈ entries, other.length = size := fun other hother =>
        hsize other (List.mem_cons_of_mem entry hother)
      have hskip : size * (index + 1) = size + size * index := by
        rw [Nat.mul_succ, Nat.add_comm]
      rw [List.flatten_cons, hskip, ← List.drop_drop, List.drop_left' hentry]
      exact ih hrest (Nat.lt_of_succ_lt_succ hindex)

section
variable {entries : List (List UInt8)}

theorem loadDescriptor_entry (hsize : ∀ entry ∈ entries, entry.length = 8)
    {index privilege : Nat} (hnull : 0 < index) (hindex : index < entries.length)
    (hprivilege : privilege < 4) :
    loadDescriptor entries.flatten (8 * entries.length - 1) (8 * index + privilege) =
      decode entries[index] := by
  have hselector : (8 * index + privilege) / 8 = index := by omega
  rw [loadDescriptor, hselector, if_neg (by omega), if_neg (by omega),
    take_drop_flatten hsize hindex]

theorem loadDescriptor_eq_some {selector : Nat} {d : Descriptor}
    (h : loadDescriptor entries.flatten (8 * entries.length - 1) selector = some d) :
    ∃ index privilege, selector = 8 * index + privilege ∧ privilege < 4 ∧ 0 < index ∧
      index < entries.length := by
  unfold loadDescriptor at h
  split at h
  · cases h
  · split at h
    · cases h
    · exact ⟨selector / 8, selector % 8, by omega, by omega, by omega, by omega⟩

end

def flatSegment (type : Nat) : Descriptor := pageSegment type 0 (2 ^ 20 - 1) 0

theorem decode_flatSegment {type : Nat} (htype : type < 2 ^ 4) :
    decode (Asm.seg type 0x0 0xffffffff) = some (flatSegment type) := by
  have hbytes := bytes_seg 0 0xffffffff htype
  have hdecode := decode_seg 0 0xffffffff htype (show 0 < 2 ^ 2 by decide)
  rw [hbytes] at hdecode
  exact hdecode

theorem linear_flatSegment {type : Nat} (hup : expandDown (flatSegment type) = false)
    (offset : UInt32) : linear (flatSegment type) offset = some offset := by
  have hoffset := offset.toNat_lt
  have hlimit : (flatSegment type).effectiveLimit = (2 ^ 20 - 1) * 2 ^ 12 + (2 ^ 12 - 1) := rfl
  have hinside : offset.toNat ≤ (flatSegment type).effectiveLimit := by omega
  have hbase : UInt32.ofNat (flatSegment type).base + offset = offset := UInt32.zero_add offset
  unfold linear
  rw [hup, hbase, if_neg Bool.false_ne_true, decide_eq_true hinside]
  rfl

theorem loadDescriptor_gdt (selector : Nat) :
    loadDescriptor gdt gdtLimit selector =
      if selector / 4 = protModeCseg / 4 then some (flatSegment (staX ||| staR))
      else if selector / 4 = protModeDseg / 4 then some (flatSegment staW)
      else none := by
  have hsize : ∀ entry ∈ [Asm.segNull, Asm.seg (staX ||| staR) 0x0 0xffffffff,
      Asm.seg staW 0x0 0xffffffff], entry.length = 8 := by
    simp [Asm.segNull, Asm.seg, Asm.word, Asm.byte]
  have hprivilege : selector % 4 < 4 := Nat.mod_lt selector (by decide)
  have hcode : decode (Asm.seg (staX ||| staR) 0x0 0xffffffff) = _ :=
    decode_flatSegment (by decide)
  have hdata : decode (Asm.seg staW 0x0 0xffffffff) = _ := decode_flatSegment (by decide)
  split
  · next hcseg =>
    have hselector : selector = 8 * 1 + selector % 4 := by simp only [protModeCseg] at hcseg; omega
    rw [hselector, ← hcode]
    exact loadDescriptor_entry hsize (show 0 < 1 by decide) (show 1 < 3 by decide) hprivilege
  · next hcseg =>
    split
    · next hdseg =>
      have hselector : selector = 8 * 2 + selector % 4 := by simp only [protModeDseg] at hdseg; omega
      rw [hselector, ← hdata]
      exact loadDescriptor_entry hsize (show 0 < 2 by decide) (show 2 < 3 by decide) hprivilege
    · next hdseg =>
      cases hload : loadDescriptor gdt gdtLimit selector with
      | none => rfl
      | some d =>
        obtain ⟨index, privilege, hselector, hprivilege, hnull, hindex⟩ :=
          loadDescriptor_eq_some hload
        have hlast : index < 3 := hindex
        simp only [protModeCseg, protModeDseg] at hcseg hdseg
        omega

example : gdt =
    [0, 0, 0, 0, 0, 0, 0, 0, 0xff, 0xff, 0, 0, 0, 0x9a, 0xcf, 0, 0xff, 0xff, 0, 0, 0, 0x92, 0xcf,
      0] := by decide

theorem gdt_flat {selector : Nat} {d : Descriptor}
    (h : loadDescriptor gdt gdtLimit selector = some d) (offset : UInt32) :
    linear d offset = some offset := by
  rw [loadDescriptor_gdt] at h
  split at h
  · cases h
    exact linear_flatSegment rfl offset
  · split at h
    · cases h
      exact linear_flatSegment rfl offset
    · cases h

end JosKernel.Boot
