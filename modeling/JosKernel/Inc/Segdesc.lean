import JosKernel.General.BitFields
import JosKernel.General.Flags

/-! The segment descriptors of `inc/mmu.h`, for C and for the assembler, and what
the processor makes of them. -/
namespace JosKernel.Inc
open JosKernel.General BitFields

structure Segdesc where
  sdLim15_0 : BitVec 16
  sdBase15_0 : BitVec 16
  sdBase23_16 : BitVec 8
  sdType : BitVec 4
  sdS : BitVec 1
  sdDpl : BitVec 2
  sdP : BitVec 1
  sdLim19_16 : BitVec 4
  sdAvl : BitVec 1
  sdRsv1 : BitVec 1
  sdDb : BitVec 1
  sdG : BitVec 1
  sdBase31_24 : BitVec 8

namespace Segdesc
variable (sd : Segdesc)

def low : List Field := [⟨16, sd.sdLim15_0⟩, ⟨16, sd.sdBase15_0⟩]

def high : List Field :=
  [⟨8, sd.sdBase23_16⟩, ⟨4, sd.sdType⟩, ⟨1, sd.sdS⟩, ⟨2, sd.sdDpl⟩, ⟨1, sd.sdP⟩,
    ⟨4, sd.sdLim19_16⟩, ⟨1, sd.sdAvl⟩, ⟨1, sd.sdRsv1⟩, ⟨1, sd.sdDb⟩, ⟨1, sd.sdG⟩,
    ⟨8, sd.sdBase31_24⟩]

def bytes : List UInt8 := littleEndian 4 (pack sd.low) ++ littleEndian 4 (pack sd.high)

theorem width_low : width sd.low = 8 * 4 := by simp [low, width]

theorem width_high : width sd.high = 8 * 4 := by simp [high, width]

end Segdesc

/-- `SEG(type, base, lim, dpl)` in C. A value is cut to the width of its field. -/
def seg (type : Nat) (base lim : UInt32) (dpl : Nat) : Segdesc where
  sdLim15_0 := ((lim >>> 12) &&& 0xffff).toBitVec.setWidth 16
  sdBase15_0 := (base &&& 0xffff).toBitVec.setWidth 16
  sdBase23_16 := ((base >>> 16) &&& 0xff).toBitVec.setWidth 8
  sdType := BitVec.ofNat 4 type
  sdS := 1
  sdDpl := BitVec.ofNat 2 dpl
  sdP := 1
  sdLim19_16 := (lim >>> 28).toBitVec.setWidth 4
  sdAvl := 0
  sdRsv1 := 0
  sdDb := 1
  sdG := 1
  sdBase31_24 := (base >>> 24).toBitVec.setWidth 8

namespace Asm

def word (value : Nat) : List UInt8 := littleEndian 2 value

def byte (value : Nat) : List UInt8 := littleEndian 1 value

def segNull : List UInt8 := word 0 ++ word 0 ++ byte 0 ++ byte 0 ++ byte 0 ++ byte 0

/-- `SEG(type,base,lim)` for the assembler. -/
def seg (type base lim : Nat) : List UInt8 :=
  word ((lim >>> 12) &&& 0xffff) ++ word (base &&& 0xffff) ++
    byte ((base >>> 16) &&& 0xff) ++ byte (0x90 ||| type) ++
    byte (0xC0 ||| ((lim >>> 28) &&& 0xf)) ++ byte ((base >>> 24) &&& 0xff)

end Asm

structure Descriptor where
  base : Nat
  limit : Nat
  type : Nat
  /-- A code or data segment, not one of the system's. -/
  application : Bool
  dpl : Nat
  present : Bool
  available : Bool
  long : Bool
  /-- A 32-bit segment. -/
  big : Bool
  /-- The limit counts pages. -/
  granular : Bool
  deriving DecidableEq, Repr

def ofDoublewords (low high : Nat) : Descriptor where
  base := low / 2 ^ 16 % 2 ^ 16 + 2 ^ 16 * (high % 2 ^ 8) + 2 ^ 24 * (high / 2 ^ 24 % 2 ^ 8)
  limit := low % 2 ^ 16 + 2 ^ 16 * (high / 2 ^ 16 % 2 ^ 4)
  type := high / 2 ^ 8 % 2 ^ 4
  application := high / 2 ^ 12 % 2 ^ 1 = 1
  dpl := high / 2 ^ 13 % 2 ^ 2
  present := high / 2 ^ 15 % 2 ^ 1 = 1
  available := high / 2 ^ 20 % 2 ^ 1 = 1
  long := high / 2 ^ 21 % 2 ^ 1 = 1
  big := high / 2 ^ 22 % 2 ^ 1 = 1
  granular := high / 2 ^ 23 % 2 ^ 1 = 1

def decode (bytes : List UInt8) : Option Descriptor :=
  if bytes.length = 8 then
    some (ofDoublewords (ofBytes (bytes.take 4)) (ofBytes (bytes.drop 4)))
  else none

/-- The limit in bytes. A limit that counts pages reaches to the end of the last one. -/
def Descriptor.effectiveLimit (d : Descriptor) : Nat :=
  if d.granular then d.limit * 2 ^ 12 + (2 ^ 12 - 1) else d.limit

theorem decode_bytes (sd : Segdesc) : decode sd.bytes = some {
    base := sd.sdBase15_0.toNat + 2 ^ 16 * sd.sdBase23_16.toNat + 2 ^ 24 * sd.sdBase31_24.toNat
    limit := sd.sdLim15_0.toNat + 2 ^ 16 * sd.sdLim19_16.toNat
    type := sd.sdType.toNat
    application := sd.sdS.toNat = 1
    dpl := sd.sdDpl.toNat
    present := sd.sdP.toNat = 1
    available := sd.sdAvl.toNat = 1
    long := sd.sdRsv1.toNat = 1
    big := sd.sdDb.toNat = 1
    granular := sd.sdG.toNat = 1 } := by
  have hlow : ofBytes (sd.bytes.take 4) = pack sd.low := by
    rw [Segdesc.bytes, List.take_left' (length_littleEndian 4 _)]
    exact ofBytes_pack sd.width_low
  have hhigh : ofBytes (sd.bytes.drop 4) = pack sd.high := by
    rw [Segdesc.bytes, List.drop_left' (length_littleEndian 4 _)]
    exact ofBytes_pack sd.width_high
  have hlength : sd.bytes.length = 8 := by simp [Segdesc.bytes]
  have hlim15_0 : pack sd.low % 2 ^ 16 = sd.sdLim15_0.toNat :=
    pack_head ⟨16, sd.sdLim15_0⟩ _
  have hbase15_0 : pack sd.low / 2 ^ 16 % 2 ^ 16 = sd.sdBase15_0.toNat :=
    pack_field sd.low (show 1 < 2 by decide)
  have hbase23_16 : pack sd.high % 2 ^ 8 = sd.sdBase23_16.toNat :=
    pack_head ⟨8, sd.sdBase23_16⟩ _
  have htype : pack sd.high / 2 ^ 8 % 2 ^ 4 = sd.sdType.toNat :=
    pack_field sd.high (show 1 < 11 by decide)
  have hs : pack sd.high / 2 ^ 12 % 2 ^ 1 = sd.sdS.toNat :=
    pack_field sd.high (show 2 < 11 by decide)
  have hdpl : pack sd.high / 2 ^ 13 % 2 ^ 2 = sd.sdDpl.toNat :=
    pack_field sd.high (show 3 < 11 by decide)
  have hp : pack sd.high / 2 ^ 15 % 2 ^ 1 = sd.sdP.toNat :=
    pack_field sd.high (show 4 < 11 by decide)
  have hlim19_16 : pack sd.high / 2 ^ 16 % 2 ^ 4 = sd.sdLim19_16.toNat :=
    pack_field sd.high (show 5 < 11 by decide)
  have havl : pack sd.high / 2 ^ 20 % 2 ^ 1 = sd.sdAvl.toNat :=
    pack_field sd.high (show 6 < 11 by decide)
  have hrsv1 : pack sd.high / 2 ^ 21 % 2 ^ 1 = sd.sdRsv1.toNat :=
    pack_field sd.high (show 7 < 11 by decide)
  have hdb : pack sd.high / 2 ^ 22 % 2 ^ 1 = sd.sdDb.toNat :=
    pack_field sd.high (show 8 < 11 by decide)
  have hg : pack sd.high / 2 ^ 23 % 2 ^ 1 = sd.sdG.toNat :=
    pack_field sd.high (show 9 < 11 by decide)
  have hbase31_24 : pack sd.high / 2 ^ 24 % 2 ^ 8 = sd.sdBase31_24.toNat :=
    pack_field sd.high (show 10 < 11 by decide)
  rw [decode, if_pos hlength, hlow, hhigh]
  unfold ofDoublewords
  rw [hlim15_0, hbase15_0, hbase23_16, htype, hs, hdpl, hp, hlim19_16, havl, hrsv1, hdb, hg,
    hbase31_24]

theorem Segdesc.bytes_eq (sd : Segdesc) : sd.bytes =
    littleEndian 2 sd.sdLim15_0.toNat ++ littleEndian 2 sd.sdBase15_0.toNat ++
      littleEndian 1 sd.sdBase23_16.toNat ++
      littleEndian 1 (sd.sdType.toNat + 2 ^ 4 * sd.sdS.toNat + 2 ^ 5 * sd.sdDpl.toNat +
        2 ^ 7 * sd.sdP.toNat) ++
      littleEndian 1 (sd.sdLim19_16.toNat + 2 ^ 4 * sd.sdAvl.toNat + 2 ^ 5 * sd.sdRsv1.toNat +
        2 ^ 6 * sd.sdDb.toNat + 2 ^ 7 * sd.sdG.toNat) ++
      littleEndian 1 sd.sdBase31_24.toNat := by
  have hlow : littleEndian 4 (pack sd.low) = littleEndian 2 (pack [⟨16, sd.sdLim15_0⟩]) ++
      littleEndian 2 (pack [⟨16, sd.sdBase15_0⟩]) := @littleEndian_pack_append [_] 2 rfl 2 [_]
  have hhigh : littleEndian 4 (pack sd.high) = littleEndian 1 (pack [⟨8, sd.sdBase23_16⟩]) ++
      littleEndian 3 (pack (sd.high.drop 1)) := @littleEndian_pack_append [_] 1 rfl 3 _
  have hmiddle : littleEndian 3 (pack (sd.high.drop 1)) =
      littleEndian 1 (pack [⟨4, sd.sdType⟩, ⟨1, sd.sdS⟩, ⟨2, sd.sdDpl⟩, ⟨1, sd.sdP⟩]) ++
      littleEndian 2 (pack (sd.high.drop 5)) := @littleEndian_pack_append [_, _, _, _] 1 rfl 2 _
  have hlast : littleEndian 2 (pack (sd.high.drop 5)) =
      littleEndian 1 (pack [⟨4, sd.sdLim19_16⟩, ⟨1, sd.sdAvl⟩, ⟨1, sd.sdRsv1⟩, ⟨1, sd.sdDb⟩,
        ⟨1, sd.sdG⟩]) ++ littleEndian 1 (pack [⟨8, sd.sdBase31_24⟩]) :=
    @littleEndian_pack_append [_, _, _, _, _] 1 rfl 1 [_]
  rw [Segdesc.bytes, hlow, hhigh, hmiddle, hlast]
  simp [pack, Nat.mul_add, ← Nat.mul_assoc, Nat.add_assoc]

section
variable (word : UInt32) {count low : UInt32} {width : Nat}

theorem toNat_field (hcount : count.toNat < 32) :
    ((word >>> count).toBitVec.setWidth width).toNat =
      word.toNat / 2 ^ count.toNat % 2 ^ width := by
  rw [BitVec.toNat_setWidth, UInt32.toNat_toBitVec, toNat_shiftRight_of_lt word hcount]

theorem toNat_maskedField (hlow : low.toNat = 2 ^ width - 1) :
    ((word &&& low).toBitVec.setWidth width).toNat = word.toNat % 2 ^ width := by
  rw [BitVec.toNat_setWidth, UInt32.toNat_toBitVec, toNat_and_low hlow, Nat.mod_mod]

end

section
variable (type : Nat) (base lim : UInt32) (dpl : Nat)

theorem seg_lim15_0 : (seg type base lim dpl).sdLim15_0.toNat = lim.toNat / 2 ^ 12 % 2 ^ 16 := by
  rw [seg, toNat_maskedField _ rfl, toNat_shiftRight_of_lt lim (by decide)]
  rfl

theorem seg_lim19_16 : (seg type base lim dpl).sdLim19_16.toNat = lim.toNat / 2 ^ 28 % 2 ^ 4 :=
  toNat_field lim (by decide)

theorem seg_base15_0 : (seg type base lim dpl).sdBase15_0.toNat = base.toNat % 2 ^ 16 :=
  toNat_maskedField base rfl

theorem seg_base23_16 :
    (seg type base lim dpl).sdBase23_16.toNat = base.toNat / 2 ^ 16 % 2 ^ 8 := by
  rw [seg, toNat_maskedField _ rfl, toNat_shiftRight_of_lt base (by decide)]
  rfl

theorem seg_base31_24 : (seg type base lim dpl).sdBase31_24.toNat = base.toNat / 2 ^ 24 % 2 ^ 8 :=
  toNat_field base (by decide)

end

def pageSegment (type base limit dpl : Nat) : Descriptor where
  base := base
  limit := limit
  type := type
  application := true
  dpl := dpl
  present := true
  available := false
  long := false
  big := true
  granular := true

section
variable {type dpl : Nat} (base lim : UInt32) (htype : type < 2 ^ 4)

include htype in
theorem decode_seg (hdpl : dpl < 2 ^ 2) :
    decode (seg type base lim dpl).bytes =
      some (pageSegment type base.toNat (lim.toNat / 2 ^ 12) dpl) := by
  have hbase := base.toNat_lt
  have hlim := lim.toNat_lt
  have htype' : (seg type base lim dpl).sdType.toNat = type := Nat.mod_eq_of_lt htype
  have hdpl' : (seg type base lim dpl).sdDpl.toNat = dpl := Nat.mod_eq_of_lt hdpl
  have hwhole : base.toNat % 2 ^ 16 + 2 ^ 16 * (base.toNat / 2 ^ 16 % 2 ^ 8) +
      2 ^ 24 * (base.toNat / 2 ^ 24 % 2 ^ 8) = base.toNat := by omega
  have hpages : lim.toNat / 2 ^ 12 % 2 ^ 16 + 2 ^ 16 * (lim.toNat / 2 ^ 28 % 2 ^ 4) =
      lim.toNat / 2 ^ 12 := by omega
  rw [decode_bytes, seg_base15_0, seg_base23_16, seg_base31_24, seg_lim15_0, seg_lim19_16, htype',
    hdpl', hwhole, hpages]
  rfl

include htype in
theorem bytes_seg : (seg type base lim 0).bytes = Asm.seg type base.toNat lim.toNat := by
  have hbase := base.toNat_lt
  have hlim := lim.toNat_lt
  have htype' : (seg type base lim 0).sdType.toNat = type := Nat.mod_eq_of_lt htype
  have hrights : type + 2 ^ 4 * 1 + 2 ^ 5 * 0 + 2 ^ 7 * 1 = 0x90 ||| type := by
    have hor : 0x90 + type = 0x90 ||| type := Nat.two_pow_add_eq_or_of_lt htype 9
    rw [← hor]
    omega
  have hflags : ∀ pages, pages < 2 ^ 4 →
      pages + 2 ^ 4 * 0 + 2 ^ 5 * 0 + 2 ^ 6 * 1 + 2 ^ 7 * 1 = 0xC0 ||| pages := by
    intro pages hpages
    have hor : 0xC0 + pages = 0xC0 ||| pages := Nat.two_pow_add_eq_or_of_lt hpages 12
    rw [← hor]
    omega
  have hmask16 : ∀ value, value &&& 0xffff = value % 2 ^ 16 := fun value =>
    Nat.and_two_pow_sub_one_eq_mod value 16
  have hmask8 : ∀ value, value &&& 0xff = value % 2 ^ 8 := fun value =>
    Nat.and_two_pow_sub_one_eq_mod value 8
  have hmask4 : ∀ value, value &&& 0xf = value % 2 ^ 4 := fun value =>
    Nat.and_two_pow_sub_one_eq_mod value 4
  rw [Segdesc.bytes_eq, seg_base15_0, seg_base23_16, seg_base31_24, seg_lim15_0, seg_lim19_16,
    htype']
  unfold Asm.seg Asm.word Asm.byte
  rw [hmask16, hmask16, hmask8, hmask8, hmask4, ← hrights, ← hflags _ (Nat.mod_lt _ (by decide)),
    Nat.shiftRight_eq_div_pow, Nat.shiftRight_eq_div_pow, Nat.shiftRight_eq_div_pow,
    Nat.shiftRight_eq_div_pow]
  rfl

end

theorem effectiveLimit_pageSegment (type base dpl : Nat) (lim : UInt32) :
    (pageSegment type base (lim.toNat / 2 ^ 12) dpl).effectiveLimit = (lim ||| 0xfff).toNat :=
  (@toNat_or_low 0xfff 12 rfl lim).symm

structure Describes (d : Descriptor) (type : Nat) (base lim : UInt32) (dpl : Nat) : Prop where
  base : d.base = base.toNat
  type : d.type = type
  dpl : d.dpl = dpl
  application : d.application = true
  present : d.present = true
  big : d.big = true
  long : d.long = false
  granular : d.granular = true
  /-- The limit with its low 12 bits set. -/
  limit : d.effectiveLimit = (lim ||| 0xfff).toNat

/-- The C initializer is read back as the segment that it describes, and the assembler's
macro puts down the same bytes for a segment of the kernel. -/
theorem seg_agrees (type : Nat) (base lim : UInt32) (dpl : Nat) (htype : type < 2 ^ 4)
    (hdpl : dpl < 2 ^ 2) :
    (∃ d, decode (seg type base lim dpl).bytes = some d ∧ Describes d type base lim dpl) ∧
      (seg type base lim 0).bytes = Asm.seg type base.toNat lim.toNat := by
  have hdecode := decode_seg base lim htype hdpl
  refine ⟨⟨_, hdecode, ?_⟩, bytes_seg base lim htype⟩
  exact {
    base := rfl
    type := rfl
    dpl := rfl
    application := rfl
    present := rfl
    big := rfl
    long := rfl
    granular := rfl
    limit := effectiveLimit_pageSegment type base.toNat dpl lim }

theorem seg_agrees_boot :
    (∃ d, decode (seg 0xA 0 0xffffffff 0).bytes = some d ∧ Describes d 0xA 0 0xffffffff 0) ∧
      (seg 0xA 0 0xffffffff 0).bytes = Asm.seg 0xA 0 0xffffffff :=
  seg_agrees 0xA 0 0xffffffff 0 (by decide) (by decide)

end JosKernel.Inc
