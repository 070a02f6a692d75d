import JosKernel.General.StringInstructions
import JosKernel.Inc.Types

/-! Both builds of `memmove` in `lib/string.c`, on the whole 32-bit memory: with
string instructions, and with loops over bytes. -/
namespace JosKernel.Lib
open JosKernel.Inc JosKernel.General Block StringInstructions

abbrev Memory := UInt32 → UInt8

def wordAligned (p : UInt32) : Bool := (wrapInt p.toNat).tmod 4 = 0

namespace Asm

def memmove (dst src n : UInt32) (cpu : Cpu) : UInt32 × Cpu :=
  let s := src
  let d := dst
  if s < d ∧ s + n > d then
    let s := s + n
    let d := d + n
    let cpu :=
      if wordAligned s ∧ wordAligned d ∧ n % 4 = 0 then
        (Cpu.std { cpu with edi := d - 4, esi := s - 4, ecx := n / 4 }).rep (Cpu.movs 4)
      else
        (Cpu.std { cpu with edi := d - 1, esi := s - 1, ecx := n }).rep (Cpu.movs 1)
    -- Some versions of GCC rely on DF being clear
    (dst, cpu.cld)
  else
    let cpu :=
      if wordAligned s ∧ wordAligned d ∧ n % 4 = 0 then
        (Cpu.cld { cpu with edi := d, esi := s, ecx := n / 4 }).rep (Cpu.movs 4)
      else
        (Cpu.cld { cpu with edi := d, esi := s, ecx := n }).rep (Cpu.movs 1)
    (dst, cpu)

end Asm

namespace Portable

def moveUp (mem : Memory) (d s : UInt32) : Nat → Memory
  | 0 => mem
  | n + 1 => moveUp (Function.update mem d (mem s)) (d + 1) (s + 1) n

def moveDown (mem : Memory) (d s : UInt32) : Nat → Memory
  | 0 => mem
  | n + 1 => moveDown (Function.update mem (d - 1) (mem (s - 1))) (d - 1) (s - 1) n

def memmove (dst src n : UInt32) (mem : Memory) : UInt32 × Memory :=
  let s := src
  let d := dst
  if s < d ∧ s + n > d then (dst, moveDown mem (d + n) (s + n) n.toNat)
  else (dst, moveUp mem d s n.toNat)

theorem moveUp_eq_blocksUp (mem : Memory) (d s : UInt32) (n : Nat) :
    moveUp mem d s n = blocksUp 1 mem d s n := by
  induction n generalizing mem d s with
  | zero => rfl
  | succ n ih =>
    rw [moveUp, ih, ← block_one]
    rfl

theorem moveDown_eq_blocksDown (mem : Memory) (d s : UInt32) (n : Nat) :
    moveDown mem (d + UInt32.ofNat n) (s + UInt32.ofNat n) n = blocksDown 1 mem d s n := by
  induction n generalizing mem with
  | zero => rfl
  | succ n ih =>
    have hprevious : ∀ p : UInt32, p + UInt32.ofNat (n + 1) - 1 = p + UInt32.ofNat n := by
      intro p
      rw [UInt32.ofNat_add]
      exact (by grind : p + (UInt32.ofNat n + 1) - 1 = p + UInt32.ofNat n)
    rw [moveDown, hprevious, hprevious, ← block_one, ih, blocksDown, Nat.one_mul]

end Portable

section
variable {dst src n : UInt32}

theorem movesDown_iff (hsrc : src.toNat + n.toNat ≤ 2 ^ 32) (hdst : dst.toNat + n.toNat ≤ 2 ^ 32) :
    (src < dst ∧ src + n > dst) ↔ src.toNat < dst.toNat ∧ dst.toNat < src.toNat + n.toNat := by
  have hsum : (src + n).toNat = (src.toNat + n.toNat) % 2 ^ 32 := UInt32.toNat_add src n
  have hlt := dst.toNat_lt
  change src < dst ∧ dst < src + n ↔ _
  rw [UInt32.lt_iff_toNat_lt, UInt32.lt_iff_toNat_lt, hsum]
  omega

theorem Portable.memmove_eq (mem : Memory) (hsrc : src.toNat + n.toNat ≤ 2 ^ 32)
    (hdst : dst.toNat + n.toNat ≤ 2 ^ 32) :
    Portable.memmove dst src n mem = (dst, block mem dst src n.toNat) := by
  have hn : UInt32.ofNat n.toNat = n := UInt32.ofNat_toNat
  unfold Portable.memmove
  dsimp only
  split
  · next hdown =>
    have hover := (movesDown_iff hsrc hdst).mp hdown
    have hmove := moveDown_eq_blocksDown mem dst src n.toNat
    rw [hn] at hmove
    rw [hmove, blocksDown_eq 1 mem (by omega) (by omega) (by omega), Nat.one_mul]
  · next hup =>
    rw [movesDown_iff hsrc hdst] at hup
    rw [moveUp_eq_blocksUp, blocksUp_eq 1 mem (by omega) (by omega) (by omega), Nat.one_mul]

theorem words_eq (h : n % 4 = 0) : 4 * (n / 4).toNat = n.toNat := by
  have hmod : n.toNat % 4 = 0 := by
    rw [← UInt32.toNat_inj, UInt32.toNat_mod] at h
    exact h
  rw [UInt32.toNat_div]
  change 4 * (n.toNat / 4) = n.toNat
  omega

theorem Asm.memmove_eq (cpu : Cpu) (hsrc : src.toNat + n.toNat ≤ 2 ^ 32)
    (hdst : dst.toNat + n.toNat ≤ 2 ^ 32) :
    (Asm.memmove dst src n cpu).1 = dst ∧
      (Asm.memmove dst src n cpu).2.mem = block cpu.mem dst src n.toNat ∧
      (Asm.memmove dst src n cpu).2.df = false := by
  have hn : UInt32.ofNat n.toNat = n := UInt32.ofNat_toNat
  unfold Asm.memmove
  dsimp only
  split
  · next hdown =>
    have hover := (movesDown_iff hsrc hdst).mp hdown
    refine ⟨rfl, ?_, rfl⟩
    split
    · next hwords =>
      exact rep_movs_down 4 (Cpu.std { cpu with edi := dst + n - 4, esi := src + n - 4, ecx := n / 4 })
        rfl (words_eq hwords.2.2) (by rw [hn]; exact UInt32.sub_add_cancel _ _)
        (by rw [hn]; exact UInt32.sub_add_cancel _ _) hdst hsrc (by omega)
    · exact rep_movs_down 1 (Cpu.std { cpu with edi := dst + n - 1, esi := src + n - 1, ecx := n })
        rfl (Nat.one_mul _) (by rw [hn]; exact UInt32.sub_add_cancel _ _)
        (by rw [hn]; exact UInt32.sub_add_cancel _ _) hdst hsrc (by omega)
  · next hup =>
    rw [movesDown_iff hsrc hdst] at hup
    refine ⟨rfl, ?_, ?_⟩
    · split
      · next hwords =>
        exact rep_movs_up 4 (Cpu.cld { cpu with edi := dst, esi := src, ecx := n / 4 }) rfl
          (words_eq hwords.2.2) hdst hsrc (by dsimp only [Cpu.cld]; omega)
      · exact rep_movs_up 1 (Cpu.cld { cpu with edi := dst, esi := src, ecx := n }) rfl
          (Nat.one_mul _) hdst hsrc (by dsimp only [Cpu.cld]; omega)
    · split <;> exact rep_movs_df _ _

/-- The bytes from `dst` on are those that were at `src`, and no other byte has
changed. -/
structure Moved (dst src n : UInt32) (before after : Memory) : Prop where
  bytes : ∀ i, i < n.toNat → after (dst + UInt32.ofNat i) = before (src + UInt32.ofNat i)
  frame : ∀ address : UInt32, address.toNat < dst.toNat ∨ dst.toNat + n.toNat ≤ address.toNat →
    after address = before address

theorem moved_block (mem : Memory) (hdst : dst.toNat + n.toNat ≤ 2 ^ 32) :
    Moved dst src n mem (block mem dst src n.toNat) :=
  ⟨fun _ hi => fill_offset mem dst _ hdst hi, fun _ houtside => fill_frame mem dst _ hdst houtside⟩

end

/-- `memmove` is right under every overlap and alignment, and both builds do the
same. -/
theorem memmove_moved (dst src n : UInt32) (cpu : Cpu) (hsrc : src.toNat + n.toNat ≤ 2 ^ 32)
    (hdst : dst.toNat + n.toNat ≤ 2 ^ 32) :
    Moved dst src n cpu.mem (Asm.memmove dst src n cpu).2.mem ∧
      (Asm.memmove dst src n cpu).2.df = false ∧
      (Portable.memmove dst src n cpu.mem).2 = (Asm.memmove dst src n cpu).2.mem ∧
      (Asm.memmove dst src n cpu).1 = dst ∧ (Portable.memmove dst src n cpu.mem).1 = dst := by
  obtain ⟨hreturn, hmem, hdf⟩ := Asm.memmove_eq cpu hsrc hdst
  rw [Portable.memmove_eq cpu.mem hsrc hdst, hmem]
  exact ⟨moved_block cpu.mem hdst, hdf, rfl, hreturn, rfl⟩

theorem memmove_moved_overlap :
    let cpu : Cpu := ⟨fun address => address.toUInt8, true, 0, 0, 0, 0⟩
    Moved 0x1001 0x1000 8 cpu.mem (Asm.memmove 0x1001 0x1000 8 cpu).2.mem ∧
      (Asm.memmove 0x1001 0x1000 8 cpu).2.df = false ∧
      (Portable.memmove 0x1001 0x1000 8 cpu.mem).2 = (Asm.memmove 0x1001 0x1000 8 cpu).2.mem ∧
      (Asm.memmove 0x1001 0x1000 8 cpu).1 = 0x1001 ∧
      (Portable.memmove 0x1001 0x1000 8 cpu.mem).1 = 0x1001 :=
  memmove_moved 0x1001 0x1000 8 ⟨fun address => address.toUInt8, true, 0, 0, 0, 0⟩ (by decide)
    (by decide)

end JosKernel.Lib
