import JosKernel.General.Loop
import JosKernel.Lib.Memmove

/-! Both builds of `memset` in `lib/string.c`. -/
namespace JosKernel.Lib
open JosKernel.Inc JosKernel.General Block StringInstructions

def lowByte (c : Int32) : UInt8 := c.toInt8.toUInt8

namespace Asm

/-- The `asm` statements do not say that they change `%edi`, which holds `v`: the
register is returned as they leave it. -/
def memset (v : UInt32) (c : Int32) (n : UInt32) (cpu : Cpu) : UInt32 × Cpu :=
  if n = 0 then (v, cpu)
  else
    let cpu :=
      if wordAligned v ∧ n % 4 = 0 then
        let c := c &&& 0xFF
        let c := (c <<< 24) ||| (c <<< 16) ||| (c <<< 8) ||| c
        (Cpu.cld { cpu with edi := v, eax := c.toUInt32, ecx := n / 4 }).rep (Cpu.stos 4)
      else (Cpu.cld { cpu with edi := v, eax := c.toUInt32, ecx := n }).rep (Cpu.stos 1)
    (cpu.edi, cpu)

end Asm

namespace Portable

def memsetRound (c : Int32) : Int × UInt32 × Memory → Except Fault ((Int × UInt32 × Memory) ⊕ Memory)
  | (m, p, mem) =>
    let m := wrapInt (m - 1)
    if 0 ≤ m then .ok (.inl (m, p + 1, Function.update mem p (lowByte c))) else .ok (.inr mem)

/-- The count is an `int`, which wraps around. -/
def memset (v : UInt32) (c : Int32) (n : UInt32) (mem : Memory) : Except Fault (UInt32 × Memory) := do
  let m := wrapInt n.toNat
  let mem ← Loop.run .unfinished (memsetRound c) ((wrapInt (m - 1) + 1).toNat + 1) (m, v, mem)
  return (v, mem)

end Portable

theorem lowByte_eq (c : Int32) : lowByte c = c.toUInt32.toUInt8 := by
  apply UInt8.toBitVec_inj.mp
  exact BitVec.signExtend_eq_setWidth_of_le _ (by decide)

theorem lowByte_toNat (c : Int32) : (lowByte c).toNat = c.toUInt32.toNat % 2 ^ 8 := by
  rw [lowByte_eq, UInt32.toNat_toUInt8]

theorem registerByte_toNat (register : UInt32) {i : Nat} (hi : i < 4) :
    (registerByte register i).toNat = register.toNat / 2 ^ (8 * i) % 2 ^ 8 := by
  have hofNat : (UInt32.ofNat (8 * i)).toNat = 8 * i := Nat.mod_eq_of_lt (by omega)
  rw [registerByte, UInt32.toNat_toUInt8, toNat_shiftRight_of_lt register (by omega), hofNat]

theorem registerByte_zero (c : Int32) : registerByte c.toUInt32 0 = lowByte c := by
  apply UInt8.toNat_inj.mp
  rw [registerByte_toNat _ (by decide), lowByte_toNat, Nat.mul_zero, Nat.pow_zero, Nat.div_one]

theorem shiftLeft_toNat {c : UInt32} (hc : c.toNat < 2 ^ 8) {i : Nat} (hi : i ≤ 24) :
    (c <<< UInt32.ofNat i).toNat = 2 ^ i * c.toNat := by
  have hofNat : (UInt32.ofNat i).toNat = i := Nat.mod_eq_of_lt (by omega)
  have hpow : 2 ^ i ≤ 2 ^ 24 := Nat.pow_le_pow_right (by decide) hi
  have hlt : 2 ^ i * c.toNat < 2 ^ 32 :=
    calc 2 ^ i * c.toNat ≤ 2 ^ 24 * c.toNat := Nat.mul_le_mul_right _ hpow
      _ < 2 ^ 32 := by omega
  have hmod : i % 32 = i := Nat.mod_eq_of_lt (by omega)
  rw [UInt32.toNat_shiftLeft, hofNat, hmod, Nat.shiftLeft_eq, Nat.mul_comm, Nat.mod_eq_of_lt hlt]

theorem replicated_toNat {c : UInt32} (hc : c.toNat < 2 ^ 8) :
    ((c <<< 24) ||| (c <<< 16) ||| (c <<< 8) ||| c).toNat = 0x1010101 * c.toNat := by
  have h24 : (c <<< 24).toNat = 2 ^ 24 * c.toNat := shiftLeft_toNat hc (by decide)
  have h16 : (c <<< 16).toNat = 2 ^ 16 * c.toNat := shiftLeft_toNat hc (by decide)
  have h8 : (c <<< 8).toNat = 2 ^ 8 * c.toNat := shiftLeft_toNat hc (by decide)
  have hhigh : 2 ^ 24 * c.toNat ||| 2 ^ 16 * c.toNat = 2 ^ 16 * (0x101 * c.toNat) := by
    rw [← Nat.two_pow_add_eq_or_of_lt (show 2 ^ 16 * c.toNat < 2 ^ 24 by omega)]
    omega
  have hmid : 2 ^ 16 * (0x101 * c.toNat) ||| 2 ^ 8 * c.toNat = 2 ^ 8 * (0x10101 * c.toNat) := by
    rw [← Nat.two_pow_add_eq_or_of_lt (show 2 ^ 8 * c.toNat < 2 ^ 16 by omega)]
    omega
  rw [UInt32.toNat_or, UInt32.toNat_or, UInt32.toNat_or, h24, h16, h8, hhigh, hmid,
    ← Nat.two_pow_add_eq_or_of_lt hc]
  omega

theorem byte_of_replicated {byte i : Nat} (hbyte : byte < 2 ^ 8) (hi : i < 4) :
    0x1010101 * byte / 2 ^ (8 * i) % 2 ^ 8 = byte := by
  obtain rfl | rfl | rfl | rfl : i = 0 ∨ i = 1 ∨ i = 2 ∨ i = 3 := by omega
  · omega
  · have hdiv : 0x1010101 * byte / 2 ^ 8 = 0x10101 * byte := by omega
    change 0x1010101 * byte / 2 ^ 8 % 2 ^ 8 = byte
    omega
  · have hdiv : 0x1010101 * byte / 2 ^ 16 = 0x101 * byte := by omega
    change 0x1010101 * byte / 2 ^ 16 % 2 ^ 8 = byte
    omega
  · have hdiv : 0x1010101 * byte / 2 ^ 24 = byte := by omega
    change 0x1010101 * byte / 2 ^ 24 % 2 ^ 8 = byte
    omega

theorem registerByte_replicated (c : Int32) {i : Nat} (hi : i < 4) :
    registerByte (((c &&& 0xFF) <<< 24) ||| ((c &&& 0xFF) <<< 16) ||| ((c &&& 0xFF) <<< 8) |||
      (c &&& 0xFF)).toUInt32 i = lowByte c := by
  have hmask : (c &&& 0xFF).toUInt32.toNat = c.toUInt32.toNat % 2 ^ 8 :=
    Nat.and_two_pow_sub_one_eq_mod c.toUInt32.toNat 8
  have hword : (((c &&& 0xFF) <<< 24) ||| ((c &&& 0xFF) <<< 16) ||| ((c &&& 0xFF) <<< 8) |||
      (c &&& 0xFF)).toUInt32.toNat = 0x1010101 * (c.toUInt32.toNat % 2 ^ 8) := by
    rw [← hmask]
    exact replicated_toNat (by omega)
  apply UInt8.toNat_inj.mp
  rw [registerByte_toNat _ hi, hword, lowByte_toNat]
  exact byte_of_replicated (by omega) hi

section
variable {v n : UInt32}

theorem Asm.memset_eq (c : Int32) (cpu : Cpu) :
    (Asm.memset v c n cpu).2.mem = fill cpu.mem v n.toNat fun _ => lowByte c := by
  have hn := n.toNat_lt
  unfold Asm.memset
  split
  · next hzero =>
    rw [hzero]
    exact (fill_zero cpu.mem v _).symm
  dsimp only
  split
  · next hwords =>
    refine (rep_stos_up 4 _ rfl (words_eq hwords.2) (by omega)).trans (fill_congr _ _ fun i _ => ?_)
    exact registerByte_replicated c (Nat.mod_lt _ (by decide))
  · refine (rep_stos_up 1 _ rfl (Nat.one_mul n.toNat) (by omega)).trans (fill_congr _ _ fun i _ => ?_)
    rw [Nat.mod_one]
    exact registerByte_zero c

theorem Portable.memset_loop (c : Int32) {k : Nat} (hk : k ≤ 2 ^ 31) {m : Int}
    (hm : wrapInt (m - 1) = k - 1) (p : UInt32) (mem : Memory) :
    Loop.run .unfinished (Portable.memsetRound c) (k + 1) (m, p, mem) =
      .ok (fillsUp 1 (fun _ => lowByte c) mem p k) := by
  induction k generalizing m p mem with
  | zero =>
    rw [Loop.run_done]
    rw [Portable.memsetRound, hm]
    rfl
  | succ k ih =>
    have hround : Portable.memsetRound c (m, p, mem) =
        .ok (.inl (k, p + 1, fill mem p 1 fun _ => lowByte c)) := by
      have hcount : ((k + 1 : Nat) : Int) - 1 = k := by omega
      rw [Portable.memsetRound, hm, hcount, fill_one]
      exact if_pos (Int.natCast_nonneg k)
    rw [Loop.run_next hround]
    exact ih (by omega) (wrapInt_of_range (by omega) (by omega)) _ _

theorem Portable.memset_eq (c : Int32) (mem : Memory) (hn : n.toNat ≤ 2 ^ 31) :
    Portable.memset v c n mem = .ok (v, fill mem v n.toNat fun _ => lowByte c) := by
  have hm : wrapInt (wrapInt n.toNat - 1) = n.toNat - 1 := by
    rw [wrapInt_wrapInt_sub]
    exact wrapInt_of_range (by omega) (by omega)
  have hfuel : ((n.toNat : Int) - 1 + 1).toNat = n.toNat := by omega
  have hfill : fillsUp 1 (fun _ => lowByte c) mem v n.toNat =
      fill mem v n.toNat fun _ => lowByte c := by
    rw [fillsUp_eq 1 _ mem v (by omega), Nat.one_mul]
  unfold Portable.memset
  dsimp only
  rw [hm, hfuel, Portable.memset_loop c hn hm, hfill]
  rfl

theorem wrapInt_pred_neg (hn : 2 ^ 31 < n.toNat) : wrapInt (wrapInt n.toNat - 1) < 0 := by
  have hlt := n.toNat_lt
  rw [wrapInt_wrapInt_sub]
  unfold wrapInt
  rw [Int.bmod_def]
  omega

theorem Portable.memsetRound_done (c : Int32) {m : Int} (hm : wrapInt (m - 1) < 0) (p : UInt32)
    (mem : Memory) : Portable.memsetRound c (m, p, mem) = .ok (.inr mem) := by
  rw [Portable.memsetRound]
  exact if_neg (Int.not_le.mpr hm)

theorem Portable.memset_none (c : Int32) (mem : Memory) (hn : 2 ^ 31 < n.toNat) :
    Portable.memset v c n mem = .ok (v, mem) := by
  have hrun : Loop.run .unfinished (Portable.memsetRound c)
      ((wrapInt (wrapInt n.toNat - 1) + 1).toNat + 1) (wrapInt n.toNat, v, mem) = .ok mem :=
    Loop.run_done (Portable.memsetRound_done c (wrapInt_pred_neg hn) v mem) _
  unfold Portable.memset
  dsimp only
  rw [hrun]
  rfl

structure Filled (v n : UInt32) (byte : UInt8) (before after : Memory) : Prop where
  bytes : ∀ i, i < n.toNat → after (v + UInt32.ofNat i) = byte
  frame : ∀ address : UInt32, address.toNat < v.toNat ∨ v.toNat + n.toNat ≤ address.toNat →
    after address = before address

theorem filled_fill (byte : UInt8) (mem : Memory) (h : v.toNat + n.toNat ≤ 2 ^ 32) :
    Filled v n byte mem (fill mem v n.toNat fun _ => byte) :=
  ⟨fun _ hi => fill_offset mem v _ h hi, fun _ houtside => fill_frame mem v _ h houtside⟩

end

/-- Whatever memory they find, both builds fill the bytes from `v` on with the
low byte of `c` and leave the rest alone. -/
def MemsetsAgree (v : UInt32) (c : Int32) (n : UInt32) : Prop :=
  ∀ cpu : Cpu, Filled v n (lowByte c) cpu.mem (Asm.memset v c n cpu).2.mem ∧
    Portable.memset v c n cpu.mem = .ok (v, (Asm.memset v c n cpu).2.mem)

/-- They agree exactly up to the count that the first `--m` turns into the
largest `int`. -/
theorem memsetsAgree_iff (v : UInt32) (c : Int32) (n : UInt32) (h : v.toNat + n.toNat ≤ 2 ^ 32) :
    MemsetsAgree v c n ↔ n.toNat ≤ 2 ^ 31 := by
  refine ⟨fun hagree => ?_, fun hn cpu => ?_⟩
  · refine Nat.le_of_not_lt fun hn => ?_
    obtain ⟨cpu, hcpu⟩ : ∃ cpu : Cpu, cpu.mem = fun _ => lowByte c + 1 :=
      ⟨⟨_, false, 0, 0, 0, 0⟩, rfl⟩
    obtain ⟨hfilled, hportable⟩ := hagree cpu
    rw [Portable.memset_none c _ hn] at hportable
    have hmem : cpu.mem = (Asm.memset v c n cpu).2.mem :=
      (Prod.mk.inj (Except.ok.inj hportable)).2
    have hbyte := hfilled.bytes 0 (by omega)
    rw [← hmem, hcpu] at hbyte
    exact absurd hbyte (by grind)
  · rw [Asm.memset_eq, Portable.memset_eq c cpu.mem hn]
    exact ⟨filled_fill (lowByte c) cpu.mem h, rfl⟩

theorem memsetsAgree_words : MemsetsAgree 0x1000 (-1) 8 :=
  (memsetsAgree_iff 0x1000 (-1) 8 (by decide)).mpr (by decide)

/-- Half of the address space and one byte, of which the portable build fills
nothing. -/
theorem not_memsetsAgree :
    ¬∀ (v : UInt32) (c : Int32) (n : UInt32), v.toNat + n.toNat ≤ 2 ^ 32 → MemsetsAgree v c n := by
  intro h
  obtain ⟨cpu, hcpu⟩ : ∃ cpu : Cpu, cpu.mem = fun _ => 1 := ⟨⟨_, false, 0, 0, 0, 0⟩, rfl⟩
  obtain ⟨hfilled, hportable⟩ := h 0 0 0x80000001 (by decide) cpu
  rw [@Portable.memset_none 0 0x80000001 0 cpu.mem (by simp)] at hportable
  have hmem : cpu.mem = (Asm.memset 0 0 0x80000001 cpu).2.mem :=
    (Prod.mk.inj (Except.ok.inj hportable)).2
  have hbyte := hfilled.bytes 0 (by decide)
  rw [← hmem, hcpu] at hbyte
  exact absurd hbyte (by decide)

end JosKernel.Lib
