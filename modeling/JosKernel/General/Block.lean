import JosKernel.General.Flags
import Mathlib.Logic.Function.Basic

/-! Blocks of a 32-bit memory: filling one by a function of the offset, and
copying one from another place, all at once or in smaller blocks. Addresses wrap
around; a block is never larger than the address space. -/
namespace JosKernel.General.Block

variable {β : Type}

/-- The `n` cells from `d` on hold what `f` gives for their offsets. -/
def fill (mem : UInt32 → β) (d : UInt32) (n : Nat) (f : Nat → β) : UInt32 → β := fun address =>
  if (address - d).toNat < n then f (address - d).toNat else mem address

def block (mem : UInt32 → β) (d s : UInt32) (n : Nat) : UInt32 → β :=
  fill mem d n fun i => mem (s + UInt32.ofNat i)

theorem toNat_sub_add {address d : UInt32} {n : Nat} (h : n ≤ (address - d).toNat) :
    (address - (d + UInt32.ofNat n)).toNat = (address - d).toNat - n := by
  have hlt := (address - d).toNat_lt
  have hsub : address - (d + UInt32.ofNat n) = address - d - UInt32.ofNat n := by grind
  have hn : (UInt32.ofNat n).toNat = n := Nat.mod_eq_of_lt (by omega)
  rw [hsub, UInt32.toNat_sub, hn]
  omega

theorem toNat_sub_add_of_lt {address d : UInt32} {n : Nat} (h : (address - d).toNat < n)
    (hn : n < 2 ^ 32) :
    (address - (d + UInt32.ofNat n)).toNat = 2 ^ 32 + (address - d).toNat - n := by
  have hsub : address - (d + UInt32.ofNat n) = address - d - UInt32.ofNat n := by grind
  have hofNat : (UInt32.ofNat n).toNat = n := Nat.mod_eq_of_lt hn
  rw [hsub, UInt32.toNat_sub, hofNat]
  omega

theorem offset_add (d : UInt32) (i j : Nat) :
    d + UInt32.ofNat i + UInt32.ofNat j = d + UInt32.ofNat (i + j) := by
  rw [UInt32.ofNat_add, UInt32.add_assoc]

section
variable (mem : UInt32 → β) (d s : UInt32)

theorem fill_zero (f : Nat → β) : fill mem d 0 f = mem := by
  funext address
  exact if_neg (Nat.not_lt_zero _)

theorem fill_congr {n : Nat} {f g : Nat → β} (h : ∀ i, i < n → f i = g i) :
    fill mem d n f = fill mem d n g := by
  funext address
  unfold fill
  split
  · next hin => exact h _ hin
  · rfl

theorem fill_outside {n : Nat} (f : Nat → β) {address : UInt32} (h : n ≤ (address - d).toNat) :
    fill mem d n f address = mem address :=
  if_neg (by omega)

theorem fill_append {n k : Nat} (f : Nat → β) (h : n + k ≤ 2 ^ 32) :
    fill (fill mem d n f) (d + UInt32.ofNat n) k (fun i => f (n + i)) = fill mem d (n + k) f := by
  funext address
  have hlt := (address - d).toNat_lt
  unfold fill
  by_cases hin : (address - d).toNat < n
  · by_cases hk : k = 0
    · rw [hk, if_neg (Nat.not_lt_zero _), if_pos hin, if_pos (by omega)]
    · rw [toNat_sub_add_of_lt hin (by omega), if_neg (by omega), if_pos hin, if_pos (by omega)]
  · rw [toNat_sub_add (by omega)]
    by_cases hnext : (address - d).toNat < n + k
    · have hindex : n + ((address - d).toNat - n) = (address - d).toNat := by omega
      rw [if_pos (by omega), if_pos hnext]
      dsimp only
      rw [hindex]
    · rw [if_neg (by omega), if_neg hin, if_neg hnext]

theorem fill_prepend {n k : Nat} (f : Nat → β) (h : n + k ≤ 2 ^ 32) :
    fill (fill mem (d + UInt32.ofNat n) k fun i => f (n + i)) d n f = fill mem d (n + k) f := by
  rw [← fill_append mem d f h]
  funext address
  unfold fill
  by_cases hin : (address - d).toNat < n
  · by_cases hk : k = 0
    · rw [hk, if_pos hin, if_neg (Nat.not_lt_zero _), if_pos hin]
    · rw [if_pos hin, toNat_sub_add_of_lt hin (by omega), if_neg (by omega), if_pos hin]
  · rw [if_neg hin, if_neg hin]

theorem fill_offset {n : Nat} (f : Nat → β) (h : d.toNat + n ≤ 2 ^ 32) {i : Nat} (hi : i < n) :
    fill mem d n f (d + UInt32.ofNat i) = f i := by
  have hoffset := @toNat_offset d i (by omega)
  have hindex : (d + UInt32.ofNat i - d).toNat = i := by
    rw [UInt32.toNat_sub, hoffset]
    omega
  rw [fill, hindex, if_pos hi]

theorem fill_frame {n : Nat} (f : Nat → β) (h : d.toNat + n ≤ 2 ^ 32) {address : UInt32}
    (houtside : address.toNat < d.toNat ∨ d.toNat + n ≤ address.toNat) :
    fill mem d n f address = mem address := by
  apply fill_outside
  have hlt := address.toNat_lt
  rw [UInt32.toNat_sub]
  omega

theorem fill_one (f : Nat → β) : fill mem d 1 f = Function.update mem d (f 0) := by
  funext address
  rw [fill, Function.update_apply]
  by_cases h : address = d
  · rw [if_pos h, h, UInt32.sub_self, if_pos (by decide)]
    rfl
  · have hne : (address - d).toNat ≠ 0 := by
      intro hzero
      apply h
      have hsub : address - d = 0 := UInt32.toNat_inj.mp hzero
      grind
    rw [if_neg h, if_neg (by omega)]

theorem block_zero : block mem d s 0 = mem := fill_zero mem d _

theorem block_one : block mem d s 1 = Function.update mem d (mem s) := by
  rw [block, fill_one]
  congr 1
  exact congrArg mem (UInt32.add_zero s)

variable {d s}

theorem block_append {n k : Nat} (hd : d.toNat + (n + k) ≤ 2 ^ 32) (hs : s.toNat + (n + k) ≤ 2 ^ 32)
    (hsafe : d.toNat ≤ s.toNat ∨ s.toNat + (n + k) ≤ d.toNat) :
    block (block mem d s n) (d + UInt32.ofNat n) (s + UInt32.ofNat n) k = block mem d s (n + k) := by
  unfold block
  rw [← fill_append mem d _ (show n + k ≤ 2 ^ 32 by omega)]
  refine fill_congr _ _ fun i hi => ?_
  rw [offset_add]
  apply fill_outside
  have hsource := @toNat_offset s (n + i) (by omega)
  have hlt := d.toNat_lt
  rw [UInt32.toNat_sub, hsource]
  omega

theorem block_prepend {n k : Nat} (hd : d.toNat + (n + k) ≤ 2 ^ 32)
    (hs : s.toNat + (n + k) ≤ 2 ^ 32) (hsafe : s.toNat ≤ d.toNat) :
    block (block mem (d + UInt32.ofNat n) (s + UInt32.ofNat n) k) d s n = block mem d s (n + k) := by
  have hinner : block mem (d + UInt32.ofNat n) (s + UInt32.ofNat n) k =
      fill mem (d + UInt32.ofNat n) k fun i => mem (s + UInt32.ofNat (n + i)) := by
    unfold block
    refine fill_congr _ _ fun i _ => ?_
    rw [offset_add]
  have houter : block mem d s (n + k) =
      fill (fill mem (d + UInt32.ofNat n) k fun i => mem (s + UInt32.ofNat (n + i))) d n
        fun i => mem (s + UInt32.ofNat i) :=
    (fill_prepend mem d (fun i => mem (s + UInt32.ofNat i)) (by omega)).symm
  rw [hinner, houter]
  refine fill_congr _ _ fun i hi => ?_
  by_cases hk : k = 0
  · rw [hk, fill_zero]
  · apply fill_outside
    have hsource := @toNat_offset s i (by omega)
    have hdest := @toNat_offset d n (by omega)
    rw [UInt32.toNat_sub, hsource, hdest]
    omega

end

def blocksUp (w : Nat) (mem : UInt32 → β) (d s : UInt32) : Nat → UInt32 → β
  | 0 => mem
  | k + 1 => blocksUp w (block mem d s w) (d + UInt32.ofNat w) (s + UInt32.ofNat w) k

def blocksDown (w : Nat) (mem : UInt32 → β) (d s : UInt32) : Nat → UInt32 → β
  | 0 => mem
  | k + 1 =>
    blocksDown w (block mem (d + UInt32.ofNat (w * k)) (s + UInt32.ofNat (w * k)) w) d s k

def fillsUp (w : Nat) (f : Nat → β) (mem : UInt32 → β) (d : UInt32) : Nat → UInt32 → β
  | 0 => mem
  | k + 1 => fillsUp w f (fill mem d w f) (d + UInt32.ofNat w) k

theorem blocksUp_succ (w : Nat) (mem : UInt32 → β) (d s : UInt32) (k : Nat) :
    blocksUp w mem d s (k + 1) =
      block (blocksUp w mem d s k) (d + UInt32.ofNat (w * k)) (s + UInt32.ofNat (w * k)) w := by
  induction k generalizing mem d s with
  | zero => simp [blocksUp]
  | succ k ih =>
    rw [blocksUp, ih, offset_add, offset_add, Nat.mul_succ, Nat.add_comm (w * k)]
    rfl

theorem fillsUp_succ (w : Nat) (f : Nat → β) (mem : UInt32 → β) (d : UInt32) (k : Nat) :
    fillsUp w f mem d (k + 1) =
      fill (fillsUp w f mem d k) (d + UInt32.ofNat (w * k)) w f := by
  induction k generalizing mem d with
  | zero => simp [fillsUp]
  | succ k ih =>
    rw [fillsUp, ih, offset_add, Nat.mul_succ, Nat.add_comm (w * k)]
    rfl

theorem blocksUp_eq (w : Nat) (mem : UInt32 → β) {d s : UInt32} {k : Nat}
    (hd : d.toNat + w * k ≤ 2 ^ 32) (hs : s.toNat + w * k ≤ 2 ^ 32)
    (hsafe : d.toNat ≤ s.toNat ∨ s.toNat + w * k ≤ d.toNat) :
    blocksUp w mem d s k = block mem d s (w * k) := by
  induction k with
  | zero => exact (block_zero mem d s).symm
  | succ k ih =>
    rw [Nat.mul_succ] at hd hs hsafe ⊢
    rw [blocksUp_succ, ih (by omega) (by omega) (by omega), block_append mem hd hs hsafe]

theorem blocksDown_eq (w : Nat) (mem : UInt32 → β) {d s : UInt32} {k : Nat}
    (hd : d.toNat + w * k ≤ 2 ^ 32) (hs : s.toNat + w * k ≤ 2 ^ 32) (hsafe : s.toNat ≤ d.toNat) :
    blocksDown w mem d s k = block mem d s (w * k) := by
  induction k generalizing mem with
  | zero => exact (block_zero mem d s).symm
  | succ k ih =>
    rw [Nat.mul_succ] at hd hs ⊢
    rw [blocksDown, ih _ (by omega) (by omega), block_prepend mem hd hs hsafe]

theorem fillsUp_eq (w : Nat) (f : Nat → β) (mem : UInt32 → β) (d : UInt32) {k : Nat}
    (h : w * k ≤ 2 ^ 32) : fillsUp w f mem d k = fill mem d (w * k) fun i => f (i % w) := by
  induction k with
  | zero => exact (fill_zero mem d _).symm
  | succ k ih =>
    rw [Nat.mul_succ] at h ⊢
    rw [fillsUp_succ, ih (by omega), ← fill_append mem d (fun i => f (i % w)) h]
    refine fill_congr _ _ fun i hi => ?_
    rw [Nat.mul_add_mod, Nat.mod_eq_of_lt hi]

end JosKernel.General.Block
