import Mathlib.Logic.Function.Iterate
import JosKernel.General.Block

/-! The string instructions of the x86: `movs` and `stos` with a `rep` prefix,
under the direction flag. -/
namespace JosKernel.General.StringInstructions
open Block

/-- What the string instructions read and write. An element of `w` bytes is
loaded as a whole before it is stored. -/
structure Cpu where
  mem : UInt32 → UInt8
  /-- The direction flag is set. -/
  df : Bool
  eax : UInt32
  ecx : UInt32
  esi : UInt32
  edi : UInt32

def Cpu.cld (cpu : Cpu) : Cpu := { cpu with df := false }
def Cpu.std (cpu : Cpu) : Cpu := { cpu with df := true }

def Cpu.advance (cpu : Cpu) (w : Nat) (index : UInt32) : UInt32 :=
  if cpu.df then index - UInt32.ofNat w else index + UInt32.ofNat w

def registerByte (register : UInt32) (i : Nat) : UInt8 := (register >>> UInt32.ofNat (8 * i)).toUInt8

def Cpu.movs (w : Nat) (cpu : Cpu) : Cpu :=
  { cpu with
    mem := block cpu.mem cpu.edi cpu.esi w
    esi := cpu.advance w cpu.esi
    edi := cpu.advance w cpu.edi }

def Cpu.stos (w : Nat) (cpu : Cpu) : Cpu :=
  { cpu with
    mem := fill cpu.mem cpu.edi w (registerByte cpu.eax)
    edi := cpu.advance w cpu.edi }

def Cpu.repRound (instruction : Cpu → Cpu) (cpu : Cpu) : Cpu :=
  { instruction cpu with ecx := cpu.ecx - 1 }

/-- `%ecx` counts the rounds that are left. -/
def Cpu.rep (instruction : Cpu → Cpu) (cpu : Cpu) : Cpu :=
  Nat.iterate (Cpu.repRound instruction) cpu.ecx.toNat cpu

/-- `rep` as it is specified: a loop that ends when `%ecx` is 0. -/
theorem Cpu.rep_eq (instruction : Cpu → Cpu) (cpu : Cpu) :
    cpu.rep instruction =
      if cpu.ecx = 0 then cpu else (cpu.repRound instruction).rep instruction := by
  unfold Cpu.rep
  by_cases hzero : cpu.ecx = 0
  · rw [if_pos hzero, hzero]
    rfl
  · have hne : cpu.ecx.toNat ≠ 0 := fun h => hzero (UInt32.toNat_inj.mp h)
    have hlt := cpu.ecx.toNat_lt
    have hnext : (cpu.repRound instruction).ecx.toNat = cpu.ecx.toNat - 1 := by
      change (cpu.ecx - 1).toNat = _
      rw [UInt32.toNat_sub]
      change (2 ^ 32 - 1 + cpu.ecx.toNat) % 2 ^ 32 = _
      omega
    rw [if_neg hzero, hnext]
    obtain ⟨n, hn⟩ : ∃ n, cpu.ecx.toNat = n + 1 := ⟨cpu.ecx.toNat - 1, by omega⟩
    rw [hn]
    rfl

theorem Cpu.rep_df {instruction : Cpu → Cpu} (h : ∀ cpu, (instruction cpu).df = cpu.df)
    (cpu : Cpu) : (cpu.rep instruction).df = cpu.df := by
  unfold Cpu.rep
  generalize cpu.ecx.toNat = n
  induction n generalizing cpu with
  | zero => rfl
  | succ n ih =>
    rw [Function.iterate_succ_apply, ih]
    exact h cpu

theorem rep_movs_df (w : Nat) (cpu : Cpu) : (cpu.rep (Cpu.movs w)).df = cpu.df :=
  @Cpu.rep_df (Cpu.movs w) (fun _ => rfl) cpu

theorem iterate_movs_up (w n : Nat) (cpu : Cpu) (hdf : cpu.df = false) :
    (Nat.iterate (Cpu.repRound (Cpu.movs w)) n cpu).mem =
      blocksUp w cpu.mem cpu.edi cpu.esi n := by
  induction n generalizing cpu with
  | zero => rfl
  | succ n ih =>
    have hround : cpu.repRound (Cpu.movs w) = { cpu with
        mem := block cpu.mem cpu.edi cpu.esi w, ecx := cpu.ecx - 1
        esi := cpu.esi + UInt32.ofNat w, edi := cpu.edi + UInt32.ofNat w } := by
      simp [Cpu.repRound, Cpu.movs, Cpu.advance, hdf]
    rw [Function.iterate_succ_apply, hround, blocksUp]
    exact ih _ hdf

theorem iterate_movs_down (w n : Nat) (cpu : Cpu) (hdf : cpu.df = true) {d s : UInt32}
    (hedi : cpu.edi + UInt32.ofNat w = d + UInt32.ofNat (w * n))
    (hesi : cpu.esi + UInt32.ofNat w = s + UInt32.ofNat (w * n)) :
    (Nat.iterate (Cpu.repRound (Cpu.movs w)) n cpu).mem = blocksDown w cpu.mem d s n := by
  induction n generalizing cpu with
  | zero => rfl
  | succ n ih =>
    rw [Nat.mul_succ, ← offset_add] at hedi hesi
    have hedi' : cpu.edi = d + UInt32.ofNat (w * n) := by grind
    have hesi' : cpu.esi = s + UInt32.ofNat (w * n) := by grind
    have hround : cpu.repRound (Cpu.movs w) = { cpu with
        mem := block cpu.mem cpu.edi cpu.esi w, ecx := cpu.ecx - 1
        esi := cpu.esi - UInt32.ofNat w, edi := cpu.edi - UInt32.ofNat w } := by
      simp [Cpu.repRound, Cpu.movs, Cpu.advance, hdf]
    rw [Function.iterate_succ_apply, hround, blocksDown, ← hedi', ← hesi']
    exact ih _ hdf (by grind) (by grind)

theorem iterate_stos_up (w n : Nat) (cpu : Cpu) (hdf : cpu.df = false) :
    (Nat.iterate (Cpu.repRound (Cpu.stos w)) n cpu).mem =
      fillsUp w (registerByte cpu.eax) cpu.mem cpu.edi n := by
  induction n generalizing cpu with
  | zero => rfl
  | succ n ih =>
    have hround : cpu.repRound (Cpu.stos w) = { cpu with
        mem := fill cpu.mem cpu.edi w (registerByte cpu.eax), ecx := cpu.ecx - 1
        edi := cpu.edi + UInt32.ofNat w } := by
      simp [Cpu.repRound, Cpu.stos, Cpu.advance, hdf]
    rw [Function.iterate_succ_apply, hround, fillsUp]
    exact ih _ hdf

section
variable (w : Nat) (cpu : Cpu)

theorem rep_movs_up (hdf : cpu.df = false) {n : Nat} (hn : w * cpu.ecx.toNat = n)
    (hd : cpu.edi.toNat + n ≤ 2 ^ 32) (hs : cpu.esi.toNat + n ≤ 2 ^ 32)
    (hsafe : cpu.edi.toNat ≤ cpu.esi.toNat ∨ cpu.esi.toNat + n ≤ cpu.edi.toNat) :
    (cpu.rep (Cpu.movs w)).mem = block cpu.mem cpu.edi cpu.esi n := by
  subst hn
  exact (iterate_movs_up w _ cpu hdf).trans (blocksUp_eq w cpu.mem hd hs hsafe)

theorem rep_movs_down (hdf : cpu.df = true) {d s : UInt32} {n : Nat}
    (hn : w * cpu.ecx.toNat = n) (hedi : cpu.edi + UInt32.ofNat w = d + UInt32.ofNat n)
    (hesi : cpu.esi + UInt32.ofNat w = s + UInt32.ofNat n) (hd : d.toNat + n ≤ 2 ^ 32)
    (hs : s.toNat + n ≤ 2 ^ 32) (hsafe : s.toNat ≤ d.toNat) :
    (cpu.rep (Cpu.movs w)).mem = block cpu.mem d s n := by
  subst hn
  exact (iterate_movs_down w _ cpu hdf hedi hesi).trans (blocksDown_eq w cpu.mem hd hs hsafe)

theorem rep_stos_up (hdf : cpu.df = false) {n : Nat} (hn : w * cpu.ecx.toNat = n)
    (h : n ≤ 2 ^ 32) :
    (cpu.rep (Cpu.stos w)).mem =
      fill cpu.mem cpu.edi n fun i => registerByte cpu.eax (i % w) := by
  subst hn
  exact (iterate_stos_up w _ cpu hdf).trans (fillsUp_eq w _ cpu.mem cpu.edi h)

end

end JosKernel.General.StringInstructions
