import JosKernel.General.Flags

/-! The paging half of `inc/mmu.h`, with `KERNBASE` of `inc/memlayout.h`, and the
walk that the processor makes through a page directory and a page table. -/
namespace JosKernel.Inc
open JosKernel.General

def kernbase : UInt32 := 0xF0000000

def pgsize : UInt32 := 4096
def npdentries : Nat := 1024
def nptentries : Nat := 1024

def ptxshift : UInt32 := 12
def pdxshift : UInt32 := 22

def pdx (la : UInt32) : UInt32 := (la >>> pdxshift) &&& 0x3FF

def ptx (la : UInt32) : UInt32 := (la >>> ptxshift) &&& 0x3FF

def pgoff (la : UInt32) : UInt32 := la &&& 0xFFF

def pteP : UInt32 := 0x001
def pteW : UInt32 := 0x002

def pteAddr (pte : UInt32) : UInt32 := pte &&& ~~~0xFFF

/-- The physical address of a linear one and whether it may be written, from a
memory of words; `none` where an entry is not present. -/
def walk (memory : UInt32 → UInt32) (cr3 la : UInt32) : Option (UInt32 × Bool) :=
  let pde := memory (pteAddr cr3 + 4 * pdx la)
  if pde &&& pteP = 0 then none
  else
    let pte := memory (pteAddr pde + 4 * ptx la)
    if pte &&& pteP = 0 then none
    else some (pteAddr pte ||| pgoff la, decide (pde &&& pteW ≠ 0) && decide (pte &&& pteW ≠ 0))

theorem pdx_toNat (la : UInt32) : (pdx la).toNat = la.toNat / 2 ^ 22 := by
  have hla := la.toNat_lt
  have hshift : (la >>> pdxshift).toNat = la.toNat / 2 ^ 22 :=
    toNat_shiftRight_of_lt la (by decide)
  rw [pdx, @toNat_and_low 0x3FF 10 rfl, hshift]
  omega

theorem ptx_toNat (la : UInt32) : (ptx la).toNat = la.toNat / 2 ^ 12 % 2 ^ 10 := by
  have hshift : (la >>> ptxshift).toNat = la.toNat / 2 ^ 12 :=
    toNat_shiftRight_of_lt la (by decide)
  rw [ptx, @toNat_and_low 0x3FF 10 rfl, hshift]

theorem pgoff_toNat (la : UInt32) : (pgoff la).toNat = la.toNat % 2 ^ 12 :=
  toNat_and_low rfl la

theorem pteAddr_toNat (pte : UInt32) : (pteAddr pte).toNat = pte.toNat / 2 ^ 12 * 2 ^ 12 :=
  toNat_and_not_low rfl pte

theorem pteAddr_or_pgoff_toNat (pte la : UInt32) :
    (pteAddr pte ||| pgoff la).toNat = pte.toNat / 2 ^ 12 * 2 ^ 12 + la.toNat % 2 ^ 12 := by
  rw [UInt32.toNat_or, pteAddr_toNat, pgoff_toNat, Nat.mul_comm,
    Nat.two_pow_add_eq_or_of_lt (Nat.mod_lt _ (by decide))]

theorem present_iff (entry : UInt32) : entry &&& pteP ≠ 0 ↔ entry.toNat % 2 = 1 := by
  have h := @and_mask_ne_zero 0 (by decide) entry
  rw [flag_eq_true, Nat.pow_zero, Nat.div_one] at h
  exact h

theorem writable_iff (entry : UInt32) : entry &&& pteW ≠ 0 ↔ entry.toNat / 2 % 2 = 1 := by
  have h := @and_mask_ne_zero 1 (by decide) entry
  rw [flag_eq_true, Nat.pow_one] at h
  exact h

end JosKernel.Inc
