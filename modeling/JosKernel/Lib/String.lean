import JosKernel.Inc.Types

/-! `lib/string.c`: moving memory within an object, and finding a character of a
string. The loops that move are those of the portable build, on an object of
cells of one size. -/
namespace JosKernel.Lib
open JosKernel.Inc

def moveUp (object : List α) (d s : Nat) : Nat → Except Fault (List α)
  | 0 => .ok object
  | n + 1 => do
    let cell ← load object s
    let object ← store object d cell
    moveUp object (d + 1) (s + 1) n

def moveDown (object : List α) (d s : Nat) : Nat → Except Fault (List α)
  | 0 => .ok object
  | n + 1 => do
    let cell ← load object (s + n)
    let object ← store object (d + n) cell
    moveDown object d s n

def memmove (object : List α) (dst src n : Nat) : Except Fault (List α) :=
  if src < dst ∧ src + n > dst then moveDown object dst src n else moveUp object dst src n

theorem moveUp_eq {object : List α} {d s n : Nat} (hdown : d ≤ s) (hfit : s + n ≤ object.length) :
    ∃ moved, moveUp object d s n = .ok moved ∧ moved.length = object.length ∧
      ∀ i, moved[i]? = if d ≤ i ∧ i < d + n then object[i - d + s]? else object[i]? := by
  induction n generalizing object d s with
  | zero =>
    refine ⟨object, rfl, rfl, fun i => ?_⟩
    rw [if_neg (by omega)]
  | succ n ih =>
    have hs : s < object.length := by omega
    have hd : d < object.length := by omega
    have hlength : (object.set d object[s]).length = object.length := List.length_set
    obtain ⟨moved, hmove, hsize, hcells⟩ := ih (Nat.succ_le_succ hdown)
      (show s + 1 + n ≤ (object.set d object[s]).length by omega)
    refine ⟨moved, ?_, hsize.trans hlength, fun i => ?_⟩
    · simp only [moveUp, load_eq (List.getElem?_eq_getElem hs), store_eq hd, bind, Except.bind]
      exact hmove
    · rw [hcells i]
      by_cases hi : i = d
      · subst hi
        rw [if_neg (by omega), if_pos (by omega), List.getElem?_set_self hd, Nat.sub_self,
          Nat.zero_add, List.getElem?_eq_getElem hs]
      · by_cases hin : d ≤ i ∧ i < d + (n + 1)
        · have hindex : i - (d + 1) + (s + 1) = i - d + s := by omega
          rw [if_pos hin, if_pos (by omega), hindex, List.getElem?_set_ne (by omega)]
        · rw [if_neg hin, if_neg (by omega), List.getElem?_set_ne (Ne.symm hi)]

theorem memmove_eq (object : List α) (dst src n : Nat) (hdown : dst ≤ src)
    (hfit : src + n ≤ object.length) :
    ∃ moved, memmove object dst src n = .ok moved ∧ moved.length = object.length ∧
      ∀ i, moved[i]? = if dst ≤ i ∧ i < dst + n then object[i - dst + src]? else object[i]? := by
  rw [memmove, if_neg (by omega)]
  exact moveUp_eq hdown hfit

/-- How far from its start `strfind` finds a character or the end of a string. -/
def strfind : List UInt8 → UInt8 → Except Fault Nat
  | [], _ => .error .badAccess
  | byte :: s, c => if byte = 0 ∨ byte = c then .ok 0 else do return (← strfind s c) + 1

theorem strfind_eq {s : List UInt8} (h : Terminated s) (c : UInt8) :
    strfind s c = .ok (s.takeWhile fun byte => byte ≠ 0 ∧ byte ≠ c).length := by
  induction s with
  | nil => cases h
  | cons byte s ih =>
    unfold strfind
    by_cases hstop : byte = 0 ∨ byte = c
    · have hnot : ¬(byte ≠ 0 ∧ byte ≠ c) := by grind
      rw [if_pos hstop, List.takeWhile_cons_of_neg (by simpa using hnot)]
      rfl
    · have hgo : byte ≠ 0 ∧ byte ≠ c := by grind
      have hs := h.tail hgo.1
      rw [if_neg hstop, ih hs, List.takeWhile_cons_of_pos (by simpa using hgo)]
      rfl

def strchr : List UInt8 → UInt8 → Except Fault (Option Nat)
  | [], _ => .error .badAccess
  | byte :: s, c =>
    if byte = 0 then .ok none
    else if byte = c then .ok (some 0)
    else do
      let found ← strchr s c
      return found.map (· + 1)

theorem strchr_isSome {s : List UInt8} (h : Terminated s) (c : UInt8) :
    ∃ found, strchr s c = .ok found ∧ (found.isSome ↔ c ∈ s.takeWhile (· ≠ 0)) := by
  induction s with
  | nil => cases h
  | cons byte s ih =>
    unfold strchr
    by_cases hend : byte = 0
    · rw [if_pos hend, List.takeWhile_cons_of_neg (by simpa using hend)]
      exact ⟨none, rfl, by simp⟩
    rw [if_neg hend, List.takeWhile_cons_of_pos (by simpa using hend)]
    by_cases hfound : byte = c
    · rw [if_pos hfound]
      exact ⟨some 0, rfl, by simp [hfound]⟩
    · obtain ⟨found, hrun, hiff⟩ := ih (h.tail hend)
      rw [if_neg hfound, hrun]
      refine ⟨found.map (· + 1), rfl, ?_⟩
      rw [Option.isSome_map, hiff, List.mem_cons]
      exact ⟨Or.inr, fun hmem => hmem.resolve_left fun heq => hfound heq.symm⟩

def strcmp : List UInt8 → List UInt8 → Except Fault Int
  | byte :: p, other :: q =>
    if byte ≠ 0 ∧ byte = other then strcmp p q else .ok (byte.toNat - other.toNat)
  | _, _ => .error .badAccess

theorem strcmp_ok {p q : List UInt8} (hp : Terminated p) (hq : Terminated q) :
    ∃ result, strcmp p q = .ok result := by
  induction p generalizing q with
  | nil => cases hp
  | cons byte p ih =>
    cases q with
    | nil => cases hq
    | cons other q =>
      unfold strcmp
      by_cases hgo : byte ≠ 0 ∧ byte = other
      · have hother : other ≠ 0 := hgo.2 ▸ hgo.1
        rw [if_pos hgo]
        exact ih (hp.tail hgo.1) (hq.tail hother)
      · rw [if_neg hgo]
        exact ⟨_, rfl⟩

end JosKernel.Lib
