import JosKernel.Lib.Conversions

/-! `strncpy` and `strlcpy` of `lib/string.c`, between two objects that do not
overlap. -/
namespace JosKernel.Lib
open JosKernel.Inc

section
variable (src : List UInt8)

/-- The loop of `strncpy`, which stays on the NUL of `src` once it is there. -/
def strncpyFrom (dst : List UInt8) (d s : Nat) : Nat → Except Fault (List UInt8)
  | 0 => .ok dst
  | size + 1 => do
    let byte ← load src s
    let dst ← store dst d byte
    -- If strlen(src) < size, null-pad 'dst' out to 'size' chars
    strncpyFrom dst (d + 1) (if byte ≠ 0 then s + 1 else s) size

/-- `while (--size > 0 && *src != '\0') *dst++ = *src++;`, after the decrement:
the object and the place behind the copied bytes. -/
def strlcpyFrom (dst : List UInt8) (d s : Nat) : Nat → Except Fault (List UInt8 × Nat)
  | 0 => .ok (dst, d)
  | size + 1 => do
    let byte ← load src s
    if byte ≠ 0 then do
      let dst ← store dst d byte
      strlcpyFrom dst (d + 1) (s + 1) size
    else return (dst, d)

end

def strncpy (dst src : List UInt8) (size : Nat) : Except Fault (List UInt8) :=
  strncpyFrom src dst 0 0 size

def strlcpy (dst src : List UInt8) (size : Nat) : Except Fault (List UInt8 × Nat) :=
  if 0 < size then do
    let (dst, d) ← strlcpyFrom src dst 0 0 (size - 1)
    let dst ← store dst d 0
    return (dst, d)
  else .ok (dst, 0)

section
variable (after : List UInt8)

theorem strncpyFrom_eq {text : List UInt8} (htext : ∀ byte ∈ text, byte ≠ 0)
    (before done : List UInt8) {rest : List UInt8} {size : Nat} (hsize : size ≤ rest.length) :
    strncpyFrom (before ++ text ++ 0 :: after) (done ++ rest) done.length before.length size =
      .ok (done ++ (text.take size ++ List.replicate (size - text.length) 0) ++ rest.drop size) := by
  induction size generalizing text before done rest with
  | zero => simp [strncpyFrom]
  | succ size ih =>
    cases rest with
    | nil => cases hsize
    | cons cell rest =>
      have hrest : size ≤ rest.length := Nat.le_of_succ_le_succ hsize
      unfold strncpyFrom
      cases text with
      | nil =>
        rw [List.append_nil, load_append]
        simp only [bind, Except.bind, store_append]
        have hnext := ih htext before (done ++ [0]) hrest
        simpa [List.replicate_succ] using hnext
      | cons byte text =>
        obtain ⟨hbyte, htext⟩ := List.forall_mem_cons.mp htext
        rw [List.append_assoc, List.cons_append, load_append]
        simp only [bind, Except.bind, store_append, if_pos hbyte]
        have hnext := ih htext (before ++ [byte]) (done ++ [byte]) hrest
        simpa using hnext

theorem strlcpyFrom_eq {text : List UInt8} (htext : ∀ byte ∈ text, byte ≠ 0)
    (before done : List UInt8) {rest : List UInt8} {size : Nat} (hsize : size ≤ rest.length) :
    strlcpyFrom (before ++ text ++ 0 :: after) (done ++ rest) done.length before.length size =
      .ok (done ++ text.take size ++ rest.drop (min text.length size),
        done.length + min text.length size) := by
  induction size generalizing text before done rest with
  | zero => simp [strlcpyFrom]
  | succ size ih =>
    cases rest with
    | nil => cases hsize
    | cons cell rest =>
      have hrest : size ≤ rest.length := Nat.le_of_succ_le_succ hsize
      unfold strlcpyFrom
      cases text with
      | nil =>
        rw [List.append_nil, load_append]
        simp [bind, Except.bind, pure, Except.pure]
      | cons byte text =>
        obtain ⟨hbyte, htext⟩ := List.forall_mem_cons.mp htext
        rw [List.append_assoc, List.cons_append, load_append]
        simp only [bind, Except.bind, store_append, if_pos hbyte]
        have hnext := ih htext (before ++ [byte]) (done ++ [byte]) hrest
        simpa [Nat.add_assoc, Nat.add_comm 1] using hnext

section
variable {text : List UInt8} (htext : ∀ byte ∈ text, byte ≠ 0) {dst : List UInt8} {size : Nat}
include htext

theorem strncpy_eq (hdst : size ≤ dst.length) :
    strncpy dst (text ++ 0 :: after) size =
      .ok (text.take size ++ List.replicate (size - text.length) 0 ++ dst.drop size) :=
  strncpyFrom_eq after htext [] [] hdst

theorem strlcpy_eq (hsize : 0 < size) (hdst : size ≤ dst.length) :
    strlcpy dst (text ++ 0 :: after) size =
      .ok (text.take (size - 1) ++ 0 :: dst.drop (min text.length (size - 1) + 1),
        min text.length (size - 1)) := by
  have hcopy : strlcpyFrom (text ++ 0 :: after) dst 0 0 (size - 1) =
      .ok (text.take (size - 1) ++ dst.drop (min text.length (size - 1)),
        min text.length (size - 1)) := by
    have hfrom := strlcpyFrom_eq after htext [] [] (show size - 1 ≤ dst.length by omega)
    simpa using hfrom
  have hlength : (text.take (size - 1)).length = min text.length (size - 1) := by
    rw [List.length_take, Nat.min_comm]
  have hstore : store (text.take (size - 1) ++ dst.drop (min text.length (size - 1)))
      (min text.length (size - 1)) 0 =
      .ok (text.take (size - 1) ++ 0 :: dst.drop (min text.length (size - 1) + 1)) := by
    have hlt : min text.length (size - 1) < dst.length := by omega
    have happend := store_append (text.take (size - 1)) dst[min text.length (size - 1)]
      (dst.drop (min text.length (size - 1) + 1)) 0
    rw [hlength] at happend
    rw [List.drop_eq_getElem_cons hlt]
    exact happend
  unfold strlcpy
  rw [if_pos hsize, hcopy]
  simp only [bind, Except.bind, hstore]
  rfl

end

end

/-- What the two functions do with a string, given room for `size` bytes. -/
structure BoundedCopies (dst src : List UInt8) (size : Nat) : Prop where
  strncpy_eq : strncpy dst src size =
    .ok ((stringAt src).take size ++ List.replicate (size - (stringAt src).length) 0 ++
      dst.drop size)
  strlcpy_eq : 0 < size → strlcpy dst src size =
    .ok ((stringAt src).take (size - 1) ++
        0 :: dst.drop (min (stringAt src).length (size - 1) + 1),
      min (stringAt src).length (size - 1))
  strlcpy_zero : size = 0 → strlcpy dst src size = .ok (dst, 0)
  /-- An object that ends with the NUL is enough. -/
  strncpy_reads : strncpy dst (stringAt src ++ [0]) size = strncpy dst src size
  strlcpy_reads : strlcpy dst (stringAt src ++ [0]) size = strlcpy dst src size
  agree : 0 < size → ∀ copied copied' r, strncpy dst src size = .ok copied →
    strlcpy dst src size = .ok (copied', r) → copied.take r = copied'.take r

/-- The destination may end behind its `size` bytes. -/
theorem boundedCopies (dst src : List UInt8) (size : Nat) (hsrc : Terminated src)
    (hdst : size ≤ dst.length) : BoundedCopies dst src size := by
  have htext := stringAt_ne_zero src
  obtain ⟨after, hafter⟩ := stringAt_append hsrc
  have hstrncpy : ∀ after, strncpy dst (stringAt src ++ 0 :: after) size =
      .ok ((stringAt src).take size ++ List.replicate (size - (stringAt src).length) 0 ++
        dst.drop size) := fun after => strncpy_eq after htext hdst
  have hstrlcpy : 0 < size → ∀ after, strlcpy dst (stringAt src ++ 0 :: after) size =
      .ok ((stringAt src).take (size - 1) ++
          0 :: dst.drop (min (stringAt src).length (size - 1) + 1),
        min (stringAt src).length (size - 1)) := fun hsize after => strlcpy_eq after htext hsize hdst
  have hsrc₁ := hstrncpy after
  have hsrc₂ := fun hsize => hstrlcpy hsize after
  rw [← hafter] at hsrc₁ hsrc₂
  refine ⟨hsrc₁, hsrc₂, ?_, (hstrncpy []).trans hsrc₁.symm, ?_, ?_⟩
  · rintro rfl
    rfl
  · by_cases hsize : 0 < size
    · exact (hstrlcpy hsize []).trans (hsrc₂ hsize).symm
    · rw [strlcpy, strlcpy, if_neg hsize, if_neg hsize]
  · intro hsize copied copied' r hcopied hcopied'
    cases hsrc₁.symm.trans hcopied
    cases (hsrc₂ hsize).symm.trans hcopied'
    have hlength : ((stringAt src).take size).length = min size (stringAt src).length :=
      List.length_take
    rw [List.append_assoc, List.take_append_of_le_length (by omega), List.take_take,
      List.take_append_of_le_length (by rw [List.length_take]; omega), List.take_take]
    congr 1
    omega

theorem boundedCopies_short : BoundedCopies [1, 2, 3, 4] [97, 98, 99, 0, 100] 3 :=
  boundedCopies [1, 2, 3, 4] [97, 98, 99, 0, 100] 3 (by decide) (by decide)

end JosKernel.Lib
