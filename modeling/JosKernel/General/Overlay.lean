/-! Memory under a list of pieces, each of which writes some of the addresses:
the last piece over an address decides what it holds. -/
namespace JosKernel.General

/-- How pieces `ι` write values `β` to addresses `α`. -/
structure Pieces (ι α β : Type) where
  covers : ι → α → Bool
  value : ι → α → β

namespace Pieces
variable {ι α β : Type} (pieces : Pieces ι α β)

def write (memory : α → β) (piece : ι) : α → β := fun address =>
  if pieces.covers piece address then pieces.value piece address else memory address

def top (list : List ι) (address : α) : Option ι :=
  (list.filter (pieces.covers · address)).getLast?

theorem foldl_write (list : List ι) (memory : α → β) (address : α) :
    list.foldl pieces.write memory address =
      ((pieces.top list address).map (pieces.value · address)).getD (memory address) := by
  induction list generalizing memory with
  | nil => rfl
  | cons piece list ih =>
    rw [List.foldl_cons, ih]
    unfold top write
    rw [List.filter_cons]
    by_cases hcovers : pieces.covers piece address
    · rw [if_pos hcovers, if_pos hcovers, List.getLast?_cons]
      cases (list.filter (pieces.covers · address)).getLast? <;> rfl
    · rw [if_neg hcovers, if_neg hcovers]

theorem top_isSome {list : List ι} {address : α} {piece : ι} (hmem : piece ∈ list)
    (hcovers : pieces.covers piece address) : ∃ last, pieces.top list address = some last := by
  have hne : list.filter (pieces.covers · address) ≠ [] :=
    List.ne_nil_of_mem (List.mem_filter.mpr ⟨hmem, hcovers⟩)
  exact ⟨_, List.getLast?_eq_some_getLast hne⟩

theorem of_top {list : List ι} {address : α} {last : ι} (h : pieces.top list address = some last) :
    last ∈ list ∧ pieces.covers last address :=
  List.mem_filter.mp (List.mem_of_getLast? h)

end Pieces
end JosKernel.General
