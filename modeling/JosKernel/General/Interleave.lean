import Mathlib.Data.List.Basic

/-! Two streams in one: every item comes from one of the two, and each of them
keeps its order. -/
namespace JosKernel.General

inductive Interleaves {α : Type} : List α → List α → List α → Prop where
  | nil : Interleaves [] [] []
  | left {left right merged : List α} (item : α) (h : Interleaves left right merged) :
      Interleaves (left ++ [item]) right (merged ++ [item])
  | right {left right merged : List α} (item : α) (h : Interleaves left right merged) :
      Interleaves left (right ++ [item]) (merged ++ [item])

namespace Interleaves
variable {α : Type} {left right merged : List α}

theorem append_left (h : Interleaves left right merged) (items : List α) :
    Interleaves (left ++ items) right (merged ++ items) := by
  induction items generalizing left merged with
  | nil => simpa using h
  | cons item items ih =>
    have hnext := ih (h.left item)
    rwa [List.append_assoc, List.append_assoc] at hnext

theorem append_right (h : Interleaves left right merged) (items : List α) :
    Interleaves left (right ++ items) (merged ++ items) := by
  induction items generalizing right merged with
  | nil => simpa using h
  | cons item items ih =>
    have hnext := ih (h.right item)
    rwa [List.append_assoc, List.append_assoc] at hnext

theorem sublist (h : Interleaves left right merged) : left.Sublist merged ∧ right.Sublist merged := by
  induction h with
  | nil => exact ⟨.slnil, .slnil⟩
  | left item h ih =>
    exact ⟨ih.1.append_right [item], ih.2.trans (List.sublist_append_left _ _)⟩
  | right item h ih =>
    exact ⟨ih.1.trans (List.sublist_append_left _ _), ih.2.append_right [item]⟩

end Interleaves

end JosKernel.General
