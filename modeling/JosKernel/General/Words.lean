/-! The words of a text: its maximal runs of items that are not separators. -/
namespace JosKernel.General

def words (sep : α → Bool) (text : List α) : List (List α) :=
  (text.splitOnP sep).filter (!·.isEmpty)

variable {sep : α → Bool}

@[simp] theorem words_nil : words sep [] = [] := by
  simp [words, List.splitOnP_nil]

theorem words_cons_sep {a : α} (h : sep a) (text : List α) :
    words sep (a :: text) = words sep text := by
  simp [words, List.splitOnP_cons_eq_if_modifyHead, h]

theorem words_seps {gap : List α} (h : ∀ a ∈ gap, sep a) (text : List α) :
    words sep (gap ++ text) = words sep text := by
  induction gap with
  | nil => rfl
  | cons a gap ih =>
    obtain ⟨ha, hgap⟩ := List.forall_mem_cons.mp h
    rw [List.cons_append, words_cons_sep ha, ih hgap]

theorem words_run {run : List α} (hne : run ≠ []) (h : ∀ a ∈ run, sep a = false) {text : List α}
    (hend : ∀ a ∈ text.head?, sep a) : words sep (run ++ text) = run :: words sep text := by
  have hrun : run.isEmpty = false := List.isEmpty_eq_false_iff.mpr hne
  cases text with
  | nil =>
    rw [List.append_nil, words_nil, words, List.splitOnP_eq_singleton h]
    simp [hrun]
  | cons a text =>
    have ha : sep a := hend a rfl
    rw [words_cons_sep ha, words, words, List.splitOnP_append_cons_of_forall_mem h a ha]
    simp [hrun]

theorem leading (kind : α → Bool) (text : List α) :
    ∃ run rest, text = run ++ rest ∧ (∀ a ∈ run, kind a = true) ∧ ∀ a ∈ rest.head?, kind a = false := by
  induction text with
  | nil => exact ⟨[], [], rfl, by simp⟩
  | cons a text ih =>
    cases hkind : kind a with
    | false =>
      refine ⟨[], a :: text, rfl, by simp, ?_⟩
      intro b hb
      cases hb
      exact hkind
    | true =>
      obtain ⟨run, rest, rfl, hrun, hrest⟩ := ih
      exact ⟨a :: run, rest, rfl, List.forall_mem_cons.mpr ⟨hkind, hrun⟩, hrest⟩

end JosKernel.General
