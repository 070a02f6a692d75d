import Mathlib.Data.List.Induction

/-! Histories of keys that are pressed and released. A class of keys that share
one light shows the latest stroke of any of them, which is not always whether
one of them is held. -/
namespace JosKernel.General

inductive Stroke (κ : Type) where
  | press (key : κ)
  | release (key : κ)
  deriving DecidableEq, Repr

namespace Stroke

def key : Stroke κ → κ
  | press key | release key => key

def isPress : Stroke κ → Bool
  | press _ => true
  | release _ => false

def down (among : κ → Bool) (strokes : List (Stroke κ)) : Bool :=
  ((strokes.filter fun stroke => among stroke.key).getLast?.map isPress).getD false

section
variable (among : κ → Bool)

@[simp] theorem down_nil : down among [] = false := rfl

theorem down_snoc (strokes : List (Stroke κ)) (stroke : Stroke κ) :
    down among (strokes ++ [stroke]) =
      if among stroke.key then stroke.isPress else down among strokes := by
  unfold down
  cases hamong : among stroke.key <;> simp [List.filter_append, hamong]

end

def Releases (allowed : List (Stroke κ) → κ → Prop) (strokes : List (Stroke κ)) : Prop :=
  ∀ before key, before ++ [release key] <+: strokes → allowed before key

section
variable {allowed : List (Stroke κ) → κ → Prop} {strokes : List (Stroke κ)} {stroke : Stroke κ}

theorem Releases.nil : Releases allowed [] := by
  intro before key h
  simp at h

theorem Releases.snoc (h : Releases allowed strokes)
    (hlast : ∀ key, stroke = release key → allowed strokes key) :
    Releases allowed (strokes ++ [stroke]) := by
  intro before key hinitial
  rcases List.prefix_concat_iff.mp hinitial with heq | hbefore
  · obtain ⟨rfl, hrelease⟩ := List.append_inj' heq rfl
    exact hlast key (List.cons.inj hrelease).1.symm
  · exact h before key hbefore

theorem Releases.of_snoc (h : Releases allowed (strokes ++ [stroke])) :
    Releases allowed strokes := by
  intro before key hinitial
  exact h before key (hinitial.trans (List.prefix_append strokes [stroke]))

end

variable [DecidableEq κ]

def Held (key : κ) (strokes : List (Stroke κ)) : Prop := down (fun k => k = key) strokes = true

instance (key : κ) (strokes : List (Stroke κ)) : Decidable (Held key strokes) :=
  inferInstanceAs (Decidable (_ = true))

theorem held_snoc (key : κ) (strokes : List (Stroke κ)) (stroke : Stroke κ) :
    Held key (strokes ++ [stroke]) ↔
      if stroke.key = key then stroke.isPress = true else Held key strokes := by
  unfold Held
  rw [down_snoc]
  by_cases h : stroke.key = key <;> simp [h]

theorem held_press (key other : κ) (strokes : List (Stroke κ)) :
    Held key (strokes ++ [press other]) ↔ other = key ∨ Held key strokes := by
  rw [held_snoc]
  by_cases h : other = key <;> simp [Stroke.key, isPress, h]

theorem held_release (key other : κ) (strokes : List (Stroke κ)) :
    Held key (strokes ++ [release other]) ↔ other ≠ key ∧ Held key strokes := by
  rw [held_snoc]
  by_cases h : other = key <;> simp [Stroke.key, isPress, h]

/-- Only held keys are released. A held key may be pressed again, as keys that
repeat are. -/
def Physical (strokes : List (Stroke κ)) : Prop :=
  Releases (fun before key => Held key before) strokes

theorem Physical.press {strokes : List (Stroke κ)} (h : Physical strokes) (key : κ) :
    Physical (strokes ++ [Stroke.press key]) :=
  Releases.snoc h fun _ hrelease => by cases hrelease

theorem Physical.release {strokes : List (Stroke κ)} (h : Physical strokes) {key : κ}
    (hheld : Held key strokes) : Physical (strokes ++ [Stroke.release key]) := by
  apply Releases.snoc h
  intro other hrelease
  cases hrelease
  exact hheld

def ReleasedAlone (among : κ → Bool) (strokes : List (Stroke κ)) : Prop :=
  Releases (fun before key => among key = true →
    ∀ other, among other = true → Held other before → other = key) strokes

theorem exists_held_of_down {among : κ → Bool} {strokes : List (Stroke κ)}
    (h : down among strokes = true) : ∃ key, among key = true ∧ Held key strokes := by
  induction strokes using List.reverseRecOn with
  | nil => cases h
  | append_singleton strokes stroke ih =>
    rw [down_snoc] at h
    by_cases hamong : among stroke.key = true
    · rw [if_pos hamong] at h
      exact ⟨stroke.key, hamong, (held_snoc _ _ _).mpr (by rw [if_pos rfl]; exact h)⟩
    · rw [if_neg hamong] at h
      obtain ⟨key, hkey, hheld⟩ := ih h
      have hne : stroke.key ≠ key := by
        rintro rfl
        exact hamong hkey
      exact ⟨key, hkey, (held_snoc _ _ _).mpr (by rw [if_neg hne]; exact hheld)⟩

theorem down_of_held {among : κ → Bool} {strokes : List (Stroke κ)}
    (halone : ReleasedAlone among strokes) {key : κ} (hkey : among key = true)
    (hheld : Held key strokes) : down among strokes = true := by
  induction strokes using List.reverseRecOn with
  | nil => cases hheld
  | append_singleton strokes stroke ih =>
    rw [held_snoc] at hheld
    rw [down_snoc]
    by_cases hsame : stroke.key = key
    · rw [if_pos hsame] at hheld
      rw [hsame, if_pos hkey]
      exact hheld
    · rw [if_neg hsame] at hheld
      by_cases hamong : among stroke.key = true
      · rw [if_pos hamong]
        cases stroke with
        | press _ => rfl
        | release other =>
          have hother := halone strokes other (List.prefix_refl _) hamong key hkey hheld
          exact absurd hother.symm hsame
      · rw [if_neg hamong]
        exact ih (Releases.of_snoc halone) hheld

/-- Where no key of a class is released while another one is held, the class
shows a press exactly while one of its keys is held. -/
theorem down_iff_exists_held {among : κ → Bool} {strokes : List (Stroke κ)}
    (halone : ReleasedAlone among strokes) :
    down among strokes = true ↔ ∃ key, among key = true ∧ Held key strokes := by
  constructor
  · exact exists_held_of_down
  · rintro ⟨key, hkey, hheld⟩
    exact down_of_held halone hkey hheld

theorem down_eq_false {among : κ → Bool} {strokes : List (Stroke κ)}
    (h : ∀ key, among key = true → ¬Held key strokes) : down among strokes = false := by
  cases hdown : down among strokes with
  | false => rfl
  | true =>
    obtain ⟨key, hkey, hheld⟩ := exists_held_of_down hdown
    exact absurd hheld (h key hkey)

end Stroke

end JosKernel.General
