/-! Output through a callback. A program that only ever touches its sink by
putting one item after another cannot tell one sink from another, so its effect
on any sink is that of feeding it the list the program collects. -/
namespace JosKernel.General.Sink

def feed (put : α → σ → σ) (sink : σ) (items : List α) : σ :=
  items.foldl (fun sink item => put item sink) sink

@[simp] theorem feed_nil (put : α → σ → σ) (sink : σ) : feed put sink [] = sink := rfl

@[simp] theorem feed_cons (put : α → σ → σ) (sink : σ) (item : α) (items : List α) :
    feed put sink (item :: items) = feed put (put item sink) items := rfl

theorem feed_append (put : α → σ → σ) (sink : σ) (left right : List α) :
    feed put sink (left ++ right) = feed put (feed put sink left) right :=
  List.foldl_append

def collect (item : α) (items : List α) : List α := items ++ [item]

def Hom (put : α → σ → σ) (put' : α → τ → τ) (h : σ → τ) : Prop :=
  ∀ item sink, put' item (h sink) = h (put item sink)

theorem feed_hom (put : α → σ → σ) (sink : σ) : Hom collect put (feed put sink) := by
  intro item items
  rw [collect, feed_append]
  rfl

theorem append_hom (before : List α) : Hom collect collect (before ++ ·) := by
  intro item items
  simp only [collect, List.append_assoc]

/-- A sink with room for `capacity` items: it keeps the first ones and counts
them all. -/
structure Bounded (α : Type) where
  kept : List α
  count : Nat

def Bounded.empty : Bounded α := ⟨[], 0⟩

def Bounded.put (capacity : Nat) (item : α) (sink : Bounded α) : Bounded α :=
  ⟨if sink.kept.length < capacity then sink.kept ++ [item] else sink.kept, sink.count + 1⟩

theorem Bounded.feed_eq (capacity : Nat) (items : List α) (sink : Bounded α)
    (hroom : sink.kept.length ≤ capacity) :
    feed (Bounded.put capacity) sink items =
      ⟨sink.kept ++ items.take (capacity - sink.kept.length), sink.count + items.length⟩ := by
  induction items generalizing sink with
  | nil => simp
  | cons item items ih =>
    rw [feed_cons]
    by_cases hlt : sink.kept.length < capacity
    · have hput : Bounded.put capacity item sink = ⟨sink.kept ++ [item], sink.count + 1⟩ := by
        simp [Bounded.put, hlt]
      have hsub : capacity - sink.kept.length = capacity - (sink.kept.length + 1) + 1 := by omega
      rw [hput, ih _ (by simp; omega), hsub, List.take_succ_cons]
      simp
      omega
    · have hfull : capacity - sink.kept.length = 0 := by omega
      have hput : Bounded.put capacity item sink = ⟨sink.kept, sink.count + 1⟩ := by
        simp [Bounded.put, hlt]
      rw [hput, ih ⟨sink.kept, sink.count + 1⟩ hroom]
      simp only [hfull, List.take_zero]
      simp
      omega

theorem Bounded.feed_empty (capacity : Nat) (items : List α) :
    feed (Bounded.put capacity) Bounded.empty items = ⟨items.take capacity, items.length⟩ := by
  rw [Bounded.feed_eq capacity items Bounded.empty (Nat.zero_le _)]
  simp [Bounded.empty]

/-- Every sink can be replaced by one that simulates it. -/
theorem feed_simulates {put : α → σ → σ} {put' : α → τ → τ} (R : σ → τ → Prop)
    (step : ∀ item sink sink', R sink sink' → R (put item sink) (put' item sink'))
    (items : List α) (sink : σ) (sink' : τ) (h : R sink sink') :
    R (feed put sink items) (feed put' sink' items) := by
  induction items generalizing sink sink' with
  | nil => exact h
  | cons item items ih => exact ih _ _ (step item sink sink' h)

end JosKernel.General.Sink
