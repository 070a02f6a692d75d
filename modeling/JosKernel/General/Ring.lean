/-! A ring of cells between two wrapping cursors, seen as the end of the stream
of all items ever pushed. The cursors tell how many items wait only up to the
size of the ring, so an overrun drops whole rings of items, and nothing else. -/
namespace JosKernel.General

structure Ring (α : Type) where
  cells : List α
  rpos : Nat
  wpos : Nat

namespace Ring

def advance (size pos : Nat) : Nat := if pos + 1 = size then 0 else pos + 1

theorem advance_lt {size pos : Nat} (h : pos < size) : advance size pos < size := by
  unfold advance
  split <;> omega

theorem advance_mod {size : Nat} (hsize : 0 < size) (count : Nat) :
    advance size (count % size) = (count + 1) % size := by
  have hlt := Nat.mod_lt count hsize
  unfold advance
  rw [Nat.add_mod]
  by_cases hone : size = 1
  · subst hone
    simp [Nat.mod_one]
  · rw [Nat.mod_eq_of_lt (show 1 < size by omega)]
    split
    · next hwrap => rw [hwrap, Nat.mod_self]
    · exact (Nat.mod_eq_of_lt (by omega)).symm

theorem mod_eq_pred_mod {size count : Nat} (hsize : 0 < size) (hcount : 0 < count)
    (hne : count % size ≠ 0) : count % size = (count - 1) % size + 1 := by
  have hsucc : count % size = advance size ((count - 1) % size) := by
    rw [advance_mod hsize]
    congr 1
    omega
  unfold advance at hsucc
  split at hsucc
  · exact absurd hsucc hne
  · exact hsucc

def push (item : α) (ring : Ring α) : Ring α :=
  ⟨ring.cells.set ring.wpos item, ring.rpos, advance ring.cells.length ring.wpos⟩

def pop (ring : Ring α) : Ring α :=
  ⟨ring.cells, advance ring.cells.length ring.rpos, ring.wpos⟩

/-- `stream` has been pushed and `read` items have been popped. Every cell
holds the latest item of its residue class. -/
structure Tracks (ring : Ring α) (stream : List α) (read : Nat) : Prop where
  room : 0 < ring.cells.length
  wpos : ring.wpos = stream.length % ring.cells.length
  rpos : ring.rpos = read % ring.cells.length
  le : read ≤ stream.length
  latest : ∀ i, i < stream.length → stream.length ≤ i + ring.cells.length →
    ring.cells[i % ring.cells.length]? = stream[i]?

def backlog (size : Nat) (stream : List α) (read : Nat) : Nat :=
  (stream.length - read) % size

def waiting (size : Nat) (stream : List α) (read : Nat) : List α :=
  stream.drop (stream.length - backlog size stream read)

theorem backlog_le (size : Nat) (stream : List α) (read : Nat) :
    backlog size stream read ≤ stream.length - read :=
  Nat.mod_le _ _

theorem length_waiting (size : Nat) (stream : List α) (read : Nat) :
    (waiting size stream read).length = backlog size stream read := by
  have hle := backlog_le size stream read
  unfold waiting
  rw [List.length_drop]
  omega

theorem eq_of_mod_eq {size i j : Nat} (hle : i ≤ j) (hlt : j < i + size)
    (hmod : i % size = j % size) : i = j := by
  have hzero : (j - i) % size = 0 := Nat.sub_mod_eq_zero_of_mod_eq hmod.symm
  rw [Nat.mod_eq_of_lt (by omega)] at hzero
  omega

theorem Tracks.empty {cells : List α} (hroom : 0 < cells.length) :
    Tracks ⟨cells, 0, 0⟩ [] 0 where
  room := hroom
  wpos := (Nat.zero_mod _).symm
  rpos := (Nat.zero_mod _).symm
  le := Nat.le_refl 0
  latest := by
    intro i hi
    cases hi

section
variable {ring : Ring α} {stream : List α} {read : Nat}

theorem Tracks.rpos_lt (h : Tracks ring stream read) : ring.rpos < ring.cells.length := by
  rw [h.rpos]
  exact Nat.mod_lt _ h.room

theorem Tracks.wpos_lt (h : Tracks ring stream read) : ring.wpos < ring.cells.length := by
  rw [h.wpos]
  exact Nat.mod_lt _ h.room

theorem Tracks.push (h : Tracks ring stream read) (item : α) :
    Tracks (ring.push item) (stream ++ [item]) read := by
  have hsize : (ring.push item).cells.length = ring.cells.length := List.length_set
  refine ⟨hsize ▸ h.room, ?_, hsize ▸ h.rpos, ?_, ?_⟩
  · rw [hsize, List.length_append, List.length_singleton, ← advance_mod h.room, ← h.wpos]
    rfl
  · rw [List.length_append]
    exact Nat.le_add_right_of_le h.le
  · intro i hi hlate
    rw [hsize] at hlate ⊢
    rw [List.length_append, List.length_singleton] at hi hlate
    unfold Ring.push
    dsimp only
    by_cases hnew : i = stream.length
    · subst hnew
      rw [← h.wpos, List.getElem?_set_self h.wpos_lt, List.getElem?_concat_length]
    · have hne : ring.wpos ≠ i % ring.cells.length := by
        rw [h.wpos]
        intro hmod
        exact hnew (eq_of_mod_eq (by omega) (by omega) hmod.symm)
      rw [List.getElem?_set_ne hne, h.latest i (by omega) (by omega),
        List.getElem?_append_left (by omega)]

theorem Tracks.meet_iff (h : Tracks ring stream read) :
    ring.rpos = ring.wpos ↔ backlog ring.cells.length stream read = 0 := by
  rw [h.rpos, h.wpos]
  unfold backlog
  constructor
  · intro hmod
    exact Nat.sub_mod_eq_zero_of_mod_eq hmod.symm
  · intro hzero
    obtain ⟨count, hcount⟩ := Nat.dvd_of_mod_eq_zero hzero
    have hstream : stream.length = read + ring.cells.length * count := by
      have := h.le
      omega
    rw [hstream, Nat.add_mul_mod_self_left]

theorem Tracks.front (h : Tracks ring stream read) :
    ring.rpos = (stream.length - backlog ring.cells.length stream read) % ring.cells.length := by
  have hdiv := Nat.div_add_mod (stream.length - read) ring.cells.length
  have hle := h.le
  have hfront : stream.length - backlog ring.cells.length stream read =
      read + ring.cells.length * ((stream.length - read) / ring.cells.length) := by
    unfold backlog
    omega
  rw [hfront, Nat.add_mul_mod_self_left, h.rpos]

theorem Tracks.pop (h : Tracks ring stream read) (hne : ring.rpos ≠ ring.wpos) :
    Tracks ring.pop stream (read + 1) ∧
    ∃ item, ring.cells[ring.rpos]? = some item ∧
      waiting ring.cells.length stream read =
        item :: waiting ring.cells.length stream (read + 1) ∧
      backlog ring.cells.length stream read = backlog ring.cells.length stream (read + 1) + 1 := by
  have hsome : backlog ring.cells.length stream read ≠ 0 := fun hzero => hne (h.meet_iff.mpr hzero)
  have hle := backlog_le ring.cells.length stream read
  have hlt : backlog ring.cells.length stream read < ring.cells.length := Nat.mod_lt _ h.room
  have hread := h.le
  have hbacklog : backlog ring.cells.length stream read =
      backlog ring.cells.length stream (read + 1) + 1 := by
    unfold backlog at hsome ⊢
    rw [← Nat.sub_sub]
    refine mod_eq_pred_mod h.room ?_ hsome
    apply Nat.pos_of_ne_zero
    intro hzero
    rw [hzero] at hsome
    exact hsome (Nat.zero_mod _)
  obtain ⟨item, hitem⟩ : ∃ item,
      stream[stream.length - backlog ring.cells.length stream read]? = some item :=
    ⟨_, List.getElem?_eq_getElem (by omega)⟩
  refine ⟨⟨h.room, h.wpos, ?_, by omega, h.latest⟩, item, ?_, ?_, hbacklog⟩
  · unfold Ring.pop
    dsimp only
    rw [h.rpos, advance_mod h.room]
  · rw [h.front, h.latest _ (by omega) (by omega), hitem]
  · unfold waiting
    rw [List.drop_eq_getElem?_toList_append, hitem]
    have hnext : stream.length - backlog ring.cells.length stream read + 1 =
        stream.length - backlog ring.cells.length stream (read + 1) := by omega
    rw [hnext]
    rfl

end

/-- What has been popped, next to what has been pushed: the popped items are a
subsequence of those pushed before the waiting ones, and all of them while less
than a ring of items is outstanding. -/
structure Serves (ring : Ring α) (stream taken : List α) : Prop where
  tracks : Tracks ring stream taken.length
  sublist : taken.Sublist (stream.take (stream.length - backlog ring.cells.length stream taken.length))
  exact : stream.length < taken.length + ring.cells.length → taken = stream.take taken.length

theorem Serves.empty {cells : List α} (hroom : 0 < cells.length) : Serves ⟨cells, 0, 0⟩ [] [] where
  tracks := Tracks.empty hroom
  sublist := List.nil_sublist _
  exact := fun _ => rfl

section
variable {ring : Ring α} {stream taken : List α}

theorem backlog_push_le {read : Nat} (h : Tracks ring stream read) (item : α) :
    backlog ring.cells.length (stream ++ [item]) read ≤ backlog ring.cells.length stream read + 1 := by
  have hle := h.le
  unfold backlog
  rw [List.length_append, List.length_singleton, Nat.sub_add_comm hle, ← advance_mod h.room]
  unfold advance
  split
  · exact Nat.zero_le _
  · exact Nat.le_refl _

theorem Serves.push (h : Serves ring stream taken) (item : α) :
    Serves (ring.push item) (stream ++ [item]) taken := by
  have hsize : (ring.push item).cells.length = ring.cells.length := List.length_set
  refine ⟨h.tracks.push item, ?_, ?_⟩
  · have hhidden := backlog_push_le h.tracks item
    have hkept := h.sublist
    rw [← @List.take_append_of_le_length _ _ [item] _ (Nat.sub_le _ _)] at hkept
    refine hkept.trans (List.take_sublist_take_left ?_)
    rw [hsize, List.length_append, List.length_singleton]
    omega
  · intro hlt
    rw [hsize, List.length_append, List.length_singleton] at hlt
    rw [List.take_append_of_le_length h.tracks.le]
    exact h.exact (by omega)

theorem Serves.pop (h : Serves ring stream taken) (hne : ring.rpos ≠ ring.wpos) :
    ∃ item, ring.cells[ring.rpos]? = some item ∧ Serves ring.pop stream (taken ++ [item]) ∧
      waiting ring.cells.length stream taken.length =
        item :: waiting ring.cells.length stream (taken ++ [item]).length := by
  obtain ⟨htracks, item, hcell, hwaiting, hbacklog⟩ := h.tracks.pop hne
  have hlength : (taken ++ [item]).length = taken.length + 1 := by simp
  have hle := backlog_le ring.cells.length stream taken.length
  have hitem : stream[stream.length - backlog ring.cells.length stream taken.length]? = some item := by
    have hhead := congrArg List.head? hwaiting
    rw [waiting, List.head?_drop] at hhead
    exact hhead
  refine ⟨item, hcell, ⟨hlength ▸ htracks, ?_, ?_⟩, hlength ▸ hwaiting⟩
  · have hsplit : stream.length - backlog ring.cells.length stream (taken.length + 1) =
        stream.length - backlog ring.cells.length stream taken.length + 1 := by omega
    rw [hlength]
    change (taken ++ [item]).Sublist
      (stream.take (stream.length - backlog ring.cells.length stream (taken.length + 1)))
    rw [hsplit, List.take_add_one, hitem]
    exact h.sublist.append (List.Sublist.refl _)
  · intro hlt
    change stream.length < (taken ++ [item]).length + ring.cells.length at hlt
    rw [hlength] at hlt ⊢
    have hread := htracks.le
    have hless : stream.length - taken.length < ring.cells.length := by
      apply Nat.lt_of_le_of_ne (by omega)
      intro hfull
      apply hne
      rw [h.tracks.meet_iff, backlog, hfull, Nat.mod_self]
    have hall : backlog ring.cells.length stream taken.length = stream.length - taken.length :=
      Nat.mod_eq_of_lt hless
    have hnext : stream.length - (stream.length - taken.length) = taken.length := by omega
    rw [hall, hnext] at hitem
    rw [List.take_add_one, hitem, ← h.exact (by omega)]
    rfl

theorem Serves.sublist_stream (h : Serves ring stream taken) : taken.Sublist stream :=
  h.sublist.trans (List.take_sublist _ _)

theorem Serves.complete_iff (h : Serves ring stream taken) :
    taken ++ waiting ring.cells.length stream taken.length = stream ↔
      stream.length < taken.length + ring.cells.length := by
  have hread := h.tracks.le
  constructor
  · intro hcomplete
    have hlength := congrArg List.length hcomplete
    have hlt : backlog ring.cells.length stream taken.length < ring.cells.length :=
      Nat.mod_lt _ h.tracks.room
    rw [List.length_append, length_waiting] at hlength
    omega
  · intro hlt
    have hall : backlog ring.cells.length stream taken.length = stream.length - taken.length :=
      Nat.mod_eq_of_lt (by omega)
    have hnext : stream.length - (stream.length - taken.length) = taken.length := by omega
    rw [waiting, hall, hnext]
    calc
      taken ++ stream.drop taken.length =
          stream.take taken.length ++ stream.drop taken.length := by rw [← h.exact hlt]
      _ = stream := List.take_append_drop _ _

end
end Ring
end JosKernel.General
