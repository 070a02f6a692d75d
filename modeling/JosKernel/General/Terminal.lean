/-! A terminal: a screen of cells with a cursor that is always on it. -/
namespace JosKernel.General

structure Terminal (rows cols : Nat) (α : Type) where
  screen : Fin rows → Fin cols → α
  row : Fin rows
  col : Fin cols

namespace Terminal
variable {rows cols : Nat} {α : Type}

def mark (cell : α) (t : Terminal rows cols α) : Terminal rows cols α :=
  { t with screen := fun r c => if r = t.row ∧ c = t.col then cell else t.screen r c }

def scroll (blank : α) (screen : Fin rows → Fin cols → α) : Fin rows → Fin cols → α := fun r c =>
  if h : r.val + 1 < rows then screen ⟨r.val + 1, h⟩ c else blank

def carriageReturn (t : Terminal rows cols α) : Terminal rows cols α :=
  { t with col := ⟨0, Nat.zero_lt_of_lt t.col.isLt⟩ }

/-- To the first column of the next row; the screen scrolls under the last row. -/
def newline (blank : α) (t : Terminal rows cols α) : Terminal rows cols α :=
  if h : t.row.val + 1 < rows then { t.carriageReturn with row := ⟨t.row.val + 1, h⟩ }
  else { t.carriageReturn with screen := scroll blank t.screen }

def advance (blank : α) (t : Terminal rows cols α) : Terminal rows cols α :=
  if h : t.col.val + 1 < cols then { t with col := ⟨t.col.val + 1, h⟩ } else t.newline blank

def put (blank cell : α) (t : Terminal rows cols α) : Terminal rows cols α :=
  (t.mark cell).advance blank

def backspace (blank : α) (t : Terminal rows cols α) : Terminal rows cols α :=
  if 0 < t.col.val then mark blank { t with col := ⟨t.col.val - 1, by have := t.col.isLt; omega⟩ }
  else if 0 < t.row.val then
    mark blank { t with
      row := ⟨t.row.val - 1, by have := t.row.isLt; omega⟩
      col := ⟨cols - 1, by have := t.col.isLt; omega⟩ }
  else t

def place (t : Terminal rows cols α) : Nat := t.row.val * cols + t.col.val

theorem index_lt (r : Fin rows) (c : Fin cols) : r.val * cols + c.val < rows * cols := by
  have hrow : (r.val + 1) * cols ≤ rows * cols := Nat.mul_le_mul_right cols r.isLt
  have hcol := c.isLt
  rw [Nat.succ_mul] at hrow
  omega

theorem index_inj {r r' : Fin rows} {c c' : Fin cols} :
    r.val * cols + c.val = r'.val * cols + c'.val ↔ r = r' ∧ c = c' := by
  constructor
  · intro h
    have hrow : r.val = r'.val := by
      have hdiv := congrArg (· / cols) h
      rw [Nat.mul_comm, Nat.mul_comm r'.val, Nat.mul_add_div (Nat.zero_lt_of_lt c.isLt),
        Nat.mul_add_div (Nat.zero_lt_of_lt c.isLt), Nat.div_eq_of_lt c.isLt,
        Nat.div_eq_of_lt c'.isLt] at hdiv
      exact hdiv
    rw [hrow] at h
    exact ⟨Fin.ext hrow, Fin.ext (Nat.add_left_cancel h)⟩
  · rintro ⟨rfl, rfl⟩
    rfl

theorem place_lt (t : Terminal rows cols α) : t.place < rows * cols := index_lt t.row t.col

/-- The cursor has been moved on to place `p`, past the last place at most,
where the screen scrolls. -/
def Settled (blank : α) (screen : Fin rows → Fin cols → α) (p : Nat) (t : Terminal rows cols α) :
    Prop :=
  p < rows * cols ∧ t.screen = screen ∧ t.place = p ∨
    p = rows * cols ∧ t.screen = scroll blank screen ∧ t.place + cols = rows * cols

theorem settled_newline (blank : α) (t : Terminal rows cols α) :
    Settled blank t.screen ((t.row.val + 1) * cols) (t.newline blank) := by
  have hcol := Nat.zero_lt_of_lt t.col.isLt
  have hrow := t.row.isLt
  unfold newline
  by_cases h : t.row.val + 1 < rows
  · rw [dif_pos h]
    exact Or.inl ⟨Nat.mul_lt_mul_of_pos_right h hcol, rfl, rfl⟩
  · rw [dif_neg h]
    have hlast : (t.row.val + 1) * cols = rows * cols := by
      congr 1
      omega
    refine Or.inr ⟨hlast, rfl, hlast.symm ▸ ?_⟩
    rw [Nat.succ_mul]
    rfl

theorem settled_advance (blank : α) (t : Terminal rows cols α) :
    Settled blank t.screen (t.place + 1) (t.advance blank) := by
  unfold advance
  by_cases h : t.col.val + 1 < cols
  · rw [dif_pos h]
    exact Or.inl ⟨index_lt t.row ⟨t.col.val + 1, h⟩, rfl, rfl⟩
  · rw [dif_neg h]
    have hcol := t.col.isLt
    have hnext : t.place + 1 = (t.row.val + 1) * cols := by
      rw [place, Nat.succ_mul]
      omega
    rw [hnext]
    exact settled_newline blank t

theorem place_carriageReturn (t : Terminal rows cols α) :
    t.carriageReturn.place = t.place - t.place % cols := by
  have hcol : t.place % cols = t.col.val := by
    rw [place, Nat.mul_comm, Nat.mul_add_mod, Nat.mod_eq_of_lt t.col.isLt]
  rw [hcol]
  exact (Nat.add_sub_cancel ..).symm

theorem backspace_first {t : Terminal rows cols α} (h : t.place = 0) (blank : α) :
    t.backspace blank = t := by
  have hcol := t.col.isLt
  have hzero : t.row.val * cols = 0 ∧ t.col.val = 0 := Nat.add_eq_zero_iff.mp h
  have hrow : t.row.val = 0 := (Nat.mul_eq_zero.mp hzero.1).resolve_right (by omega)
  rw [backspace, if_neg (by omega), if_neg (by omega)]

theorem backspace_back {t : Terminal rows cols α} (h : 0 < t.place) (blank : α) :
    ∃ back : Terminal rows cols α, back.screen = t.screen ∧ back.place + 1 = t.place ∧
      t.backspace blank = back.mark blank := by
  unfold backspace
  have hcols := t.col.isLt
  by_cases hcol : 0 < t.col.val
  · rw [if_pos hcol]
    refine ⟨{ t with col := ⟨t.col.val - 1, by omega⟩ }, rfl, ?_, rfl⟩
    unfold place
    dsimp only
    omega
  · have hrow : 0 < t.row.val := by
      apply Nat.pos_of_ne_zero
      intro hzero
      rw [place, hzero, Nat.zero_mul] at h
      omega
    have hprev : (t.row.val - 1 + 1) * cols = t.row.val * cols := by rw [Nat.sub_add_cancel hrow]
    rw [Nat.succ_mul] at hprev
    have hlast := t.row.isLt
    rw [if_neg hcol, if_pos hrow]
    refine ⟨⟨t.screen, ⟨t.row.val - 1, by omega⟩, ⟨cols - 1, by omega⟩⟩, rfl, ?_, rfl⟩
    unfold place
    dsimp only
    omega

structure Flat (cells : List α) (screen : Fin rows → Fin cols → α) : Prop where
  size : cells.length = rows * cols
  cell : ∀ r c, cells[r.val * cols + c.val]? = some (screen r c)

theorem Flat.of_size {cells : List α} (hsize : cells.length = rows * cols) :
    ∃ screen : Fin rows → Fin cols → α, Flat cells screen := by
  have hlt : ∀ (r : Fin rows) (c : Fin cols), r.val * cols + c.val < cells.length := fun r c =>
    hsize ▸ index_lt r c
  exact ⟨fun r c => cells.get ⟨_, hlt r c⟩, hsize, fun r c => List.getElem?_eq_getElem (hlt r c)⟩

theorem Flat.mark {cells : List α} {t : Terminal rows cols α} (h : Flat cells t.screen) (cell : α) :
    Flat (cells.set t.place cell) (t.mark cell).screen := by
  refine ⟨List.length_set.trans h.size, fun r c => ?_⟩
  unfold Terminal.mark
  dsimp only
  by_cases hhere : r = t.row ∧ c = t.col
  · rw [if_pos hhere, hhere.1, hhere.2]
    exact List.getElem?_set_self (h.size ▸ t.place_lt)
  · rw [if_neg hhere, ← h.cell r c]
    exact List.getElem?_set_ne fun heq => hhere (index_inj.mp heq.symm)

theorem Flat.scroll {cells cells' : List α} {screen : Fin rows → Fin cols → α} {blank : α}
    (h : Flat cells screen) (hsize : cells'.length = cells.length)
    (hmoved : ∀ i, i + cols < rows * cols → cells'[i]? = cells[i + cols]?)
    (hblank : ∀ i, i < rows * cols → rows * cols ≤ i + cols → cells'[i]? = some blank) :
    Flat cells' (scroll blank screen) := by
  refine ⟨hsize.trans h.size, fun r c => ?_⟩
  have hcol := c.isLt
  unfold Terminal.scroll
  by_cases hnext : r.val + 1 < rows
  · have hbelow := index_lt ⟨r.val + 1, hnext⟩ c
    have hindex : r.val * cols + c.val + cols = (r.val + 1) * cols + c.val := by
      rw [Nat.succ_mul]
      omega
    rw [dif_pos hnext, hmoved _ (hindex ▸ hbelow), hindex]
    exact h.cell ⟨r.val + 1, hnext⟩ c
  · have hlast : (r.val + 1) * cols = rows * cols := by
      have hrow := r.isLt
      congr 1
      omega
    rw [Nat.succ_mul] at hlast
    rw [dif_neg hnext]
    exact hblank _ (index_lt r c) (by omega)

structure Ends (line : List α) (t : Terminal rows cols α) : Prop where
  fits : line.length ≤ t.place
  cell : ∀ (r : Fin rows) (c : Fin cols) (k : Nat) (a : α), (line)[k]? = some a →
    r.val * cols + c.val + line.length = t.place + k → t.screen r c = a

theorem Ends.nil (t : Terminal rows cols α) : Ends [] t where
  fits := Nat.zero_le _
  cell := by
    intro r c k a hk
    cases hk

theorem Ends.mark {line : List α} {cell : α} {t : Terminal rows cols α} (h : Ends line t)
    (r : Fin rows) (c : Fin cols) (k : Nat) (a : α) (hk : (line ++ [cell])[k]? = some a)
    (hindex : r.val * cols + c.val + line.length = t.place + k) :
    (t.mark cell).screen r c = a := by
  have hbound : k < (line ++ [cell]).length := (List.getElem?_eq_some_iff.mp hk).1
  rw [List.length_append, List.length_singleton] at hbound
  unfold Terminal.mark
  dsimp only
  by_cases hlast : k = line.length
  · rw [hlast, List.getElem?_concat_length] at hk
    cases hk
    rw [if_pos (index_inj.mp (show _ = t.place by omega))]
  · rw [List.getElem?_append_left (by omega)] at hk
    rw [if_neg]
    · exact h.cell r c k a hk hindex
    · intro hhere
      have hplace : r.val * cols + c.val = t.place := index_inj.mpr hhere
      omega

theorem Ends.put {line : List α} {t : Terminal rows cols α} (h : Ends line t) (blank cell : α)
    (hroom : line.length + 1 + cols ≤ rows * cols) : Ends (line ++ [cell]) (t.put blank cell) := by
  have hfits := h.fits
  have hlength : (line ++ [cell]).length = line.length + 1 := List.length_append
  rcases settled_advance blank (t.mark cell) with ⟨-, hscreen, hplace⟩ | ⟨hend, hscreen, hplace⟩
  · have hplace' : (t.put blank cell).place = t.place + 1 := hplace
    constructor
    · omega
    · intro r c k a hk hindex
      rw [Terminal.put, hscreen]
      exact h.mark r c k a hk (by omega)
  · have hplace' : (t.put blank cell).place + cols = rows * cols := hplace
    have hend' : t.place + 1 = rows * cols := hend
    constructor
    · omega
    · intro r c k a hk hindex
      have hbound := (List.getElem?_eq_some_iff.mp hk).1
      have hnext : r.val + 1 < rows := by
        apply Nat.lt_of_not_le
        intro hlast
        have hrows : (rows - 1) * cols ≤ r.val * cols := Nat.mul_le_mul_right cols (by omega)
        rw [Nat.sub_mul, Nat.one_mul] at hrows
        omega
      rw [Terminal.put, hscreen, Terminal.scroll, dif_pos hnext]
      refine h.mark ⟨r.val + 1, hnext⟩ c k a hk ?_
      dsimp only
      rw [Nat.succ_mul]
      omega

theorem Ends.backspace {line : List α} {cell : α} {t : Terminal rows cols α}
    (h : Ends (line ++ [cell]) t) (blank : α) :
    Ends line (t.backspace blank) ∧
      (t.backspace blank).screen (t.backspace blank).row (t.backspace blank).col = blank := by
  have hfits := h.fits
  have hlength : (line ++ [cell]).length = line.length + 1 := List.length_append
  obtain ⟨back, hscreen, hplace, heq⟩ := backspace_back (by omega : 0 < t.place) blank
  rw [heq]
  refine ⟨⟨?_, fun r c k a hk hindex => ?_⟩, if_pos ⟨rfl, rfl⟩⟩
  · change line.length ≤ back.place
    omega
  · have hbound := (List.getElem?_eq_some_iff.mp hk).1
    have hindex' : r.val * cols + c.val + line.length = back.place + k := hindex
    unfold Terminal.mark
    dsimp only
    rw [if_neg, hscreen]
    · refine h.cell r c k a ?_ (by omega)
      rw [List.getElem?_append_left hbound]
      exact hk
    · intro hhere
      have hplace : r.val * cols + c.val = back.place := index_inj.mpr hhere
      omega

end Terminal
end JosKernel.General
