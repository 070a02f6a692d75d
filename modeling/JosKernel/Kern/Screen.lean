import JosKernel.General.Flags
import JosKernel.Kern.ConsoleOutput

/-! The CGA screen is a terminal of 25 rows and 80 columns. -/
namespace JosKernel.Kern
open JosKernel.Inc JosKernel.Lib JosKernel.General Terminal

abbrev Crt : Type := Terminal 25 80 UInt16

def blankOf (c : UInt32) : UInt16 := ((withAttribute c &&& ~~~0xFF) ||| 0x20).toUInt16

def typed (t : Crt) (c : UInt32) : Crt :=
  if c.toUInt8 = 0x08 then t.backspace (blankOf c)
  else if c.toUInt8 = 0x0a then t.newline blankCell
  else if c.toUInt8 = 0x0d then t.carriageReturn
  else if c.toUInt8 = 0x09 then
    ((((t.put blankCell blankCell).put blankCell blankCell).put blankCell blankCell).put
      blankCell blankCell).put blankCell blankCell
  else t.put blankCell (withAttribute c).toUInt16

structure Crtc where
  index : UInt8
  high : UInt8
  low : UInt8

def Crtc.write (addr : UInt32) (crtc : Crtc) (out : UInt16 × UInt8) : Crtc :=
  if out.1 = addr.toUInt16 then { crtc with index := out.2 }
  else if out.1 = (addr + 1).toUInt16 then
    if crtc.index = 14 then { crtc with high := out.2 }
    else if crtc.index = 15 then { crtc with low := out.2 }
    else crtc
  else crtc

def Crtc.cursor (crtc : Crtc) : Nat := crtc.high.toNat * 256 + crtc.low.toNat

/-- Whatever the 6845 held before, its cursor is where the screen has it. -/
def Programmed (s : Console) : Prop :=
  ∀ crtc : Crtc, (s.ports.outs.foldl (Crtc.write s.addr6845) crtc).cursor = s.crtPos.toNat

structure Shows (s : Console) (t : Crt) : Prop where
  flat : Flat s.crtBuf t.screen
  pos : s.crtPos.toNat = t.place

theorem Shows.pos_lt {s : Console} {t : Crt} (h : Shows s t) : s.crtPos.toNat < s.crtBuf.length := by
  rw [h.pos, h.flat.size]
  exact t.place_lt

theorem foldl_cursor (addr : UInt32) (crtc : Crtc) (high low : UInt8) :
    ([(addr.toUInt16, 14), ((addr + 1).toUInt16, high), (addr.toUInt16, 15),
      ((addr + 1).toUInt16, low)].foldl (Crtc.write addr) crtc) = ⟨15, high, low⟩ := by
  have hdata : ¬(addr + 1).toUInt16 = addr.toUInt16 := by
    have hone : UInt32.toUInt16 1 = 1 := rfl
    rw [UInt32.toUInt16_add, hone]
    grind
  simp only [List.foldl_cons, List.foldl_nil, Crtc.write, hdata, if_true, if_false]
  rfl

theorem programmed_moveCursor (s : Console) : Programmed (moveCursor s) := by
  intro crtc
  have hshift : (s.crtPos >>> 8).toNat = s.crtPos.toNat / 256 := by
    rw [UInt16.toNat_shiftRight]
    exact Nat.shiftRight_eq_div_pow _ 8
  have hlt := s.crtPos.toNat_lt
  rw [moveCursor_outs, List.foldl_append]
  change (List.foldl (Crtc.write s.addr6845) _ _).cursor = s.crtPos.toNat
  rw [foldl_cursor, Crtc.cursor, UInt16.toNat_toUInt8, UInt16.toNat_toUInt8, hshift]
  omega

theorem blankCells_eq (crtBuf : List UInt16) (i left : Nat) (hfit : i + left ≤ crtBuf.length) :
    ∃ blanked, blankCells crtBuf i left = .ok blanked ∧ blanked.length = crtBuf.length ∧
      ∀ k, blanked[k]? = if i ≤ k ∧ k < i + left then some blankCell else crtBuf[k]? := by
  induction left generalizing crtBuf i with
  | zero =>
    refine ⟨crtBuf, rfl, rfl, fun k => ?_⟩
    rw [if_neg (by omega)]
  | succ left ih =>
    have hi : i < crtBuf.length := by omega
    have hlength : (crtBuf.set i blankCell).length = crtBuf.length := List.length_set
    obtain ⟨blanked, hrun, hsize, hcells⟩ :=
      ih (crtBuf.set i blankCell) (i + 1) (by omega)
    refine ⟨blanked, ?_, hsize.trans hlength, fun k => ?_⟩
    · simp only [blankCells, store_eq hi, bind, Except.bind]
      exact hrun
    · rw [hcells k]
      by_cases hk : k = i
      · subst hk
        rw [if_neg (by omega), if_pos (by omega), List.getElem?_set_self hi]
      · rw [List.getElem?_set_ne (Ne.symm hk)]
        by_cases hin : i ≤ k ∧ k < i + (left + 1)
        · rw [if_pos hin, if_pos (by omega)]
        · rw [if_neg hin, if_neg (by omega)]

theorem scrollUp_settled {s : Console} {screen : Fin 25 → Fin 80 → UInt16} {t : Crt}
    (hflat : Flat s.crtBuf screen) (hsettled : Settled blankCell screen s.crtPos.toNat t) :
    ∃ s', scrollUp s = .ok s' ∧ Shows s' t := by
  unfold scrollUp
  rcases hsettled with ⟨hlt, hscreen, hplace⟩ | ⟨hend, hscreen, hplace⟩
  · refine ⟨s, if_neg (Nat.not_le_of_lt hlt), hscreen ▸ hflat, hplace.symm⟩
  · have hsize : s.crtBuf.length = 2000 := hflat.size
    obtain ⟨moved, hmove, hmovedSize, hmoved⟩ :=
      memmove_eq s.crtBuf 0 crtCols (crtSize - crtCols) (Nat.zero_le _) (hsize ▸ Nat.le_refl 2000)
    obtain ⟨blanked, hblank, hblankedSize, hblanked⟩ :=
      blankCells_eq moved (crtSize - crtCols) crtCols (by rw [hmovedSize, hsize]; decide)
    have hleft : s.crtPos.toNat ≥ crtSize := Nat.le_of_eq hend.symm
    rw [if_pos hleft, hmove]
    simp only [bind, Except.bind, hblank]
    refine ⟨_, rfl, ?_, ?_⟩
    · rw [hscreen]
      refine hflat.scroll (hblankedSize.trans hmovedSize) (fun i hi => ?_) fun i hi hlast => ?_
      · rw [hblanked, hmoved, if_neg (by change ¬(1920 ≤ i ∧ _); omega),
          if_pos (by change 0 ≤ i ∧ i < 0 + 1920; omega)]
        rfl
      · rw [hblanked, if_pos (by change 1920 ≤ i ∧ i < 2000; omega)]
    · have hpos : s.crtPos.toNat = 2000 := hend
      change (s.crtPos - 80).toNat = t.place
      rw [UInt16.toNat_sub_of_le _ _ (by rw [UInt16.le_iff_toNat_le, hpos]; decide), hpos]
      exact (Nat.eq_sub_of_add_eq hplace).symm

theorem key_eq (c : UInt32) : withAttribute c &&& 0xFF = c.toUInt8.toUInt32 := by
  have hlow : ∀ x : UInt32, (x &&& 0xFF).toNat = x.toNat % 2 ^ 8 := @toNat_and_low 0xFF 8 rfl
  apply UInt32.toNat_inj.mp
  rw [hlow, UInt8.toNat_toUInt32, UInt32.toNat_toUInt8]
  unfold withAttribute
  split
  · rw [UInt32.toNat_or, Nat.or_mod_two_pow]
    exact Nat.or_zero _
  · rfl

theorem toUInt32_eq_iff (key code : UInt8) : key.toUInt32 = code.toUInt32 ↔ key = code := by
  rw [← UInt32.toNat_inj, ← UInt8.toNat_inj, UInt8.toNat_toUInt32, UInt8.toNat_toUInt32]

theorem key_tests (c : UInt32) :
    (withAttribute c &&& 0xFF = 0x08 ↔ c.toUInt8 = 0x08) ∧
      (withAttribute c &&& 0xFF = 0x0a ↔ c.toUInt8 = 0x0a) ∧
      (withAttribute c &&& 0xFF = 0x0d ↔ c.toUInt8 = 0x0d) ∧
      (withAttribute c &&& 0xFF = 0x09 ↔ c.toUInt8 = 0x09) := by
  rw [key_eq]
  exact ⟨toUInt32_eq_iff _ 0x08, toUInt32_eq_iff _ 0x0a, toUInt32_eq_iff _ 0x0d,
    toUInt32_eq_iff _ 0x09⟩

section
variable {s : Console} {t : Crt}

theorem toNat_carriageReturn (pos : UInt16) :
    (pos - pos % UInt16.ofNat crtCols).toNat = pos.toNat - pos.toNat % 80 := by
  have hmod : (pos % UInt16.ofNat crtCols).toNat = pos.toNat % 80 := UInt16.toNat_mod ..
  rw [UInt16.toNat_sub_of_le, hmod]
  rw [UInt16.le_iff_toNat_le, hmod]
  exact Nat.mod_le _ _

theorem cgaSwitch_shows (consPutc : UInt32 → Console → Except Fault Console) (c : UInt32)
    (h : Shows s t)
    (hspace : c.toUInt8 = 0x09 → ∀ s t, Shows s t →
      ∃ s', consPutc 0x20 s = .ok s' ∧ Shows s' (t.put blankCell blankCell)) :
    ∃ s' screen, cgaSwitch consPutc (withAttribute c) s = .ok s' ∧ Flat s'.crtBuf screen ∧
      Settled blankCell screen s'.crtPos.toNat (typed t c) := by
  have hplace : t.place < 2000 := t.place_lt
  have hpos := h.pos
  unfold cgaSwitch typed
  simp only [key_tests]
  by_cases hbs : c.toUInt8 = 0x08
  · rw [if_pos hbs, if_pos hbs]
    by_cases hfirst : t.place = 0
    · have hzero : ¬s.crtPos > 0 := by
        rw [gt_iff_lt, UInt16.lt_iff_toNat_lt, hpos, hfirst]
        exact Nat.lt_irrefl 0
      rw [if_neg hzero, backspace_first hfirst]
      exact ⟨s, t.screen, rfl, h.flat, Or.inl ⟨hpos ▸ hplace, rfl, hpos.symm⟩⟩
    · obtain ⟨back, hscreen, hback, heq⟩ := backspace_back (Nat.pos_of_ne_zero hfirst) (blankOf c)
      have hprev : (s.crtPos - 1).toNat = back.place := by
        rw [UInt16.toNat_sub_of_le _ _ (by rw [UInt16.le_iff_toNat_le, hpos]; change 1 ≤ _; omega),
          hpos]
        exact Nat.sub_eq_of_eq_add hback.symm
      have hflat : Flat s.crtBuf back.screen := hscreen ▸ h.flat
      have hin : (s.crtPos - 1).toNat < s.crtBuf.length := by
        rw [hprev, hflat.size]
        exact back.place_lt
      rw [if_pos (by rw [gt_iff_lt, UInt16.lt_iff_toNat_lt, hpos]; exact Nat.pos_of_ne_zero hfirst),
        store_eq hin, heq]
      refine ⟨_, _, rfl, ?_, Or.inl ⟨?_, rfl, hprev.symm⟩⟩
      · rw [hprev]
        exact hflat.mark (blankOf c)
      · exact hprev ▸ back.place_lt
  rw [if_neg hbs, if_neg hbs]
  by_cases hnl : c.toUInt8 = 0x0a
  · rw [if_pos hnl, if_pos hnl]
    refine ⟨_, t.screen, rfl, h.flat, ?_⟩
    have hdown : (s.crtPos + UInt16.ofNat crtCols).toNat = t.place + 80 := by
      rw [UInt16.toNat_add, hpos]
      exact Nat.mod_eq_of_lt (show t.place + 80 < 65536 by omega)
    have hrow : (s.crtPos + UInt16.ofNat crtCols -
        (s.crtPos + UInt16.ofNat crtCols) % UInt16.ofNat crtCols).toNat = (t.row.val + 1) * 80 := by
      rw [toNat_carriageReturn, hdown, place]
      omega
    rw [hrow]
    exact settled_newline blankCell t
  rw [if_neg hnl, if_neg hnl]
  by_cases hcr : c.toUInt8 = 0x0d
  · rw [if_pos hcr, if_pos hcr]
    refine ⟨_, t.screen, rfl, h.flat, Or.inl ⟨?_, rfl, ?_⟩⟩
    · rw [toNat_carriageReturn, hpos]
      exact Nat.lt_of_le_of_lt (Nat.sub_le _ _) hplace
    · rw [toNat_carriageReturn, hpos, place_carriageReturn]
  rw [if_neg hcr, if_neg hcr]
  by_cases htab : c.toUInt8 = 0x09
  · rw [if_pos htab, if_pos htab]
    obtain ⟨s₁, hs₁, h₁⟩ := hspace htab s t h
    obtain ⟨s₂, hs₂, h₂⟩ := hspace htab s₁ _ h₁
    obtain ⟨s₃, hs₃, h₃⟩ := hspace htab s₂ _ h₂
    obtain ⟨s₄, hs₄, h₄⟩ := hspace htab s₃ _ h₃
    obtain ⟨s₅, hs₅, h₅⟩ := hspace htab s₄ _ h₄
    refine ⟨s₅, _, ?_, h₅.flat, Or.inl ⟨?_, rfl, h₅.pos.symm⟩⟩
    · simp only [hs₁, hs₂, hs₃, hs₄, hs₅, bind, Except.bind]
    · exact h₅.pos ▸ place_lt _
  · rw [if_neg htab, if_neg htab, store_eq h.pos_lt]
    have hnext : (s.crtPos + 1).toNat = t.place + 1 := by
      rw [UInt16.toNat_add, hpos]
      exact Nat.mod_eq_of_lt (show t.place + 1 < 65536 by omega)
    refine ⟨_, (t.mark (withAttribute c).toUInt16).screen, rfl, ?_, ?_⟩
    · rw [hpos]
      exact h.flat.mark _
    · rw [hnext]
      exact settled_advance blankCell (t.mark (withAttribute c).toUInt16)

theorem cgaPutcWith_shows (consPutc : UInt32 → Console → Except Fault Console) (c : UInt32)
    (h : Shows s t)
    (hspace : c.toUInt8 = 0x09 → ∀ s t, Shows s t →
      ∃ s', consPutc 0x20 s = .ok s' ∧ Shows s' (t.put blankCell blankCell)) :
    ∃ s', cgaPutcWith consPutc c s = .ok s' ∧ Shows s' (typed t c) ∧ Programmed s' := by
  obtain ⟨s₁, screen, hswitch, hflat, hsettled⟩ := cgaSwitch_shows consPutc c h hspace
  obtain ⟨s₂, hscroll, hshows⟩ := scrollUp_settled hflat hsettled
  refine ⟨moveCursor s₂, ?_, ⟨hshows.flat, hshows.pos⟩, programmed_moveCursor s₂⟩
  simp only [cgaPutcWith, hswitch, hscroll, bind, Except.bind]
  rfl

variable (device : Device)

theorem Shows.mirrored (h : Shows s t) (c : UInt32) :
    Shows (lptPutc device c (serialPutc device c s)) t :=
  ⟨h.flat, h.pos⟩

theorem typed_space (t : Crt) : typed t 0x20 = t.put blankCell blankCell := rfl

theorem cgaPutc_shows (c : UInt32) (h : Shows s t) :
    ∃ s', cgaPutc device c s = .ok s' ∧ Shows s' (typed t c) ∧ Programmed s' := by
  refine cgaPutcWith_shows _ c h fun _ s t h => ?_
  obtain ⟨s', hrun, hshows, -⟩ := cgaPutcWith_shows
    (fun c s => cgaPutcNested device 0 c (lptPutc device c (serialPutc device c s))) 0x20
    (h.mirrored device 0x20) (fun htab => absurd htab (by decide))
  exact ⟨s', hrun, typed_space t ▸ hshows⟩

theorem cgaPuts_shows (text : List UInt32) (h : Shows s t) :
    ∃ s', cgaPuts device text s = .ok s' ∧ Shows s' (text.foldl typed t) ∧
      (text ≠ [] ∨ Programmed s → Programmed s') := by
  induction text generalizing s t with
  | nil => exact ⟨s, rfl, h, fun hor => hor.resolve_left fun hne => hne rfl⟩
  | cons c text ih =>
    obtain ⟨s₁, hputc, hshows, hprogrammed⟩ := cgaPutc_shows device c h
    obtain ⟨s', hputs, hshows', hprogrammed'⟩ := ih hshows
    refine ⟨s', ?_, hshows', fun _ => hprogrammed' (Or.inr hprogrammed)⟩
    rw [cgaPuts, List.foldlM_cons, hputc]
    exact hputs

theorem exists_shows (hbuf : s.crtBuf.length = crtSize) (hpos : s.crtPos.toNat < crtSize) :
    ∃ t, Shows s t := by
  obtain ⟨screen, hflat⟩ := @Flat.of_size 25 80 _ _ hbuf
  have hlt : s.crtPos.toNat < 2000 := hpos
  refine ⟨⟨screen, ⟨s.crtPos.toNat / 80, by omega⟩, ⟨s.crtPos.toNat % 80, by omega⟩⟩, hflat, ?_⟩
  exact (Nat.div_add_mod' s.crtPos.toNat 80).symm

end

/-- The console keeps within the screen memory, shows the terminal on which the
same characters have been typed, and leaves the cursor of the 6845 there. -/
theorem cgaPuts_refines_terminal (device : Device) (s : Console)
    (hbuf : s.crtBuf.length = crtSize) (hpos : s.crtPos.toNat < crtSize) :
    ∃ t, Shows s t ∧ ∀ text : List UInt32, ∃ s', cgaPuts device text s = .ok s' ∧
      s'.crtPos.toNat < crtSize ∧ Shows s' (text.foldl typed t) ∧ (text ≠ [] → Programmed s') := by
  obtain ⟨t, hshows⟩ := exists_shows hbuf hpos
  refine ⟨t, hshows, fun text => ?_⟩
  obtain ⟨s', hputs, hshows', hprogrammed⟩ := cgaPuts_shows device text hshows
  refine ⟨s', hputs, ?_, hshows', fun hne => hprogrammed (Or.inl hne)⟩
  rw [hshows'.pos]
  exact place_lt _

theorem cgaPuts_refines_terminal_last :
    ∃ t, Shows ⟨⟨0, []⟩, 0x3D4, List.replicate 2000 blankCell, 1999⟩ t ∧
      ∀ text : List UInt32, ∃ s',
        cgaPuts (fun _ _ => 0xFF) text ⟨⟨0, []⟩, 0x3D4, List.replicate 2000 blankCell, 1999⟩ =
          .ok s' ∧ s'.crtPos.toNat < crtSize ∧ Shows s' (text.foldl typed t) ∧
        (text ≠ [] → Programmed s') :=
  cgaPuts_refines_terminal (fun _ _ => 0xFF) ⟨⟨0, []⟩, 0x3D4, List.replicate 2000 blankCell, 1999⟩
    List.length_replicate (by decide)

end JosKernel.Kern
