import JosKernel.Kern.Screen

/-! `cga_init` of `kern/console.c`, which takes the cursor from the 6845, and
`cga_putc` from a cursor that can be anywhere. -/
namespace JosKernel.Kern
open JosKernel.Inc JosKernel.Lib JosKernel.General

def monoBase : UInt32 := 0x3B4
def cgaBase : UInt32 := 0x3D4

/-- The frame buffers at `CGA_BUF` and `MONO_BUF`, and what the first cell at
`CGA_BUF` reads as once `0xA55A` has been written to it. -/
structure Video where
  cga : List UInt16
  mono : List UInt16
  probe : UInt16
  cga_size : cga.length = crtSize
  mono_size : mono.length = crtSize

section
variable (device : Device) (video : Video)

def cgaProbe : Except Fault (List UInt16 × UInt32) := do
  let was ← load video.cga 0
  let cp ← store video.cga 0 0xA55A
  if video.probe ≠ 0xA55A then return (video.mono, monoBase)
  else
    let cp ← store cp 0 was
    return (cp, cgaBase)

def cgaInit (ports : Ports) : Except Fault Console := do
  let (crtBuf, addr6845) ← cgaProbe video
  -- extract cursor location
  let ports := outb addr6845 14 ports
  let (high, ports) := inb device (addr6845 + 1) ports
  let ports := outb addr6845 15 ports
  let (low, ports) := inb device (addr6845 + 1) ports
  let pos := (high.toUInt32 <<< 8) ||| low.toUInt32
  return ⟨ports, addr6845, crtBuf, pos.toUInt16⟩

def cursorAt (addr6845 : UInt32) (ports : Ports) : Nat :=
  (device ports.reads (addr6845 + 1).toUInt16).toNat * 256 +
    (device (ports.reads + 1) (addr6845 + 1).toUInt16).toNat

def bootAddr : UInt32 := if video.probe ≠ 0xA55A then monoBase else cgaBase

def bootCursor (ports : Ports) : Nat := cursorAt device (bootAddr video) ports

end

theorem toNat_cursor (high low : UInt8) :
    ((high.toUInt32 <<< 8) ||| low.toUInt32).toUInt16.toNat = high.toNat * 256 + low.toNat := by
  have hhigh := high.toNat_lt
  have hlow := low.toNat_lt
  have hshift : (high.toUInt32 <<< 8).toNat = high.toNat * 2 ^ 8 := by
    rw [UInt32.toNat_shiftLeft, UInt8.toNat_toUInt32]
    change high.toNat <<< 8 % 2 ^ 32 = _
    rw [Nat.shiftLeft_eq, Nat.mod_eq_of_lt (by omega)]
  rw [UInt32.toNat_toUInt16, UInt32.toNat_or, hshift, UInt8.toNat_toUInt32, Nat.mul_comm,
    ← Nat.two_pow_add_eq_or_of_lt hlow, Nat.mul_comm, Nat.mod_eq_of_lt (by omega)]

theorem cgaProbe_eq (video : Video) :
    ∃ crtBuf, cgaProbe video = .ok (crtBuf, bootAddr video) ∧ crtBuf.length = crtSize := by
  have hfirst : 0 < video.cga.length := by
    rw [video.cga_size]
    decide
  unfold cgaProbe bootAddr
  rw [load_eq (List.getElem?_eq_getElem hfirst), store_eq hfirst]
  simp only [bind, Except.bind]
  split
  · exact ⟨video.mono, rfl, video.mono_size⟩
  · rw [store_eq (by rw [List.length_set]; exact hfirst)]
    refine ⟨_, rfl, ?_⟩
    rw [List.length_set, List.length_set, video.cga_size]

theorem cgaInit_eq (device : Device) (video : Video) (ports : Ports) :
    ∃ s, cgaInit device video ports = .ok s ∧ s.crtBuf.length = crtSize ∧
      s.addr6845 = bootAddr video ∧ s.crtPos.toNat = bootCursor device video ports := by
  obtain ⟨crtBuf, hprobe, hsize⟩ := cgaProbe_eq video
  unfold cgaInit
  rw [hprobe]
  refine ⟨_, rfl, hsize, rfl, ?_⟩
  exact toNat_cursor _ _

theorem scrollUp_eq (s : Console) (hsize : crtSize ≤ s.crtBuf.length) :
    ∃ crtBuf, scrollUp s = .ok { s with
        crtBuf, crtPos := if crtSize ≤ s.crtPos.toNat then s.crtPos - 80 else s.crtPos } ∧
      crtBuf.length = s.crtBuf.length := by
  unfold scrollUp
  by_cases hend : s.crtPos.toNat ≥ crtSize
  · have hfit : crtCols + (crtSize - crtCols) ≤ s.crtBuf.length := hsize
    obtain ⟨moved, hmove, hmovedSize, -⟩ :=
      memmove_eq s.crtBuf 0 crtCols (crtSize - crtCols) (Nat.zero_le _) hfit
    obtain ⟨blanked, hblank, hblankedSize, -⟩ :=
      blankCells_eq moved (crtSize - crtCols) crtCols (hmovedSize ▸ hsize)
    rw [if_pos hend, if_pos hend, hmove]
    simp only [bind, Except.bind, hblank]
    exact ⟨blanked, rfl, hblankedSize.trans hmovedSize⟩
  · rw [if_neg hend, if_neg hend]
    exact ⟨s.crtBuf, rfl, rfl⟩

theorem toNat_scrolled (pos : UInt16) :
    (if crtSize ≤ pos.toNat then pos - 80 else pos).toNat =
      if crtSize ≤ pos.toNat then pos.toNat - 80 else pos.toNat := by
  split
  · next hend =>
    rw [UInt16.toNat_sub_of_le]
    · rfl
    · rw [UInt16.le_iff_toNat_le]
      exact Nat.le_trans (by decide) hend
  · rfl

def Recovers (pos : Nat) (c : UInt32) : Prop :=
  c.toUInt8 = 0x08 ∧ pos = crtSize ∨ c.toUInt8 = 0x0d ∧ pos < crtSize + crtCols ∨
    c.toUInt8 = 0x0a ∧ 2 ^ 16 ≤ pos + crtCols

section
variable {s : Console} (consPutc : UInt32 → Console → Except Fault Console)

theorem cgaSwitch_beyond (c : UInt32) (hsize : s.crtBuf.length = crtSize)
    (hpos : crtSize ≤ s.crtPos.toNat)
    (hspace : c.toUInt8 = 0x09 → ∃ e, consPutc 0x20 s = .error e) :
    (∃ s', cgaSwitch consPutc (withAttribute c) s = .ok s' ∧ s'.crtBuf.length = crtSize ∧
      (s'.crtPos.toNat < crtSize + crtCols ↔ Recovers s.crtPos.toNat c)) ∨
    (∃ e, cgaSwitch consPutc (withAttribute c) s = .error e) ∧ ¬Recovers s.crtPos.toNat c := by
  have hlt := s.crtPos.toNat_lt
  have hcrt : crtSize = 2000 := rfl
  have hcols : crtCols = 80 := rfl
  unfold cgaSwitch Recovers
  simp only [key_tests]
  by_cases hbs : c.toUInt8 = 0x08
  · have hback : (s.crtPos - 1).toNat = s.crtPos.toNat - 1 := by
      rw [UInt16.toNat_sub_of_le]
      · rfl
      · rw [UInt16.le_iff_toNat_le]
        exact Nat.le_trans (by decide) hpos
    have hsome : s.crtPos > 0 := by
      rw [gt_iff_lt, UInt16.lt_iff_toNat_lt]
      exact Nat.lt_of_lt_of_le (by decide) hpos
    rw [if_pos hbs, if_pos hsome]
    by_cases hedge : s.crtPos.toNat = crtSize
    · left
      rw [store_eq (by omega)]
      refine ⟨_, rfl, ?_, ?_⟩
      · rw [List.length_set, hsize]
      · dsimp only
        rw [hback, hedge]
        exact ⟨fun _ => Or.inl ⟨hbs, rfl⟩, fun _ => by omega⟩
    · right
      rw [store, if_neg (by omega)]
      exact ⟨⟨_, rfl⟩, by simp [hbs, hedge]⟩
  rw [if_neg hbs]
  by_cases hnl : c.toUInt8 = 0x0a
  · left
    rw [if_pos hnl]
    refine ⟨_, rfl, hsize, ?_⟩
    dsimp only
    have hdown : (s.crtPos + UInt16.ofNat crtCols).toNat = (s.crtPos.toNat + 80) % 2 ^ 16 :=
      UInt16.toNat_add ..
    rw [toNat_carriageReturn, hdown]
    simp only [hnl, true_and]
    constructor
    · intro h
      exact Or.inr (Or.inr (by omega))
    · rintro (⟨h, -⟩ | ⟨h, -⟩ | h)
      · cases h
      · cases h
      · omega
  rw [if_neg hnl]
  by_cases hcr : c.toUInt8 = 0x0d
  · left
    rw [if_pos hcr]
    refine ⟨_, rfl, hsize, ?_⟩
    dsimp only
    rw [toNat_carriageReturn]
    simp only [hcr, true_and]
    constructor
    · intro h
      exact Or.inr (Or.inl (by omega))
    · rintro (⟨h, -⟩ | h | ⟨h, -⟩)
      · cases h
      · omega
      · cases h
  rw [if_neg hcr]
  right
  refine ⟨?_, by simp [hbs, hnl, hcr]⟩
  by_cases htab : c.toUInt8 = 0x09
  · obtain ⟨e, he⟩ := hspace htab
    rw [if_pos htab, he]
    exact ⟨e, rfl⟩
  · rw [if_neg htab, store, if_neg (by omega)]
    exact ⟨_, rfl⟩

theorem cgaPutcWith_beyond (c : UInt32) (hsize : s.crtBuf.length = crtSize)
    (hpos : crtSize ≤ s.crtPos.toNat)
    (hspace : c.toUInt8 = 0x09 → ∃ e, consPutc 0x20 s = .error e) :
    (Recovers s.crtPos.toNat c → ∃ s', cgaPutcWith consPutc c s = .ok s' ∧
      s'.crtBuf.length = crtSize ∧ s'.crtPos.toNat < crtSize) ∧
    ∀ s', cgaPutcWith consPutc c s = .ok s' → s'.crtPos.toNat < crtSize →
      Recovers s.crtPos.toNat c := by
  unfold cgaPutcWith
  rcases cgaSwitch_beyond consPutc c hsize hpos hspace with
    ⟨s₁, hswitch, hsize₁, hlands⟩ | ⟨⟨e, hswitch⟩, hlost⟩
  · have hcrt : crtSize = 2000 := rfl
    have hcols : crtCols = 80 := rfl
    obtain ⟨crtBuf, hscroll, hsize₂⟩ := scrollUp_eq s₁ (Nat.le_of_eq hsize₁.symm)
    rw [hswitch]
    simp only [bind, Except.bind, hscroll, pure, Except.pure]
    have hnext := toNat_scrolled s₁.crtPos
    constructor
    · intro h
      have hclose := hlands.mpr h
      refine ⟨_, rfl, hsize₂.trans hsize₁, ?_⟩
      simp only [moveCursor, hnext]
      split <;> omega
    · intro s' hrun hin
      cases hrun
      apply hlands.mp
      simp only [moveCursor, hnext] at hin
      split at hin <;> omega
  · rw [hswitch]
    exact ⟨fun h => absurd h hlost, fun s' hrun => by cases hrun⟩

variable (device : Device)

theorem cgaPutc_beyond (c : UInt32) (hsize : s.crtBuf.length = crtSize)
    (hpos : crtSize ≤ s.crtPos.toNat) :
    (Recovers s.crtPos.toNat c → ∃ s', cgaPutc device c s = .ok s' ∧
      s'.crtBuf.length = crtSize ∧ s'.crtPos.toNat < crtSize) ∧
    ∀ s', cgaPutc device c s = .ok s' → s'.crtPos.toNat < crtSize →
      Recovers s.crtPos.toNat c := by
  apply cgaPutcWith_beyond _ c hsize hpos
  intro _
  -- the first space of a tab is stored behind the screen
  refine ⟨.badAccess, ?_⟩
  have hfull : ¬s.crtPos.toNat < s.crtBuf.length := by omega
  have hstore : store s.crtBuf s.crtPos.toNat (withAttribute 0x20).toUInt16 = .error .badAccess :=
    if_neg hfull
  change cgaPutcWith _ 0x20 (lptPutc device 0x20 (serialPutc device 0x20 s)) = _
  unfold cgaPutcWith
  change ((store s.crtBuf s.crtPos.toNat (withAttribute 0x20).toUInt16 >>= _) >>= _) = _
  rw [hstore]
  rfl

end

/-- After `cga_init` every character of the text is put within the screen, and
the cursor is on the screen after each. -/
def Contained (device : Device) (video : Video) (ports : Ports) (text : List UInt32) : Prop :=
  ∃ s, cgaInit device video ports = .ok s ∧ ∀ before, before <+: text → before ≠ [] →
    ∃ s', cgaPuts device before s = .ok s' ∧ s'.crtPos.toNat < crtSize

theorem contained_first {device : Device} {video : Video} {ports : Ports} {c : UInt32}
    {text : List UInt32} (h : Contained device video ports (c :: text)) :
    bootCursor device video ports < crtSize ∨ Recovers (bootCursor device video ports) c := by
  obtain ⟨s, hinit, hsize, -, hpos⟩ := cgaInit_eq device video ports
  obtain ⟨s₀, hinit₀, hputs⟩ := h
  rw [hinit] at hinit₀
  cases hinit₀
  rw [← hpos]
  by_cases hin : s.crtPos.toNat < crtSize
  · exact Or.inl hin
  · right
    obtain ⟨s', hrun, hlt⟩ := hputs [c] ⟨text, rfl⟩ (List.cons_ne_nil c [])
    have hputc : cgaPutc device c s = .ok s' := by
      rw [← hrun, cgaPuts, List.foldlM_cons]
      cases cgaPutc device c s <;> rfl
    exact (cgaPutc_beyond device c hsize (Nat.le_of_not_lt hin)).2 s' hputc hlt

theorem cgaPuts_on_screen (device : Device) {s : Console} (text : List UInt32)
    (hsize : s.crtBuf.length = crtSize) (hpos : s.crtPos.toNat < crtSize) :
    ∃ s', cgaPuts device text s = .ok s' ∧ s'.crtPos.toNat < crtSize := by
  obtain ⟨t, hshows⟩ := exists_shows hsize hpos
  obtain ⟨s', hputs, hshows', -⟩ := cgaPuts_shows device text hshows
  exact ⟨s', hputs, hshows'.pos ▸ Terminal.place_lt _⟩

/-- The boot cursor is on the screen, or the first character brings it there. -/
theorem cgaInit_contained_iff (device : Device) (video : Video) (ports : Ports)
    (text : List UInt32) :
    Contained device video ports text ↔ bootCursor device video ports < crtSize ∨
      ∀ c ∈ text.head?, Recovers (bootCursor device video ports) c := by
  constructor
  · intro h
    cases text with
    | nil => exact Or.inr fun c hc => by cases hc
    | cons c text =>
      apply (contained_first h).imp_right
      intro hrecovers c' hc
      cases hc
      exact hrecovers
  · intro h
    obtain ⟨s, hinit, hsize, -, hpos⟩ := cgaInit_eq device video ports
    rw [← hpos] at h
    refine ⟨s, hinit, fun before hbefore hne => ?_⟩
    by_cases hin : s.crtPos.toNat < crtSize
    · exact cgaPuts_on_screen device before hsize hin
    · cases before with
      | nil => exact absurd rfl hne
      | cons c before =>
        obtain ⟨rest, rfl⟩ := hbefore
        obtain ⟨s₁, hputc, hsize₁, hlt⟩ := (cgaPutc_beyond device c hsize
          (Nat.le_of_not_lt hin)).1 (h.resolve_left hin c rfl)
        rw [cgaPuts, List.foldlM_cons, hputc]
        exact cgaPuts_on_screen device before hsize₁ hlt

/-- A 6845 that answers `0xFF` twice has its cursor behind the screen. -/
theorem cgaInit_not_contained :
    ¬∀ (device : Device) (video : Video) (ports : Ports) (text : List UInt32),
      Contained device video ports text := by
  intro h
  have hsize : (List.replicate crtSize blankCell).length = crtSize := List.length_replicate
  have hfirst := contained_first (h (fun _ _ => 0xFF) ⟨_, _, 0xA55A, hsize, hsize⟩ ⟨0, []⟩ [0x61])
  have hcursor : bootCursor (fun _ _ => 0xFF) ⟨_, _, 0xA55A, hsize, hsize⟩ ⟨0, []⟩ = 65535 := by
    simp only [bootCursor, cursorAt]
    rfl
  rw [hcursor] at hfirst
  rcases hfirst with hin | hrecovers
  · exact absurd hin (by decide)
  · exact absurd hrecovers (by unfold Recovers; decide)

end JosKernel.Kern
