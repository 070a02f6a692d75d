import JosKernel.Kern.CgaInit

/-! What the serial and the parallel port see of the characters that are put on
the console: each character once, and five spaces more for each tab, which the
screen driver puts on the console again. -/
namespace JosKernel.Kern
open JosKernel.Inc JosKernel.Lib

def cputchar (device : Device) (c : UInt32) (s : Console) : Except Fault Console :=
  consPutc device c s

def cputchars (device : Device) (text : List UInt32) (s : Console) : Except Fault Console :=
  text.foldlM (fun s c => cputchar device c s) s

def sent (port : UInt32) (s : Console) : List UInt8 :=
  (s.ports.outs.filter (·.1 = port.toUInt16)).map (·.2)

/-- `cga_init` has run, and the memory from `crt_buf` on has a cell for every
cursor that the screen can be in. -/
structure Ready (s : Console) : Prop where
  addr : s.addr6845 = monoBase ∨ s.addr6845 = cgaBase
  size : crtSize ≤ s.crtBuf.length
  cursor : s.crtPos.toNat < crtSize ∨ 2 ^ 16 ≤ s.crtBuf.length

structure Sends (bytes : List UInt8) (s s' : Console) : Prop where
  serial : sent (com1 + comTx) s' = sent (com1 + comTx) s ++ bytes
  parallel : sent 0x378 s' = sent 0x378 s ++ bytes

theorem Sends.refl (s : Console) : Sends [] s s := ⟨(List.append_nil _).symm, (List.append_nil _).symm⟩

theorem Sends.trans {left right : List UInt8} {s s' s'' : Console} (h : Sends left s s')
    (h' : Sends right s' s'') : Sends (left ++ right) s s'' := by
  constructor
  · rw [h'.serial, h.serial, List.append_assoc]
  · rw [h'.parallel, h.parallel, List.append_assoc]

theorem Sends.of_outs {s s' : Console} (h : s'.ports.outs = s.ports.outs) : Sends [] s s' := by
  constructor
  · rw [sent, h, List.append_nil]
    rfl
  · rw [sent, h, List.append_nil]
    rfl

section
variable (device : Device)

theorem delay_outs (ports : Ports) : (delay device ports).outs = ports.outs := rfl

theorem waitReady_outs (port : UInt32) (ready : UInt8 → Bool) {pause : Ports → Ports}
    (hpause : ∀ ports, (pause ports).outs = ports.outs) (count : Nat) (ports : Ports) :
    (waitReady device port ready pause count ports).outs = ports.outs := by
  induction count generalizing ports with
  | zero => rfl
  | succ count ih =>
    unfold waitReady
    dsimp only
    split
    · rfl
    · rw [ih, hpause]
      rfl

theorem serialPutc_outs (c : UInt32) (s : Console) :
    (serialPutc device c s).ports.outs = s.ports.outs ++ [(0x3F8, c.toUInt8)] := by
  simp only [serialPutc, outb, waitReady_outs device _ _ (delay_outs device)]
  rfl

theorem lptPutc_outs (c : UInt32) (s : Console) :
    (lptPutc device c s).ports.outs =
      s.ports.outs ++ [(0x378, c.toUInt8), (0x37A, 0x0d), (0x37A, 0x08)] := by
  simp only [lptPutc, outb, waitReady_outs device _ _ (delay_outs device), List.append_assoc]
  rfl

theorem sends_both (c : UInt32) (s : Console) :
    Sends [c.toUInt8] s (lptPutc device c (serialPutc device c s)) := by
  have houts : (lptPutc device c (serialPutc device c s)).ports.outs = s.ports.outs ++
      [(0x3F8, c.toUInt8), (0x378, c.toUInt8), (0x37A, 0x0d), (0x37A, 0x08)] := by
    rw [lptPutc_outs, serialPutc_outs, List.append_assoc]
    rfl
  constructor <;> rw [sent, houts, List.filter_append, List.map_append] <;> rfl

end

theorem sends_moveCursor {s : Console} (h : s.addr6845 = monoBase ∨ s.addr6845 = cgaBase) :
    Sends [] s (moveCursor s) := by
  have houts := moveCursor_outs s
  rcases h with h | h <;> rw [h] at houts <;>
    (constructor <;> rw [sent, houts, List.filter_append, List.map_append] <;> rfl)

def mirrored (c : UInt32) : List UInt8 :=
  if c.toUInt8 = 0x09 then [0x09, 0x20, 0x20, 0x20, 0x20, 0x20] else [c.toUInt8]

section
variable {s : Console} (consPutc : UInt32 → Console → Except Fault Console)

theorem cgaSwitch_sends (c : UInt32) (h : Ready s)
    (hspace : c.toUInt8 = 0x09 → ∀ s, Ready s →
      ∃ s', consPutc 0x20 s = .ok s' ∧ Ready s' ∧ Sends [0x20] s s') :
    ∃ s', cgaSwitch consPutc (withAttribute c) s = .ok s' ∧
      (s'.addr6845 = monoBase ∨ s'.addr6845 = cgaBase) ∧
      crtSize ≤ s'.crtBuf.length ∧ (s'.crtPos.toNat ≤ crtSize ∨ 2 ^ 16 ≤ s'.crtBuf.length) ∧
      Sends (mirrored c).tail s s' := by
  have hlt := s.crtPos.toNat_lt
  have hcrt : crtSize = 2000 := rfl
  have hcols : crtCols = 80 := rfl
  have hsize := h.size
  have hin : s.crtPos.toNat < s.crtBuf.length := by
    rcases h.cursor with hpos | hpos <;> omega
  unfold cgaSwitch mirrored
  simp only [key_tests]
  by_cases htab : c.toUInt8 = 0x09
  · rw [if_neg (by rw [htab]; decide), if_neg (by rw [htab]; decide),
      if_neg (by rw [htab]; decide), if_pos htab, if_pos htab]
    obtain ⟨s₁, hs₁, h₁, hsent₁⟩ := hspace htab s h
    obtain ⟨s₂, hs₂, h₂, hsent₂⟩ := hspace htab s₁ h₁
    obtain ⟨s₃, hs₃, h₃, hsent₃⟩ := hspace htab s₂ h₂
    obtain ⟨s₄, hs₄, h₄, hsent₄⟩ := hspace htab s₃ h₃
    obtain ⟨s₅, hs₅, h₅, hsent₅⟩ := hspace htab s₄ h₄
    refine ⟨s₅, ?_, h₅.addr, h₅.size, h₅.cursor.imp_left Nat.le_of_lt, ?_⟩
    · simp only [hs₁, hs₂, hs₃, hs₄, hs₅, bind, Except.bind]
    · exact (((hsent₁.trans hsent₂).trans hsent₃).trans hsent₄).trans hsent₅
  rw [if_neg htab, if_neg htab]
  by_cases hbs : c.toUInt8 = 0x08
  · rw [if_pos hbs]
    by_cases hsome : s.crtPos > 0
    · have hback : (s.crtPos - 1).toNat = s.crtPos.toNat - 1 := by
        rw [UInt16.toNat_sub_of_le]
        · rfl
        · exact hsome
      rw [if_pos hsome, store_eq (by omega)]
      refine ⟨_, rfl, h.addr, ?_, ?_, Sends.of_outs rfl⟩
      · rw [List.length_set]
        exact hsize
      · rw [List.length_set, hback]
        exact h.cursor.imp_left (by omega)
    · rw [if_neg hsome]
      exact ⟨s, rfl, h.addr, hsize, h.cursor.imp_left Nat.le_of_lt, Sends.refl s⟩
  rw [if_neg hbs]
  by_cases hnl : c.toUInt8 = 0x0a
  · have hdown : (s.crtPos + UInt16.ofNat crtCols).toNat = (s.crtPos.toNat + 80) % 2 ^ 16 :=
      UInt16.toNat_add ..
    rw [if_pos hnl]
    refine ⟨_, rfl, h.addr, hsize, h.cursor.imp_left fun hpos => ?_, Sends.of_outs rfl⟩
    rw [toNat_carriageReturn, hdown]
    omega
  rw [if_neg hnl]
  by_cases hcr : c.toUInt8 = 0x0d
  · rw [if_pos hcr]
    refine ⟨_, rfl, h.addr, hsize, h.cursor.imp_left fun hpos => ?_, Sends.of_outs rfl⟩
    rw [toNat_carriageReturn]
    omega
  rw [if_neg hcr, store_eq hin]
  refine ⟨_, rfl, h.addr, ?_, ?_, Sends.of_outs rfl⟩
  · rw [List.length_set]
    exact hsize
  · have hnext : (s.crtPos + 1).toNat = (s.crtPos.toNat + 1) % 2 ^ 16 := UInt16.toNat_add ..
    rw [List.length_set, hnext]
    exact h.cursor.imp_left (by omega)

theorem cgaPutcWith_sends (c : UInt32) (h : Ready s)
    (hspace : c.toUInt8 = 0x09 → ∀ s, Ready s →
      ∃ s', consPutc 0x20 s = .ok s' ∧ Ready s' ∧ Sends [0x20] s s') :
    ∃ s', cgaPutcWith consPutc c s = .ok s' ∧ Ready s' ∧ Sends (mirrored c).tail s s' := by
  obtain ⟨s₁, hswitch, haddr, hsize, hcursor, hsends⟩ := cgaSwitch_sends consPutc c h hspace
  obtain ⟨crtBuf, hscroll, hsize₂⟩ := scrollUp_eq s₁ hsize
  have hcrt : crtSize = 2000 := rfl
  unfold cgaPutcWith
  rw [hswitch]
  simp only [bind, Except.bind, hscroll]
  refine ⟨_, rfl, ⟨haddr, hsize₂.symm ▸ hsize, ?_⟩, ?_⟩
  · simp only [moveCursor, toNat_scrolled, hsize₂]
    exact hcursor.imp_left fun hpos => by split <;> omega
  · have hscrolled := hsends.trans (@Sends.of_outs s₁ { s₁ with
      crtBuf, crtPos := if crtSize ≤ s₁.crtPos.toNat then s₁.crtPos - 80 else s₁.crtPos } rfl)
    rw [List.append_nil] at hscrolled
    rw [← List.append_nil (mirrored c).tail]
    exact hscrolled.trans (sends_moveCursor haddr)

end

theorem mirrored_eq (c : UInt32) : [c.toUInt8] ++ (mirrored c).tail = mirrored c := by
  unfold mirrored
  split
  · next htab => rw [htab]; rfl
  · rfl

section
variable {s : Console} (device : Device)

theorem Ready.mirrored (h : Ready s) (c : UInt32) :
    Ready (lptPutc device c (serialPutc device c s)) :=
  ⟨h.addr, h.size, h.cursor⟩

theorem consPutc_sends (c : UInt32) (h : Ready s) :
    ∃ s', consPutc device c s = .ok s' ∧ Ready s' ∧ Sends (mirrored c) s s' := by
  have hspace : ∀ s, Ready s → ∃ s',
      cgaPutcNested device 1 0x20 (lptPutc device 0x20 (serialPutc device 0x20 s)) = .ok s' ∧
        Ready s' ∧ Sends [0x20] s s' := by
    intro s h
    obtain ⟨s', hrun, hready, hsends⟩ := cgaPutcWith_sends
      (fun c s => cgaPutcNested device 0 c (lptPutc device c (serialPutc device c s))) 0x20
      (h.mirrored device 0x20) (fun htab => absurd htab (by decide))
    exact ⟨s', hrun, hready, (sends_both device 0x20 s).trans hsends⟩
  obtain ⟨s', hrun, hready, hsends⟩ := cgaPutcWith_sends
    (fun c s => cgaPutcNested device 1 c (lptPutc device c (serialPutc device c s))) c
    (h.mirrored device c) (fun _ => hspace)
  refine ⟨s', hrun, hready, ?_⟩
  rw [← mirrored_eq]
  exact (sends_both device c s).trans hsends

theorem cputchars_sends (text : List UInt32) (h : Ready s) :
    ∃ s', cputchars device text s = .ok s' ∧ Ready s' ∧ Sends (text.flatMap mirrored) s s' := by
  induction text generalizing s with
  | nil => exact ⟨s, rfl, h, Sends.refl s⟩
  | cons c text ih =>
    obtain ⟨s₁, hputc, hready, hsends⟩ := consPutc_sends device c h
    obtain ⟨s', hputs, hready', hsends'⟩ := ih hready
    refine ⟨s', ?_, hready', hsends.trans hsends'⟩
    rw [cputchars, List.foldlM_cons]
    unfold cputchar
    rw [hputc]
    exact hputs

end

theorem flatMap_mirrored_iff (text : List UInt32) :
    text.flatMap mirrored = text.map (·.toUInt8) ↔ ∀ c ∈ text, c.toUInt8 ≠ 0x09 := by
  constructor
  · intro h
    have hone : ∀ c : UInt32, 1 ≤ (mirrored c).length := by
      intro c
      unfold mirrored
      split <;> exact Nat.succ_le_succ (Nat.zero_le _)
    have hlength : ∀ text : List UInt32, text.length ≤ (text.flatMap mirrored).length := by
      intro text
      induction text with
      | nil => exact Nat.le_refl 0
      | cons c text ih =>
        rw [List.flatMap_cons, List.length_append, List.length_cons]
        have hc := hone c
        omega
    induction text with
    | nil => exact fun c hc => by cases hc
    | cons c text ih =>
      have hsize := congrArg List.length h
      rw [List.flatMap_cons, List.map_cons] at h
      rw [List.flatMap_cons, List.length_append, List.length_map, List.length_cons] at hsize
      have hrest := hlength text
      have hplain : c.toUInt8 ≠ 0x09 := by
        intro htab
        have hsix : (mirrored c).length = 6 := by rw [mirrored, if_pos htab]; rfl
        omega
      rw [mirrored, if_neg hplain] at h
      exact List.forall_mem_cons.mpr ⟨hplain, ih (List.cons.inj h).2⟩
  · intro h
    induction text with
    | nil => rfl
    | cons c text ih =>
      obtain ⟨hplain, hrest⟩ := List.forall_mem_cons.mp h
      rw [List.flatMap_cons, ih hrest, mirrored, if_neg hplain]
      rfl

/-- Both ports see exactly the low bytes of the characters that are put on the
console. -/
def Mirrors (device : Device) (s : Console) (text : List UInt32) : Prop :=
  ∃ s', cputchars device text s = .ok s' ∧ Sends (text.map (·.toUInt8)) s s'

/-- Only a tab makes the ports see more. -/
theorem cputchars_mirrors_iff (device : Device) (s : Console) (hready : Ready s)
    (text : List UInt32) : Mirrors device s text ↔ ∀ c ∈ text, c.toUInt8 ≠ 0x09 := by
  obtain ⟨s', hrun, -, hsends⟩ := cputchars_sends device text hready
  rw [← flatMap_mirrored_iff]
  constructor
  · rintro ⟨s₁, hrun₁, hsends₁⟩
    rw [hrun] at hrun₁
    cases hrun₁
    exact List.append_cancel_left (hsends.serial.symm.trans hsends₁.serial)
  · intro h
    exact ⟨s', hrun, h ▸ hsends⟩

theorem cputchars_mirrors_letters :
    Mirrors (fun _ _ => 0xFF) ⟨⟨0, []⟩, 0x3D4, List.replicate crtSize blankCell, 1999⟩
      [0x61, 0x0a, 0x08] :=
  (cputchars_mirrors_iff (fun _ _ => 0xFF)
    ⟨⟨0, []⟩, 0x3D4, List.replicate crtSize blankCell, 1999⟩
    ⟨Or.inr rfl, Nat.le_of_eq List.length_replicate.symm, Or.inl (by decide)⟩
    [0x61, 0x0a, 0x08]).mpr (by simp)

theorem cputchars_not_mirrors :
    ¬∀ (device : Device) (s : Console) (text : List UInt32), Ready s → Mirrors device s text := by
  intro h
  have hready : Ready ⟨⟨0, []⟩, 0x3D4, List.replicate crtSize blankCell, 0⟩ :=
    ⟨Or.inr rfl, Nat.le_of_eq List.length_replicate.symm, Or.inl (by decide)⟩
  obtain ⟨s', hrun, hsends⟩ := h (fun _ _ => 0xFF) _ [0x09] hready
  obtain ⟨s₁, hrun₁, -, hsends₁⟩ := cputchars_sends (fun _ _ => 0xFF) [0x09] hready
  rw [hrun] at hrun₁
  cases hrun₁
  have hbytes := List.append_cancel_left (hsends.serial.symm.trans hsends₁.serial)
  exact absurd hbytes (by decide)

end JosKernel.Kern
