import JosKernel.Kern.Inputs
import JosKernel.Kern.Modifiers

/-! Typing on the keyboard. The driver refines a keyboard that has nothing but
the history of its keys, and every text is a history of keys. -/
namespace JosKernel.Kern.Keyboard
open JosKernel.Inc JosKernel.General Stroke

def cased (caps : Bool) (c : UInt8) : UInt8 := if caps then swapCase c else c

def struck (history : List (Stroke Key)) (key : Key) : UInt8 :=
  cased (history.count (.press Lock.caps.key) % 2 = 1)
    (table (down Modifier.ctl.has history) (down Modifier.shift.has history) key.index)

def produced (history : List (Stroke Key)) : List (Stroke Key) → List UInt8
  | [] => []
  | .press key :: strokes =>
    struck (history ++ [.press key]) key :: produced (history ++ [.press key]) strokes
  | .release key :: strokes => produced (history ++ [.release key]) strokes

theorem produced_append (history left right : List (Stroke Key)) :
    produced history (left ++ right) =
      produced history left ++ produced (history ++ left) right := by
  induction left generalizing history with
  | nil => rw [List.append_nil, produced, List.nil_append, List.nil_append]
  | cons stroke left ih =>
    cases stroke with
    | press key => simp [produced, ih]
    | release key => simp [produced, ih]

theorem typed_append (left right : List (Stroke Key)) :
    typed (left ++ right) = typed left ++ typed right := List.flatMap_append

section
variable {σ : Type} (cputchar : Int → σ → σ) {history : List (Stroke Key)} {driver : Driver σ}

theorem Tracks.character_eq {shift : UInt32} (h : Tracks history shift) (key : Key) :
    character shift key.index = struck history key := by
  have hctl : flag 1 shift = down Modifier.ctl.has history := h.modifier .ctl
  have hshift : flag 0 shift = down Modifier.shift.has history := h.modifier .shift
  have hcaps := h.lock_iff .caps
  change shift &&& Mask.capsLock ≠ 0 ↔ _ at hcaps
  rw [character, struck, cased, charcode_eq, hctl, hshift]
  simp only [hcaps, decide_eq_true_eq]

theorem characters_lead (key : Key) (c : UInt8) :
    characters (key.lead ++ [c]) = characters [c] := by
  unfold Key.lead
  cases key.extended <;> rfl

/-- One stroke on the keyboard and in the driver. -/
theorem Tracks.stroke (h : Tracks history driver.shift) (stroke : Stroke Key) :
    characters (decode cputchar (scanCodes stroke) driver).1 =
        characters (produced history [stroke]) ∧
      Tracks (history ++ [stroke]) (decode cputchar (scanCodes stroke) driver).2.shift := by
  cases stroke with
  | press key =>
    have hnext := h.press key
    rw [decode_press cputchar key h.escape, characters_lead, keyPressed_shift]
    refine ⟨?_, hnext⟩
    rw [produced, produced, ← hnext.character_eq]
    rfl
  | release key =>
    rw [decode_release cputchar key h.escape, characters_lead]
    exact ⟨rfl, h.release key⟩

/-- The driver refines the keyboard: it yields what the strokes produce. -/
theorem Tracks.decode (h : Tracks history driver.shift) (strokes : List (Stroke Key)) :
    characters (decode cputchar (typed strokes) driver).1 =
        characters (produced history strokes) ∧
      Tracks (history ++ strokes) (Keyboard.decode cputchar (typed strokes) driver).2.shift := by
  induction strokes generalizing history driver with
  | nil => exact ⟨rfl, (List.append_nil history).symm ▸ h⟩
  | cons stroke strokes ih =>
    obtain ⟨hfirst, hnext⟩ := h.stroke cputchar stroke
    obtain ⟨hrest, hlast⟩ := ih hnext
    have htyped : typed (stroke :: strokes) = scanCodes stroke ++ typed strokes := rfl
    rw [htyped, decode_append]
    constructor
    · have hsplit := produced_append history [stroke] strokes
      rw [List.singleton_append] at hsplit
      rw [characters_append, hsplit, characters_append, hfirst, hrest]
    · rw [List.append_assoc] at hlast
      exact hlast

theorem keyPressed_quiet {data : UInt8} (h : flag 1 (toggled data driver.shift) = false) :
    (keyPressed cputchar data driver).2 = { driver with shift := toggled data driver.shift } := by
  unfold keyPressed
  dsimp only
  refine if_neg fun hdel => ?_
  have hctl : Mask.ctl = mask 1 := Modifier.bit_eq .ctl
  have hflag := congrArg (flag 1) hdel.1
  rw [flag_and, flag_not (by decide), flag_or, h, hctl, flag_mask 1 1 (by decide)] at hflag
  simp at hflag

theorem Tracks.decode_quiet (h : Tracks history driver.shift)
    (hup : down Modifier.ctl.has history = false) {strokes : List (Stroke Key)}
    (hctl : ∀ stroke ∈ strokes, Modifier.ctl.has stroke.key = false) :
    (Keyboard.decode cputchar (typed strokes) driver).2 =
      { driver with shift := (Keyboard.decode cputchar (typed strokes) driver).2.shift } := by
  induction strokes generalizing history driver with
  | nil => rfl
  | cons stroke strokes ih =>
    have hkey := hctl stroke (List.mem_cons_self ..)
    have hstill : down Modifier.ctl.has (history ++ [stroke]) = false := by
      rw [down_snoc, hkey]
      exact hup
    have hnext := (h.stroke cputchar stroke).2
    have hrest := ih hnext hstill fun other hother => hctl other (List.mem_cons_of_mem _ hother)
    have htyped : typed (stroke :: strokes) = scanCodes stroke ++ typed strokes := rfl
    have hfirst : (Keyboard.decode cputchar (scanCodes stroke) driver).2 = { driver with
        shift := (Keyboard.decode cputchar (scanCodes stroke) driver).2.shift } := by
      cases stroke with
      | press key =>
        rw [decode_press cputchar key h.escape] at hnext ⊢
        rw [keyPressed_shift] at hnext
        rw [keyPressed_quiet cputchar ((hnext.modifier .ctl).trans hstill)]
      | release key => rw [decode_release cputchar key h.escape]
    rw [htyped, decode_append]
    dsimp only
    rw [hrest, hfirst]

end

/-! ### The keys of a text -/

def plainKey (n : Fin 0x60) : Key :=
  ⟨false, UInt8.ofNat n, by revert n; decide, by revert n; decide⟩

def keyFor (map : UInt8 → UInt8) (c : UInt8) : Option Key :=
  ((List.finRange 0x60).map plainKey).find? fun key => map key.index = c

def keystrokes (c : UInt8) : List (Stroke Key) :=
  match keyFor normalmap c with
  | some key => [.press key, .release key]
  | none =>
    match keyFor shiftmap c with
    | some key => [.press leftShift, .press key, .release key, .release leftShift]
    | none => []

/-- The printable characters and those of Backspace, Tab, Enter and Esc. -/
def Typeable (c : UInt8) : Prop :=
  0x20 ≤ c ∧ c ≤ 0x7e ∨ c = 0x08 ∨ c = 0x09 ∨ c = 0x0a ∨ c = 0x1b

instance (c : UInt8) : Decidable (Typeable c) := inferInstanceAs (Decidable (_ ∨ _))

@[elab_as_elim]
theorem byte_cases {motive : UInt8 → Prop} (h : ∀ n < 256, motive (UInt8.ofNat n)) (byte : UInt8) :
    motive byte := by
  have hbyte := h byte.toNat byte.toNat_lt
  rwa [UInt8.ofNat_toNat] at hbyte

theorem typeable_key (c : UInt8) :
    Typeable c → (keyFor normalmap c).isSome ∨ (keyFor shiftmap c).isSome := by
  refine byte_cases ?_ c
  decide +kernel

theorem typeable_cased (caps : Bool) (c : UInt8) : Typeable c → cased caps c ≠ 0 := by
  refine byte_cases ?_ c
  cases caps <;> decide +kernel

def Ordinary (key : Key) : Prop :=
  Modifier.ctl.has key = false ∧ Modifier.shift.has key = false ∧ key ≠ Lock.caps.key

instance (key : Key) : Decidable (Ordinary key) := inferInstanceAs (Decidable (_ ∧ _))

theorem normalmap_ordinary :
    ∀ n : Fin 0x60, normalmap (plainKey n).index ≠ 0 → Ordinary (plainKey n) := by
  decide +kernel

theorem shiftmap_ordinary :
    ∀ n : Fin 0x60, shiftmap (plainKey n).index ≠ 0 → Ordinary (plainKey n) := by
  decide +kernel

theorem keyFor_some {map : UInt8 → UInt8}
    (hmap : ∀ n : Fin 0x60, map (plainKey n).index ≠ 0 → Ordinary (plainKey n)) {c : UInt8}
    (hc : c ≠ 0) {key : Key} (h : keyFor map c = some key) : map key.index = c ∧ Ordinary key := by
  unfold keyFor at h
  have hindex : map key.index = c := by simpa using List.find?_some h
  obtain ⟨n, -, rfl⟩ := List.mem_map.mp (List.mem_of_find?_eq_some h)
  exact ⟨hindex, hmap n (by rw [hindex]; exact hc)⟩

structure Stands (history : List (Stroke Key)) (shift caps : Bool) : Prop where
  ctl : down Modifier.ctl.has history = false
  shift : down Modifier.shift.has history = shift
  caps : decide (history.count (.press Lock.caps.key) % 2 = 1) = caps

section
variable {history : List (Stroke Key)} {shift caps : Bool} (h : Stands history shift caps)
include h

theorem Stands.stroke {stroke : Stroke Key} (hctl : Modifier.ctl.has stroke.key = false)
    (hcaps : stroke.key ≠ Lock.caps.key) :
    Stands (history ++ [stroke])
      (if Modifier.shift.has stroke.key then stroke.isPress else shift) caps where
  ctl := by
    rw [down_snoc, hctl]
    exact h.ctl
  shift := by rw [down_snoc, h.shift]
  caps := by
    have hne : stroke ≠ .press Lock.caps.key := by
      rintro rfl
      exact hcaps rfl
    rw [List.count_append, List.count_singleton, if_neg (by simpa using hne)]
    exact h.caps

theorem Stands.ordinary {stroke : Stroke Key} (hkey : Ordinary stroke.key) :
    Stands (history ++ [stroke]) shift caps := by
  have hnext := h.stroke hkey.1 hkey.2.2
  rw [hkey.2.1] at hnext
  exact hnext

theorem Stands.struck (key : Key) :
    struck history key = cased caps ((if shift then shiftmap else normalmap) key.index) := by
  rw [Keyboard.struck, h.caps, h.ctl, h.shift]
  rfl

end

theorem Stands.press_shift {history : List (Stroke Key)} {shift caps : Bool}
    (h : Stands history shift caps) : Stands (history ++ [.press leftShift]) true caps :=
  @Stands.stroke _ _ _ h (.press leftShift) (by decide) (by decide)

theorem Stands.release_shift {history : List (Stroke Key)} {shift caps : Bool}
    (h : Stands history shift caps) : Stands (history ++ [.release leftShift]) false caps :=
  @Stands.stroke _ _ _ h (.release leftShift) (by decide) (by decide)

theorem Stands.keystrokes {history : List (Stroke Key)} {caps : Bool}
    (h : Stands history false caps) {c : UInt8} (hc : Typeable c) :
    characters (produced history (keystrokes c)) = [cased caps c] ∧
      Stands (history ++ Keyboard.keystrokes c) false caps ∧
      ∀ stroke ∈ Keyboard.keystrokes c, Modifier.ctl.has stroke.key = false := by
  have hzero : c ≠ 0 := by
    rintro rfl
    revert hc
    decide
  have hcased := typeable_cased caps c hc
  unfold Keyboard.keystrokes
  cases hnormal : keyFor normalmap c with
  | some key =>
    obtain ⟨hindex, hkey⟩ := keyFor_some normalmap_ordinary hzero hnormal
    have hpress : Stands (history ++ [.press key]) false caps := h.ordinary hkey
    have hrelease : Stands (history ++ [.press key] ++ [.release key]) false caps :=
      hpress.ordinary hkey
    refine ⟨?_, ?_, ?_⟩
    · have hstruck := hpress.struck key
      rw [if_neg Bool.false_ne_true, hindex] at hstruck
      simp [produced, hstruck, characters, hcased]
    · rw [List.append_assoc] at hrelease
      exact hrelease
    · simp [Stroke.key, hkey.1]
  | none =>
    obtain ⟨key, hshifted⟩ : ∃ key, keyFor shiftmap c = some key := by
      have hsome := typeable_key c hc
      rw [hnormal] at hsome
      exact Option.isSome_iff_exists.mp (hsome.resolve_left Bool.false_ne_true)
    obtain ⟨hindex, hkey⟩ := keyFor_some shiftmap_ordinary hzero hshifted
    have hshift := h.press_shift
    have hpress : Stands (history ++ [.press leftShift] ++ [.press key]) true caps :=
      hshift.ordinary hkey
    have hrelease : Stands (history ++ [.press leftShift] ++ [.press key] ++ [.release key]) true
        caps := hpress.ordinary hkey
    have hlast := hrelease.release_shift
    have hctl : Modifier.ctl.has leftShift = false := by decide
    rw [hshifted]
    refine ⟨?_, ?_, ?_⟩
    · have hleft : Keyboard.struck (history ++ [.press leftShift]) leftShift = 0 := by
        rw [hshift.struck]
        cases caps <;> decide
      have hstruck := hpress.struck key
      rw [if_pos rfl, hindex] at hstruck
      rw [List.append_assoc] at hstruck
      simp only [List.singleton_append] at hstruck
      simp [produced, hleft, hstruck, characters, hcased]
    · simpa using hlast
    · simp [Stroke.key, hkey.1, hctl]

/-- A text is typed one character after the other. -/
theorem Stands.text {history : List (Stroke Key)} {caps : Bool} (h : Stands history false caps)
    {text : List UInt8} (htext : ∀ c ∈ text, Typeable c) :
    characters (produced history (text.flatMap Keyboard.keystrokes)) = text.map (cased caps) ∧
      Stands (history ++ text.flatMap Keyboard.keystrokes) false caps ∧
      ∀ stroke ∈ text.flatMap Keyboard.keystrokes, Modifier.ctl.has stroke.key = false := by
  induction text generalizing history with
  | nil => exact ⟨rfl, (List.append_nil history).symm ▸ h, List.forall_mem_nil _⟩
  | cons c text ih =>
    obtain ⟨hfirst, hnext, hctl⟩ := h.keystrokes (htext c (List.mem_cons_self ..))
    obtain ⟨hrest, hlast, hctls⟩ := ih hnext fun d hd => htext d (List.mem_cons_of_mem _ hd)
    rw [List.flatMap_cons]
    refine ⟨?_, ?_, ?_⟩
    · rw [produced_append, characters_append, hfirst, hrest]
      rfl
    · rw [← List.append_assoc]
      exact hlast
    · intro stroke hstroke
      rcases List.mem_append.mp hstroke with hin | hin
      · exact hctl stroke hin
      · exact hctls stroke hin

/-! ### Typing on any schedule -/

theorem sent_inj {left right : List UInt8} (h : Keyboard.sent left = Keyboard.sent right) :
    left = right := by
  have hdata := congrArg (List.map Prod.snd) h
  rw [Keyboard.sent, Keyboard.sent, List.map_map, List.map_map] at hdata
  simpa [Function.comp_def] using hdata

theorem eq_of_polled {bytes read : List UInt8} {controller : Controller}
    (h : Keyboard.sent bytes = Keyboard.sent read ++ controller) (hfront : front controller = []) :
    read = bytes ∧ controller = [] := by
  have hempty : controller = [] := by
    cases controller with
    | nil => rfl
    | cons byte rest =>
      have hmem : byte ∈ Keyboard.sent bytes := by
        rw [h]
        exact List.mem_append_right _ (List.mem_cons_self ..)
      obtain ⟨data, -, rfl⟩ := List.mem_map.mp hmem
      cases hfront
  rw [hempty, List.append_nil] at h
  exact ⟨(sent_inj h).symm, hempty⟩

theorem fits_of_short (serialExists : Bool) (events : List Event) (count : Nat)
    (h : count + (delivered serialExists events).length < consBufSize) :
    fits serialExists count events := by
  induction events generalizing count with
  | nil => trivial
  | cons event events ih =>
    rw [delivered, List.flatMap_cons, List.length_append] at h
    refine ⟨by omega, ih _ ?_⟩
    rw [delivered]
    omega

section
variable {σ : Type} {cputchar : Int → σ → σ} {console : σ} {bytes : List UInt8} {s : Inputs σ}
  {read heard stream taken : List UInt8} {serialExists : Bool}

theorem accounts_typed {strokes : List (Stroke Key)}
    (h : Accounts cputchar console (Keyboard.sent (typed strokes)) bytes s read heard stream taken)
    (hpolled : Polled serialExists s) (hnone : serialExists = false → heard = []) :
    s.controller = [] ∧ s.driver = (decode cputchar (typed strokes) (.boot console)).2 ∧
      Interleaves (characters (produced [] strokes)) (if serialExists then characters bytes else [])
        stream := by
  obtain ⟨hread, hempty⟩ := eq_of_polled h.keyboard hpolled.keyboard
  have hstart : Tracks [] (Driver.boot console).shift := .start
  have hmerged := h.merged
  rw [hread, (hstart.decode cputchar strokes).1] at hmerged
  refine ⟨hempty, hread ▸ h.driver, ?_⟩
  cases hexists : serialExists with
  | false =>
    rw [hnone hexists] at hmerged
    exact hmerged
  | true =>
    rw [h.line, hpolled.line hexists]
    exact (List.append_nil heard).symm ▸ hmerged

variable (console) (status : UInt8) {history : List (Stroke Key)} {caps : Bool}
  (hidle : Stands history false caps) {text : List UInt8} (htext : ∀ c ∈ text, Typeable c)
  {happenings : List Happening} (hlast : happenings.getLast? = some .getc)
  (hkeys : arrivedKeys happenings = Keyboard.sent (typed (history ++ text.flatMap keystrokes)))
  (hfits : fits serialExists 0 ((Inputs.boot console status).trace cputchar serialExists
    happenings))
include hidle htext hlast hkeys hfits

/-- What is typed while other things happen, in any order: behind keys that have
left the modifiers up, a text reaches the callers of `cons_getc` as it is, with
its letters under CAPSLOCK, and whole but for the bytes of the line in between. Its
keys neither print nor reboot. -/
theorem inputs_typing :
    (∃ results s,
      (Inputs.boot console status).run cputchar serialExists
        (happenings ++ List.replicate consBufSize .getc) = .ok (results, s) ∧
      s.controller = [] ∧
      s.driver = { (decode cputchar (typed history) (.boot console)).2 with
        shift := s.driver.shift } ∧
      Interleaves (characters (produced [] history) ++ text.map (cased caps))
        (if serialExists then characters (received serialExists ⟨status, none⟩ happenings) else [])
        (characters results)) ∧
    (paced serialExists ⟨status, none⟩ happenings →
      received serialExists ⟨status, none⟩ happenings = arrivedBytes happenings) := by
  refine ⟨?_, received_paced⟩
  obtain ⟨results, s, read, heard, hrun, haccounts, hpolled, hnone⟩ :=
    inputs_drained console status hlast hfits
  rw [hkeys] at haccounts
  obtain ⟨hempty, hdriver, hmerged⟩ := accounts_typed haccounts hpolled hnone
  obtain ⟨htyped, -, hctl⟩ := hidle.text htext
  have hquiet := Tracks.decode_quiet cputchar (decode_tracks cputchar history console) hidle.ctl hctl
  refine ⟨results, s, hrun, hempty, ?_, ?_⟩
  · rw [hdriver, typed_append, decode_append]
    dsimp only
    rw [hquiet]
  · rw [produced_append, characters_append, List.nil_append, htyped] at hmerged
    exact hmerged

end

def capsStrokes : List (Stroke Key) := [.press Lock.caps.key, .release Lock.caps.key]

def capsTyping : List Happening :=
  [.key (.keyboard, 0x3A), .kbdIntr, .key (.keyboard, 0xBA), .key (.keyboard, 0x1E), .line 0x21,
   .serialIntr, .key (.keyboard, 0x9E), .getc, .key (.keyboard, 0x1C), .key (.keyboard, 0x9C), .getc]

theorem inputs_typing_caps :
    (∃ results s,
      (Inputs.boot [] 0x60).run Sink.collect true
        (capsTyping ++ List.replicate consBufSize .getc) = .ok (results, s) ∧
      s.controller = [] ∧
      s.driver = { (decode Sink.collect (typed capsStrokes) (.boot [])).2 with
        shift := s.driver.shift } ∧
      Interleaves (characters (produced [] capsStrokes) ++ [ascii 'a', 0x0a].map (cased true))
        (if true then characters (received true ⟨0x60, none⟩ capsTyping) else [])
        (characters results)) ∧
    (paced true ⟨0x60, none⟩ capsTyping →
      received true ⟨0x60, none⟩ capsTyping = arrivedBytes capsTyping) :=
  inputs_typing [] 0x60 ⟨by decide, by decide, by decide⟩ (by decide +kernel) rfl (by decide)
    (fits_of_short _ _ _ (by decide +kernel))

end JosKernel.Kern.Keyboard
