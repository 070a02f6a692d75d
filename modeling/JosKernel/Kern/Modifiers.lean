import JosKernel.General.Flags
import JosKernel.General.Strokes
import JosKernel.Kern.Keyboard

/-! The modifier keys and the locks over a whole history of the keyboard. The
two keys of a pair share one bit of `shift`, which therefore shows the latest
make or break code of the pair. -/
namespace JosKernel.Kern.Keyboard
open JosKernel.Inc JosKernel.General Stroke

/-- A key by its make code and whether an E0 goes before it. A key whose codes
would contain the prefix itself is no key. -/
structure Key where
  extended : Bool
  code : UInt8
  code_lt : code < 0x80
  not_prefix : code ≠ 0x60
  deriving DecidableEq

def indexOf (extended : Bool) (code : UInt8) : UInt8 := if extended then code ||| 0x80 else code

def Key.index (key : Key) : UInt8 := indexOf key.extended key.code

def Key.prefixed (key : Key) (data : UInt8) : List UInt8 :=
  if key.extended then [0xE0, data] else [data]

def scanCodes : Stroke Key → List UInt8
  | .press key => key.prefixed key.code
  | .release key => key.prefixed (key.code ||| 0x80)

inductive Modifier where
  | shift | ctl | alt
  deriving DecidableEq, Repr

namespace Modifier

def bit : Modifier → UInt32
  | shift => Mask.shift
  | ctl => Mask.ctl
  | alt => Mask.alt

def position : Modifier → Nat
  | shift => 0
  | ctl => 1
  | alt => 2

def has : Modifier → Key → Bool
  | shift, key => !key.extended && (key.code = 0x2A || key.code = 0x36)
  | ctl, key => key.code = 0x1D
  | alt, key => key.code = 0x38

end Modifier

inductive Lock where
  | caps | num | scroll
  deriving DecidableEq, Repr

namespace Lock

def bit : Lock → UInt32
  | caps => Mask.capsLock
  | num => Mask.numLock
  | scroll => Mask.scrollLock

def position : Lock → Nat
  | caps => 3
  | num => 4
  | scroll => 5

def key : Lock → Key
  | caps => ⟨false, 0x3A, by decide, by decide⟩
  | num => ⟨false, 0x45, by decide, by decide⟩
  | scroll => ⟨false, 0x46, by decide, by decide⟩

end Lock

theorem Modifier.bit_eq (m : Modifier) : m.bit = mask m.position := by
  cases m <;> decide

theorem Lock.bit_eq (l : Lock) : l.bit = mask l.position := by
  cases l <;> decide

theorem e0Esc_eq : Mask.e0Esc = mask 6 := by
  decide

structure Tracks (strokes : List (Stroke Key)) (shift : UInt32) : Prop where
  modifier : ∀ m : Modifier, flag m.position shift = down m.has strokes
  lock : ∀ l : Lock, flag l.position shift = decide (strokes.count (.press l.key) % 2 = 1)
  escape : flag 6 shift = false

theorem Tracks.start : Tracks [] 0 where
  modifier := fun m => by simp
  lock := fun l => by simp
  escape := by simp

@[elab_as_elim]
theorem code_cases {motive : UInt8 → Prop} (h : ∀ n < 128, motive (UInt8.ofNat n)) (code : UInt8)
    (code_lt : code < 0x80) : motive code := by
  have hcode := h code.toNat (UInt8.lt_iff_toNat_lt.mp code_lt)
  rwa [UInt8.ofNat_toNat] at hcode

theorem shiftcode_flags (extended : Bool) {code : UInt8} (h : code < 0x80) :
    let word := (shiftcode (indexOf extended code)).toUInt32
    flag 0 word = (!extended && (code = 0x2A || code = 0x36)) ∧ flag 1 word = decide (code = 0x1D) ∧
      flag 2 word = decide (code = 0x38) ∧ flag 3 word = false ∧ flag 4 word = false ∧
      flag 5 word = false ∧ flag 6 word = false := by
  refine code_cases ?_ code h
  cases extended <;> decide +kernel

theorem togglecode_flags (extended : Bool) {code : UInt8} (h : code < 0x80) :
    let word := (togglecode (indexOf extended code)).toUInt32
    flag 0 word = false ∧ flag 1 word = false ∧ flag 2 word = false ∧
      flag 3 word = (!extended && code = 0x3A) ∧ flag 4 word = (!extended && code = 0x45) ∧
      flag 5 word = (!extended && code = 0x46) ∧ flag 6 word = false := by
  refine code_cases ?_ code h
  cases extended <;> decide +kernel

theorem code_bytes {code : UInt8} (h : code < 0x80) : code ≠ 0x60 →
    code ≠ 0xE0 ∧ code &&& 0x80 = 0 ∧ code ||| 0x80 ≠ 0xE0 ∧ (code ||| 0x80) &&& 0x80 ≠ 0 ∧
      (code ||| 0x80) &&& 0x7F = code := by
  refine code_cases ?_ code h
  decide +kernel

section
variable (key : Key)

theorem Lock.decide_key (l : Lock) :
    decide (key = l.key) = (!key.extended && key.code = l.key.code) := by
  obtain ⟨extended, code, code_lt, not_prefix⟩ := key
  rw [Bool.eq_iff_iff, Bool.and_eq_true, decide_eq_true_eq, decide_eq_true_eq]
  cases l <;> simp [Lock.key]

theorem shiftcode_modifier (m : Modifier) :
    flag m.position (shiftcode key.index).toUInt32 = m.has key := by
  obtain ⟨hshift, hctl, halt, -⟩ := shiftcode_flags key.extended key.code_lt
  cases m <;> assumption

theorem shiftcode_lock (l : Lock) :
    flag l.position (shiftcode key.index).toUInt32 = false := by
  obtain ⟨-, -, -, hcaps, hnum, hscroll, -⟩ := shiftcode_flags key.extended key.code_lt
  cases l <;> assumption

theorem shiftcode_escape : flag 6 (shiftcode key.index).toUInt32 = false := by
  obtain ⟨-, -, -, -, -, -, hescape⟩ := shiftcode_flags key.extended key.code_lt
  exact hescape

theorem togglecode_modifier (m : Modifier) :
    flag m.position (togglecode key.index).toUInt32 = false := by
  obtain ⟨hshift, hctl, halt, -⟩ := togglecode_flags key.extended key.code_lt
  cases m <;> assumption

theorem togglecode_lock (l : Lock) :
    flag l.position (togglecode key.index).toUInt32 = decide (key = l.key) := by
  obtain ⟨-, -, -, hcaps, hnum, hscroll, -⟩ := togglecode_flags key.extended key.code_lt
  rw [Lock.decide_key]
  cases l <;> assumption

theorem togglecode_escape : flag 6 (togglecode key.index).toUInt32 = false := by
  obtain ⟨-, -, -, -, -, -, hescape⟩ := togglecode_flags key.extended key.code_lt
  exact hescape

end

section
variable {strokes : List (Stroke Key)} {shift : UInt32} (h : Tracks strokes shift) (key : Key)
include h

theorem Tracks.press : Tracks (strokes ++ [Stroke.press key]) (toggled key.index shift) where
  modifier := by
    intro m
    rw [toggled, flag_xor, flag_or, h.modifier, shiftcode_modifier, togglecode_modifier, down_snoc,
      Bool.xor_false]
    change (down m.has strokes || m.has key) = if m.has key = true then true else down m.has strokes
    cases m.has key <;> simp
  lock := by
    intro l
    rw [toggled, flag_xor, flag_or, h.lock, shiftcode_lock, togglecode_lock, Bool.or_false,
      List.count_append]
    by_cases hkey : key = l.key
    · rw [hkey, List.count_singleton_self]
      rcases Nat.mod_two_eq_zero_or_one (strokes.count (.press l.key)) with hmod | hmod <;>
        simp [hmod, Nat.add_mod]
    · have hstroke : (Stroke.press key == Stroke.press l.key) = false := by simp [hkey]
      rw [List.count_singleton, hstroke, decide_eq_false hkey, Bool.xor_false]
      rfl
  escape := by
    rw [toggled, flag_xor, flag_or, h.escape, shiftcode_escape, togglecode_escape]
    rfl

theorem Tracks.release : Tracks (strokes ++ [Stroke.release key])
    (shift &&& ~~~((shiftcode key.index).toUInt32 ||| Mask.e0Esc)) where
  modifier := by
    intro m
    have hne : m.position ≠ 6 := by cases m <;> decide
    have hlt : m.position < 32 := by cases m <;> decide
    rw [flag_and, flag_not hlt, flag_or, h.modifier, shiftcode_modifier, e0Esc_eq,
      flag_mask 6 _ (by decide), decide_eq_false hne, Bool.or_false, down_snoc]
    change (down m.has strokes && !m.has key) =
      if m.has key = true then false else down m.has strokes
    cases m.has key <;> simp
  lock := by
    intro l
    have hne : l.position ≠ 6 := by cases l <;> decide
    have hlt : l.position < 32 := by cases l <;> decide
    have hstroke : (Stroke.release key == Stroke.press l.key) = false := by simp
    rw [flag_and, flag_not hlt, flag_or, h.lock, shiftcode_lock, e0Esc_eq,
      flag_mask 6 _ (by decide), decide_eq_false hne, List.count_append, List.count_singleton,
      hstroke]
    simp
  escape := by
    rw [flag_and, h.escape]
    rfl

end

section
variable {σ : Type} (cputchar : Int → σ → σ)

theorem or_e0Esc_ne_zero (shift : UInt32) : (shift ||| Mask.e0Esc) &&& Mask.e0Esc ≠ 0 := by
  rw [e0Esc_eq, and_mask_ne_zero (by decide), flag_or, flag_mask 6 6 (by decide)]
  simp

def Key.lead (key : Key) : List UInt8 := if key.extended then [0] else []

theorem decode_press (key : Key) {driver : Driver σ} (h : flag 6 driver.shift = false) :
    decode cputchar (scanCodes (.press key)) driver =
      (key.lead ++ [(keyPressed cputchar key.index driver).1],
        (keyPressed cputchar key.index driver).2) := by
  obtain ⟨hne, hhigh, -⟩ := code_bytes key.code_lt key.not_prefix
  have hescape : driver.shift &&& Mask.e0Esc = 0 := (and_mask_eq_zero (by decide) _).mpr h
  have hset := or_e0Esc_ne_zero driver.shift
  have hclear : (driver.shift ||| Mask.e0Esc) &&& ~~~Mask.e0Esc = driver.shift :=
    clear_set (by decide) h
  unfold scanCodes Key.prefixed Key.lead Key.index indexOf
  cases hext : key.extended
  · simp [hext, decode, scanCode, hne, hhigh, hescape]
  · simp [hext, decode, scanCode, hne, hhigh, hset, hclear]

theorem decode_release (key : Key) {driver : Driver σ} (h : flag 6 driver.shift = false) :
    decode cputchar (scanCodes (.release key)) driver =
      (key.lead ++ [0], { driver with
        shift := driver.shift &&& ~~~((shiftcode key.index).toUInt32 ||| Mask.e0Esc) }) := by
  obtain ⟨-, -, hne, hhigh, hlow⟩ := code_bytes key.code_lt key.not_prefix
  have hescape : driver.shift &&& Mask.e0Esc = 0 := (and_mask_eq_zero (by decide) _).mpr h
  have hset := or_e0Esc_ne_zero driver.shift
  unfold scanCodes Key.prefixed Key.lead Key.index indexOf
  cases hext : key.extended
  · simp [hext, decode, scanCode, hne, hhigh, hescape, hlow]
  · simp [hext, decode, scanCode, hne, hhigh, hset, clear_or]

def typed (strokes : List (Stroke Key)) : List UInt8 := strokes.flatMap scanCodes

theorem typed_snoc (strokes : List (Stroke Key)) (stroke : Stroke Key) :
    typed (strokes ++ [stroke]) = typed strokes ++ scanCodes stroke := by
  rw [typed, List.flatMap_append, List.flatMap_singleton, typed]

theorem decode_tracks (strokes : List (Stroke Key)) (console : σ) :
    Tracks strokes (decode cputchar (typed strokes) (.boot console)).2.shift := by
  induction strokes using List.reverseRecOn with
  | nil => exact .start
  | append_singleton strokes stroke ih =>
    rw [typed_snoc, decode_append]
    cases stroke with
    | press key =>
      rw [decode_press cputchar key ih.escape]
      exact (keyPressed_shift cputchar _ _).symm ▸ ih.press key
    | release key =>
      rw [decode_release cputchar key ih.escape]
      exact ih.release key

theorem decode_typed_press (history : List (Stroke Key)) (key : Key) (console : σ) :
    ∃ chars driver, decode cputchar (typed (history ++ [Stroke.press key])) (.boot console) =
      (chars ++ [character driver.shift key.index], driver) := by
  have hescape := (decode_tracks cputchar history console).escape
  rw [typed_snoc, decode_append, decode_press cputchar key hescape, ← List.append_assoc]
  generalize (decode cputchar (typed history) (.boot console)).2 = before
  refine ⟨(decode cputchar (typed history) (.boot console)).1 ++ key.lead,
    (keyPressed cputchar key.index before).2, ?_⟩
  rw [keyPressed_shift]
  rfl

end

/-- The test of a bit that `kbd_proc_data` keeps for a class of keys. -/
theorem Tracks.modifier_iff {strokes : List (Stroke Key)} {shift : UInt32}
    (h : Tracks strokes shift) (m : Modifier) :
    shift &&& m.bit ≠ 0 ↔ down m.has strokes = true := by
  have hlt : m.position < 32 := by cases m <;> decide
  rw [m.bit_eq, and_mask_ne_zero hlt, h.modifier]

theorem Tracks.lock_iff {strokes : List (Stroke Key)} {shift : UInt32} (h : Tracks strokes shift)
    (l : Lock) : shift &&& l.bit ≠ 0 ↔ strokes.count (.press l.key) % 2 = 1 := by
  have hlt : l.position < 32 := by cases l <;> decide
  rw [l.bit_eq, and_mask_ne_zero hlt, h.lock, decide_eq_true_eq]

def table (ctl shift : Bool) : UInt8 → UInt8 :=
  if ctl then ctlmap else if shift then shiftmap else normalmap

theorem charcode_eq (shift : UInt32) :
    charcode (shift &&& (Mask.ctl ||| Mask.shift)) = table (flag 1 shift) (flag 0 shift) := by
  have hctl : Mask.ctl = mask 1 := Modifier.bit_eq .ctl
  have hshift : Mask.shift = mask 0 := Modifier.bit_eq .shift
  rw [and_or, hctl, hshift, and_mask (by decide), and_mask (by decide)]
  cases flag 1 shift <;> cases flag 0 shift <;> rfl

/-- Every make code is decoded with the bits that show the latest codes of each
pair of keys, and the table is the one for these bits. A bit that is set means a
key that is held; the converse holds where no key of a pair is released while
the other one is held. -/
theorem kbdProcData_modifiers {σ : Type} (cputchar : Int → σ → σ) (history : List (Stroke Key))
    (key : Key) (waiting : Controller) (console : σ) :
    ∃ (chars : List UInt8) (c : UInt8) (driver : Driver σ),
      Yields (kbdProcData cputchar)
        (sent (typed (history ++ [Stroke.press key])) ++ waiting, .boot console) (chars ++ [c])
        (waiting, driver) ∧
      (∀ m : Modifier,
        (driver.shift &&& m.bit ≠ 0 ↔ down m.has (history ++ [Stroke.press key]) = true) ∧
        (driver.shift &&& m.bit ≠ 0 →
          ∃ k, m.has k = true ∧ Held k (history ++ [Stroke.press key])) ∧
        (ReleasedAlone m.has (history ++ [Stroke.press key]) →
          (driver.shift &&& m.bit ≠ 0 ↔
            ∃ k, m.has k = true ∧ Held k (history ++ [Stroke.press key])))) ∧
      let plain := table (down Modifier.ctl.has (history ++ [Stroke.press key]))
        (down Modifier.shift.has (history ++ [Stroke.press key])) key.index
      c = if driver.shift &&& Mask.capsLock ≠ 0 then swapCase plain else plain := by
  have htracks := decode_tracks cputchar (history ++ [Stroke.press key]) console
  have hyields :=
    kbdProcData_yields cputchar (typed (history ++ [Stroke.press key])) waiting (.boot console)
  obtain ⟨chars, driver, hdecode⟩ := decode_typed_press cputchar history key console
  rw [hdecode] at htracks hyields
  refine ⟨chars, character driver.shift key.index, driver, hyields, fun m => ⟨?_, ?_, ?_⟩, ?_⟩
  · exact htracks.modifier_iff m
  · intro hbit
    exact exists_held_of_down ((htracks.modifier_iff m).mp hbit)
  · intro halone
    exact (htracks.modifier_iff m).trans (down_iff_exists_held halone)
  · have hctl : flag 1 driver.shift = down Modifier.ctl.has (history ++ [Stroke.press key]) :=
      htracks.modifier .ctl
    have hshift : flag 0 driver.shift = down Modifier.shift.has (history ++ [Stroke.press key]) :=
      htracks.modifier .shift
    rw [character, charcode_eq, hctl, hshift]

/-- Whatever is decoded for a history, the bits show the keys that are held. -/
def FollowsHeld (strokes : List (Stroke Key)) : Prop :=
  ∀ (chars : List UInt8) (driver : Driver (List Int)),
    Yields (kbdProcData Sink.collect) (sent (typed strokes), .boot []) chars ([], driver) →
    ∀ m : Modifier, driver.shift &&& m.bit ≠ 0 ↔ ∃ key, m.has key = true ∧ Held key strokes

def leftShift : Key := ⟨false, 0x2A, by decide, by decide⟩
def rightShift : Key := ⟨false, 0x36, by decide, by decide⟩
def keyA : Key := ⟨false, 0x1E, by decide, by decide⟩

/-- Both shift keys are pressed and the right one is released: the `a` that is
typed then is a small letter, although the left one is still held. -/
theorem kbdProcData_not_followsHeld :
    ¬∀ (history : List (Stroke Key)) (key : Key), Physical (history ++ [Stroke.press key]) →
      FollowsHeld (history ++ [Stroke.press key]) := by
  intro hall
  let before := [] ++ [Stroke.press leftShift] ++ [Stroke.press rightShift]
  have hheld : Held rightShift before := by decide
  have hphysical : Physical (before ++ [Stroke.release rightShift] ++ [Stroke.press keyA]) :=
    (((Physical.press Releases.nil leftShift).press rightShift).release hheld).press keyA
  have hyields := kbdProcData_yields Sink.collect
    (typed (before ++ [Stroke.release rightShift] ++ [Stroke.press keyA])) [] (.boot [])
  rw [List.append_nil] at hyields
  have hbit := (hall _ keyA hphysical _ _ hyields .shift).mpr ⟨leftShift, by decide, by decide⟩
  rw [(decode_tracks Sink.collect _ []).modifier_iff] at hbit
  revert hbit
  decide

/-- Once no modifier key is held, no modifier bit and no escape is left, and the
locks show the parity of their make codes. -/
theorem kbdProcData_no_stuck {σ : Type} (cputchar : Int → σ → σ) (strokes : List (Stroke Key))
    (h : ∀ (m : Modifier) (key : Key), m.has key = true → ¬Held key strokes)
    (waiting : Controller) (console : σ) :
    ∃ (chars : List UInt8) (driver : Driver σ),
      Yields (kbdProcData cputchar) (sent (typed strokes) ++ waiting, .boot console) chars
        (waiting, driver) ∧
      driver.shift &&& Mask.shift = 0 ∧ driver.shift &&& Mask.ctl = 0 ∧
      driver.shift &&& Mask.alt = 0 ∧ driver.shift &&& Mask.e0Esc = 0 ∧
      ∀ l : Lock, driver.shift &&& l.bit ≠ 0 ↔ strokes.count (.press l.key) % 2 = 1 := by
  have htracks := decode_tracks cputchar strokes console
  have hclear (m : Modifier) :
      (decode cputchar (typed strokes) (.boot console)).2.shift &&& m.bit = 0 := by
    apply Decidable.not_not.mp
    rw [← ne_eq, htracks.modifier_iff, down_eq_false (h m)]
    exact Bool.false_ne_true
  refine ⟨_, _, kbdProcData_yields cputchar (typed strokes) waiting (.boot console),
    hclear .shift, hclear .ctl, hclear .alt, ?_, htracks.lock_iff⟩
  rw [e0Esc_eq, and_mask_eq_zero (by decide)]
  exact htracks.escape

def capsUnderShift : List (Stroke Key) :=
  [] ++ [Stroke.press leftShift] ++ [Stroke.press Lock.caps.key] ++ [Stroke.release leftShift]

theorem kbdProcData_no_stuck_caps :
    ∃ (chars : List UInt8) (driver : Driver (List Int)),
      Yields (kbdProcData Sink.collect) (sent (typed capsUnderShift) ++ [], .boot []) chars
        ([], driver) ∧
      driver.shift &&& Mask.shift = 0 ∧ driver.shift &&& Mask.ctl = 0 ∧
      driver.shift &&& Mask.alt = 0 ∧ driver.shift &&& Mask.e0Esc = 0 ∧
      ∀ l : Lock, driver.shift &&& l.bit ≠ 0 ↔ capsUnderShift.count (.press l.key) % 2 = 1 := by
  refine kbdProcData_no_stuck Sink.collect capsUnderShift (fun m key hhas hheld => ?_) [] []
  rw [capsUnderShift, held_release, held_press, held_press] at hheld
  obtain ⟨hshift, hcaps | hother | hnone⟩ := hheld
  · rw [← hcaps] at hhas
    revert hhas
    cases m <;> decide
  · exact hshift hother
  · cases hnone

end JosKernel.Kern.Keyboard
