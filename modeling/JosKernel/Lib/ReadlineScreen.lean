import JosKernel.Kern.Mirror
import JosKernel.Lib.Readline

/-! The line that `readline` reads, on the screen: its characters are the cells
just before the cursor, also when the screen scrolls under it. -/
namespace JosKernel.Lib.Readline
open JosKernel.Inc JosKernel.Kern JosKernel.General

def onConsole (device : Device) (c : Int) (console : Except Fault Console) :
    Except Fault Console :=
  console >>= fun s => cputchar device (UInt32.ofInt c) s

section
variable {σ : Type} (cputchar : Int → σ → σ)

def prompted (prompt : Option (List UInt8)) (console : σ) : Except Fault σ :=
  match prompt with
  | some text => do
    let (_, console) ← cprintf cputchar (cstr "%s".toList) [.str (some text)] console
    pure console
  | none => pure console

theorem readline_prompted (prompt : Option (List UInt8)) (input : List Int) (buf : List UInt8)
    (console : σ) :
    readline cputchar prompt input buf console = (do
      let console ← prompted cputchar prompt console
      Loop.run .unfinished (readlineRound cputchar (iscons 0 ≠ 0)) (input.length + 1)
        ⟨input, buf, 0, console⟩) := by
  cases prompt with
  | none => rfl
  | some text =>
    unfold readline prompted
    dsimp only
    cases cprintf cputchar (cstr "%s".toList) [.str (some text)] console <;> rfl

end

def cellOf (byte : UInt8) : UInt16 := 0x0700 ||| byte.toUInt16

theorem ofInt_toNat (key : UInt8) : UInt32.ofInt (key.toNat : Int) = key.toUInt32 := by
  have hlt := key.toNat_lt
  have hmod : ((key.toNat : Int) % 2 ^ 32).toNat = key.toNat := by omega
  apply UInt32.toNat_inj.mp
  rw [UInt32.ofInt, hmod, UInt32.toNat_ofNat_of_lt' (show key.toNat < 2 ^ 32 by omega),
    UInt8.toNat_toUInt32]

theorem withAttribute_key (key : UInt8) :
    withAttribute key.toUInt32 = key.toUInt32 ||| 0x0700 := by
  have hhigh : key.toUInt32 &&& ~~~0xFF = 0 := by
    apply UInt32.toNat_inj.mp
    rw [@toNat_and_not_low 0xFF 8 rfl, UInt8.toNat_toUInt32, Nat.div_eq_of_lt key.toNat_lt,
      Nat.zero_mul]
    rfl
  rw [withAttribute, if_pos hhigh]

theorem toUInt16_key (key : UInt8) : (withAttribute key.toUInt32).toUInt16 = cellOf key := by
  rw [withAttribute_key, UInt32.toUInt16_or, UInt8.toUInt16_toUInt32, UInt16.or_comm]
  rfl

section
variable (device : Device)

theorem onConsole_shows {c : Console} {t : Crt} (h : Shows c t) (ch : Int) :
    ∃ c', onConsole device ch (.ok c) = .ok c' ∧ Shows c' (typed t (UInt32.ofInt ch)) := by
  obtain ⟨c', hputc, hshows, -⟩ :=
    cgaPutc_shows device (UInt32.ofInt ch) (h.mirrored device (UInt32.ofInt ch))
  exact ⟨c', hputc, hshows⟩

theorem feed_onConsole {c : Console} {t : Crt} (h : Shows c t) (out : List Int) :
    ∃ c' t', Sink.feed (onConsole device) (.ok c) out = .ok c' ∧ Shows c' t' := by
  induction out generalizing c t with
  | nil => exact ⟨c, t, rfl, h⟩
  | cons ch out ih =>
    obtain ⟨c₁, hputc, hshows⟩ := onConsole_shows device h ch
    rw [Sink.feed_cons, hputc]
    exact ih hshows

theorem prompted_shows {c : Console} {t : Crt} (h : Shows c t) {prompt : Option (List UInt8)}
    (hprompt : Prompt prompt) :
    ∃ c' t', prompted (onConsole device) prompt (.ok c) = .ok (.ok c') ∧ Shows c' t' := by
  cases prompt with
  | none => exact ⟨c, t, rfl, h⟩
  | some text =>
    obtain ⟨out, hprint⟩ := prompt_printed (onConsole device) (hprompt text rfl) (.ok c)
    obtain ⟨c', t', hfeed, hshows⟩ := feed_onConsole device h out
    refine ⟨c', t', ?_, hshows⟩
    simp only [prompted, hprint, hfeed, bind, Except.bind, pure, Except.pure]

def Displays (line : List UInt8) (console : Except Fault Console) : Prop :=
  ∃ c t, console = .ok c ∧ Shows c t ∧ Terminal.Ends (line.map cellOf) t

def Blank (console : Except Fault Console) : Prop :=
  ∃ c, console = .ok c ∧ c.crtBuf[c.crtPos.toNat]? = some blankCell

theorem shows_cursor {c : Console} {t : Crt} (h : Shows c t) :
    c.crtBuf[c.crtPos.toNat]? = some (t.screen t.row t.col) := by
  rw [h.pos]
  exact h.flat.cell t.row t.col

theorem echoed_displays {line : List UInt8} {console : Except Fault Console}
    (h : Displays line console) (key : UInt8) :
    Displays (keep line key) (echoed (onConsole device) true line key console) ∧
      ((key = 0x08 ∨ key = 0x7f) ∧ line ≠ [] →
        Blank (echoed (onConsole device) true line key console)) := by
  obtain ⟨c, t, rfl, hshows, hends⟩ := h
  unfold keep echoed echo
  rw [if_pos rfl, if_pos rfl]
  by_cases herase : (key = 0x08 ∨ key = 0x7f) ∧ line ≠ []
  · rw [if_pos herase, if_pos herase]
    obtain ⟨c', hputc, hshows'⟩ := onConsole_shows device hshows 0x08
    rw [← List.dropLast_concat_getLast herase.2, List.map_append] at hends
    obtain ⟨hleft, hblank⟩ := hends.backspace blankCell
    exact ⟨⟨c', _, hputc, hshows', hleft⟩, fun _ => ⟨c', hputc, hblank ▸ shows_cursor hshows'⟩⟩
  rw [if_neg herase, if_neg herase]
  by_cases happend : 0x20 ≤ key ∧ line.length < 1023
  · rw [if_pos happend, if_pos happend]
    obtain ⟨c', hputc, hshows'⟩ := onConsole_shows device hshows key.toNat
    refine ⟨⟨c', _, hputc, hshows', ?_⟩, fun hkey => absurd hkey herase⟩
    have hplain : typed t (UInt32.ofInt key.toNat) = t.put blankCell (cellOf key) := by
      have hchar : (UInt32.ofInt key.toNat).toUInt8 = key := by
        rw [ofInt_toNat]
        exact UInt8.toUInt8_toUInt32 key
      have hne : ∀ code : UInt8, code < 0x20 → key ≠ code := by
        rintro code hcode rfl
        exact absurd happend.1 (UInt8.not_le.mpr hcode)
      unfold typed
      rw [hchar, if_neg (hne 0x08 (by decide)), if_neg (hne 0x0a (by decide)),
        if_neg (hne 0x0d (by decide)), if_neg (hne 0x09 (by decide)), ofInt_toNat, toUInt16_key]
    have hfit : (line.map cellOf).length + 1 + 80 ≤ 25 * 80 := by
      rw [List.length_map]
      omega
    rw [hplain, List.map_append]
    exact hends.put blankCell (cellOf key) hfit
  · rw [if_neg happend, if_neg happend]
    exact ⟨⟨c, t, rfl, hshows, hends⟩, fun hkey => absurd hkey herase⟩

structure Editing (line keys : List UInt8) (s : Editor (Except Fault Console)) : Prop where
  input : s.input = codes keys
  holds : Holds line s
  displays : Displays line s.console

theorem Editing.round {line keys : List UInt8} {s s' : Editor (Except Fault Console)}
    (h : Editing line keys s)
    (hround : readlineRound (onConsole device) true s = .ok (.inl s')) :
    ∃ key rest, keys = key :: rest ∧ Editing (keep line key) rest s' ∧
      ((key = 0x08 ∨ key = 0x7f) ∧ line ≠ [] → Blank s'.console) := by
  cases keys with
  | nil =>
    rw [readlineRound, h.input] at hround
    cases hround
  | cons key rest =>
    have hends : key ≠ 0x0a ∧ key ≠ 0x0d := by
      apply not_or.mp
      intro henter
      have hcode : (key.toNat : Int) = 0x0a ∨ (key.toNat : Int) = 0x0d := by
        rcases henter with rfl | rfl
        · exact Or.inl rfl
        · exact Or.inr rfl
      obtain ⟨text, s₁, hdone, -⟩ :=
        readlineRound_enter (onConsole device) true h.holds h.input hcode
      rw [hround] at hdone
      cases hdone
    obtain ⟨next, hnext, hinput, hconsole, hholds⟩ :=
      readlineRound_key (onConsole device) true h.holds h.input hends.1 hends.2
    rw [hround] at hnext
    cases hnext
    obtain ⟨hdisplays, hblank⟩ := echoed_displays device h.displays key
    exact ⟨key, rest, rfl, ⟨hinput, hholds, hconsole ▸ hdisplays⟩, hconsole ▸ hblank⟩

theorem Editing.next {line keys : List UInt8} {s : Editor (Except Fault Console)}
    (h : Editing line keys s) {key : Int} (hkey : s.input.head? = some key) (hlf : key ≠ 0x0a)
    (hcr : key ≠ 0x0d) : ∃ s', readlineRound (onConsole device) true s = .ok (.inl s') := by
  have hinput := h.input
  cases keys with
  | nil =>
    rw [hinput] at hkey
    cases hkey
  | cons byte rest =>
    rw [hinput] at hkey
    cases hkey
    obtain ⟨s', hround, -⟩ := readlineRound_key (onConsole device) true h.holds hinput
      (fun heq => hlf (by rw [heq]; rfl)) (fun heq => hcr (by rw [heq]; rfl))
    exact ⟨s', hround⟩

end

/-- The `i` cells before the cursor show the first `i` bytes of the buffer. -/
def ShowsLine (s : Editor (Except Fault Console)) : Prop :=
  ∃ c, s.console = .ok c ∧ s.i ≤ c.crtPos.toNat ∧ ∀ k < s.i, ∃ byte,
    s.buf[k]? = some byte ∧ c.crtBuf[c.crtPos.toNat - s.i + k]? = some (cellOf byte)

def Erases (s : Editor (Except Fault Console)) : Prop :=
  (s.input.head? = some 0x08 ∨ s.input.head? = some 0x7f) ∧ 0 < s.i

theorem Editing.shows {line keys : List UInt8} {s : Editor (Except Fault Console)}
    (h : Editing line keys s) : ShowsLine s := by
  obtain ⟨c, t, hconsole, hshows, hends⟩ := h.displays
  have hlength : (line.map cellOf).length = s.i := by
    rw [List.length_map]
    exact h.holds.index.symm
  have hpos := hshows.pos
  have hfits := hends.fits
  rw [hlength, ← hpos] at hfits
  refine ⟨c, hconsole, hfits, fun k hk => ?_⟩
  have hkey : s.buf[k]? = (line)[k]? := by
    rw [← h.holds.text, List.getElem?_take_of_lt hk]
  have hlt : k < line.length := by
    rw [← h.holds.index]
    exact hk
  refine ⟨line.get ⟨k, hlt⟩, hkey.trans (List.getElem?_eq_getElem hlt), ?_⟩
  have hplace : t.place < 2000 := t.place_lt
  have hindex : c.crtPos.toNat - s.i + k < 2000 := by omega
  have hcell := hshows.flat.cell ⟨(c.crtPos.toNat - s.i + k) / 80, by omega⟩
    ⟨(c.crtPos.toNat - s.i + k) % 80, by omega⟩
  dsimp only at hcell
  rw [Nat.div_add_mod'] at hcell
  rw [hcell]
  refine congrArg some (hends.cell _ _ k _ ?_ ?_)
  · rw [List.getElem?_map, List.getElem?_eq_getElem hlt]
    rfl
  · rw [hlength]
    dsimp only
    rw [Nat.div_add_mod', ← hpos]
    omega

/-- From any cursor on the screen, whatever the prompt: after every byte the
line is on the screen, and what a byte erases is blank. -/
theorem readline_shows_line (device : Device) (c : Console) (hbuf : c.crtBuf.length = crtSize)
    (hpos : c.crtPos.toNat < crtSize) (prompt : Option (List UInt8)) (hprompt : Prompt prompt)
    (buf : List UInt8) (hsize : buf.length = bufLen) (keys : List UInt8) :
    ∃ shown, prompted (onConsole device) prompt (.ok c) = .ok shown ∧
      ∀ s, Loop.Reaches (readlineRound (onConsole device) (iscons 0 ≠ 0))
          ⟨codes keys, buf, 0, shown⟩ s →
        ShowsLine s ∧
        (∀ key, s.input.head? = some key → key ≠ 0x0a → key ≠ 0x0d →
          ∃ s', readlineRound (onConsole device) (iscons 0 ≠ 0) s = .ok (.inl s')) ∧
        ∀ s', readlineRound (onConsole device) (iscons 0 ≠ 0) s = .ok (.inl s') → Erases s →
          Blank s'.console := by
  obtain ⟨t, hshows⟩ := exists_shows hbuf hpos
  obtain ⟨c', t', hprompted, hshows'⟩ := prompted_shows device hshows hprompt
  refine ⟨.ok c', hprompted, fun s hreach => ?_⟩
  have hediting : ∃ line rest, Editing line rest s := by
    apply hreach.invariant
    · exact ⟨[], keys, rfl, ⟨hsize, rfl, by decide, rfl⟩, c', t', rfl, hshows', .nil t'⟩
    · intro s s' ⟨line, rest, h⟩ hround
      obtain ⟨key, rest', -, hnext, -⟩ := h.round device hround
      exact ⟨_, rest', hnext⟩
  obtain ⟨line, rest, h⟩ := hediting
  refine ⟨h.shows, fun key hkey hlf hcr => h.next device hkey hlf hcr, fun s' hround herases => ?_⟩
  obtain ⟨key, rest', hrest, -, hblank⟩ := h.round device hround
  apply hblank
  have hhead : s.input.head? = some (key.toNat : Int) := by
    rw [h.input, hrest]
    rfl
  obtain ⟨hkey, hsome⟩ := herases
  rw [hhead, Option.some.injEq, Option.some.injEq] at hkey
  refine ⟨hkey.imp (key_eq_iff key 0x08 (by decide)).mp (key_eq_iff key 0x7f (by decide)).mp, ?_⟩
  rw [h.holds.index] at hsome
  exact List.length_pos_iff.mp hsome

theorem readline_shows_line_last :
    ∃ shown, prompted (onConsole fun _ _ => 0xFF) (some (cstr "K> ".toList))
        (.ok ⟨⟨0, []⟩, 0x3D4, List.replicate 2000 blankCell, 1999⟩) = .ok shown ∧
      ∀ s, Loop.Reaches (readlineRound (onConsole fun _ _ => 0xFF) (iscons 0 ≠ 0))
          ⟨codes [0x61, 0x62, 0x08], List.replicate 1024 0, 0, shown⟩ s →
        ShowsLine s ∧
        (∀ key, s.input.head? = some key → key ≠ 0x0a → key ≠ 0x0d →
          ∃ s', readlineRound (onConsole fun _ _ => 0xFF) (iscons 0 ≠ 0) s = .ok (.inl s')) ∧
        ∀ s', readlineRound (onConsole fun _ _ => 0xFF) (iscons 0 ≠ 0) s = .ok (.inl s') →
          Erases s → Blank s'.console := by
  refine readline_shows_line (fun _ _ => 0xFF) ⟨⟨0, []⟩, 0x3D4, List.replicate 2000 blankCell, 1999⟩
    List.length_replicate (by decide) (some (cstr "K> ".toList)) ?_ (List.replicate 1024 0)
    List.length_replicate [0x61, 0x62, 0x08]
  intro text htext
  cases htext
  decide

end JosKernel.Lib.Readline
