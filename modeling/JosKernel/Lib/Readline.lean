import JosKernel.Kern.ConsoleInput
import JosKernel.Kern.Printf

/-! `lib/readline.c`: the line editor of the kernel monitor. -/
namespace JosKernel.Lib.Readline
open JosKernel.Inc JosKernel.Kern JosKernel.General

def bufLen : Nat := 1024

/-- What `readline` works on: the results that `getchar` has yet to return, the
static buffer with its index, and the console. -/
structure Editor (σ : Type) where
  input : List Int
  buf : List UInt8
  i : Nat
  console : σ

section
variable {σ : Type} (cputchar : Int → σ → σ) (echoing : Bool)

def echo (c : Int) (console : σ) : σ := if echoing then cputchar c console else console

def readlineRound (s : Editor σ) : Except Fault (Editor σ ⊕ (Option (List UInt8) × Editor σ)) :=
  match s.input with
  | [] => .error .unfinished
  | c :: input =>
    if c < 0 then do
      let (_, console) ← cprintf cputchar (cstr "read error: %e\n".toList) [.int (UInt32.ofInt c)]
        s.console
      return .inr (none, { s with input, console })
    else if (c = 0x08 ∨ c = 0x7f) ∧ 0 < s.i then
      return .inl { s with input, i := s.i - 1, console := echo cputchar echoing 0x08 s.console }
    else if 0x20 ≤ c ∧ s.i < bufLen - 1 then do
      let buf ← store s.buf s.i (UInt8.ofInt c)
      return .inl ⟨input, buf, s.i + 1, echo cputchar echoing c s.console⟩
    else if c = 0x0a ∨ c = 0x0d then do
      let buf ← store s.buf s.i 0
      return .inr (some buf, ⟨input, buf, s.i, echo cputchar echoing 0x0a s.console⟩)
    else
      return .inl { s with input }

/-- The text that `readline` returns is in the buffer; `none` stands for `NULL`. -/
def readline (prompt : Option (List UInt8)) (input : List Int) (buf : List UInt8) (console : σ) :
    Except Fault (Option (List UInt8) × Editor σ) := do
  let console ← match prompt with
    | some text => do
      let (_, console) ← cprintf cputchar (cstr "%s".toList) [.str (some text)] console
      pure console
    | none => pure console
  let echoing := iscons 0 ≠ 0
  Loop.run .unfinished (readlineRound cputchar echoing) (input.length + 1) ⟨input, buf, 0, console⟩

end

def edit (line : List UInt8) (key : UInt8) : List UInt8 :=
  if key = 0x08 ∨ key = 0x7f then line.dropLast
  else if 0x20 ≤ key ∧ line.length < 1023 then line ++ [key]
  else line

/-- What `readline` does to the line instead: it takes DEL for a character when
there is nothing to remove. -/
def keep (line : List UInt8) (key : UInt8) : List UInt8 :=
  if (key = 0x08 ∨ key = 0x7f) ∧ line ≠ [] then line.dropLast
  else if 0x20 ≤ key ∧ line.length < 1023 then line ++ [key]
  else line

def count (number : Nat) (key : UInt8) : Nat :=
  if (key = 0x08 ∨ key = 0x7f) ∧ 0 < number then number - 1
  else if 0x20 ≤ key ∧ number < 1023 then number + 1
  else number

def codes (keys : List UInt8) : List Int := keys.map fun key => (key.toNat : Int)

def Typed (keys : List UInt8) : Prop := ∀ key ∈ keys, key ≠ 0 ∧ key ≠ 0x0a ∧ key ≠ 0x0d

instance (keys : List UInt8) : Decidable (Typed keys) :=
  List.decidableBAll _ keys

structure Holds (line : List UInt8) (s : Editor σ) : Prop where
  size : s.buf.length = bufLen
  index : s.i = line.length
  room : line.length < bufLen
  text : s.buf.take s.i = line

section
variable {σ : Type} (cputchar : Int → σ → σ) (echoing : Bool)

theorem key_eq_iff (key : UInt8) (code : Nat) (hcode : code < 256) :
    (key.toNat : Int) = code ↔ key = UInt8.ofNat code := by
  rw [← UInt8.toNat_inj, UInt8.toNat_ofNat_of_lt' hcode]
  exact Int.ofNat_inj

theorem Holds.index_lt {line : List UInt8} {s : Editor σ} (h : Holds line s) :
    s.i < s.buf.length := by
  rw [h.size, h.index]
  exact h.room

def echoed (line : List UInt8) (key : UInt8) (console : σ) : σ :=
  if (key = 0x08 ∨ key = 0x7f) ∧ line ≠ [] then echo cputchar echoing 0x08 console
  else if 0x20 ≤ key ∧ line.length < 1023 then echo cputchar echoing key.toNat console
  else console

theorem readlineRound_key {line : List UInt8} {s : Editor σ} (h : Holds line s) {key : UInt8}
    {input : List Int} (hinput : s.input = (key.toNat : Int) :: input)
    (hlf : key ≠ 0x0a) (hcr : key ≠ 0x0d) :
    ∃ s', readlineRound cputchar echoing s = .ok (.inl s') ∧ s'.input = input ∧
      s'.console = echoed cputchar echoing line key s.console ∧ Holds (keep line key) s' := by
  have hbs := key_eq_iff key 0x08 (by decide)
  have hdel := key_eq_iff key 0x7f (by decide)
  have hnl := key_eq_iff key 0x0a (by decide)
  have hret := key_eq_iff key 0x0d (by decide)
  have hblank : (0x20 : Int) ≤ key.toNat ↔ 0x20 ≤ key := by
    rw [UInt8.le_iff_toNat_le]
    exact Int.ofNat_le
  have hsome : 0 < s.i ↔ line ≠ [] := by
    rw [h.index]
    exact List.length_pos_iff
  simp only [readlineRound, hinput]
  rw [if_neg (by omega)]
  unfold keep echoed
  by_cases herase : (key = 0x08 ∨ key = 0x7f) ∧ line ≠ []
  · rw [if_pos herase, if_pos herase, if_pos ⟨Or.imp hbs.mpr hdel.mpr herase.1, hsome.mpr herase.2⟩]
    refine ⟨_, rfl, rfl, rfl, h.size, ?_, ?_, ?_⟩
    · rw [List.length_dropLast, ← h.index]
    · rw [List.length_dropLast]
      exact Nat.lt_of_le_of_lt (Nat.sub_le _ _) h.room
    · dsimp only
      rw [← List.dropLast_take h.index_lt, h.text]
  · rw [if_neg herase, if_neg herase,
      if_neg fun ⟨hkey, hi⟩ => herase ⟨Or.imp hbs.mp hdel.mp hkey, hsome.mp hi⟩]
    by_cases happend : 0x20 ≤ key ∧ line.length < 1023
    · have hstore : store s.buf s.i (UInt8.ofInt key.toNat) = .ok (s.buf.set s.i key) := by
        rw [store, if_pos h.index_lt, ofInt_byte]
      rw [if_pos happend, if_pos happend, if_pos ⟨hblank.mpr happend.1, h.index ▸ happend.2⟩,
        hstore]
      refine ⟨_, rfl, rfl, rfl, ?_, ?_, ?_, ?_⟩
      · exact List.length_set.trans h.size
      · rw [List.length_append, List.length_singleton, ← h.index]
      · rw [List.length_append, List.length_singleton]
        exact Nat.succ_lt_succ happend.2
      · dsimp only
        rw [List.take_add_one, List.take_set_of_le (Nat.le_refl _), h.text,
          List.getElem?_set_self h.index_lt]
        rfl
    · have hfull : ¬((0x20 : Int) ≤ key.toNat ∧ s.i < bufLen - 1) := by
        rw [h.index, hblank]
        exact happend
      rw [if_neg happend, if_neg happend, if_neg hfull,
        if_neg fun hend => hend.elim (hlf ∘ hnl.mp) (hcr ∘ hret.mp)]
      exact ⟨_, rfl, rfl, rfl, h.size, h.index, h.room, h.text⟩

theorem readlineRound_enter {line : List UInt8} {s : Editor σ} (h : Holds line s) {enter : Int}
    {input : List Int} (hinput : s.input = enter :: input) (henter : enter = 0x0a ∨ enter = 0x0d) :
    ∃ text s', readlineRound cputchar echoing s = .ok (.inr (some text, s')) ∧
      line ++ [0] <+: text := by
  have hstore : store s.buf s.i 0 = .ok (s.buf.set s.i 0) := if_pos h.index_lt
  simp only [readlineRound, hinput]
  rw [if_neg (by omega), if_neg (by omega), if_neg (by omega), if_pos henter, hstore]
  refine ⟨_, _, rfl, ?_⟩
  rw [List.prefix_iff_eq_take, List.length_append, List.length_singleton, ← h.index,
    List.take_add_one, List.take_set_of_le (Nat.le_refl _), h.text,
    List.getElem?_set_self h.index_lt]
  rfl

theorem readline_loop {keys line : List UInt8} (hkeys : Typed keys) {enter : Int}
    (henter : enter = 0x0a ∨ enter = 0x0d) {s : Editor σ} (h : Holds line s)
    (hinput : s.input = codes keys ++ [enter]) :
    ∃ text s', Loop.run .unfinished (readlineRound cputchar echoing) (keys.length + 2) s =
        .ok (some text, s') ∧ keys.foldl keep line ++ [0] <+: text := by
  induction keys generalizing line s with
  | nil =>
    obtain ⟨text, s', hround, htext⟩ := readlineRound_enter cputchar echoing h hinput henter
    exact ⟨text, s', Loop.run_done hround _, htext⟩
  | cons key keys ih =>
    obtain ⟨hkey, hrest⟩ := List.forall_mem_cons.mp hkeys
    obtain ⟨next, hround, hnext, -, hholds⟩ :=
      readlineRound_key cputchar echoing h hinput hkey.2.1 hkey.2.2
    obtain ⟨text, s', hrun, htext⟩ := ih hrest hholds hnext
    refine ⟨text, s', ?_, htext⟩
    rw [List.length_cons, Loop.run_next hround]
    exact hrun

def Prompt (prompt : Option (List UInt8)) : Prop := ∀ text, prompt = some text → Terminated text

theorem prompt_printed {text : List UInt8} (h : Terminated text) (console : σ) :
    ∃ out, cprintf cputchar (cstr "%s".toList) [.str (some text)] console =
      .ok (0, Sink.feed cputchar console out) := by
  have hmatching : Matching (cstr "%s".toList) [.str (some text)] := by
    change ((takes .start [.str (some text)] .string).map (matching [0] .text)).getD false = true
    simp only [takes, takesStr, if_pos h]
    rfl
  obtain ⟨out, hout, -⟩ := vprintfmt_matching hmatching
  refine ⟨out, ?_⟩
  rw [cprintf, vcprintf_eq cputchar hout]
  rfl

theorem readline_eq (prompt : Option (List UInt8)) (hprompt : Prompt prompt) (keys : List UInt8)
    (hkeys : Typed keys) (enter : Int) (henter : enter = 0x0a ∨ enter = 0x0d) (buf : List UInt8)
    (hbuf : buf.length = bufLen) (console : σ) :
    ∃ text s, readline cputchar prompt (codes keys ++ [enter]) buf console =
      .ok (some text, s) ∧ keys.foldl keep [] ++ [0] <+: text := by
  have hstart : ∀ shown : σ, Holds [] ⟨codes keys ++ [enter], buf, 0, shown⟩ := fun shown =>
    ⟨hbuf, rfl, by decide, rfl⟩
  have hfuel : (codes keys ++ [enter]).length + 1 = keys.length + 2 := by simp [codes]
  unfold readline
  rw [hfuel]
  cases prompt with
  | none => exact readline_loop cputchar _ hkeys henter (hstart console) rfl
  | some text =>
    obtain ⟨out, hprint⟩ := prompt_printed cputchar (hprompt text rfl) console
    simp only [hprint, bind, Except.bind, pure, Except.pure]
    exact readline_loop cputchar _ hkeys henter (hstart (Sink.feed cputchar console out)) rfl

theorem readlineRound_index {s s' : Editor σ} (h : s.i < bufLen)
    (hround : readlineRound cputchar echoing s = .ok (.inl s')) : s'.i < bufLen := by
  unfold readlineRound at hround
  cases hinput : s.input with
  | nil =>
    rw [hinput] at hround
    cases hround
  | cons c input =>
    simp only [hinput] at hround
    split at hround
    · obtain ⟨p, -, hround⟩ := exists_of_bind_eq_ok hround
      cases hround
    split at hround
    · cases hround
      exact Nat.lt_of_le_of_lt (Nat.sub_le _ _) h
    split at hround
    · next happend =>
      obtain ⟨buf, -, hround⟩ := exists_of_bind_eq_ok hround
      cases hround
      exact Nat.add_lt_of_lt_sub happend.2
    split at hround
    · obtain ⟨buf, -, hround⟩ := exists_of_bind_eq_ok hround
      cases hround
    · cases hround
      exact h

end

theorem length_keep (line : List UInt8) (key : UInt8) :
    (keep line key).length = count line.length key := by
  have hsome : 0 < line.length ↔ line ≠ [] := List.length_pos_iff
  unfold keep count
  simp only [hsome]
  split
  · exact List.length_dropLast
  · split
    · rw [List.length_append, List.length_singleton]
    · rfl

theorem keep_eq_edit {line : List UInt8} {key : UInt8} (h : ¬(key = 0x7f ∧ line = [])) :
    keep line key = edit line key := by
  unfold keep edit
  by_cases herase : key = 0x08 ∨ key = 0x7f
  · by_cases hnil : line = []
    · have hbs : key = 0x08 := herase.resolve_right fun hdel => h ⟨hdel, hnil⟩
      subst hbs hnil
      rfl
    · rw [if_pos ⟨herase, hnil⟩, if_pos herase]
  · rw [if_neg fun hboth => herase hboth.1, if_neg herase]

theorem mem_edit {line : List UInt8} {key byte : UInt8} (h : byte ∈ edit line key) :
    byte ∈ line ∨ byte = key ∧ 0x20 ≤ key ∧ key ≠ 0x7f := by
  unfold edit at h
  split at h
  · exact Or.inl (List.dropLast_subset line h)
  · next hkey =>
    split at h
    · next happend =>
      rcases List.mem_append.mp h with hline | hnew
      · exact Or.inl hline
      · exact Or.inr ⟨List.mem_singleton.mp hnew, happend.1, fun hdel => hkey (Or.inr hdel)⟩
    · exact Or.inl h

def Plain (line : List UInt8) : Prop := ∀ byte ∈ line, byte ≠ 0x7f ∧ byte ≠ 0

theorem Plain.edit {line : List UInt8} (h : Plain line) (key : UInt8) : Plain (edit line key) := by
  intro byte hbyte
  rcases mem_edit hbyte with hline | ⟨rfl, hblank, hdel⟩
  · exact h byte hline
  · refine ⟨hdel, ?_⟩
    rintro rfl
    exact absurd hblank (by decide)

structure Stray (kept edited : List UInt8) : Prop where
  first : kept.head? = some 0x7f
  le : edited.length ≤ kept.length

theorem Stray.key {kept edited : List UInt8} (h : Stray kept edited) (key : UInt8) :
    keep kept key = [] ∧ edit edited key = [] ∨ Stray (keep kept key) (edit edited key) := by
  have hne : kept ≠ [] := by
    rintro rfl
    cases h.first
  unfold keep edit
  by_cases herase : key = 0x08 ∨ key = 0x7f
  · rw [if_pos ⟨herase, hne⟩, if_pos herase]
    have hle := h.le
    have hlength : kept.dropLast.length = kept.length - 1 := List.length_dropLast
    have hlength' : edited.dropLast.length = edited.length - 1 := List.length_dropLast
    by_cases hnil : kept.dropLast = []
    · left
      rw [hnil, List.length_nil] at hlength
      exact ⟨hnil, List.length_eq_zero_iff.mp (by omega)⟩
    · right
      refine ⟨?_, by omega⟩
      rw [List.head?_dropLast, if_pos, h.first]
      have hpos := List.length_pos_iff.mpr hnil
      omega
  · rw [if_neg fun hboth => herase hboth.1, if_neg herase]
    right
    have hle := h.le
    constructor
    · split
      · rw [List.head?_append, h.first]
        rfl
      · exact h.first
    · by_cases happend : 0x20 ≤ key ∧ kept.length < 1023
      · rw [if_pos happend, if_pos ⟨happend.1, by omega⟩]
        simpa using hle
      · rw [if_neg happend]
        split
        · next hroom =>
          have hfull : ¬kept.length < 1023 := fun hlt => happend ⟨hroom.1, hlt⟩
          rw [List.length_append, List.length_singleton]
          omega
        · exact hle

def Returns (number : Nat) (keys : List UInt8) : Prop :=
  ∃ before, before <+: keys ∧ before.foldl count number = 0

/-- Every DEL that finds the line empty is erased again. The line has `number`
characters before the keys. -/
def Erased (number : Nat) (keys : List UInt8) : Prop :=
  ∀ before after, keys = before ++ 0x7f :: after → before.foldl count number = 0 →
    Returns 1 after

theorem returns_cons (number : Nat) (key : UInt8) (keys : List UInt8) :
    Returns number (key :: keys) ↔ number = 0 ∨ Returns (count number key) keys := by
  constructor
  · rintro ⟨before, hprefix, hzero⟩
    rcases List.prefix_cons_iff.mp hprefix with rfl | ⟨rest, rfl, hrest⟩
    · exact Or.inl hzero
    · exact Or.inr ⟨rest, hrest, hzero⟩
  · rintro (hzero | ⟨rest, hrest, hzero⟩)
    · exact ⟨[], List.nil_prefix, hzero⟩
    · exact ⟨key :: rest, (List.prefix_cons_inj key).mpr hrest, hzero⟩

theorem erased_cons (number : Nat) (key : UInt8) (keys : List UInt8) :
    Erased number (key :: keys) ↔
      (key = 0x7f → number = 0 → Returns 1 keys) ∧ Erased (count number key) keys := by
  constructor
  · intro h
    refine ⟨?_, fun before after hsplit hzero => ?_⟩
    · rintro rfl hzero
      exact h [] keys rfl hzero
    · exact h (key :: before) after (by rw [hsplit]; rfl) hzero
  · rintro ⟨hfirst, hrest⟩ before after hsplit hzero
    cases before with
    | nil =>
      cases hsplit
      exact hfirst rfl hzero
    | cons first before =>
      cases hsplit
      exact hrest before after rfl hzero

/-- The line that is kept and the line of the editor end up the same exactly if
every stray DEL is erased again, the one that may be there at the start too. -/
theorem foldl_keep_eq_iff (keys : List UInt8) :
    (∀ line, Plain line → (keys.foldl keep line = keys.foldl edit line ↔ Erased line.length keys)) ∧
    ∀ kept edited, Plain edited → Stray kept edited →
      (keys.foldl keep kept = keys.foldl edit edited ↔
        Returns kept.length keys ∧ Erased kept.length keys) := by
  induction keys with
  | nil =>
    refine ⟨fun line _ => ?_, fun kept edited hplain hstray => ?_⟩
    · refine ⟨fun _ before after hsplit => ?_, fun _ => rfl⟩
      cases before <;> cases hsplit
    · constructor
      · intro heq
        rw [List.foldl_nil, List.foldl_nil] at heq
        rw [heq] at hstray
        exact absurd rfl (hplain 0x7f (List.mem_of_mem_head? hstray.first)).1
      · rintro ⟨⟨before, hprefix, hzero⟩, -⟩
        rw [List.prefix_nil.mp hprefix] at hzero
        have hfirst := hstray.first
        rw [List.length_eq_zero_iff.mp hzero] at hfirst
        cases hfirst
  | cons key keys ih =>
    obtain ⟨hclean, hdirty⟩ := ih
    refine ⟨fun line hplain => ?_, fun kept edited hplain hstray => ?_⟩
    · rw [erased_cons, List.foldl_cons, List.foldl_cons]
      by_cases hstray : key = 0x7f ∧ line = []
      · obtain ⟨rfl, rfl⟩ := hstray
        refine (hdirty [0x7f] [] hplain ⟨rfl, Nat.zero_le _⟩).trans ?_
        exact ⟨fun h => ⟨fun _ _ => h.1, h.2⟩, fun h => ⟨h.1 rfl rfl, h.2⟩⟩
      · rw [keep_eq_edit hstray, hclean _ (hplain.edit key), ← keep_eq_edit hstray, length_keep]
        refine ⟨fun h => ⟨fun hdel hzero => ?_, h⟩, And.right⟩
        exact absurd ⟨hdel, List.length_eq_zero_iff.mp hzero⟩ hstray
    · have hne : kept.length ≠ 0 := by
        intro hzero
        have hfirst := hstray.first
        rw [List.length_eq_zero_iff.mp hzero] at hfirst
        cases hfirst
      have herased : Erased kept.length (key :: keys) ↔ Erased (keep kept key).length keys := by
        rw [erased_cons, length_keep]
        exact ⟨And.right, fun h => ⟨fun _ hzero => absurd hzero hne, h⟩⟩
      have hreturns : Returns kept.length (key :: keys) ↔ Returns (keep kept key).length keys := by
        rw [returns_cons, length_keep]
        exact or_iff_right hne
      rw [herased, hreturns, List.foldl_cons, List.foldl_cons]
      rcases hstray.key key with ⟨hkept, hedited⟩ | hnext
      · rw [hkept, hedited, hclean [] (fun byte hbyte => nomatch hbyte)]
        exact ⟨fun h => ⟨⟨[], List.nil_prefix, rfl⟩, h⟩, And.right⟩
      · exact hdirty _ _ (hplain.edit key) hnext

theorem plain_foldl {line : List UInt8} (h : Plain line) (keys : List UInt8) :
    Plain (keys.foldl edit line) := by
  induction keys generalizing line with
  | nil => exact h
  | cons key keys ih => exact ih (h.edit key)

theorem mem_keep {line : List UInt8} {key byte : UInt8} (h : byte ∈ keep line key) :
    byte ∈ line ∨ 0x20 ≤ byte := by
  unfold keep at h
  split at h
  · exact Or.inl (List.dropLast_subset line h)
  · split at h
    · next happend =>
      rcases List.mem_append.mp h with hline | hnew
      · exact Or.inl hline
      · rw [List.mem_singleton.mp hnew]
        exact Or.inr happend.1
    · exact Or.inl h

theorem foldl_keep_ne_zero {line : List UInt8} (h : ∀ byte ∈ line, byte ≠ 0) (keys : List UInt8) :
    ∀ byte ∈ keys.foldl keep line, byte ≠ 0 := by
  induction keys generalizing line with
  | nil => exact h
  | cons key keys ih =>
    refine ih fun byte hbyte => ?_
    rcases mem_keep hbyte with hline | hblank
    · exact h byte hline
    · rintro rfl
      exact absurd hblank (by decide)

theorem stringAt_eq {line text : List UInt8} (hline : ∀ byte ∈ line, byte ≠ 0)
    (h : line ++ [0] <+: text) : stringAt text = line := by
  obtain ⟨rest, rfl⟩ := h
  rw [stringAt, List.append_assoc, List.takeWhile_append_of_pos (by simpa using hline)]
  simp

/-- On these keys `readline` is the line editor: the index stays in the buffer
and the text is the edited line. -/
def Edits {σ : Type} (cputchar : Int → σ → σ) (prompt : Option (List UInt8)) (keys : List UInt8)
    (enter : Int) (buf : List UInt8) (console : σ) : Prop :=
  (∀ echoing shown s, Loop.Reaches (readlineRound cputchar echoing)
    ⟨codes keys ++ [enter], buf, 0, shown⟩ s → s.i ≤ 1023) ∧
  ∃ text s, readline cputchar prompt (codes keys ++ [enter]) buf console = .ok (some text, s) ∧
    keys.foldl edit [] ++ [0] <+: text

/-- `readline` is the line editor exactly on the keys whose stray DELs are
erased again. -/
theorem readline_edits_iff_erased {σ : Type} (cputchar : Int → σ → σ)
    (prompt : Option (List UInt8)) (hprompt : Prompt prompt) (keys : List UInt8)
    (hkeys : Typed keys) (enter : Int) (henter : enter = 0x0a ∨ enter = 0x0d) (buf : List UInt8)
    (hbuf : buf.length = bufLen) (console : σ) :
    Edits cputchar prompt keys enter buf console ↔ Erased 0 keys := by
  obtain ⟨text, s, hrun, htext⟩ := readline_eq cputchar prompt hprompt keys hkeys enter henter buf
    hbuf console
  have hnil : Plain [] := fun byte hbyte => nomatch hbyte
  have hzero : ∀ byte ∈ ([] : List UInt8), byte ≠ 0 := fun byte hbyte => nomatch hbyte
  refine Iff.trans ?_ ((foldl_keep_eq_iff keys).1 [] hnil)
  constructor
  · rintro ⟨-, text', s', hrun', htext'⟩
    rw [hrun] at hrun'
    cases hrun'
    rw [← stringAt_eq (foldl_keep_ne_zero hzero keys) htext]
    exact stringAt_eq (fun byte hbyte => (plain_foldl hnil keys byte hbyte).2) htext'
  · intro heq
    refine ⟨fun echoing shown s hreach => ?_, text, s, hrun, heq ▸ htext⟩
    exact Nat.le_of_lt_succ (hreach.invariant (Nat.zero_lt_succ 1023) fun state next h hround =>
      readlineRound_index cputchar echoing h hround)

theorem readline_edits_letter :
    Edits (fun c out => out ++ [c]) (some (cstr "K> ".toList)) [0x61, 0x7f] 0x0a
      (List.replicate 1024 0) [] := by
  refine (readline_edits_iff_erased _ (some (cstr "K> ".toList)) ?_ [0x61, 0x7f] (by decide) 0x0a
    (Or.inl rfl) (List.replicate 1024 0) List.length_replicate []).mpr ?_
  · intro text htext
    cases htext
    decide
  · intro before after hsplit hzero
    cases before with
    | nil => cases hsplit
    | cons first before =>
      cases before with
      | nil => cases hsplit; cases hzero
      | cons second before => cases before <;> cases hsplit

/-- A DEL on an empty line becomes the line. -/
theorem readline_not_edits :
    ¬∀ keys : List UInt8, Typed keys →
      Edits (fun c out => out ++ [c]) none keys 0x0a (List.replicate 1024 0) ([] : List Int) := by
  intro h
  obtain ⟨-, text, s, hrun, hedited⟩ := h [0x7f] (by decide)
  obtain ⟨text', s', hrun', hkept⟩ := readline_eq (fun c out => out ++ [c]) none
    (fun text htext => nomatch htext) [0x7f] (by decide) 0x0a (Or.inl rfl) (List.replicate 1024 0)
    List.length_replicate ([] : List Int)
  rw [hrun] at hrun'
  cases hrun'
  obtain ⟨rest, hrest⟩ := hedited
  obtain ⟨rest', hrest'⟩ := hkept
  have hfirst : some (0 : UInt8) = some 0x7f := congrArg List.head? (hrest.trans hrest'.symm)
  exact absurd hfirst (by decide)

end JosKernel.Lib.Readline
