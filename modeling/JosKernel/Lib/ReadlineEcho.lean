import JosKernel.Lib.Messages
import JosKernel.Lib.ReadlineScreen

/-! One call of `readline` from its prompt to the end of the line: what it
prints, what it returns, and what it leaves of the input. -/
namespace JosKernel.Lib.Readline
open JosKernel.Inc JosKernel.Kern JosKernel.General Sink

structure Line where
  keys : List UInt8
  enter : UInt8
  typed : Typed keys
  ends : enter = 0x0a ∨ enter = 0x0d

namespace Line

def input (line : Line) : List Int := codes (line.keys ++ [line.enter])

def text (line : Line) : List UInt8 := line.keys.foldl keep []

theorem text_ne_zero (line : Line) : ∀ byte ∈ line.text, byte ≠ 0 :=
  foldl_keep_ne_zero (List.forall_mem_nil _) line.keys

end Line

def echoOf (line : List UInt8) (key : UInt8) : List Int :=
  if (key = 0x08 ∨ key = 0x7f) ∧ line ≠ [] then [0x08]
  else if 0x20 ≤ key ∧ line.length < 1023 then [(key.toNat : Int)]
  else []

def echoes (line : List UInt8) : List UInt8 → List Int
  | [] => []
  | key :: keys => echoOf line key ++ echoes (keep line key) keys

section
variable {σ : Type} (cputchar : Int → σ → σ)

theorem echoed_eq (line : List UInt8) (key : UInt8) (console : σ) :
    echoed cputchar true line key console = feed cputchar console (echoOf line key) := by
  unfold echoed echoOf echo
  split
  · rfl
  · split <;> rfl

theorem readlineRound_ends {line : List UInt8} {s : Editor σ} (h : Holds line s) {enter : UInt8}
    {rest : List Int} (hinput : s.input = (enter.toNat : Int) :: rest)
    (henter : enter = 0x0a ∨ enter = 0x0d) :
    ∃ text s', readlineRound cputchar true s = .ok (.inr (some text, s')) ∧
      line ++ [0] <+: text ∧ text.length = bufLen ∧ s'.input = rest ∧
      s'.console = feed cputchar s.console [0x0a] := by
  have hcode : (enter.toNat : Int) = 0x0a ∨ (enter.toNat : Int) = 0x0d := by
    rcases henter with rfl | rfl
    · exact Or.inl rfl
    · exact Or.inr rfl
  obtain ⟨text, s', hround, htext⟩ := readlineRound_enter cputchar true h hinput hcode
  have hstore : store s.buf s.i 0 = .ok (s.buf.set s.i 0) := if_pos h.index_lt
  refine ⟨text, s', hround, htext, ?_⟩
  simp only [readlineRound, hinput] at hround
  rw [if_neg (by omega), if_neg (by omega), if_neg (by omega), if_pos hcode, hstore] at hround
  cases hround
  exact ⟨List.length_set.trans h.size, rfl, rfl⟩

theorem readline_line_loop {line keys : List UInt8} (hkeys : Typed keys) {enter : UInt8}
    (henter : enter = 0x0a ∨ enter = 0x0d) {s : Editor σ} (h : Holds line s) {rest : List Int}
    (hinput : s.input = codes (keys ++ [enter]) ++ rest) {fuel : Nat} (hfuel : keys.length < fuel) :
    ∃ text s', Loop.run .unfinished (readlineRound cputchar true) fuel s = .ok (some text, s') ∧
      keys.foldl keep line ++ [0] <+: text ∧ text.length = bufLen ∧ s'.input = rest ∧
      s'.console = feed cputchar s.console (echoes line keys ++ [0x0a]) := by
  obtain ⟨fuel, rfl⟩ : ∃ left, fuel = left + 1 := ⟨fuel - 1, by omega⟩
  induction keys generalizing line s fuel with
  | nil =>
    obtain ⟨text, s', hround, hrest⟩ := readlineRound_ends cputchar h hinput henter
    exact ⟨text, s', Loop.run_done hround fuel, hrest⟩
  | cons key keys ih =>
    obtain ⟨hkey, hkeys⟩ := List.forall_mem_cons.mp hkeys
    obtain ⟨next, hround, hnext, hconsole, hholds⟩ :=
      readlineRound_key cputchar true h hinput hkey.2.1 hkey.2.2
    obtain ⟨fuel, rfl⟩ : ∃ left, fuel = left + 1 := ⟨fuel - 1, by
      simp only [List.length_cons] at hfuel
      omega⟩
    obtain ⟨text, s', hrun, htext, hlength, hleft, hshown⟩ := ih hkeys hholds hnext fuel
      (Nat.lt_of_succ_lt_succ hfuel)
    refine ⟨text, s', (Loop.run_next hround _).trans hrun, htext, hlength, hleft, ?_⟩
    rw [hshown, hconsole, echoed_eq, echoes, List.append_assoc, ← feed_append]

theorem readline_line {prompt : List UInt8} (hprompt : Terminated prompt)
    (hshort : (stringAt prompt).length < 2 ^ 31) (line : Line) (rest : List Int)
    {buf : List UInt8} (hbuf : buf.length = bufLen) (console : σ) :
    ∃ text s, readline cputchar (some prompt) (line.input ++ rest) buf console =
        .ok (some text, s) ∧
      stringAt text = line.text ∧ Terminated text ∧ text.length = bufLen ∧ s.input = rest ∧
      s.console = feed cputchar console
        ((stringAt prompt).map charInt ++ (echoes [] line.keys ++ [0x0a])) := by
  have hcprintf : cprintf cputchar (cstr "%s".toList) [.str (some prompt)] console =
      .ok (0, feed cputchar console ((stringAt prompt).map charInt)) := by
    have hout := (emits_string hprompt hshort).vprintfmt
    rw [cprintf]
    exact congrArg (· >>= pure) (vcprintf_eq cputchar hout console)
  have hprompted : prompted cputchar (some prompt) console =
      .ok (feed cputchar console ((stringAt prompt).map charInt)) := by
    simp only [prompted, hcprintf, bind, Except.bind]
    rfl
  have hstart : Holds [] ⟨line.input ++ rest, buf, 0,
      feed cputchar console ((stringAt prompt).map charInt)⟩ := ⟨hbuf, rfl, by decide, rfl⟩
  have hfuel : line.keys.length < (line.input ++ rest).length + 1 := by
    simp only [Line.input, codes, List.length_append, List.length_map]
    omega
  obtain ⟨text, s, hrun, htext, hlength, hinput, hconsole⟩ :=
    readline_line_loop cputchar line.typed line.ends hstart rfl hfuel
  refine ⟨text, s, ?_, stringAt_eq line.text_ne_zero htext, ?_, hlength, hinput, ?_⟩
  · rw [readline_prompted, hprompted]
    exact hrun
  · exact htext.subset (List.mem_append_right _ (List.mem_singleton.mpr rfl))
  · rw [hconsole, ← feed_append]

def Sized (outcome : Editor σ ⊕ (Option (List UInt8) × Editor σ)) : Prop :=
  match outcome with
  | .inl s => s.buf.length = bufLen ∧ s.i < bufLen
  | .inr (text, s) => s.buf.length = bufLen ∧ ∀ buf ∈ text, buf.length = bufLen ∧ Terminated buf

theorem readlineRound_sized {echoing : Bool} {s : Editor σ} (hbuf : s.buf.length = bufLen)
    (hi : s.i < bufLen) {outcome : Editor σ ⊕ (Option (List UInt8) × Editor σ)}
    (hround : readlineRound cputchar echoing s = .ok outcome) : Sized outcome := by
  unfold readlineRound at hround
  cases hinput : s.input with
  | nil =>
    rw [hinput] at hround
    cases hround
  | cons c input =>
    simp only [hinput] at hround
    split at hround
    · obtain ⟨printed, -, hround⟩ := exists_of_bind_eq_ok hround
      cases hround
      exact ⟨hbuf, fun buf hnone => nomatch hnone⟩
    split at hround
    · cases hround
      exact ⟨hbuf, Nat.lt_of_le_of_lt (Nat.sub_le _ _) hi⟩
    split at hround
    · next happend =>
      obtain ⟨buf, hstore, hround⟩ := exists_of_bind_eq_ok hround
      rw [store_eq (hbuf ▸ hi)] at hstore
      cases hstore
      cases hround
      exact ⟨List.length_set.trans hbuf, Nat.add_lt_of_lt_sub happend.2⟩
    split at hround
    · obtain ⟨buf, hstore, hround⟩ := exists_of_bind_eq_ok hround
      rw [store_eq (hbuf ▸ hi)] at hstore
      cases hstore
      cases hround
      refine ⟨List.length_set.trans hbuf, fun buf hsome => ?_⟩
      cases hsome
      exact ⟨List.length_set.trans hbuf, List.mem_set (hbuf ▸ hi) 0⟩
    · cases hround
      exact ⟨hbuf, hi⟩

theorem readline_sized {prompt : Option (List UInt8)} {input : List Int} {buf : List UInt8}
    (hbuf : buf.length = bufLen) {console : σ} {result : Option (List UInt8) × Editor σ}
    (hrun : readline cputchar prompt input buf console = .ok result) :
    result.2.buf.length = bufLen ∧ ∀ text ∈ result.1, text.length = bufLen ∧ Terminated text := by
  rw [readline_prompted] at hrun
  obtain ⟨shown, -, hloop⟩ := exists_of_bind_eq_ok hrun
  have hstart : buf.length = bufLen ∧ 0 < bufLen := ⟨hbuf, Nat.zero_lt_succ 1023⟩
  exact Loop.run_ok (fun s : Editor σ => s.buf.length = bufLen ∧ s.i < bufLen)
    (fun result => Sized (.inr result))
    (fun s next h hround => readlineRound_sized cputchar h.1 h.2 hround)
    (fun s value h hround => readlineRound_sized cputchar h.1 h.2 hround) hstart hloop

end

end JosKernel.Lib.Readline
