import JosKernel.General.BitFields
import JosKernel.Kern.Commands
import JosKernel.Lib.ReadlineEcho

/-! `monitor` of `kern/monitor.c`: lines are read and run, one after the other. -/
namespace JosKernel.Kern
open JosKernel.Inc JosKernel.Lib JosKernel.General Sink BitFields
open Readline (Line echoes readline)

/-- What `monitor` works on: the results of `getchar` that are to come, the
static buffer of `readline`, the number of calls of `runcmd` and the console. -/
structure Session (σ : Type) where
  input : List Int
  buf : List UInt8
  calls : Nat
  console : σ

/-- What the stack holds where `argv` is, when `runcmd` is called for the given time. -/
abbrev Stack : Type := Nat → Vector (Option Nat) maxArgs

section
variable {τ σ : Type} (commands : List (Command τ σ)) (cputchar : Int → σ → σ)

def greet (console : σ) : Except Fault σ := do
  let console ← say cputchar "Welcome to the JOS kernel monitor!\n".toList [] console
  let console ← say cputchar "Type 'help' for a list of commands.\n".toList [] console
  let console ← say cputchar "x %d, y %x, z %d\n".toList [.int 1, .int 3, .int 4] console
  -- `&i` points to the bytes of an `unsigned int`
  say cputchar "H%x Wo%s".toList [.int 57616, .str (some (littleEndian 4 0x00646c72))] console

variable (stack : Stack) (tf : τ)

def monitorRound (s : Session σ) : Except Fault (Session σ ⊕ Session σ) := do
  let (text, editor) ← readline cputchar (some (cstr "K> ".toList)) s.input s.buf s.console
  match text with
  | none => return .inl ⟨editor.input, editor.buf, s.calls, editor.console⟩
  | some buf => do
    let (result, parse, console) ← runcmd commands cputchar buf (stack s.calls).toList tf
      editor.console
    let s : Session σ := ⟨editor.input, parse.buf, s.calls + 1, console⟩
    if result < 0 then return .inr s else return .inl s

def monitor (fuel : Nat) (s : Session σ) : Except Fault (Session σ) := do
  let console ← greet cputchar s.console
  Loop.run .unfinished (monitorRound commands cputchar stack tf) fuel { s with console }

end

structure Answers {τ σ : Type} (commands : List (Command τ σ)) (cputchar : Int → σ → σ)
    (answer : List UInt8 → Option (List Int)) : Prop where
  known : ∀ command ∈ commands, ∃ text, answer (stringAt command.name) = some text ∧
    ∀ s tf console, command.func s tf console = .ok (0, feed cputchar console text)
  unknown : ∀ name, (∀ command ∈ commands, stringAt command.name ≠ name) → answer name = none

def tooManyText : List Int := plainCodes "Too many arguments (max 16)\n".toList

def unknownText (name : List UInt8) : List Int :=
  plainCodes "Unknown command '".toList ++ (name.map charInt ++ plainCodes "'\n".toList)

def response (answer : List UInt8 → Option (List Int)) (text : List UInt8) : List Int :=
  if 15 < (words isSpace text).length then tooManyText
  else
    match words isSpace text with
    | [] => []
    | name :: _ => (answer name).getD (unknownText name)

def exchange (answer : List UInt8 → Option (List Int)) (line : Line) : List Int :=
  plainCodes "K> ".toList ++ (echoes [] line.keys ++ (0x0a :: response answer line.text))

theorem unknown_printed {arg : List UInt8} (hterm : Terminated arg)
    (hshort : (stringAt arg).length < 2 ^ 31) :
    vprintfmt collect [] (cstr "Unknown command '%s'\n".toList) [.str (some arg)] =
      .ok (unknownText (stringAt arg)) :=
  ((emits_text "Unknown command '".toList (by decide)).append
    ((emits_string hterm hshort).append (emits_text "'\n".toList (by decide)))).vprintfmt

theorem tooMany_printed :
    vprintfmt collect [] (cstr "Too many arguments (max %d)\n".toList)
      [.int (UInt32.ofNat maxArgs)] = .ok tooManyText := by
  have hvalue : signedCodes (UInt32.ofNat maxArgs).toInt32.toInt = plainCodes "16".toList := by
    decide
  have hline := (emits_text "Too many arguments (max ".toList (by decide)).append
    ((emits_decimal (UInt32.ofNat maxArgs)).append (emits_text ")\n".toList (by decide)))
  rw [hvalue] at hline
  exact hline.vprintfmt

section
variable {τ σ : Type} {commands : List (Command τ σ)} {cputchar : Int → σ → σ}
  {answer : List UInt8 → Option (List Int)}

theorem lookup_answers {s : Parse} {arg : List UInt8} (harg : argAt s 0 = .ok arg)
    (hterm : Terminated arg) (hshort : (stringAt arg).length < 2 ^ 31) (tf : τ) (console : σ)
    (hknown : ∀ command ∈ commands, ∃ text, answer (stringAt command.name) = some text ∧
      ∀ s tf console, command.func s tf console = .ok (0, feed cputchar console text))
    (hunknown : (∀ command ∈ commands, stringAt command.name ≠ stringAt arg) →
      answer (stringAt arg) = none) :
    lookup cputchar s tf console commands =
      .ok (0, s, feed cputchar console ((answer (stringAt arg)).getD (unknownText (stringAt arg)))) := by
  induction commands with
  | nil =>
    obtain ⟨out, hout, hlookup⟩ := @lookup_nil τ σ cputchar s arg harg hterm tf console
    rw [unknown_printed hterm hshort] at hout
    cases hout
    rw [hlookup, hunknown fun command hcommand => nomatch hcommand]
    rfl
  | cons command commands ih =>
    obtain ⟨hhead, htail⟩ := List.forall_mem_cons.mp hknown
    rw [lookup_cons commands cputchar harg hterm]
    by_cases hname : stringAt command.name = stringAt arg
    · obtain ⟨text, htext, hfunc⟩ := hhead
      rw [hname] at htext
      rw [if_pos hname, hfunc, htext]
      rfl
    · rw [if_neg hname]
      refine ih htail fun hne => hunknown ?_
      exact List.forall_mem_cons.mpr ⟨hname, hne⟩

theorem runcmd_responds (h : Answers commands cputchar answer) {buf : List UInt8}
    (hbuf : Terminated buf) (hshort : buf.length < 2 ^ 31) {argv : List (Option Nat)}
    (hslots : argv.length = maxArgs) (tf : τ) (console : σ) :
    ∃ s : Parse, runcmd commands cputchar buf argv tf console =
        .ok (0, s, feed cputchar console (response answer (stringAt buf))) ∧
      s.buf.length = buf.length := by
  obtain ⟨after, hsplit⟩ := stringAt_append hbuf
  have htext := stringAt_ne_zero buf
  generalize stringAt buf = text at hsplit htext ⊢
  subst hsplit
  obtain ⟨s, tooMany, hsplit, hsplits⟩ := splitArgs_splits htext after hslots
  obtain ⟨left, hleft, hlength⟩ := hsplits.frame
  rw [List.length_nil, Nat.zero_add] at hlength
  have hsize : s.buf.length = (text ++ 0 :: after).length := by
    rw [hleft, List.length_append, List.length_append, hlength]
  have hlimit := hsplits.limit
  rw [Nat.zero_add] at hlimit
  unfold response
  cases tooMany with
  | true =>
    refine ⟨s, ?_, hsize⟩
    rw [if_pos (hlimit.mp rfl)]
    have hprint : cprintf cputchar (cstr "Too many arguments (max %d)\n".toList)
        [.int (UInt32.ofNat maxArgs)] console = .ok (0, feed cputchar console tooManyText) := by
      rw [cprintf, vcprintf_eq cputchar tooMany_printed]
      rfl
    simp only [runcmd, hsplit, hprint, bind, Except.bind, if_true]
    rfl
  | false =>
    have hfalse : ¬false = true := Bool.false_ne_true
    have hfew : ¬15 < (words isSpace text).length := fun hmany => hfalse (hlimit.mpr hmany)
    have hcount := hsplits.count hfalse
    have hpoints := hsplits.points hfalse
    rw [Nat.zero_add] at hcount
    have hslot : s.argc < s.argv.length := by
      rw [hsplits.slots, hcount]
      exact Nat.lt_succ_of_le (Nat.le_of_not_lt hfew)
    refine ⟨{ s with argv := s.argv.set s.argc none }, ?_, hsize⟩
    have hrun : runcmd commands cputchar (text ++ 0 :: after) argv tf console =
        if s.argc = 0 then .ok (0, { s with argv := s.argv.set s.argc none }, console)
        else lookup cputchar { s with argv := s.argv.set s.argc none } tf console commands := by
      simp only [runcmd, hsplit, store_eq hslot, bind, Except.bind]
      rfl
    rw [hrun, if_neg hfew]
    cases hwords : words isSpace text with
    | nil =>
      rw [if_pos (by rw [hcount, hwords]; rfl)]
      rfl
    | cons name rest =>
      have hpos : 0 < s.argc := by
        rw [hcount, hwords]
        exact Nat.succ_pos _
      obtain ⟨p, hp, hterm, hname⟩ := hpoints 0 name (by rw [hwords]; rfl)
      have harg : argAt { s with argv := s.argv.set s.argc none } 0 = .ok (s.buf.drop p) := by
        have hget : (s.argv.set s.argc none)[0]? = some (some p) :=
          (List.getElem?_set_ne (Nat.ne_of_gt hpos)).trans hp
        simp only [argAt, load_eq hget, bind, Except.bind]
        rfl
      have hle : (stringAt (s.buf.drop p)).length < 2 ^ 31 := by
        have htake := (List.takeWhile_prefix (l := s.buf.drop p) (· ≠ 0)).length_le
        rw [List.length_drop] at htake
        exact Nat.lt_of_le_of_lt (htake.trans (Nat.sub_le _ _)) (hsize ▸ hshort)
      rw [if_neg (Nat.ne_of_gt hpos), lookup_answers harg hterm hle tf console h.known
        (h.unknown _), hname]

def greeting : List Int :=
  plainCodes "Welcome to the JOS kernel monitor!\n".toList ++
    plainCodes "Type 'help' for a list of commands.\n".toList ++
    plainCodes "x 1, y 3, z 4\n".toList ++ plainCodes "He110 World".toList

theorem greet_eq (console : σ) : greet cputchar console = .ok (feed cputchar console greeting) := by
  have hnumbers := ((emits_text "x ".toList (by decide)).append ((emits_decimal 1).append
    ((emits_text ", y ".toList (by decide)).append
      ((emits_unsigned (show label (ascii 'x') = .convert .hex by decide) rfl 3).append
        ((emits_text ", z ".toList (by decide)).append ((emits_decimal 4).append
          (emits_text "\n".toList (by decide)))))))).say cputchar "x %d, y %x, z %d\n".toList rfl
  have hhello := ((emits_text "H".toList (by decide)).append
    ((emits_unsigned (show label (ascii 'x') = .convert .hex by decide) rfl 57616).append
      ((emits_text " Wo".toList (by decide)).append
        (@emits_string (littleEndian 4 0x00646c72) (by decide) (by decide))))).say cputchar
    "H%x Wo%s".toList rfl
  have hx : plainCodes "x ".toList ++ (signedCodes (1 : UInt32).toInt32.toInt ++
      (plainCodes ", y ".toList ++ (numeralCodes 16 (3 : UInt32).toNat ++ (plainCodes ", z ".toList ++
        (signedCodes (4 : UInt32).toInt32.toInt ++ plainCodes "\n".toList))))) =
      plainCodes "x 1, y 3, z 4\n".toList := by decide
  have hh : plainCodes "H".toList ++ (numeralCodes 16 (57616 : UInt32).toNat ++
      (plainCodes " Wo".toList ++ (stringAt (littleEndian 4 0x00646c72)).map charInt)) =
      plainCodes "He110 World".toList := by decide
  rw [hx] at hnumbers
  rw [hh] at hhello
  simp only [List.nil_append, List.cons_append] at hnumbers hhello
  rw [greet, bind_of_ok (say_text cputchar _ (by decide) console),
    bind_of_ok (say_text cputchar _ (by decide) _), bind_of_ok (hnumbers _)]
  rw [greeting, feed_append, feed_append, feed_append]
  exact hhello _

variable (stack : Stack) (tf : τ)

theorem monitorRound_line (h : Answers commands cputchar answer) (line : Line) (rest : List Int)
    {s : Session σ} (hinput : s.input = line.input ++ rest) (hbuf : s.buf.length = 1024) :
    ∃ s', monitorRound commands cputchar stack tf s = .ok (.inl s') ∧ s'.input = rest ∧
      s'.buf.length = 1024 ∧ s'.calls = s.calls + 1 ∧
      s'.console = feed cputchar s.console (exchange answer line) := by
  obtain ⟨text, editor, hread, htext, hterm, hlength, hleft, hshown⟩ :=
    Readline.readline_line cputchar (show Terminated (cstr "K> ".toList) by decide) (by decide) line
      rest hbuf s.console
  obtain ⟨parse, hrun, hsize⟩ := runcmd_responds h hterm (by rw [hlength]; decide)
    (Vector.length_toList) tf editor.console
  refine ⟨⟨rest, parse.buf, s.calls + 1, feed cputchar editor.console
    (response answer (stringAt text))⟩, ?_, rfl, hsize.trans hlength, rfl, ?_⟩
  · rw [monitorRound, hinput, bind_of_ok hread]
    dsimp only
    rw [bind_of_ok hrun, hleft]
    rfl
  · dsimp only
    have hprompt : (stringAt (cstr "K> ".toList)).map charInt = plainCodes "K> ".toList := by decide
    rw [hshown, htext, ← feed_append, exchange, hprompt, List.append_assoc, List.append_assoc]
    rfl

/-- `monitor` goes on from the states that its loop reaches. -/
theorem monitor_reaches {s state : Session σ} {start : σ} (hgreet : greet cputchar s.console = .ok start)
    (h : Loop.Reaches (monitorRound commands cputchar stack tf) { s with console := start } state) :
    ∃ rounds, ∀ fuel, monitor commands cputchar stack tf (rounds + fuel) s =
      Loop.run .unfinished (monitorRound commands cputchar stack tf) fuel state := by
  obtain ⟨rounds, hrun⟩ := @Loop.Reaches.run _ _ _ Fault.unfinished _ _ _ h
  refine ⟨rounds, fun fuel => ?_⟩
  rw [monitor, bind_of_ok hgreet]
  exact hrun fuel

theorem monitorLoop_lines (h : Answers commands cputchar answer) (lines : List Line) (rest : List Int)
    {s : Session σ} (hinput : s.input = lines.flatMap Line.input ++ rest)
    (hbuf : s.buf.length = 1024) :
    ∃ s', Loop.Reaches (monitorRound commands cputchar stack tf) s s' ∧ s'.input = rest ∧
      s'.buf.length = 1024 ∧ s'.calls = s.calls + lines.length ∧
      s'.console = feed cputchar s.console (lines.flatMap (exchange answer)) := by
  induction lines generalizing s with
  | nil => exact ⟨s, .start, hinput, hbuf, rfl, rfl⟩
  | cons line lines ih =>
    rw [List.flatMap_cons, List.append_assoc] at hinput
    obtain ⟨next, hround, hnext, hsize, hcalls, hshown⟩ :=
      monitorRound_line stack tf h line _ hinput hbuf
    obtain ⟨s', hreach, hleft, hsize', hcalls', hshown'⟩ := ih hnext hsize
    refine ⟨s', Loop.Reaches.trans (.next .start hround) hreach, hleft, hsize', ?_, ?_⟩
    · rw [hcalls', hcalls, List.length_cons]
      omega
    · rw [hshown', hshown, List.flatMap_cons, feed_append]

theorem monitorRound_next (h : Answers commands cputchar answer) {s : Session σ}
    (hbuf : s.buf.length = 1024) {outcome : Session σ ⊕ Session σ}
    (hround : monitorRound commands cputchar stack tf s = .ok outcome) :
    ∃ next, outcome = .inl next ∧ next.buf.length = 1024 := by
  unfold monitorRound at hround
  obtain ⟨⟨text, editor⟩, hread, hround⟩ := exists_of_bind_eq_ok hround
  obtain ⟨hsize, htext⟩ := Readline.readline_sized cputchar hbuf hread
  cases text with
  | none =>
    cases hround
    exact ⟨_, rfl, hsize⟩
  | some text =>
    obtain ⟨hlength, hterm⟩ := htext text rfl
    obtain ⟨parse, hrun, hparse⟩ := runcmd_responds h hterm (by rw [hlength]; decide)
      (Vector.length_toList) tf editor.console
    dsimp only at hround
    rw [bind_of_ok hrun] at hround
    cases hround
    exact ⟨_, rfl, hparse.trans hlength⟩

theorem monitor_stays (h : Answers commands cputchar answer) {fuel : Nat} {s s' : Session σ}
    (hbuf : s.buf.length = 1024) : monitor commands cputchar stack tf fuel s ≠ .ok s' := by
  intro hrun
  rw [monitor, bind_of_ok (greet_eq s.console)] at hrun
  refine Loop.run_ok (fun s => s.buf.length = 1024) (fun _ => False) ?_ ?_ hbuf hrun
  · intro state next hsize hround
    obtain ⟨next', heq, hnext⟩ := monitorRound_next stack tf h hsize hround
    cases heq
    exact hnext
  · intro state value hsize hround
    obtain ⟨next, heq, -⟩ := monitorRound_next stack tf h hsize hround
    cases heq

end

def answerOf (symbols : Symbols) (name : List UInt8) : Option (List Int) :=
  if name = stringAt (cstr "help".toList) then some helpText
  else if name = stringAt (cstr "kerninfo".toList) then some (kerninfoText symbols)
  else none

theorem commands_answers {τ σ : Type} (cputchar : Int → σ → σ) (symbols : Symbols) :
    Answers (commands cputchar symbols : List (Command τ σ)) cputchar (answerOf symbols) := by
  constructor
  · intro command hcommand
    rcases List.mem_cons.mp hcommand with rfl | hcommand
    · exact ⟨helpText, rfl, monHelp_says cputchar⟩
    · rw [List.mem_singleton.mp hcommand]
      exact ⟨kerninfoText symbols, rfl, monKerninfo_says cputchar symbols⟩
  · intro name hname
    have hhelp := hname _ List.mem_cons_self
    have hkerninfo := hname _ (List.mem_cons_of_mem _ List.mem_cons_self)
    rw [answerOf, if_neg hhelp.symm, if_neg hkerninfo.symm]

section
variable {τ σ : Type} (cputchar : Int → σ → σ) (symbols : Symbols) (stack : Stack) (tf : τ)

/-- The monitor answers every line in turn and goes on with the input behind them, and
a read error or the end of a command never makes it return. -/
theorem monitor_session (lines : List Line) (rest : List Int) (buf : Vector UInt8 1024)
    (calls : Nat) (console : σ) :
    (∃ start rounds s, greet cputchar console = .ok start ∧
      Loop.Reaches (monitorRound (commands cputchar symbols) cputchar stack tf)
        ⟨lines.flatMap Line.input ++ rest, buf.toList, calls, start⟩ s ∧
      (∀ fuel, monitor (commands cputchar symbols) cputchar stack tf (rounds + fuel)
          ⟨lines.flatMap Line.input ++ rest, buf.toList, calls, console⟩ =
        Loop.run .unfinished (monitorRound (commands cputchar symbols) cputchar stack tf) fuel s) ∧
      s.input = rest ∧ s.calls = calls + lines.length ∧
      s.console = feed cputchar console
        (greeting ++ lines.flatMap (exchange (answerOf symbols)))) ∧
    ∀ (fuel : Nat) (input : List Int) (s : Session σ),
      monitor (commands cputchar symbols) cputchar stack tf fuel
          ⟨input, buf.toList, calls, console⟩ ≠
        .ok s := by
  have hanswers := @commands_answers τ σ cputchar symbols
  constructor
  · obtain ⟨s, hreach, hleft, -, hcalls, hshown⟩ := monitorLoop_lines stack tf hanswers lines rest
      (s := ⟨lines.flatMap Line.input ++ rest, buf.toList, calls, feed cputchar console greeting⟩) rfl
      Vector.length_toList
    obtain ⟨rounds, hrun⟩ := monitor_reaches stack tf
      (s := ⟨lines.flatMap Line.input ++ rest, buf.toList, calls, console⟩) (greet_eq console) hreach
    exact ⟨_, rounds, s, greet_eq console, hreach, hrun, hleft, hcalls, by rw [hshown, feed_append]⟩
  · intro fuel input s
    exact monitor_stays stack tf hanswers Vector.length_toList

end

end JosKernel.Kern
