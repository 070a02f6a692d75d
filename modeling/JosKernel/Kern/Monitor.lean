import JosKernel.General.Words
import JosKernel.Kern.Printf
import JosKernel.Lib.Compare

/-! `runcmd` of `kern/monitor.c`: a command line is split into its arguments in
place, and the command that the first one names is called. -/
namespace JosKernel.Kern
open JosKernel.Inc JosKernel.Lib JosKernel.General Sink

/-- What `runcmd` works on: the buffer, the pointer that walks it, and `argv`,
which points into the buffer (`none` is the null pointer). -/
structure Parse where
  buf : List UInt8
  pos : Nat
  argc : Nat
  argv : List (Option Nat)

/-- An entry of the table. A command sees `argc`, `argv` with the memory behind
it and the trapframe, and works on the console. -/
structure Command (τ σ : Type) where
  name : List UInt8
  func : Parse → τ → σ → Except Fault (Int × σ)
  name_terminated : Terminated name

def whitespace : List UInt8 := cstr "\t\r\n ".toList

def maxArgs : Nat := 16

def gobbleRound (s : Parse) : Except Fault (Parse ⊕ Parse) := do
  let byte ← load s.buf s.pos
  if byte = 0 then return .inr s
  match ← strchr whitespace byte with
  | none => return .inr s
  | some _ => do
    let buf ← store s.buf s.pos 0
    return .inl { s with buf, pos := s.pos + 1 }

def scanRound (s : Parse) : Except Fault (Parse ⊕ Parse) := do
  let byte ← load s.buf s.pos
  if byte = 0 then return .inr s
  match ← strchr whitespace byte with
  | none => return .inl { s with pos := s.pos + 1 }
  | some _ => return .inr s

/-- A round of the `while (1)`, which is left at the end of the buffer or, with
`true`, by the return for too many arguments. -/
def argRound (s : Parse) : Except Fault (Parse ⊕ (Parse × Bool)) := do
  let s ← Loop.run .unfinished gobbleRound (s.buf.length + 1) s
  let byte ← load s.buf s.pos
  if byte = 0 then return .inr (s, false)
  -- save and scan past next arg
  if s.argc = maxArgs - 1 then return .inr (s, true)
  let argv ← store s.argv s.argc (some s.pos)
  let s ← Loop.run .unfinished scanRound (s.buf.length + 1) { s with argv, argc := s.argc + 1 }
  return .inl s

def splitArgs (buf : List UInt8) (argv : List (Option Nat)) : Except Fault (Parse × Bool) := do
  let argv ← store argv 0 none
  Loop.run .unfinished argRound (buf.length + 1) ⟨buf, 0, 0, argv⟩

def argAt (s : Parse) (i : Nat) : Except Fault (List UInt8) := do
  match ← load s.argv i with
  | some p => return s.buf.drop p
  | none => .error .badAccess

section
variable {τ σ : Type} (commands : List (Command τ σ)) (cputchar : Int → σ → σ)

def lookup (s : Parse) (tf : τ) (console : σ) :
    List (Command τ σ) → Except Fault (Int × Parse × σ)
  | [] => do
    let arg ← argAt s 0
    let (_, console) ← cprintf cputchar (cstr "Unknown command '%s'\n".toList) [.str (some arg)]
      console
    return (0, s, console)
  | command :: commands => do
    let arg ← argAt s 0
    if (← strcmp arg command.name) = 0 then
      let (result, console) ← command.func s tf console
      return (result, s, console)
    else lookup s tf console commands

/-- `argv` is not initialised when the function is entered. What the buffer and
`argv` hold in the end is returned too. -/
def runcmd (buf : List UInt8) (argv : List (Option Nat)) (tf : τ) (console : σ) :
    Except Fault (Int × Parse × σ) := do
  let (s, tooMany) ← splitArgs buf argv
  if tooMany then
    let (_, console) ← cprintf cputchar (cstr "Too many arguments (max %d)\n".toList)
      [.int (UInt32.ofNat maxArgs)] console
    return (0, s, console)
  let argv ← store s.argv s.argc none
  let s := { s with argv }
  if s.argc = 0 then return (0, s, console)
  lookup cputchar s tf console commands

end

def isSpace (byte : UInt8) : Bool :=
  byte = 0x09 ∨ byte = 0x0d ∨ byte = 0x0a ∨ byte = 0x20

theorem strchr_whitespace {byte : UInt8} :
    ∃ found, strchr whitespace byte = .ok found ∧ found.isSome = isSpace byte := by
  obtain ⟨found, hrun, hiff⟩ := strchr_isSome (show Terminated whitespace by decide) byte
  refine ⟨found, hrun, ?_⟩
  have htext : whitespace.takeWhile (· ≠ 0) = [0x09, 0x0d, 0x0a, 0x20] := rfl
  rw [htext] at hiff
  rw [Bool.eq_iff_iff, hiff, isSpace, decide_eq_true_iff]
  simp

theorem strchr_space {byte : UInt8} (h : isSpace byte) :
    ∃ index, strchr whitespace byte = .ok (some index) := by
  obtain ⟨found, hrun, hsome⟩ := @strchr_whitespace byte
  obtain ⟨index, rfl⟩ := Option.isSome_iff_exists.mp (hsome.trans h)
  exact ⟨index, hrun⟩

theorem strchr_other {byte : UInt8} (h : isSpace byte = false) :
    strchr whitespace byte = .ok none := by
  obtain ⟨found, hrun, hsome⟩ := @strchr_whitespace byte
  cases found with
  | none => exact hrun
  | some index => rw [h] at hsome; cases hsome

theorem gobbleRound_space (before : List UInt8) {byte : UInt8} (h : isSpace byte) (after : List UInt8)
    (argc : Nat) (argv : List (Option Nat)) :
    gobbleRound ⟨before ++ byte :: after, before.length, argc, argv⟩ =
      .ok (.inl ⟨before ++ 0 :: after, before.length + 1, argc, argv⟩) := by
  obtain ⟨index, hrun⟩ := strchr_space h
  have hbyte : byte ≠ 0 := by
    rintro rfl
    exact absurd h (by decide)
  simp only [gobbleRound, load_append, store_append, bind, Except.bind, hbyte, hrun]
  rfl

theorem gobbleRound_stop (before : List UInt8) {byte : UInt8} (h : isSpace byte = false)
    (after : List UInt8) (argc : Nat) (argv : List (Option Nat)) :
    gobbleRound ⟨before ++ byte :: after, before.length, argc, argv⟩ =
      .ok (.inr ⟨before ++ byte :: after, before.length, argc, argv⟩) := by
  simp only [gobbleRound, load_append, bind, Except.bind, strchr_other h]
  split <;> rfl

theorem scanRound_next (before : List UInt8) {byte : UInt8} (h : isSpace byte = false)
    (hbyte : byte ≠ 0) (after : List UInt8) (argc : Nat) (argv : List (Option Nat)) :
    scanRound ⟨before ++ byte :: after, before.length, argc, argv⟩ =
      .ok (.inl ⟨before ++ byte :: after, before.length + 1, argc, argv⟩) := by
  simp only [scanRound, load_append, bind, Except.bind, hbyte, strchr_other h]
  rfl

theorem scanRound_stop (before : List UInt8) {byte : UInt8} (h : byte = 0 ∨ isSpace byte)
    (after : List UInt8) (argc : Nat) (argv : List (Option Nat)) :
    scanRound ⟨before ++ byte :: after, before.length, argc, argv⟩ =
      .ok (.inr ⟨before ++ byte :: after, before.length, argc, argv⟩) := by
  simp only [scanRound, load_append, bind, Except.bind]
  by_cases hend : byte = 0
  · rw [if_pos hend]
    rfl
  · obtain ⟨index, hrun⟩ := strchr_space (h.resolve_left hend)
    rw [if_neg hend, hrun]
    rfl

section
variable (argc : Nat) (argv : List (Option Nat))

theorem gobble_eq {gap : List UInt8} (hgap : ∀ byte ∈ gap, isSpace byte) {byte : UInt8}
    (hstop : isSpace byte = false) (before after : List UInt8) {fuel : Nat}
    (hfuel : gap.length < fuel) :
    Loop.run .unfinished gobbleRound fuel
        ⟨before ++ (gap ++ byte :: after), before.length, argc, argv⟩ =
      .ok ⟨before ++ List.replicate gap.length 0 ++ byte :: after,
        (before ++ List.replicate gap.length 0).length, argc, argv⟩ := by
  induction gap generalizing before fuel with
  | nil =>
    obtain ⟨fuel, rfl⟩ : ∃ left, fuel = left + 1 := ⟨fuel - 1, by omega⟩
    rw [List.nil_append, List.length_nil, List.replicate_zero, List.append_nil]
    exact Loop.run_done (gobbleRound_stop before hstop after argc argv) fuel
  | cons space gap ih =>
    obtain ⟨fuel, rfl⟩ : ∃ left, fuel = left + 1 := ⟨fuel - 1, by omega⟩
    obtain ⟨hspace, hrest⟩ := List.forall_mem_cons.mp hgap
    rw [List.cons_append, Loop.run_next (gobbleRound_space before hspace _ argc argv)]
    have hnext := ih hrest (before ++ [0]) (Nat.lt_of_succ_lt_succ hfuel)
    rw [List.append_assoc, List.append_assoc before, List.length_append] at hnext
    exact hnext

theorem scan_eq {run : List UInt8} (hrun : ∀ byte ∈ run, isSpace byte = false ∧ byte ≠ 0)
    {byte : UInt8} (hstop : byte = 0 ∨ isSpace byte) (before after : List UInt8) {fuel : Nat}
    (hfuel : run.length < fuel) :
    Loop.run .unfinished scanRound fuel
        ⟨before ++ (run ++ byte :: after), before.length, argc, argv⟩ =
      .ok ⟨before ++ run ++ byte :: after, (before ++ run).length, argc, argv⟩ := by
  induction run generalizing before fuel with
  | nil =>
    obtain ⟨fuel, rfl⟩ : ∃ left, fuel = left + 1 := ⟨fuel - 1, by omega⟩
    rw [List.nil_append, List.append_nil]
    exact Loop.run_done (scanRound_stop before hstop after argc argv) fuel
  | cons char run ih =>
    obtain ⟨fuel, rfl⟩ : ∃ left, fuel = left + 1 := ⟨fuel - 1, by omega⟩
    obtain ⟨hchar, hrest⟩ := List.forall_mem_cons.mp hrun
    rw [List.cons_append, Loop.run_next (scanRound_next before hchar.1 hchar.2 _ argc argv)]
    have hnext := ih hrest (before ++ [char]) (Nat.lt_of_succ_lt_succ hfuel)
    rw [List.append_assoc, List.append_assoc before, List.length_append] at hnext
    exact hnext

variable {gap : List UInt8} (hgap : ∀ byte ∈ gap, isSpace byte) (before after : List UInt8)

include hgap in
theorem argRound_end :
    argRound ⟨before ++ (gap ++ 0 :: after), before.length, argc, argv⟩ =
      .ok (.inr (⟨before ++ List.replicate gap.length 0 ++ 0 :: after,
        (before ++ List.replicate gap.length 0).length, argc, argv⟩, false)) := by
  have hfuel : gap.length < (before ++ (gap ++ 0 :: after)).length + 1 := by
    simp only [List.length_append, List.length_cons]
    omega
  have hgobble := gobble_eq argc argv hgap (show isSpace 0 = false by decide) before after hfuel
  simp only [argRound, hgobble, load_append, bind, Except.bind]
  rfl

include hgap in
theorem argRound_full {char : UInt8} (hchar : isSpace char = false) (hne : char ≠ 0) :
    argRound ⟨before ++ (gap ++ char :: after), before.length, 15, argv⟩ =
      .ok (.inr (⟨before ++ List.replicate gap.length 0 ++ char :: after,
        (before ++ List.replicate gap.length 0).length, 15, argv⟩, true)) := by
  have hfuel : gap.length < (before ++ (gap ++ char :: after)).length + 1 := by
    simp only [List.length_append, List.length_cons]
    omega
  have hgobble := gobble_eq 15 argv hgap hchar before after hfuel
  simp only [argRound, hgobble, load_append, bind, Except.bind, hne]
  rfl

include hgap in
theorem argRound_arg {char : UInt8} {run : List UInt8}
    (hrun : ∀ byte ∈ char :: run, isSpace byte = false ∧ byte ≠ 0) {stop : UInt8}
    (hstop : stop = 0 ∨ isSpace stop) (hroom : argc < 15) (hargv : argv.length = 16) :
    argRound ⟨before ++ (gap ++ char :: (run ++ stop :: after)), before.length, argc, argv⟩ =
      .ok (.inl ⟨before ++ List.replicate gap.length 0 ++ (char :: run) ++ stop :: after,
        (before ++ List.replicate gap.length 0 ++ (char :: run)).length, argc + 1,
        argv.set argc (some (before ++ List.replicate gap.length 0).length)⟩) := by
  obtain ⟨hchar, hne⟩ := hrun char List.mem_cons_self
  have hfuel : gap.length < (before ++ (gap ++ char :: (run ++ stop :: after))).length + 1 := by
    simp only [List.length_append, List.length_cons]
    omega
  have hgobble := gobble_eq argc argv hgap hchar before (run ++ stop :: after) hfuel
  have hlimit : ¬argc = maxArgs - 1 := Nat.ne_of_lt hroom
  have hstore : store argv argc (some (before ++ List.replicate gap.length 0).length) = .ok _ :=
    store_eq (by omega) _
  have hscan := scan_eq (argc + 1)
    (argv.set argc (some (before ++ List.replicate gap.length 0).length)) hrun hstop
    (before ++ List.replicate gap.length 0) after
    (show (char :: run).length < (before ++ List.replicate gap.length 0 ++
      char :: (run ++ stop :: after)).length + 1 by
        simp only [List.length_append, List.length_cons]
        omega)
  rw [List.cons_append] at hscan
  simp only [argRound, hgobble, load_append, bind, Except.bind, hne, hlimit, hstore, if_false,
    hscan]
  rfl

end

def cleared (text : List UInt8) : List UInt8 :=
  text.map fun byte => if isSpace byte then 0 else byte

theorem cleared_append (left right : List UInt8) :
    cleared (left ++ right) = cleared left ++ cleared right := List.map_append

theorem cleared_gap {gap : List UInt8} (h : ∀ byte ∈ gap, isSpace byte) :
    cleared gap = List.replicate gap.length 0 := by
  apply List.eq_replicate_iff.mpr
  refine ⟨List.length_map _, fun byte hbyte => ?_⟩
  obtain ⟨space, hmem, rfl⟩ := List.mem_map.mp hbyte
  rw [if_pos (h space hmem)]

theorem cleared_run {run : List UInt8} (h : ∀ byte ∈ run, isSpace byte = false) :
    cleared run = run := by
  have hid : cleared run = run.map id := by
    apply List.map_congr_left
    intro byte hbyte
    rw [h byte hbyte]
    rfl
  rw [hid, List.map_id]

def Points (s : Parse) (first : Nat) (runs : List (List UInt8)) : Prop :=
  ∀ i run, runs[i]? = some run → ∃ p, s.argv[first + i]? = some (some p) ∧
    Terminated (s.buf.drop p) ∧ stringAt (s.buf.drop p) = run

/-- What the loop leaves when it begins behind `before`, with `argc` arguments
and with `text` up to the NUL ahead of it. -/
structure Splits (before text after : List UInt8) (argc : Nat) (argv : List (Option Nat))
    (s : Parse) (tooMany : Bool) : Prop where
  slots : s.argv.length = maxArgs
  frame : ∃ left, s.buf = left ++ 0 :: after ∧ left.length = before.length + text.length
  limit : tooMany ↔ 15 < argc + (words isSpace text).length
  count : ¬tooMany → s.argc = argc + (words isSpace text).length
  buffer : ¬tooMany → s.buf = before ++ cleared text ++ 0 :: after
  earlier : ¬tooMany → ∀ k < argc, s.argv[k]? = argv[k]?
  points : ¬tooMany → Points s argc (words isSpace text)

section
variable {before text after : List UInt8} {argc : Nat} {argv : List (Option Nat)}
  {gap : List UInt8} (hgap : ∀ byte ∈ gap, isSpace byte)

include hgap in
theorem splits_end (hslots : argv.length = maxArgs) (hargc : argc ≤ 15) :
    Splits before gap after argc argv ⟨before ++ List.replicate gap.length 0 ++ 0 :: after,
      (before ++ List.replicate gap.length 0).length, argc, argv⟩ false := by
  have hwords : words isSpace gap = [] := by
    rw [← List.append_nil gap, words_seps hgap, words_nil]
  constructor
  · exact hslots
  · refine ⟨before ++ List.replicate gap.length 0, rfl, ?_⟩
    rw [List.length_append, List.length_replicate]
  · rw [hwords, List.length_nil]
    constructor
    · intro h
      cases h
    · intro h
      omega
  · exact fun _ => by rw [hwords]; rfl
  · exact fun _ => by rw [cleared_gap hgap]
  · exact fun _ k _ => rfl
  · intro _ i run hrun
    rw [hwords] at hrun
    cases hrun

include hgap in
theorem splits_full (hslots : argv.length = maxArgs) {char : UInt8} (hchar : isSpace char = false)
    (rest : List UInt8) :
    Splits before (gap ++ char :: rest) after 15 argv
      ⟨before ++ List.replicate gap.length 0 ++ char :: (rest ++ 0 :: after),
        (before ++ List.replicate gap.length 0).length, 15, argv⟩ true := by
  have hwords : words isSpace (gap ++ char :: rest) ≠ [] := by
    obtain ⟨run, rest', rfl, hrun, hstop⟩ := leading (fun byte => !isSpace byte) rest
    rw [words_seps hgap, ← List.cons_append,
      words_run (List.cons_ne_nil char run) (List.forall_mem_cons.mpr ⟨hchar, by simpa using hrun⟩)
        (by simpa using hstop)]
    exact List.cons_ne_nil _ _
  have hpos := List.length_pos_iff.mpr hwords
  constructor
  · exact hslots
  · refine ⟨before ++ List.replicate gap.length 0 ++ char :: rest, ?_, ?_⟩
    · simp only [List.append_assoc, List.cons_append]
    · simp only [List.length_append, List.length_replicate, List.length_cons]
      omega
  · exact ⟨fun _ => by omega, fun _ => rfl⟩
  all_goals exact fun h => absurd rfl h

theorem stringAt_run {run : List UInt8} (hrun : ∀ byte ∈ run, byte ≠ 0) (rest : List UInt8) :
    Terminated (run ++ 0 :: rest) ∧ stringAt (run ++ 0 :: rest) = run := by
  constructor
  · simp [Terminated]
  · rw [stringAt, List.takeWhile_append_of_pos (by simpa using hrun)]
    simp

include hgap in
theorem splits_arg {char : UInt8} {run rest : List UInt8}
    (hrun : ∀ byte ∈ char :: run, isSpace byte = false ∧ byte ≠ 0)
    (hstop : ∀ byte ∈ rest.head?, isSpace byte) (hargc : argc < argv.length) {s : Parse}
    {tooMany : Bool}
    (h : Splits (before ++ List.replicate gap.length 0 ++ (char :: run)) rest after (argc + 1)
      (argv.set argc (some (before ++ List.replicate gap.length 0).length)) s tooMany) :
    Splits before (gap ++ char :: (run ++ rest)) after argc argv s tooMany := by
  have hspaces : ∀ byte ∈ char :: run, isSpace byte = false := fun byte hbyte => (hrun byte hbyte).1
  have hwords : words isSpace (gap ++ char :: (run ++ rest)) =
      (char :: run) :: words isSpace rest := by
    rw [words_seps hgap, ← List.cons_append, words_run (List.cons_ne_nil char run) hspaces hstop]
  have hbuffer : ¬tooMany → s.buf =
      (before ++ List.replicate gap.length 0) ++ (char :: run ++ (cleared rest ++ 0 :: after)) := by
    intro htoo
    rw [h.buffer htoo]
    simp only [List.append_assoc]
  constructor
  · exact h.slots
  · obtain ⟨left, hbuf, hleft⟩ := h.frame
    refine ⟨left, hbuf, hleft.trans ?_⟩
    simp only [List.length_append, List.length_replicate, List.length_cons]
    omega
  · rw [hwords, List.length_cons, h.limit]
    constructor <;> intro hlt <;> omega
  · intro htoo
    rw [hwords, List.length_cons, h.count htoo]
    omega
  · intro htoo
    have htext : gap ++ char :: (run ++ rest) = gap ++ ((char :: run) ++ rest) := rfl
    rw [hbuffer htoo, htext, cleared_append, cleared_append, cleared_gap hgap, cleared_run hspaces]
    simp only [List.append_assoc]
  · intro htoo k hk
    rw [h.earlier htoo k (Nat.lt_succ_of_lt hk)]
    exact List.getElem?_set_ne (Nat.ne_of_gt hk)
  · intro htoo i word hword
    rw [hwords] at hword
    cases i with
    | zero =>
      cases hword
      refine ⟨(before ++ List.replicate gap.length 0).length, ?_, ?_⟩
      · rw [Nat.add_zero, h.earlier htoo argc (Nat.lt_succ_self argc)]
        exact List.getElem?_set_self hargc
      · rw [hbuffer htoo, List.drop_left]
        cases rest with
        | nil => exact stringAt_run (fun byte hbyte => (hrun byte hbyte).2) after
        | cons stop rest =>
          have hclear : cleared (stop :: rest) = 0 :: cleared rest := by
            rw [cleared, List.map_cons, if_pos (hstop stop rfl)]
            rfl
          rw [hclear]
          exact stringAt_run (fun byte hbyte => (hrun byte hbyte).2) (cleared rest ++ 0 :: after)
    | succ i =>
      obtain ⟨p, hp, hstring⟩ := h.points htoo i word hword
      refine ⟨p, ?_, hstring⟩
      rw [← hp]
      congr 1
      omega

end

theorem argLoop_splits {text : List UInt8} (htext : ∀ byte ∈ text, byte ≠ 0)
    (before after : List UInt8) {argc : Nat} {argv : List (Option Nat)}
    (hslots : argv.length = maxArgs) (hargc : argc ≤ 15) {fuel : Nat} (hfuel : text.length < fuel) :
    ∃ s tooMany, Loop.run .unfinished argRound fuel
        ⟨before ++ (text ++ 0 :: after), before.length, argc, argv⟩ = .ok (s, tooMany) ∧
      Splits before text after argc argv s tooMany := by
  induction fuel generalizing text before argc argv with
  | zero => omega
  | succ fuel ih =>
    obtain ⟨gap, rest, rfl, hgap, hhead⟩ := leading isSpace text
    cases rest with
    | nil =>
      rw [List.append_nil, Loop.run_done (argRound_end argc argv hgap before after)]
      exact ⟨_, _, rfl, splits_end hgap hslots hargc⟩
    | cons char rest =>
      have hchar : isSpace char = false := hhead char rfl
      have hne : char ≠ 0 := htext char (List.mem_append_right gap List.mem_cons_self)
      rw [List.append_assoc, List.cons_append]
      by_cases hfull : argc = 15
      · subst hfull
        rw [Loop.run_done (argRound_full argv hgap before (rest ++ 0 :: after) hchar hne)]
        exact ⟨_, _, rfl, splits_full hgap hslots hchar rest⟩
      · obtain ⟨run, rest, rfl, hrun, hstop⟩ := leading (fun byte => !isSpace byte) rest
        have hword : ∀ byte ∈ char :: run, isSpace byte = false ∧ byte ≠ 0 := by
          rw [List.forall_mem_cons]
          refine ⟨⟨hchar, hne⟩, fun byte hbyte => ⟨by simpa using hrun byte hbyte, ?_⟩⟩
          exact htext byte (by simp [hbyte])
        have hspace : ∀ byte ∈ rest.head?, isSpace byte := by simpa using hstop
        obtain ⟨stop, tail, htail, hend⟩ : ∃ stop tail, rest ++ 0 :: after = stop :: tail ∧
            (stop = 0 ∨ isSpace stop) := by
          cases rest with
          | nil => exact ⟨0, after, rfl, Or.inl rfl⟩
          | cons stop rest => exact ⟨stop, _, rfl, Or.inr (hspace stop rfl)⟩
        have hround := argRound_arg argc argv hgap before tail hword hend (by omega) hslots
        simp only [List.length_append, List.length_cons] at hfuel
        obtain ⟨s, tooMany, hloop, hsplits⟩ := ih
          (fun byte hbyte => htext byte (by simp [hbyte]))
          (before ++ List.replicate gap.length 0 ++ (char :: run))
          (show (argv.set argc (some (before ++ List.replicate gap.length 0).length)).length =
            maxArgs from List.length_set.trans hslots)
          (show argc + 1 ≤ 15 by omega) (show rest.length < fuel by omega)
        rw [List.append_assoc run, htail, Loop.run_next hround, ← htail]
        have hslot : argc < argv.length := by
          rw [hslots]
          exact Nat.lt_succ_of_le hargc
        exact ⟨s, tooMany, hloop, splits_arg hgap hword hspace hslot hsplits⟩

theorem splitArgs_splits {text : List UInt8} (htext : ∀ byte ∈ text, byte ≠ 0)
    (after : List UInt8) {argv : List (Option Nat)} (hslots : argv.length = maxArgs) :
    ∃ s tooMany, splitArgs (text ++ 0 :: after) argv = .ok (s, tooMany) ∧
      Splits [] text after 0 (argv.set 0 none) s tooMany := by
  have hfirst : 0 < argv.length := by
    rw [hslots]
    decide
  have hfuel : text.length < (text ++ 0 :: after).length + 1 := by
    simp only [List.length_append, List.length_cons]
    omega
  obtain ⟨s, tooMany, hloop, hsplits⟩ := argLoop_splits htext [] after
    (List.length_set.trans hslots : (argv.set 0 none).length = maxArgs) (Nat.zero_le 15) hfuel
  refine ⟨s, tooMany, ?_, hsplits⟩
  rw [splitArgs, store_eq hfirst]
  exact hloop

section
variable {τ σ : Type} (commands : List (Command τ σ)) (cputchar : Int → σ → σ)

/-- What follows when the runs have been stored as arguments: the entry that the
first run names is called, or nothing but a message for an unknown name. -/
def Dispatches (s : Parse) (tf : τ) (console : σ) (result : Except Fault (Int × Parse × σ)) :
    List (List UInt8) → Prop
  | [] => result = .ok (0, s, console)
  | name :: _ =>
    match commands.find? fun command => stringAt command.name = name with
    | some command => result = (command.func s tf console).map fun r => (r.1, s, r.2)
    | none => ∃ arg out, argAt s 0 = .ok arg ∧
        vprintfmt collect [] (cstr "Unknown command '%s'\n".toList) [.str (some arg)] = .ok out ∧
        result = .ok (0, s, feed cputchar console out)

theorem cprintf_eq {text : List UInt8} {ap : List Arg} (h : Matching text ap) (console : σ) :
    ∃ out, vprintfmt collect [] text ap = .ok out ∧
      cprintf cputchar text ap console = .ok (0, feed cputchar console out) := by
  obtain ⟨out, hout, -⟩ := vprintfmt_matching h
  refine ⟨out, hout, ?_⟩
  rw [cprintf, vcprintf_eq cputchar hout]
  rfl

theorem matching_unknown {arg : List UInt8} (h : Terminated arg) :
    Matching (cstr "Unknown command '%s'\n".toList) [.str (some arg)] := by
  change ((takes .start [.str (some arg)] .string).map (matching [39, 10, 0] .text)).getD false = true
  simp only [takes, takesStr, if_pos h]
  rfl

section
variable {s : Parse} {arg : List UInt8} (harg : argAt s 0 = .ok arg) (hterm : Terminated arg)
  (tf : τ) (console : σ)

include harg hterm in
theorem lookup_nil :
    ∃ out, vprintfmt collect [] (cstr "Unknown command '%s'\n".toList) [.str (some arg)] = .ok out ∧
      lookup cputchar s tf console ([] : List (Command τ σ)) =
        .ok (0, s, feed cputchar console out) := by
  obtain ⟨out, hout, hprint⟩ := cprintf_eq cputchar (matching_unknown hterm) console
  refine ⟨out, hout, ?_⟩
  simp only [lookup, harg, hprint, bind, Except.bind]
  rfl

include harg hterm in
theorem lookup_cons (command : Command τ σ) :
    lookup cputchar s tf console (command :: commands) =
      if stringAt command.name = stringAt arg then
        (command.func s tf console).map fun r => (r.1, s, r.2)
      else lookup cputchar s tf console commands := by
  obtain ⟨result, hcmp⟩ := strcmp_ok hterm command.name_terminated
  have hfound : result = 0 ↔ stringAt command.name = stringAt arg :=
    (strcmp_zero hcmp).trans eq_comm
  simp only [lookup, harg, hcmp, hfound, bind, Except.bind]
  congr 1

include harg hterm in
theorem lookup_dispatches (rest : List (List UInt8)) :
    Dispatches commands cputchar s tf console (lookup cputchar s tf console commands)
      (stringAt arg :: rest) := by
  unfold Dispatches
  dsimp only
  induction commands with
  | nil =>
    obtain ⟨out, hout, hprint⟩ := lookup_nil cputchar harg hterm tf console
    exact ⟨arg, out, harg, hout, hprint⟩
  | cons command commands ih =>
    rw [lookup_cons commands cputchar harg hterm]
    by_cases hname : stringAt command.name = stringAt arg
    · rw [if_pos hname, List.find?_cons_of_pos (by simpa using hname)]
    · rw [if_neg hname, List.find?_cons_of_neg (by simpa using hname)]
      exact ih

end

/-- What `runcmd` owes a buffer: it writes nothing past the NUL nor past
`argv[15]`, up to 15 runs become the arguments and the first is looked up, and
on more it returns 0 with a message. -/
def Tokenizes (buf : List UInt8) (argv : List (Option Nat)) (tf : τ) (console : σ) : Prop :=
  ∃ s : Parse, s.argv.length = maxArgs ∧ s.buf.length = buf.length ∧
    s.buf.drop (stringAt buf).length = buf.drop (stringAt buf).length ∧
    ((words isSpace (stringAt buf)).length ≤ 15 →
      s.argc = (words isSpace (stringAt buf)).length ∧ Points s 0 (words isSpace (stringAt buf)) ∧
      s.argv[s.argc]? = some none ∧
      Dispatches commands cputchar s tf console (runcmd commands cputchar buf argv tf console)
        (words isSpace (stringAt buf))) ∧
    (16 ≤ (words isSpace (stringAt buf)).length →
      ∃ out, vprintfmt collect [] (cstr "Too many arguments (max %d)\n".toList)
          [.int (UInt32.ofNat maxArgs)] = .ok out ∧
        runcmd commands cputchar buf argv tf console = .ok (0, s, feed cputchar console out))

theorem runcmd_tokenizes (buf : List UInt8) (hbuf : Terminated buf) (argv : List (Option Nat))
    (hslots : argv.length = maxArgs) (tf : τ) (console : σ) :
    Tokenizes commands cputchar buf argv tf console := by
  unfold Tokenizes
  obtain ⟨after, hsplit⟩ := stringAt_append hbuf
  have htext := stringAt_ne_zero buf
  generalize stringAt buf = text at hsplit htext ⊢
  subst hsplit
  obtain ⟨s, tooMany, hsplit, hsplits⟩ := splitArgs_splits htext after hslots
  obtain ⟨left, hleft, hlength⟩ := hsplits.frame
  rw [List.length_nil, Nat.zero_add] at hlength
  have hframe : s.buf.length = (text ++ 0 :: after).length ∧
      s.buf.drop text.length = (text ++ 0 :: after).drop text.length := by
    rw [hleft, List.drop_left, ← hlength, List.drop_left, List.length_append, List.length_append,
      hlength]
    exact ⟨rfl, rfl⟩
  have hlimit := hsplits.limit
  rw [Nat.zero_add] at hlimit
  cases tooMany with
  | true =>
    have hmany := hlimit.mp rfl
    refine ⟨s, hsplits.slots, hframe.1, hframe.2, fun hfew => by omega, fun _ => ?_⟩
    obtain ⟨out, hout, hprint⟩ := cprintf_eq cputchar (show Matching
      (cstr "Too many arguments (max %d)\n".toList) [.int (UInt32.ofNat maxArgs)] by decide) console
    refine ⟨out, hout, ?_⟩
    simp only [runcmd, hsplit, hprint, bind, Except.bind, if_true]
    rfl
  | false =>
    have hfalse : ¬false = true := Bool.false_ne_true
    have hfew : ¬15 < (words isSpace text).length := fun h => hfalse (hlimit.mpr h)
    have hcount := hsplits.count hfalse
    have hpoints := hsplits.points hfalse
    rw [Nat.zero_add] at hcount
    have hslot : s.argc < s.argv.length := by
      rw [hsplits.slots, hcount]
      exact Nat.lt_succ_of_le (Nat.le_of_not_lt hfew)
    have hpoints' : Points { s with argv := s.argv.set s.argc none } 0 (words isSpace text) := by
      intro i run hrun
      obtain ⟨p, hp, hstring⟩ := hpoints i run hrun
      have hi := (List.getElem?_eq_some_iff.mp hrun).1
      exact ⟨p, (List.getElem?_set_ne (by omega)).trans hp, hstring⟩
    refine ⟨{ s with argv := s.argv.set s.argc none }, List.length_set.trans hsplits.slots,
      hframe.1, hframe.2, fun _ => ⟨hcount, hpoints', List.getElem?_set_self hslot, ?_⟩,
      fun hmany => by omega⟩
    have hrun : runcmd commands cputchar (text ++ 0 :: after) argv tf console =
        if s.argc = 0 then .ok (0, { s with argv := s.argv.set s.argc none }, console)
        else lookup cputchar { s with argv := s.argv.set s.argc none } tf console commands := by
      simp only [runcmd, hsplit, store_eq hslot, bind, Except.bind]
      rfl
    rw [hrun]
    cases hwords : words isSpace text with
    | nil =>
      rw [if_pos (by rw [hcount, hwords]; rfl)]
      rfl
    | cons name rest =>
      obtain ⟨p, hp, hterm, hname⟩ := hpoints' 0 name (by rw [hwords]; rfl)
      have harg : argAt { s with argv := s.argv.set s.argc none } 0 = .ok (s.buf.drop p) := by
        simp only [argAt, load_eq hp, bind, Except.bind]
        rfl
      rw [if_neg (by rw [hcount, hwords]; exact Nat.succ_ne_zero _), ← hname]
      exact lookup_dispatches commands cputchar harg hterm tf console rest

end

theorem runcmd_tokenizes_help :
    Tokenizes [⟨cstr "help".toList, fun s _ console => .ok (s.argc, console), by decide⟩] collect
      (cstr "\t help  me\n".toList) (List.replicate 16 (some 7)) () [] :=
  runcmd_tokenizes [⟨cstr "help".toList, fun s _ console => .ok (s.argc, console), by decide⟩]
    collect (cstr "\t help  me\n".toList) (by decide) (List.replicate 16 (some 7))
    List.length_replicate () []

end JosKernel.Kern
