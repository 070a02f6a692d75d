import JosKernel.Lib.Conversions

/-! Formats with the arguments they ask for. On a matching argument list the
formatter returns, and it can be read off the format whether it prints at all. -/
namespace JosKernel.Lib
open JosKernel.Inc JosKernel.General Sink

def takesInt : List Arg → Option (List Arg)
  | .int _ :: ap => some ap
  | _ => none

def takesStr : List Arg → Option (List Arg)
  | .str none :: ap => some ap
  | .str (some p) :: ap => if Terminated p then some ap else none
  | _ => none

def takesNumber (lflag : Nat) : List Arg → Option (List Arg)
  | .int _ :: ap => if 2 ≤ lflag then none else some ap
  | .longlong _ :: ap => if 2 ≤ lflag then some ap else none
  | _ => none

/-- The rest of the argument list after a conversion, if it starts with what
the conversion takes. -/
def takes (loc : Locals) (ap : List Arg) : Conv → Option (List Arg)
  | .char | .error | .pointer => takesInt ap
  | .string => takesStr ap
  | .decimal | .unsigned | .octal | .hex => takesNumber loc.lflag ap
  | .percent => some ap

/-- The format ends with a NUL and its directives find their arguments. -/
def matching : List UInt8 → Mode → List Arg → Bool
  | [], _, _ => false
  | ch :: rest, .text, ap =>
    if ch ≠ ascii '%' then ch = 0 || matching rest .text ap
    else matching rest (.reswitch .start []) ap
  | ch :: rest, .reswitch loc seen, ap =>
    onSwitch loc seen ch ap (matching rest) (fun _ => false)
      (fun conv => ((takes loc ap conv).map (matching rest .text)).getD false)
      (ch = 0 || matching rest .text ap)
  | ch :: rest, .digits loc seen, ap =>
    if isDigit ch then matching rest (.digits (loc.digit ch) (seen ++ [ch])) ap
    else onSwitch loc.processPrecision seen ch ap (matching rest) (fun _ => false)
      (fun conv => ((takes loc.processPrecision ap conv).map (matching rest .text)).getD false)
      (ch = 0 || matching rest .text ap)

def Matching (text : List UInt8) (ap : List Arg) : Prop := matching text .text ap = true

instance (text : List UInt8) (ap : List Arg) : Decidable (Matching text ap) :=
  inferInstanceAs (Decidable (matching text .text ap = true))

/-- A conversion that prints nothing: `%s` without a positive width, on an
empty string or with precision 0. -/
def silentConversion (loc : Locals) (ap : List Arg) (conv : Conv) : Bool :=
  match conv, ap with
  | .string, .str p :: _ =>
    loc.width ≤ 0 && (loc.precision = 0 || stringAt (p.getD (cstr "(null)".toList)) = [])
  | _, _ => false

/-- A format made of silent conversions only: there is no literal text, no
unrecognised directive and no other conversion before its NUL. -/
def silent : List UInt8 → Mode → List Arg → Bool
  | [], _, _ => false
  | ch :: rest, .text, ap =>
    if ch ≠ ascii '%' then ch = 0 else silent rest (.reswitch .start []) ap
  | ch :: rest, .reswitch loc seen, ap =>
    onSwitch loc seen ch ap (silent rest) (fun _ => false)
      (fun conv => silentConversion loc ap conv && silent rest .text ap.tail) false
  | ch :: rest, .digits loc seen, ap =>
    if isDigit ch then silent rest (.digits (loc.digit ch) (seen ++ [ch])) ap
    else onSwitch loc.processPrecision seen ch ap (silent rest) (fun _ => false)
      (fun conv => silentConversion loc.processPrecision ap conv && silent rest .text ap.tail) false

def Silent (text : List UInt8) (ap : List Arg) : Prop := silent text .text ap = true

instance (text : List UInt8) (ap : List Arg) : Decidable (Silent text ap) :=
  inferInstanceAs (Decidable (silent text .text ap = true))

theorem Locals.start_inRange : Locals.start.InRange := by
  constructor <;> decide

theorem Locals.InRange.processPrecision {loc : Locals} (h : loc.InRange) :
    loc.processPrecision.InRange := by
  unfold Locals.processPrecision
  split
  · exact ⟨h.precision_lo, h.precision_hi, (by decide : (-2 : Int) ^ 31 ≤ -1),
      (by decide : (-1 : Int) < 2 ^ 31)⟩
  · exact h

theorem Locals.digit_inRange {loc : Locals} (hlo : -2 ^ 31 ≤ loc.width) (hhi : loc.width < 2 ^ 31)
    (ch : UInt8) : (loc.digit ch).InRange :=
  ⟨hlo, hhi, wrapInt_ge _, wrapInt_lt _⟩

theorem argInt_inRange {ap ap' : List Arg} {value : Int} (h : argInt ap = .ok (value, ap')) :
    -2 ^ 31 ≤ value ∧ value < 2 ^ 31 := by
  unfold argInt at h
  split at h
  · rename_i bits _
    cases h
    exact ⟨bits.toInt32.le_toInt, bits.toInt32.toInt_lt⟩
  · cases h

def Mode.InRange : Mode → Prop
  | .text => True
  | .reswitch loc _ => loc.InRange
  | .digits loc _ => loc.InRange

theorem onSwitch_rel {R S T : Type} {rel : R → S → T → Prop} {loc : Locals} (hloc : loc.InRange)
    {seen : List UInt8} {ch : UInt8} {ap : List Arg}
    {next : Mode → List Arg → R} {next' : Mode → List Arg → S} {next'' : Mode → List Arg → T}
    {missing : Fault → R} {missing' : Fault → S} {missing'' : Fault → T}
    {convert : Conv → R} {convert' : Conv → S} {convert'' : Conv → T}
    {unrecognised : R} {unrecognised' : S} {unrecognised'' : T}
    (hnext : ∀ mode ap, mode.InRange → rel (next mode ap) (next' mode ap) (next'' mode ap))
    (hmissing : ∀ fault, rel (missing fault) (missing' fault) (missing'' fault))
    (hconvert : ∀ conv, rel (convert conv) (convert' conv) (convert'' conv))
    (hunrecognised : rel unrecognised unrecognised' unrecognised'') :
    rel (onSwitch loc seen ch ap next missing convert unrecognised)
      (onSwitch loc seen ch ap next' missing' convert' unrecognised')
      (onSwitch loc seen ch ap next'' missing'' convert'' unrecognised'') := by
  unfold onSwitch
  cases label ch with
  | minus | zero | sharp | long =>
    exact hnext _ _ ⟨hloc.width_lo, hloc.width_hi, hloc.precision_lo, hloc.precision_hi⟩
  | digit =>
    exact hnext _ _ (@Locals.digit_inRange { loc with precision := 0 } hloc.width_lo hloc.width_hi ch)
  | star =>
    dsimp only
    cases harg : argInt ap with
    | error fault => exact hmissing fault
    | ok arg =>
      have hrange := argInt_inRange harg
      exact hnext _ _ (Locals.InRange.processPrecision
        ⟨hloc.width_lo, hloc.width_hi, hrange.1, hrange.2⟩)
  | dot =>
    have hlo := hloc.width_lo
    have hhi := hloc.width_hi
    refine hnext _ _ ⟨?_, ?_, hloc.precision_lo, hloc.precision_hi⟩
    · dsimp only
      split <;> omega
    · dsimp only
      split <;> omega
  | convert conv => exact hconvert conv
  | default => exact hunrecognised

/-! ### Conversions on the arguments they take -/

theorem read_conversion (printfmt : List UInt8 → List Arg → List Int → Except Fault (List Int))
    {ch : UInt8} {conv : Conv} (h : label ch = .convert conv) (rest : List UInt8) (ap : List Arg) :
    read printfmt (ascii '%' :: ch :: rest) .text ap = (do
      let (ap, out) ← conversion collect printfmt .start ch ap [] conv
      (read printfmt rest .text ap).map (out ++ ·)) := by
  simp only [read, ne_eq, not_true_eq_false, if_false, directive, onSwitch, h]

theorem read_plain (printfmt : List UInt8 → List Arg → List Int → Except Fault (List Int))
    {chars : List UInt8} (hplain : Plain chars) (rest : List UInt8) (ap : List Arg) :
    read printfmt (chars ++ rest) .text ap = (read printfmt rest .text ap).map (codes chars ++ ·) := by
  induction chars with
  | nil =>
    rw [List.nil_append]
    cases read printfmt rest .text ap <;> rfl
  | cons ch chars ih =>
    have hch := hplain ch (List.mem_cons_self ..)
    have hrest := ih fun c hc => hplain c (List.mem_cons_of_mem _ hc)
    rw [List.cons_append, read_literal _ hch.1 hch.2, hrest, map_append_append]
    rfl

theorem vprintfmtNested_conversion (depth : Nat) {chars : List UInt8} {ch : UInt8} {conv : Conv}
    (hplain : Plain chars) (h : label ch = .convert conv) (ap : List Arg) :
    vprintfmtNested collect (depth + 1) (chars ++ [ascii '%', ch, 0]) ap [] =
      (conversion collect (vprintfmtNested collect depth) .start ch ap [] conv).map
        fun result => codes chars ++ result.2 := by
  rw [vprintfmtNested_eq_read, read_plain _ hplain, read_conversion _ h]
  cases conversion collect (vprintfmtNested collect depth) .start ch ap [] conv with
  | error e => rfl
  | ok result =>
    have hend : read (vprintfmtNested collect depth) [0] .text result.1 = .ok [] := rfl
    simp only [bind, Except.bind, hend, Except.map, List.append_nil]

/-- What a conversion owes: it returns, takes its argument, and prints nothing
only where it is silent. -/
def Returns (loc : Locals) (ap rest : List Arg) (conv : Conv)
    (result : Except Fault (List Arg × List Int)) : Prop :=
  ∃ out, result = .ok (rest, out) ∧ (out = [] ↔ silentConversion loc ap conv = true)

theorem Returns.loud {loc : Locals} {ap rest : List Arg} {conv : Conv} {out : List Int}
    (hout : out ≠ []) (hconv : conv ≠ .string) : Returns loc ap rest conv (.ok (rest, out)) := by
  refine ⟨out, rfl, ?_⟩
  cases conv with
  | string => exact absurd rfl hconv
  | _ => simp [hout, silentConversion]

theorem takesNumber_cases {lflag : Nat} {ap rest : List Arg}
    (h : takesNumber lflag ap = some rest) :
    (∃ value, ap = .int value :: rest ∧ ¬2 ≤ lflag) ∨
      ∃ value, ap = .longlong value :: rest ∧ 2 ≤ lflag := by
  rcases ap with _ | ⟨value | value | _, ap⟩
  · cases h
  · simp only [takesNumber] at h
    split at h
    · cases h
    · cases h
      exact Or.inl ⟨value, rfl, ‹_›⟩
  · simp only [takesNumber] at h
    split at h
    · cases h
      exact Or.inr ⟨value, rfl, ‹_›⟩
    · cases h
  · cases h

theorem getint_of_takes {lflag : Nat} {ap rest : List Arg} (h : takesNumber lflag ap = some rest) :
    ∃ num, getint ap lflag = .ok (num, rest) := by
  rcases takesNumber_cases h with ⟨value, rfl, hl⟩ | ⟨value, rfl, hl⟩
  · exact ⟨_, by rw [getint, if_neg hl]⟩
  · exact ⟨_, by rw [getint, if_pos hl]⟩

theorem getuint_of_takes {lflag : Nat} {ap rest : List Arg}
    (h : takesNumber lflag ap = some rest) : ∃ num, getuint ap lflag = .ok (num, rest) := by
  rcases takesNumber_cases h with ⟨value, rfl, hl⟩ | ⟨value, rfl, hl⟩
  · exact ⟨_, by rw [getuint, if_neg hl]⟩
  · exact ⟨_, by rw [getuint, if_pos hl]⟩

theorem argInt_of_takes {ap rest : List Arg} (h : takesInt ap = some rest) :
    ∃ value, ap = .int value :: rest := by
  rcases ap with _ | ⟨_ | _ | _, ap⟩ <;> grind [takesInt]

theorem argStr_of_takes {ap rest : List Arg} (h : takesStr ap = some rest) :
    ∃ p, ap = .str p :: rest ∧ Terminated (p.getD (cstr "(null)".toList)) := by
  rcases ap with _ | ⟨_ | _ | _ | p, ap⟩
  · cases h
  · cases h
  · cases h
  · cases h
    exact ⟨none, rfl, by decide⟩
  · simp only [takesStr] at h
    split at h
    · cases h
      exact ⟨some p, rfl, ‹_›⟩
    · cases h

theorem decimal_returns (printfmt : List UInt8 → List Arg → List Int → Except Fault (List Int))
    (loc : Locals) (ch : UInt8) {ap rest : List Arg} (h : takesNumber loc.lflag ap = some rest) :
    Returns loc ap rest .decimal (conversion collect printfmt loc ch ap [] .decimal) := by
  obtain ⟨num, hnum⟩ := getint_of_takes h
  simp only [conversion, hnum, bind, Except.bind]
  split
  · exact Returns.loud (printnum_ne_nil _ _ _ _ _) (by decide)
  · exact Returns.loud (printnum_ne_nil _ _ _ _ _) (by decide)

theorem string_returns (printfmt : List UInt8 → List Arg → List Int → Except Fault (List Int))
    {loc : Locals} (hloc : loc.InRange) (ch : UInt8) {ap rest : List Arg}
    (h : takesStr ap = some rest) :
    Returns loc ap rest .string (conversion collect printfmt loc ch ap [] .string) := by
  obtain ⟨p, rfl, hterm⟩ := argStr_of_takes h
  refine ⟨stringText loc (p.getD (cstr "(null)".toList)), ?_, ?_⟩
  · simp only [conversion, argStr, bind, Except.bind, printString_eq collect loc hterm,
      feed_collect, List.nil_append]
    rfl
  · rw [stringText_eq_nil hloc]
    simp only [silentConversion, Bool.and_eq_true, Bool.or_eq_true, decide_eq_true_eq]

theorem printfmt_error (depth : Nat) (value : UInt32) :
    ∃ out, out ≠ [] ∧
      vprintfmtNested collect (depth + 1) (cstr "error %d".toList) [.int value] [] = .ok out := by
  have htext : cstr "error %d".toList =
      [101, 114, 114, 111, 114, 32] ++ [ascii '%', ascii 'd', 0] := by decide
  have hnumber : takesNumber Locals.start.lflag [.int value] = some [] := rfl
  obtain ⟨out, hout, -⟩ := decimal_returns (vprintfmtNested collect depth) .start (ascii 'd')
    hnumber
  rw [htext, vprintfmtNested_conversion depth (by decide)
    (by decide : label (ascii 'd') = .convert .decimal), hout]
  exact ⟨_, by simp [codes], rfl⟩

theorem printfmt_string (depth : Nat) {p : List UInt8} (hterm : Terminated p)
    (hp : stringAt p ≠ []) :
    ∃ out, out ≠ [] ∧
      vprintfmtNested collect (depth + 1) (cstr "%s".toList) [.str (some p)] [] = .ok out := by
  have htext : cstr "%s".toList = [] ++ [ascii '%', ascii 's', 0] := by decide
  have htakes : takesStr [.str (some p)] = some [] := by simp [takesStr, hterm]
  obtain ⟨out, hout, hsilent⟩ := string_returns (vprintfmtNested collect depth)
    Locals.start_inRange (ascii 's') htakes
  rw [htext, vprintfmtNested_conversion depth (by decide)
    (by decide : label (ascii 's') = .convert .string), hout]
  refine ⟨out, ?_, by simp [Except.map, codes]⟩
  rw [ne_eq, hsilent]
  simp [silentConversion, hp, Locals.start]

theorem loadErrorString_cases (err : Int) :
    loadErrorString err = .error .badAccess ∨ loadErrorString err = .ok none ∨
      ∃ p, loadErrorString err = .ok (some p) ∧ Terminated p ∧ stringAt p ≠ [] := by
  unfold loadErrorString
  generalize (err % 2 ^ 30).toNat = i
  match i with
  | 0 => exact .inr (.inl rfl)
  | 1 | 2 | 3 | 4 | 5 | 6 => exact .inr (.inr ⟨_, rfl, by decide, by decide⟩)
  | i + 7 => exact .inl rfl

theorem magnitude_cases (value : UInt32) :
    let err := if value.toInt32.toInt < 0 then wrapInt (-value.toInt32.toInt) else value.toInt32.toInt
    0 ≤ err ∧ value ≠ 0x80000000 ∨ err = -2 ^ 31 ∧ value = 0x80000000 := by
  have hlo := value.toInt32.le_toInt
  have hhi := value.toInt32.toInt_lt
  dsimp only
  by_cases hvalue : value = 0x80000000
  · right
    subst hvalue
    exact ⟨by decide, rfl⟩
  · refine .inl ⟨?_, hvalue⟩
    split
    · have hne : value.toInt32.toInt ≠ -2 ^ 31 := by
        intro heq
        have hmin : value.toInt32 = Int32.minValue := Int32.toInt_inj.mp (heq.trans (by decide))
        have hleast : value = Int32.minValue.toUInt32 := by
          rw [← hmin, UInt32.toUInt32_toInt32]
        exact hvalue hleast
      rw [wrapInt_of_range (by omega) (by omega)]
      omega
    · omega

theorem loadErrorString_of_lt {err : Int} (hlo : 0 ≤ err ∨ err = -2 ^ 31) (hhi : err < maxError) :
    loadErrorString err ≠ .error .badAccess := by
  have hmax : maxError = 7 := rfl
  have hlt : (err % 2 ^ 30).toNat < 7 := by omega
  unfold loadErrorString
  rw [List.getElem?_eq_getElem (show _ < errorString.length from hlt)]
  exact fun h => (by cases h)

theorem error_returns (depth : Nat) (loc : Locals) (ch : UInt8) {ap rest : List Arg}
    (h : takesInt ap = some rest) :
    Returns loc ap rest .error
      (conversion collect (vprintfmtNested collect (depth + 1)) loc ch ap [] .error) := by
  obtain ⟨value, rfl⟩ := argInt_of_takes h
  have herr := (magnitude_cases value).imp And.left And.left
  simp only [conversion, argInt, bind, Except.bind]
  generalize (if value.toInt32.toInt < 0 then wrapInt (-value.toInt32.toInt)
    else value.toInt32.toInt) = err at herr ⊢
  obtain ⟨unknown, hunknown, hnested⟩ := printfmt_error depth (UInt32.ofInt err)
  by_cases hmax : maxError ≤ err
  · rw [if_pos hmax, hnested]
    exact Returns.loud hunknown (by decide)
  · rw [if_neg hmax]
    rcases (loadErrorString_cases err).resolve_left (loadErrorString_of_lt herr (by omega)) with
      hnone | ⟨p, hsome, hterm, hp⟩
    · rw [hnone]
      dsimp only
      rw [hnested]
      exact Returns.loud hunknown (by decide)
    · obtain ⟨out, hout, hstring⟩ := printfmt_string depth hterm hp
      rw [hsome]
      dsimp only
      rw [hstring]
      exact Returns.loud hout (by decide)

theorem silent_tail {loc : Locals} {ap rest : List Arg} {conv : Conv}
    (h : takes loc ap conv = some rest) (hsilent : silentConversion loc ap conv = true) :
    rest = ap.tail := by
  cases conv with
  | string =>
    obtain ⟨p, rfl, -⟩ := argStr_of_takes h
    rfl
  | _ => simp [silentConversion] at hsilent

theorem conversion_returns (depth : Nat) {loc : Locals} (hloc : loc.InRange) (ch : UInt8)
    {ap rest : List Arg} {conv : Conv} (h : takes loc ap conv = some rest) :
    Returns loc ap rest conv
      (conversion collect (vprintfmtNested collect (depth + 1)) loc ch ap [] conv) := by
  cases conv with
  | char =>
    obtain ⟨value, rfl⟩ := argInt_of_takes h
    exact Returns.loud (by simp [collect]) (by decide)
  | error => exact error_returns depth loc ch h
  | string => exact string_returns _ hloc ch h
  | decimal => exact decimal_returns _ loc ch h
  | unsigned | octal | hex =>
    obtain ⟨num, hnum⟩ := getuint_of_takes h
    simp only [conversion, hnum, bind, Except.bind]
    exact Returns.loud (printnum_ne_nil _ _ _ _ _) (by decide)
  | pointer =>
    obtain ⟨value, rfl⟩ := argInt_of_takes h
    exact Returns.loud (printnum_ne_nil _ _ _ _ _) (by decide)
  | percent =>
    cases h
    exact Returns.loud (by simp [collect]) (by decide)

/-! ### Whole formats -/

def Reads (reading : Except Fault (List Int)) (matched quiet : Bool) : Prop :=
  matched = true → ∃ out, reading = .ok out ∧ (out = [] ↔ quiet = true)

theorem Reads.loud {reading : Except Fault (List Int)} {matched quiet : Bool} {before : List Int}
    (hbefore : before ≠ []) (h : Reads reading matched quiet) :
    Reads (reading.map (before ++ ·)) matched false := by
  intro hmatched
  obtain ⟨out, hout, -⟩ := h hmatched
  exact ⟨before ++ out, by rw [hout]; rfl, by simp [hbefore]⟩

theorem directive_reads (depth : Nat) {rest : List UInt8}
    (ih : ∀ mode ap, mode.InRange → Reads (read (vprintfmtNested collect (depth + 1)) rest mode ap)
      (matching rest mode ap) (silent rest mode ap))
    {loc : Locals} (hloc : loc.InRange) (seen : List UInt8) (ch : UInt8) (ap : List Arg) :
    Reads
      (directive (vprintfmtNested collect (depth + 1)) loc seen ch ap
        (read (vprintfmtNested collect (depth + 1)) rest))
      (onSwitch loc seen ch ap (matching rest) (fun _ => false)
        (fun conv => ((takes loc ap conv).map (matching rest .text)).getD false)
        (ch = 0 || matching rest .text ap))
      (onSwitch loc seen ch ap (silent rest) (fun _ => false)
        (fun conv => silentConversion loc ap conv && silent rest .text ap.tail) false) := by
  refine onSwitch_rel hloc ih (fun _ h => by cases h) (fun conv => ?_) ?_
  · cases htakes : takes loc ap conv with
    | none => exact fun h => by cases h
    | some ap' =>
      intro hmatched
      obtain ⟨before, hbefore, hsilent⟩ := conversion_returns depth hloc ch htakes
      obtain ⟨out, hout, hquiet⟩ := ih .text ap' trivial hmatched
      refine ⟨before ++ out, ?_, ?_⟩
      · simp only [hbefore, bind, Except.bind, hout]
        rfl
      · rw [List.append_eq_nil_iff, hsilent, hquiet, Bool.and_eq_true]
        constructor
        · rintro ⟨hconv, hout⟩
          exact ⟨hconv, silent_tail htakes hconv ▸ hout⟩
        · rintro ⟨hconv, hout⟩
          exact ⟨hconv, (silent_tail htakes hconv).symm ▸ hout⟩
  · by_cases h0 : ch = 0
    · rw [if_pos h0]
      exact fun _ => ⟨_, rfl, by simp⟩
    · simp only [h0, if_false, decide_false, Bool.false_or]
      exact Reads.loud (by simp) (ih .text ap trivial)

theorem read_matching (depth : Nat) (rest : List UInt8) (mode : Mode) (ap : List Arg)
    (hmode : mode.InRange) :
    Reads (read (vprintfmtNested collect (depth + 1)) rest mode ap) (matching rest mode ap)
      (silent rest mode ap) := by
  induction rest generalizing mode ap with
  | nil => exact fun h => by cases h
  | cons ch rest ih =>
    cases mode with
    | text =>
      by_cases hp : ch = ascii '%'
      · simp only [read, matching, silent, hp, ne_eq, not_true_eq_false, if_false]
        exact ih (.reswitch .start []) ap Locals.start_inRange
      · by_cases h0 : ch = 0
        · intro _
          refine ⟨[], ?_, ?_⟩
          · subst h0
            rfl
          · subst h0
            exact iff_of_true rfl rfl
        · rw [read_literal _ hp h0]
          simp only [matching, silent, hp, h0, ne_eq, not_false_eq_true, if_true, decide_false,
            Bool.false_or]
          exact Reads.loud (by simp) (ih .text ap trivial)
    | reswitch loc seen => exact directive_reads depth ih hmode seen ch ap
    | digits loc seen =>
      by_cases hdigit : isDigit ch = true
      · simp only [read, matching, silent, hdigit, if_true]
        exact ih _ ap (Locals.digit_inRange hmode.width_lo hmode.width_hi ch)
      · simp only [read, matching, silent, hdigit, Bool.false_eq_true, if_false]
        exact directive_reads depth ih hmode.processPrecision seen ch ap

/-- On matching arguments `vprintfmt` returns, and it calls `putch` unless the
format is silent. -/
theorem vprintfmt_matching {text : List UInt8} {ap : List Arg} (h : Matching text ap) :
    ∃ out, vprintfmt collect [] text ap = .ok out ∧ (out = [] ↔ Silent text ap) := by
  rw [vprintfmt_eq_read]
  exact read_matching 0 text .text ap trivial h

end JosKernel.Lib
