import JosKernel.Lib.Directive
import JosKernel.Lib.StringField

/-! What the width, the precision and the pad character of a directive mean, and
which directives the formatter takes at their word. -/
namespace JosKernel.Lib
open JosKernel.Inc JosKernel.General Sink

def Flag.pad (padc : UInt8) : Flag → UInt8
  | .minus => ascii '-'
  | .zero => ascii '0'
  | .sharp => padc

namespace Directive

def padding (d : Directive) : UInt8 := d.flags.foldl Flag.pad (ascii ' ')

/-- The numbers of a directive as they are meant to be written: a width does not
begin with 0, and both are `int`s that are not negative. -/
structure Regular (d : Directive) : Prop where
  width_written : ∀ digits, d.width = some (.written digits) →
    digits ≠ [] ∧ digits.head? ≠ some 0
  width_range : ∀ number, d.width = some number → 0 ≤ number.value ∧ number.value < 2 ^ 31
  precision_written : ∀ digits, d.precision = some (.written digits) → digits ≠ []
  precision_range : ∀ number, d.precision = some number → 0 ≤ number.value ∧ number.value < 2 ^ 31

/-- The locals say what the directive says; without a width nothing is padded,
and without a precision there is no limit. -/
structure Means (d : Directive) (loc : Locals) : Prop where
  width : ∀ number, d.width = some number → loc.width = number.value
  no_width : d.width = none → loc.width ≤ 0
  precision : ∀ number, d.precision = some number → loc.precision = number.value
  no_precision : d.precision = none → loc.precision < 0
  padc : loc.padc = d.padding

/-- Wherever the directive stands before an `s` in a format, the formatter comes
to the `s` with what the directive says and the arguments behind its own. -/
def ParsedAsWritten (d : Directive) : Prop :=
  ∀ (σ : Type) (putch : Int → σ → σ) (before after : List UInt8) (ap : List Arg) (putdat : σ),
    ∃ loc, d.Means loc ∧
      Arrives putch (vprintfmtNested putch 1)
        (before ++ ascii '%' :: (d.text ++ ascii 's' :: after))
        ⟨before.length, d.args ++ ap, putdat, .text⟩
        ⟨before.length + 1 + d.text.length, ap, putdat, .reswitch loc⟩

def LimitsString (d : Directive) : Prop :=
  ∀ number, d.width = none → d.precision = some number → ∀ p, Terminated p →
    ∃ out, vprintfmt collect [] (ascii '%' :: (d.text ++ [ascii 's', 0]))
        (d.args ++ [.str (some p)]) = .ok out ∧ (out.length : Int) ≤ number.value

/-- A precision that is written with a zero in front is not zero, and the flags
already ask for zeros. -/
structure ZeroSafe (d : Directive) : Prop where
  nonzero : ∀ digits, d.precision = some (.written (0 :: digits)) →
    (Amount.written (0 :: digits)).value ≠ 0
  padded : ∀ digits, d.precision = some (.written (0 :: digits)) → d.padding = ascii '0'

theorem arrives_string (d : Directive) {σ : Type} (putch : Int → σ → σ) (before after : List UInt8)
    (ap : List Arg) (putdat : σ) :
    Arrives putch (vprintfmtNested putch 1) (before ++ ascii '%' :: (d.text ++ ascii 's' :: after))
      ⟨before.length, d.args ++ ap, putdat, .text⟩
      ⟨before.length + 1 + d.text.length, ap, putdat, .reswitch d.locals⟩ := by
  apply arrives_directive d List.drop_left
  decide

theorem parsedAsWritten_iff (d : Directive) : d.ParsedAsWritten ↔ d.Means d.locals := by
  constructor
  · intro h
    obtain ⟨loc, hmeans, harrives⟩ := h _ collect [] [] [] []
    have hsame := harrives.unique (d.arrives_string collect [] [] [] [])
    simp only [State.mk.injEq, Point.reswitch.injEq] at hsame
    rwa [hsame.2.2.2] at hmeans
  · intro h σ putch before after ap putdat
    exact ⟨d.locals, h, d.arrives_string putch before after ap putdat⟩

end Directive

theorem foldl_flag (flags : List Flag) (loc : Locals) :
    (flags.foldl Locals.flag loc).width = loc.width ∧
      (flags.foldl Locals.flag loc).precision = loc.precision ∧
      (flags.foldl Locals.flag loc).padc = flags.foldl Flag.pad loc.padc := by
  induction flags generalizing loc with
  | nil => exact ⟨rfl, rfl, rfl⟩
  | cons flag flags ih =>
    simp only [List.foldl_cons]
    cases flag <;> simp [ih, Locals.flag, Flag.pad]

theorem Amount.written_nonneg (digits : List (Fin 10)) : 0 ≤ (Amount.written digits).value :=
  Int.natCast_nonneg _

theorem Amount.written_ne_zero {digit : Fin 10} (hzero : digit ≠ 0) (digits : List (Fin 10)) :
    (Amount.written (digit :: digits)).value ≠ 0 := by
  have hne : digit.val ≠ 0 := fun hval => hzero (Fin.ext hval)
  simpa [Amount.value] using positional_cons_ne_zero (show 1 ≤ 10 by decide) hne _

theorem Locals.written_number (loc : Locals) {digit : Fin 10} (hzero : digit ≠ 0)
    {digits : List (Fin 10)} (hhi : (Amount.written (digit :: digits)).value < 2 ^ 31) :
    loc.written (digit :: digits) =
      processPrecision { loc with precision := (Amount.written (digit :: digits)).value } := by
  have hlo := Amount.written_nonneg (digit :: digits)
  have hvalue : wrapInt (positional 10 ((digit :: digits).map Fin.val)) =
      (Amount.written (digit :: digits)).value := wrapInt_of_range (by omega) hhi
  simp only [Locals.written, hzero, if_false, hvalue]

theorem Locals.amount_width {loc : Locals} (hwidth : loc.width < 0) {number : Amount}
    (hwritten : ∀ digits, number = .written digits → digits ≠ [] ∧ digits.head? ≠ some 0)
    (hhi : number.value < 2 ^ 31) :
    loc.amount number = { loc with width := number.value, precision := -1 } := by
  cases number with
  | argument value => simp [Locals.amount, Locals.processPrecision, hwidth, Amount.value]
  | written digits =>
    obtain ⟨hne, hhead⟩ := hwritten digits rfl
    obtain ⟨digit, digits, rfl⟩ := List.exists_cons_of_ne_nil hne
    have hzero : digit ≠ 0 := by simpa using hhead
    rw [Locals.amount, Locals.written_number loc hzero hhi]
    simp [Locals.processPrecision, hwidth]

theorem Locals.written_precision {loc : Locals} (hwidth : 0 ≤ loc.width) (digits : List (Fin 10))
    (hhi : (Amount.written digits).value < 2 ^ 31) :
    (loc.written digits).width = loc.width ∧
      (loc.written digits).precision =
        (if (Amount.written digits).value = 0 then loc.precision
          else (Amount.written digits).value) ∧
      (loc.written digits).padc = (if digits.head? = some 0 then ascii '0' else loc.padc) := by
  induction digits generalizing loc with
  | nil => exact ⟨rfl, rfl, rfl⟩
  | cons digit digits ih =>
    by_cases hzero : digit = 0
    · subst hzero
      have hvalue : (Amount.written (0 :: digits)).value = (Amount.written digits).value := by
        simp [Amount.value, positional]
      rw [hvalue] at hhi ⊢
      obtain ⟨hw, hp, hc⟩ := @ih { loc with padc := ascii '0' } hwidth hhi
      refine ⟨hw, hp, hc.trans ?_⟩
      simp
    · have hnot : ¬loc.width < 0 := by omega
      rw [Locals.written_number loc hzero hhi, if_neg (Amount.written_ne_zero hzero digits)]
      simp [Locals.processPrecision, hnot, hzero]

namespace Directive

theorem sized_eq {d : Directive} (h : d.Regular) :
    d.sized.width = d.width.elim (-1) Amount.value ∧ d.sized.precision = -1 ∧
      d.sized.padc = d.padding := by
  obtain ⟨hwidth, hprecision, hpadc⟩ := foldl_flag d.flags .start
  unfold sized
  cases hnumber : d.width with
  | none => exact ⟨hwidth, hprecision, hpadc⟩
  | some number =>
    have hhi := (h.width_range number hnumber).2
    have hwritten : ∀ digits, number = .written digits → digits ≠ [] ∧ digits.head? ≠ some 0 := by
      rintro digits rfl
      exact h.width_written digits hnumber
    have hneg : d.flagged.width < 0 := by
      rw [flagged, hwidth]
      decide
    rw [Option.elim_some, Locals.amount_width hneg hwritten hhi]
    exact ⟨rfl, rfl, hpadc⟩

theorem dotted_eq {d : Directive} (h : d.Regular) :
    d.sized.dot.width = d.width.elim 0 Amount.value ∧ 0 ≤ d.sized.dot.width ∧
      d.sized.dot.precision = -1 ∧ d.sized.dot.padc = d.padding := by
  obtain ⟨hwidth, hprecision, hpadc⟩ := sized_eq h
  have hdot : d.sized.dot.width = d.width.elim 0 Amount.value := by
    unfold Locals.dot
    dsimp only
    rw [hwidth]
    cases hnumber : d.width with
    | none => rfl
    | some number => exact if_neg (Int.not_lt.mpr (h.width_range number hnumber).1)
  refine ⟨hdot, ?_, hprecision, hpadc⟩
  unfold Locals.dot
  dsimp only
  split <;> omega

theorem locals_none {d : Directive} (h : d.Regular) (hnone : d.precision = none) :
    d.locals.width = d.width.elim (-1) Amount.value ∧ d.locals.precision = -1 ∧
      d.locals.padc = d.padding := by
  unfold locals limited
  rw [hnone]
  exact sized_eq h

theorem locals_argument {d : Directive} (h : d.Regular) {value : UInt32}
    (harg : d.precision = some (.argument value)) :
    d.locals.width = d.width.elim 0 Amount.value ∧ d.locals.precision = value.toInt32.toInt ∧
      d.locals.padc = d.padding := by
  obtain ⟨hwidth, hnonneg, -, hpadc⟩ := dotted_eq h
  have hnot : ¬d.sized.dot.width < 0 := by omega
  unfold locals limited
  rw [harg]
  simp only [Option.elim_some, Locals.amount, Locals.processPrecision, if_neg hnot]
  exact ⟨hwidth, trivial, hpadc⟩

theorem locals_written {d : Directive} (h : d.Regular) {digits : List (Fin 10)}
    (hwritten : d.precision = some (.written digits)) :
    d.locals.width = d.width.elim 0 Amount.value ∧
      d.locals.precision = (if (Amount.written digits).value = 0 then -1
        else (Amount.written digits).value) ∧
      d.locals.padc = (if digits.head? = some 0 then ascii '0' else d.padding) := by
  obtain ⟨hwidth, hnonneg, hprecision, hpadc⟩ := dotted_eq h
  obtain ⟨hw, hp, hc⟩ := Locals.written_precision hnonneg digits (h.precision_range _ hwritten).2
  unfold locals limited
  rw [hwritten]
  exact ⟨hw.trans hwidth, hprecision ▸ hp, hpadc ▸ hc⟩

theorem locals_width {d : Directive} (h : d.Regular) {number : Amount}
    (hprec : d.precision = some number) : d.locals.width = d.width.elim 0 Amount.value := by
  cases number with
  | argument value => exact (locals_argument h hprec).1
  | written digits => exact (locals_written h hprec).1

theorem means_width {d : Directive} {loc : Locals} {absent : Int} (habsent : absent ≤ 0)
    (hwidth : loc.width = d.width.elim absent Amount.value) :
    (∀ number, d.width = some number → loc.width = number.value) ∧
      (d.width = none → loc.width ≤ 0) := by
  rw [hwidth]
  constructor
  · intro number hnumber
    rw [hnumber, Option.elim_some]
  · intro hnone
    rw [hnone]
    exact habsent

theorem means_zero_iff {d : Directive} (h : d.Regular) {digits : List (Fin 10)}
    (hprec : d.precision = some (.written (0 :: digits))) : d.Means d.locals ↔ d.ZeroSafe := by
  obtain ⟨hwidth, hprecision, hpadc⟩ := locals_written h hprec
  obtain ⟨hsome, hnone⟩ := means_width (show (0 : Int) ≤ 0 by decide) hwidth
  rw [List.head?_cons, if_pos rfl] at hpadc
  constructor
  · intro hmeans
    refine ⟨fun ds hds hvalue => ?_, fun _ _ => hmeans.padc.symm.trans hpadc⟩
    rw [hprec] at hds
    cases hds
    have hzero := hmeans.precision _ hprec
    rw [hprecision, if_pos hvalue, hvalue] at hzero
    exact absurd hzero (by decide)
  · intro hsafe
    rw [if_neg (hsafe.nonzero digits hprec)] at hprecision
    refine ⟨hsome, hnone, ?_, ?_, hpadc.trans (hsafe.padded digits hprec).symm⟩
    · simp [hprec, hprecision]
    · simp [hprec]

theorem means_written {d : Directive} (h : d.Regular) {digit : Fin 10} (hzero : digit ≠ 0)
    {digits : List (Fin 10)} (hprec : d.precision = some (.written (digit :: digits))) :
    d.Means d.locals := by
  obtain ⟨hwidth, hprecision, hpadc⟩ := locals_written h hprec
  obtain ⟨hsome, hnone⟩ := means_width (show (0 : Int) ≤ 0 by decide) hwidth
  rw [if_neg (Amount.written_ne_zero hzero digits)] at hprecision
  refine ⟨hsome, hnone, ?_, ?_, ?_⟩
  · simp [hprec, hprecision]
  · simp [hprec]
  · simpa [hzero] using hpadc

theorem means_iff {d : Directive} (h : d.Regular) : d.Means d.locals ↔ d.ZeroSafe := by
  cases hprec : d.precision with
  | none =>
    obtain ⟨hwidth, hprecision, hpadc⟩ := locals_none h hprec
    obtain ⟨hsome, hnone⟩ := means_width (show (-1 : Int) ≤ 0 by decide) hwidth
    refine iff_of_true ⟨hsome, hnone, ?_, ?_, hpadc⟩ ?_
    · simp [hprec]
    · simp [hprecision]
    · constructor <;> simp [hprec]
  | some number =>
    cases number with
    | argument value =>
      obtain ⟨hwidth, hprecision, hpadc⟩ := locals_argument h hprec
      obtain ⟨hsome, hnone⟩ := means_width (show (0 : Int) ≤ 0 by decide) hwidth
      refine iff_of_true ⟨hsome, hnone, ?_, ?_, hpadc⟩ ?_
      · simp [hprec, hprecision, Amount.value]
      · simp [hprec]
      · constructor <;> simp [hprec]
    | written digits =>
      obtain ⟨digit, rest, rfl⟩ := List.exists_cons_of_ne_nil (h.precision_written digits hprec)
      by_cases hzero : digit = 0
      · subst hzero
        exact means_zero_iff h hprec
      · refine iff_of_true (means_written h hzero hprec) ?_
        constructor <;> simp [hprec, hzero]

theorem limitsString_of_means {d : Directive} (h : d.Regular) (hmeans : d.Means d.locals) :
    d.LimitsString := by
  intro number hwidth hprec p hterm
  have hzero : d.locals.width = 0 := by rw [locals_width h hprec, hwidth, Option.elim_none]
  have hvalue := hmeans.precision number hprec
  obtain ⟨hlo, hhi⟩ := h.precision_range number hprec
  have hlength := limit_length d.locals.precision (stringAt p)
  rw [hvalue, if_neg (Int.not_lt.mpr hlo), ← hvalue] at hlength
  have hloc : d.locals.InRange := ⟨by omega, by omega, by omega, by omega⟩
  have hcounts : d.locals.Counts (limit d.locals.precision (stringAt p)).length := by
    rw [Locals.Counts, if_neg (by omega)]
    omega
  refine ⟨stringText d.locals p, ?_, ?_⟩
  · rw [vprintfmt_directive d (show label (ascii 's') = .convert .string by decide)]
    rw [conversion_string]
    · rfl
    · simpa using hterm
  · rw [stringText_eq hloc hcounts, hzero]
    simp only [List.length_append, List.length_replicate, List.length_map]
    split <;> omega

/-- The formatter takes a directive at its word exactly where no precision is
written with a zero in front, or the zeros change nothing. -/
theorem parsedAsWritten_iff_zeroSafe (d : Directive) (h : d.Regular) :
    d.ParsedAsWritten ∧ d.LimitsString ↔ d.ZeroSafe := by
  rw [parsedAsWritten_iff]
  constructor
  · rintro ⟨hmeans, -⟩
    exact (means_iff h).mp hmeans
  · intro hsafe
    have hmeans := (means_iff h).mpr hsafe
    exact ⟨hmeans, limitsString_of_means h hmeans⟩

theorem parsedAsWritten_minus :
    (⟨[.minus], some (.written [8]), some (.written [3]), 0⟩ : Directive).ParsedAsWritten ∧
      (⟨[.minus], some (.written [8]), some (.written [3]), 0⟩ : Directive).LimitsString :=
  (parsedAsWritten_iff_zeroSafe ⟨[.minus], some (.written [8]), some (.written [3]), 0⟩
    (by constructor <;> rintro _ ⟨⟩ <;> decide)).mpr (by constructor <;> rintro _ ⟨⟩)

/-- `%.0s` comes to the `s` without a precision. -/
theorem not_parsedAsWritten :
    ¬∀ d : Directive, d.Regular → d.ParsedAsWritten ∧ d.LimitsString := by
  intro h
  have hregular : (⟨[], none, some (.written [0]), 0⟩ : Directive).Regular := by
    constructor <;> rintro _ ⟨⟩ <;> decide
  have hmeans := (parsedAsWritten_iff _).mp (h _ hregular).1
  exact absurd (hmeans.precision _ rfl) (by decide)

end Directive

/-! ### Strings without an end -/

theorem strnlen_unterminated {array : List UInt8} (hnul : ∀ byte ∈ array, byte ≠ 0) :
    strnlen array array.length = .ok array.length := by
  induction array with
  | nil => rfl
  | cons byte array ih =>
    obtain ⟨hbyte, hrest⟩ := List.forall_mem_cons.mp hnul
    rw [strnlen, List.length_cons, if_pos (Nat.succ_pos _), if_pos hbyte]
    simp [ih hrest, bind, Except.bind, pure, Except.pure]

theorem putString_unterminated {σ : Type} (putch : Int → σ → σ) (altflag : Bool)
    {array : List UInt8} (hnul : ∀ byte ∈ array, byte ≠ 0) {precision : Int}
    (hprec : (array.length : Int) ≤ precision) (width : Int) (putdat : σ) :
    putString putch altflag array precision width putdat = .error .badAccess := by
  induction array generalizing precision width putdat with
  | nil => rfl
  | cons byte array ih =>
    obtain ⟨hbyte, hrest⟩ := List.forall_mem_cons.mp hnul
    rw [List.length_cons] at hprec
    rw [putString, if_pos ⟨hbyte, .inr (by omega)⟩, if_neg (by omega)]
    exact ih hrest (by omega) _ _

theorem printString_unterminated {σ : Type} (putch : Int → σ → σ) {loc : Locals}
    {array : List UInt8} (hnul : ∀ byte ∈ array, byte ≠ 0)
    (hprec : loc.precision = array.length) (hlength : array.length < 2 ^ 31) (putdat : σ) :
    printString putch loc array putdat = .error .badAccess := by
  have hsize : (UInt32.ofInt loc.precision).toNat = array.length := by
    rw [hprec, UInt32.ofInt, UInt32.toNat_ofNat']
    omega
  have hput (width : Int) (putdat : σ) :
      putString putch loc.altflag array loc.precision width putdat = .error .badAccess :=
    putString_unterminated putch loc.altflag hnul (by omega) width putdat
  unfold printString
  rw [hsize, strnlen_unterminated hnul]
  split
  · by_cases hpad : 0 < wrapInt (loc.width - array.length)
    · simp only [bind, Except.bind, pure, Except.pure, hpad, if_true, hput]
    · simp only [bind, Except.bind, pure, Except.pure, hpad, if_false, hput]
  · simp only [bind, Except.bind, pure, Except.pure, hput]

def bounded (flags : List Flag) (width : Option Amount) (longs : Nat) (array : List UInt8) :
    Directive :=
  ⟨flags, width, some (.argument (UInt32.ofNat array.length)), longs⟩

/-- Only the bytes of the array can be read, and they are printed in their field. -/
def ReadsWithin (d : Directive) (array : List UInt8) : Prop :=
  ∃ out, vprintfmt collect [] (ascii '%' :: (d.text ++ [ascii 's', 0]))
      (d.args ++ [.str (some array)]) = .ok out ∧
    out.map UInt8.ofInt = stringField d.locals array

theorem bounded_precision (flags : List Flag) (width : Option Amount) (longs : Nat)
    {array : List UInt8} (hlength : array.length < 2 ^ 31) :
    (bounded flags width longs array).locals.precision = array.length := by
  have hnonneg (loc : Locals) : ¬loc.dot.width < 0 := by
    unfold Locals.dot
    dsimp only
    split <;> omega
  have hvalue : (UInt32.ofNat array.length).toInt32.toInt = array.length := by
    rw [← wrapInt_toNat, UInt32.toNat_ofNat', Nat.mod_eq_of_lt (by omega)]
    exact wrapInt_of_range (by omega) (by omega)
  simp only [bounded, Directive.locals, Directive.limited, Option.elim_some, Locals.amount,
    Locals.processPrecision, if_neg (hnonneg _), hvalue]

theorem vprintfmt_bounded (flags : List Flag) (width : Option Amount) (longs : Nat)
    {array : List UInt8} (hnul : ∀ byte ∈ array, byte ≠ 0) (hlength : array.length < 2 ^ 31) :
    vprintfmt collect []
        (ascii '%' :: ((bounded flags width longs array).text ++ [ascii 's', 0]))
        ((bounded flags width longs array).args ++ [.str (some array)]) = .error .badAccess := by
  rw [vprintfmt_directive _ (show label (ascii 's') = .convert .string by decide)]
  have hprint := printString_unterminated collect hnul
    (bounded_precision flags width longs hlength) hlength ([] : List Int)
  simp only [conversion, argStr, bind, Except.bind, Option.getD_some, hprint]

/-- The array is never enough: the byte behind it is loaded too. -/
theorem not_readsWithin (flags : List Flag) (width : Option Amount) (longs : Nat)
    (array : List UInt8) (hnul : ∀ byte ∈ array, byte ≠ 0) (hlength : array.length < 2 ^ 31) :
    ¬ReadsWithin (bounded flags width longs array) array := by
  rintro ⟨out, hout, -⟩
  rw [vprintfmt_bounded flags width longs hnul hlength] at hout
  cases hout

theorem not_readsWithin_hi :
    ¬ReadsWithin (bounded [.minus] (some (.written [5])) 0 [104, 105]) [104, 105] :=
  not_readsWithin [.minus] (some (.written [5])) 0 [104, 105] (by simp) (by simp)

/-- `%.*s` on the array that holds the letter `a` only -/
theorem not_forall_readsWithin : ¬∀ flags width longs array, (∀ byte ∈ array, byte ≠ 0) →
    array.length < 2 ^ 31 → ReadsWithin (bounded flags width longs array) array := by
  intro h
  obtain ⟨out, hout, -⟩ := h [] none 0 [97] (by simp) (by simp)
  rw [vprintfmt_bounded [] none 0 (by simp) (by simp)] at hout
  cases hout

end JosKernel.Lib
