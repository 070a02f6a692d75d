import JosKernel.General.Numeral
import JosKernel.Lib.Composition

/-! Directives with flags, a width, a precision and `l`s: how they are written,
what the formatter makes of them, and that it gets there. -/
namespace JosKernel.Lib
open JosKernel.Inc JosKernel.General Sink

inductive Flag where
  | minus | zero | sharp
  deriving DecidableEq, Repr

def Flag.char : Flag → UInt8
  | .minus => ascii '-'
  | .zero => ascii '0'
  | .sharp => ascii '#'

/-- A number in a directive: its digits, or `*` with the argument that it takes. -/
inductive Amount where
  | written (digits : List (Fin 10))
  | argument (value : UInt32)
  deriving DecidableEq, Repr

def Amount.text : Amount → List UInt8
  | .written digits => digits.map fun digit => digitChar digit
  | .argument _ => [ascii '*']

def Amount.args : Amount → List Arg
  | .written _ => []
  | .argument value => [.int value]

def Amount.value : Amount → Int
  | .written digits => positional 10 (digits.map Fin.val)
  | .argument value => value.toInt32.toInt

def Amount.decimal (num : Nat) : Amount :=
  .written ((numeral 10 num).map (Fin.ofNat 10))

structure Directive where
  flags : List Flag
  width : Option Amount
  precision : Option Amount
  longs : Nat
  deriving DecidableEq, Repr

namespace Directive

def widthText (d : Directive) : List UInt8 := d.width.elim [] Amount.text

def precisionText (d : Directive) : List UInt8 :=
  d.precision.elim [] fun amount => ascii '.' :: amount.text

def text (d : Directive) : List UInt8 :=
  d.flags.map Flag.char ++ (d.widthText ++ (d.precisionText ++ List.replicate d.longs (ascii 'l')))

def args (d : Directive) : List Arg :=
  d.width.elim [] Amount.args ++ d.precision.elim [] Amount.args

end Directive

/-! ### What the formatter makes of it -/

namespace Locals

def flag (loc : Locals) : Flag → Locals
  | .minus => { loc with padc := ascii '-' }
  | .zero => { loc with padc := ascii '0' }
  | .sharp => { loc with altflag := true }

def written (loc : Locals) : List (Fin 10) → Locals
  | [] => loc
  | digit :: digits =>
    if digit = 0 then written { loc with padc := ascii '0' } digits
    else
      let value := positional 10 ((digit :: digits).map Fin.val)
      processPrecision { loc with precision := wrapInt value }

def amount (loc : Locals) : Amount → Locals
  | .written digits => loc.written digits
  | .argument value => processPrecision { loc with precision := value.toInt32.toInt }

def dot (loc : Locals) : Locals :=
  { loc with width := if loc.width < 0 then 0 else loc.width }

end Locals

def Directive.flagged (d : Directive) : Locals := d.flags.foldl Locals.flag .start

def Directive.sized (d : Directive) : Locals := d.width.elim d.flagged d.flagged.amount

def Directive.limited (d : Directive) : Locals := d.precision.elim d.sized d.sized.dot.amount

def Directive.locals (d : Directive) : Locals :=
  { d.limited with lflag := d.limited.lflag + d.longs }

/-! ### How it gets there -/

def isField (ch : UInt8) : Bool :=
  match label ch with
  | .convert _ | .default => false
  | _ => true

section
variable {σ : Type} (putch : Int → σ → σ) (printfmt : List UInt8 → List Arg → σ → Except Fault σ)

def ends (text : List UInt8) (s : State σ) : Bool :=
  match s.point, text[s.fmt]? with
  | .reswitch _, some ch => !isField ch
  | _, _ => false

def approach (text : List UInt8) (s : State σ) : Except Fault (State σ ⊕ (State σ ⊕ σ)) :=
  if ends text s then .ok (.inr (.inl s))
  else (round putch printfmt text s).map (Sum.map id .inr)

/-- From `s` on, the formatter first comes to the end of a directive in `s'`. -/
structure Arrives (text : List UInt8) (s s' : State σ) : Prop where
  reaches : Loop.Reaches (approach putch printfmt text) s s'
  ends : ends text s' = true

variable {putch printfmt}

theorem Arrives.unique {text : List UInt8} {s left right : State σ}
    (hleft : Arrives putch printfmt text s left) (hright : Arrives putch printfmt text s right) :
    left = right := by
  apply hleft.reaches.stop_unique (if_pos hleft.ends) hright.reaches (if_pos hright.ends)

theorem approach_next {text : List UInt8} {s next : State σ} (h : ends text s = false)
    (hround : round putch printfmt text s = .ok (.inl next)) :
    approach putch printfmt text s = .ok (.inl next) := by
  simp [approach, h, hround, Except.map]

theorem round_of_approach {text : List UInt8} {s next : State σ}
    (h : approach putch printfmt text s = .ok (.inl next)) :
    round putch printfmt text s = .ok (.inl next) := by
  unfold approach at h
  split at h
  · cases h
  · cases hround : round putch printfmt text s with
    | error fault => simp [hround, Except.map] at h
    | ok outcome =>
      rw [hround] at h
      cases outcome with
      | inl state =>
        cases h
        rfl
      | inr sink => cases h

theorem Arrives.runs {text : List UInt8} {s s' : State σ} (h : Arrives putch printfmt text s s') :
    Loop.Reaches (round putch printfmt text) s s' :=
  h.reaches.mono fun _ _ => round_of_approach

end

theorem digitChar_label (digit : Fin 10) :
    isDigit (digitChar digit) = true ∧ (digitChar digit).toNat = 48 + digit.val ∧
      label (digitChar digit) = if digit = 0 then .zero else .digit := by
  revert digit
  decide

theorem digit_digitChar (digit : Fin 10) (loc : Locals) (value : Int) :
    Locals.digit { loc with precision := wrapInt value } (digitChar digit) =
      { loc with precision := wrapInt (value * 10 + digit.val) } := by
  have hmul : wrapInt (wrapInt value * 10 + digit.val) = wrapInt (value * 10 + digit.val) := by
    unfold wrapInt
    rw [← Int.bmod_add_bmod, Int.bmod_mul_bmod, Int.bmod_add_bmod]
  have hchar : wrapInt value * 10 + ((48 + digit.val : Nat) : Int) - 48 =
      wrapInt value * 10 + digit.val := by omega
  rw [Locals.digit, (digitChar_label digit).2.1, hchar, hmul]

section
variable {σ : Type} (putch : Int → σ → σ) (printfmt : List UInt8 → List Arg → σ → Except Fault σ)

structure Stands (text : List UInt8) (origin : State σ) (start : Nat) (seen rest : List UInt8)
    (point : Point) (ap : List Arg) (putdat : σ) : Prop where
  inside : Inside text start seen rest
  reaches : Loop.Reaches (approach putch printfmt text) origin
    ⟨start + seen.length, ap, putdat, point⟩

variable {putch printfmt}

theorem stands_open {text rest : List UInt8} {fmt : Nat} (hdrop : text.drop fmt = ascii '%' :: rest)
    (ap : List Arg) (putdat : σ) :
    Stands putch printfmt text ⟨fmt, ap, putdat, .text⟩ (fmt + 1) [] rest (.reswitch .start) ap
      putdat where
  inside := ⟨⟨fmt, rfl, load_of_drop hdrop⟩, drop_succ_of_drop hdrop, fun _ h => by cases h⟩
  reaches := by
    apply Loop.Reaches.next .start
    apply approach_next rfl
    simp [round, load_of_drop hdrop, bind, Except.bind]
    rfl

namespace Stands
variable {text rest seen : List UInt8} {origin : State σ} {start : Nat} {ap ap' : List Arg}
  {putdat : σ} {loc : Locals} {point : Point} {ch : UInt8}

theorem getElem? (h : Stands putch printfmt text origin start seen (ch :: rest) point ap putdat) :
    text[start + seen.length]? = some ch := by
  rw [← List.head?_drop, h.inside.drop_rest]
  rfl

theorem snoc (h : Stands putch printfmt text origin start seen (ch :: rest) point ap putdat)
    (hplain : ch ≠ ascii '%' ∧ ch ≠ 0) {point' : Point}
    (hnext : approach putch printfmt text ⟨start + seen.length, ap, putdat, point⟩ =
      .ok (.inl ⟨start + seen.length + 1, ap', putdat, point'⟩)) :
    Stands putch printfmt text origin start (seen ++ [ch]) rest point' ap' putdat where
  inside := h.inside.snoc hplain
  reaches := by
    rw [List.length_append, List.length_singleton, ← Nat.add_assoc]
    exact h.reaches.next hnext

theorem field
    (h : Stands putch printfmt text origin start seen (ch :: rest) (.reswitch loc) ap putdat)
    (hfield : isField ch = true) {point' : Point}
    (hswitch : reswitch putch printfmt text loc ch
        ⟨start + seen.length + 1, ap, putdat, .reswitch loc⟩ =
      .ok ⟨start + seen.length + 1, ap', putdat, point'⟩) :
    Stands putch printfmt text origin start (seen ++ [ch]) rest point' ap' putdat := by
  have hplain : ch ≠ ascii '%' ∧ ch ≠ 0 := by
    apply label_plain rfl <;> intro hlabel <;> simp [isField, hlabel] at hfield
  apply h.snoc hplain
  apply approach_next
  · simp [ends, h.getElem?, hfield]
  · simp only [round, load_eq h.getElem?, bind, Except.bind, hswitch]
    rfl

theorem digit
    (h : Stands putch printfmt text origin start seen (ch :: rest) (.digits loc) ap putdat)
    (hdigit : isDigit ch = true) :
    Stands putch printfmt text origin start (seen ++ [ch]) rest (.digits (loc.digit ch)) ap
      putdat := by
  apply h.snoc (isDigit_plain hdigit)
  apply approach_next rfl
  simp only [round, load_eq h.getElem?, bind, Except.bind, hdigit, if_true]
  rfl

theorem digits_end
    (h : Stands putch printfmt text origin start seen (ch :: rest) (.digits loc) ap putdat)
    (hdigit : isDigit ch = false) :
    Stands putch printfmt text origin start seen (ch :: rest) (.reswitch loc.processPrecision) ap
      putdat where
  inside := h.inside
  reaches := by
    apply h.reaches.next
    apply approach_next rfl
    simp only [round, load_eq h.getElem?, bind, Except.bind, hdigit]
    rfl

theorem flags (flags : List Flag)
    (h : Stands putch printfmt text origin start seen (flags.map Flag.char ++ rest) (.reswitch loc)
      ap putdat) :
    Stands putch printfmt text origin start (seen ++ flags.map Flag.char) rest
      (.reswitch (flags.foldl Locals.flag loc)) ap putdat := by
  induction flags generalizing seen loc with
  | nil => simpa using h
  | cons flag flags ih =>
    rw [List.map_cons, List.cons_append] at h
    have hnext : Stands putch printfmt text origin start (seen ++ [flag.char])
        (flags.map Flag.char ++ rest) (.reswitch (loc.flag flag)) ap putdat := by
      cases flag <;> exact h.field rfl rfl
    simpa using ih hnext

theorem numeral {digits : List (Fin 10)} {value total : Nat}
    (htotal : (digits.map Fin.val).foldl (fun value digit => value * 10 + digit) value = total)
    (h : Stands putch printfmt text origin start seen ((Amount.written digits).text ++ rest)
      (.digits { loc with precision := wrapInt value }) ap putdat) :
    Stands putch printfmt text origin start (seen ++ (Amount.written digits).text) rest
      (.digits { loc with precision := wrapInt total }) ap putdat := by
  induction digits generalizing seen value with
  | nil =>
    subst htotal
    simpa [Amount.text] using h
  | cons digit digits ih =>
    have hnext := h.digit (digitChar_label digit).1
    rw [digit_digitChar digit] at hnext
    simpa [Amount.text] using ih htotal hnext

theorem written {digits : List (Fin 10)} (hend : isDigit ch = false)
    (h : Stands putch printfmt text origin start seen ((Amount.written digits).text ++ ch :: rest)
      (.reswitch loc) ap putdat) :
    Stands putch printfmt text origin start (seen ++ (Amount.written digits).text) (ch :: rest)
      (.reswitch (loc.written digits)) ap putdat := by
  induction digits generalizing seen loc with
  | nil => simpa [Amount.text, Locals.written] using h
  | cons digit digits ih =>
    obtain ⟨-, -, hlabel⟩ := digitChar_label digit
    by_cases hzero : digit = 0
    · subst hzero
      have hnext : Stands putch printfmt text origin start (seen ++ [digitChar 0])
          ((Amount.written digits).text ++ ch :: rest) (.reswitch { loc with padc := ascii '0' }) ap
          putdat := h.field rfl rfl
      simpa [Amount.text, Locals.written] using ih hnext
    · rw [if_neg hzero] at hlabel
      have hfirst : Stands putch printfmt text origin start (seen ++ [digitChar digit])
          ((Amount.written digits).text ++ ch :: rest)
          (.digits { loc with precision := wrapInt digit.val }) ap putdat := by
        apply h.field
        · simp [isField, hlabel]
        · have hvalue := digit_digitChar digit loc 0
          rw [Int.zero_mul, Int.zero_add, wrapInt_of_range (by decide) (by decide)] at hvalue
          simp only [reswitch, hlabel, hvalue]
      have hvalue : (digits.map Fin.val).foldl (fun value digit => value * 10 + digit) digit.val =
          positional 10 ((digit :: digits).map Fin.val) := by simp [positional]
      simpa [Amount.text, Locals.written, hzero] using (hfirst.numeral hvalue).digits_end hend

theorem amount (number : Amount) (hend : isDigit ch = false)
    (h : Stands putch printfmt text origin start seen (number.text ++ ch :: rest) (.reswitch loc)
      (number.args ++ ap) putdat) :
    Stands putch printfmt text origin start (seen ++ number.text) (ch :: rest)
      (.reswitch (loc.amount number)) ap putdat := by
  cases number with
  | written digits => exact h.written hend
  | argument value => exact h.field rfl rfl

theorem longs (count : Nat)
    (h : Stands putch printfmt text origin start seen
      (List.replicate count (ascii 'l') ++ rest) (.reswitch loc) ap putdat) :
    Stands putch printfmt text origin start (seen ++ List.replicate count (ascii 'l')) rest
      (.reswitch { loc with lflag := loc.lflag + count }) ap putdat := by
  induction count generalizing seen loc with
  | zero => simpa using h
  | succ count ih =>
    have hnext : Stands putch printfmt text origin start (seen ++ [ascii 'l'])
        (List.replicate count (ascii 'l') ++ rest) (.reswitch { loc with lflag := loc.lflag + 1 }) ap
        putdat := h.field rfl rfl
    have hcount : loc.lflag + (count + 1) = loc.lflag + 1 + count := by omega
    simpa [List.replicate_succ, hcount] using ih hnext

end Stands

namespace Directive

theorem longs_head (d : Directive) {ch : UInt8} (hend : isDigit ch = false) (rest : List UInt8) :
    ∃ next tail, List.replicate d.longs (ascii 'l') ++ ch :: rest = next :: tail ∧
      isDigit next = false := by
  cases d.longs with
  | zero => exact ⟨ch, rest, rfl, hend⟩
  | succ count => exact ⟨ascii 'l', List.replicate count (ascii 'l') ++ ch :: rest, rfl, rfl⟩

theorem precision_head (d : Directive) {ch : UInt8} (hend : isDigit ch = false)
    (rest : List UInt8) :
    ∃ next tail, d.precisionText ++ (List.replicate d.longs (ascii 'l') ++ ch :: rest) =
      next :: tail ∧ isDigit next = false := by
  unfold precisionText
  cases d.precision with
  | none => exact d.longs_head hend rest
  | some number => exact ⟨ascii '.', number.text ++ _, rfl, rfl⟩

end Directive

namespace Stands
variable {text rest seen : List UInt8} {origin : State σ} {start : Nat} {ap : List Arg}
  {putdat : σ} {loc : Locals} {ch : UInt8}

theorem width (d : Directive) (hend : isDigit ch = false)
    (h : Stands putch printfmt text origin start seen (d.widthText ++ ch :: rest) (.reswitch loc)
      (d.width.elim [] Amount.args ++ ap) putdat) :
    Stands putch printfmt text origin start (seen ++ d.widthText) (ch :: rest)
      (.reswitch (d.width.elim loc loc.amount)) ap putdat := by
  unfold Directive.widthText at h ⊢
  cases hwidth : d.width with
  | none => simpa [hwidth] using h
  | some number =>
    rw [hwidth] at h
    exact h.amount number hend

theorem precision (d : Directive) (hend : isDigit ch = false)
    (h : Stands putch printfmt text origin start seen (d.precisionText ++ ch :: rest)
      (.reswitch loc) (d.precision.elim [] Amount.args ++ ap) putdat) :
    Stands putch printfmt text origin start (seen ++ d.precisionText) (ch :: rest)
      (.reswitch (d.precision.elim loc loc.dot.amount)) ap putdat := by
  unfold Directive.precisionText at h ⊢
  cases hprecision : d.precision with
  | none => simpa [hprecision] using h
  | some number =>
    rw [hprecision] at h
    have hdot : Stands putch printfmt text origin start (seen ++ [ascii '.'])
        (number.text ++ ch :: rest) (.reswitch loc.dot) (number.args ++ ap) putdat :=
      h.field rfl rfl
    simpa using hdot.amount number hend

theorem directive (d : Directive) (hend : isDigit ch = false)
    (h : Stands putch printfmt text origin start [] (d.text ++ ch :: rest) (.reswitch .start)
      (d.args ++ ap) putdat) :
    Stands putch printfmt text origin start d.text (ch :: rest) (.reswitch d.locals) ap putdat := by
  unfold Directive.text Directive.args at h
  simp only [List.append_assoc] at h
  have hflags := h.flags d.flags
  obtain ⟨next, tail, hnext, hdigit⟩ := d.precision_head hend rest
  rw [hnext] at hflags
  have hwidth := hflags.width d hdigit
  rw [← hnext] at hwidth
  obtain ⟨next, tail, hnext, hdigit⟩ := d.longs_head hend rest
  rw [hnext] at hwidth
  have hprecision := hwidth.precision d hdigit
  rw [← hnext] at hprecision
  simpa [Directive.text, Directive.locals, Directive.limited, Directive.sized, Directive.flagged]
    using hprecision.longs d.longs

end Stands

/-- A directive in a format, with its arguments: the formatter comes to its end
with the locals that the directive sets and the arguments behind its own. -/
theorem arrives_directive (d : Directive) {text rest : List UInt8} {fmt : Nat} {ch : UInt8}
    (hdrop : text.drop fmt = ascii '%' :: (d.text ++ ch :: rest)) (hend : isField ch = false)
    (ap : List Arg) (putdat : σ) :
    Arrives putch printfmt text ⟨fmt, d.args ++ ap, putdat, .text⟩
      ⟨fmt + 1 + d.text.length, ap, putdat, .reswitch d.locals⟩ := by
  have hdigit : isDigit ch = false := by
    cases hdigit : isDigit ch with
    | false => rfl
    | true => rcases label_of_isDigit hdigit with h | h <;> simp [isField, h] at hend
  have hstands : Stands putch printfmt text ⟨fmt, d.args ++ ap, putdat, .text⟩ (fmt + 1) d.text
      (ch :: rest) (.reswitch d.locals) ap putdat := (stands_open hdrop _ _).directive d hdigit
  refine ⟨hstands.reaches, ?_⟩
  simp [ends, hstands.getElem?, hend]

theorem vprintfmt_directive (d : Directive) {rest : List UInt8} {ch : UInt8} {conv : Conv}
    (h : label ch = .convert conv) (ap : List Arg) (putdat : σ) :
    vprintfmt putch putdat (ascii '%' :: (d.text ++ ch :: rest)) (d.args ++ ap) = (do
      let (ap, putdat) ← conversion putch (vprintfmtNested putch 1) d.locals ch ap putdat conv
      vprintfmt putch putdat rest ap) := by
  have hfield : isField ch = false := by simp [isField, h]
  have harrives := @arrives_directive _ putch (vprintfmtNested putch 1) d
    (ascii '%' :: (d.text ++ ch :: rest)) rest 0 ch rfl hfield ap putdat
  have hdrop : (ascii '%' :: (d.text ++ ch :: rest)).drop (0 + 1 + d.text.length) = ch :: rest := by
    rw [Nat.zero_add, Nat.add_comm, List.drop_succ_cons, List.drop_left]
  rw [vprintfmt_of_reaches putch harrives.runs]
  cases hconv : conversion putch (vprintfmtNested putch 1) d.locals ch ap putdat conv with
  | error fault =>
    apply Loop.run_error
    simp [round, reswitch, load_of_drop hdrop, h, hconv, bind, Except.bind]
  | ok result =>
    rw [Loop.run_next]
    · apply run_from putch 1 (drop_succ_of_drop hdrop)
      simp
      omega
    · simp [round, reswitch, load_of_drop hdrop, h, hconv, bind, Except.bind]
      rfl

end

end JosKernel.Lib
