import JosKernel.Lib.Numbers
import JosKernel.Lib.StringField

/-! Case `e`: the code is made positive before the table is read, so a code and
its negation print the same text. -/
namespace JosKernel.Lib
open JosKernel.Inc JosKernel.General Sink

def errorCode (value : UInt32) : Int :=
  if value.toInt32.toInt < 0 then wrapInt (-value.toInt32.toInt) else value.toInt32.toInt

/-- The index at which case `e` reads `error_string`, where it does. -/
def errorIndex (value : UInt32) : Option Int :=
  if maxError ≤ errorCode value then none else some (errorCode value)

def loadEntry (value : UInt32) : Except Fault (Option (List UInt8)) :=
  match errorIndex value with
  | some err => loadErrorString err
  | none => .ok none

def errorEntry (value : UInt32) : Option (List UInt8) :=
  errorString[value.toInt32.toInt.natAbs]?.join

/-- The text of a code: the string in its entry, or `error` with its magnitude
where it has no entry. -/
def errorText (value : UInt32) : List Int :=
  match errorEntry value with
  | some p => (stringAt p).map charInt
  | none => codes ("error ".toList.map ascii) ++ numeralCodes 10 value.toInt32.toInt.natAbs

/-- The table is read within its bounds, and the code prints what its negation
prints. -/
structure SignBlind (value : UInt32) : Prop where
  index : ∀ err ∈ errorIndex value, 0 ≤ err ∧ err < maxError
  prints : ∀ code ∈ [value, -value], ∀ (rest : List UInt8) (ap : List Arg),
    vprintfmt collect [] (ascii '%' :: ascii 'e' :: rest) (.int code :: ap) =
      (vprintfmt collect [] rest ap).map (errorText value ++ ·)

theorem conversion_error (printfmt : List UInt8 → List Arg → List Int → Except Fault (List Int))
    (loc : Locals) (ch : UInt8) (value : UInt32) (ap : List Arg) :
    conversion collect printfmt loc ch (.int value :: ap) [] .error = (do
      let entry ← loadEntry value
      let out ← match entry with
        | some p => printfmt (cstr "%s".toList) [.str (some p)] []
        | none =>
          printfmt (cstr "error %d".toList) [.int (UInt32.ofInt (errorCode value))] []
      return (ap, out)) := by
  have hcode : (if value.toInt32.toInt < 0 then wrapInt (-value.toInt32.toInt)
      else value.toInt32.toInt) = errorCode value := rfl
  simp only [conversion, argInt, bind, Except.bind, hcode, loadEntry, errorIndex]
  by_cases hmax : maxError ≤ errorCode value
  · simp only [hmax, if_true]
  · simp only [hmax, if_false]
    cases loadErrorString (errorCode value) with
    | error fault => rfl
    | ok entry => cases entry <;> rfl

theorem errorCode_eq {value : UInt32} (h : value ≠ 0x80000000) :
    errorCode value = value.toInt32.toInt.natAbs := by
  have hnonneg : 0 ≤ errorCode value :=
    ((magnitude_cases value).resolve_right fun hleast => h hleast.2).1
  have hlo := value.toInt32.le_toInt
  have hhi := value.toInt32.toInt_lt
  unfold errorCode at hnonneg ⊢
  split
  · next hneg =>
    rw [if_pos hneg, wrapInt, Int.bmod_def] at hnonneg
    rw [wrapInt_of_range] <;> omega
  · omega

theorem natAbs_neg_toInt32 (value : UInt32) :
    (-value).toInt32.toInt.natAbs = value.toInt32.toInt.natAbs := by
  have hlt := value.toNat_lt
  have hsize : UInt32.size = 2 ^ 32 := rfl
  rw [← wrapInt_toNat, ← wrapInt_toNat, UInt32.toNat_neg, hsize, wrapInt, wrapInt, Int.bmod_def,
    Int.bmod_def]
  omega

theorem errorText_neg (value : UInt32) : errorText (-value) = errorText value := by
  unfold errorText errorEntry
  rw [natAbs_neg_toInt32]

theorem loadEntry_eq {value : UInt32} (h : value ≠ 0x80000000) :
    loadEntry value = .ok (errorEntry value) := by
  rw [loadEntry, errorIndex, errorCode_eq h]
  unfold errorEntry
  generalize value.toInt32.toInt.natAbs = num
  by_cases hmax : maxError ≤ (num : Int)
  · have hnone : errorString[num]? = none := by
      apply List.getElem?_eq_none
      change 7 ≤ num
      unfold maxError at hmax
      omega
    simp only [hmax, if_true, hnone, Option.join_none]
  · have hlt : num < errorString.length := by
      change num < 7
      unfold maxError at hmax
      omega
    have hmod : ((num : Int) % 2 ^ 30).toNat = num := by
      unfold maxError at hmax
      omega
    simp only [hmax, if_false, loadErrorString, hmod, List.getElem?_eq_getElem hlt,
      Option.join_some]

theorem errorEntry_eq_some {value : UInt32} {p : List UInt8} (h : errorEntry value = some p) :
    ∃ text, p = text ++ [0] ∧ Plain text ∧ text.length < 100 := by
  rw [errorEntry, Option.join_eq_some_iff] at h
  generalize value.toInt32.toInt.natAbs = num at h
  match num with
  | 0 => cases h
  | 1 | 2 | 3 | 4 | 5 | 6 =>
    cases h
    exact ⟨_, rfl, by decide, by decide⟩
  | num + 7 => cases h

theorem printfmt_errorNumber (depth : Nat) {err : Int} (hlo : 0 ≤ err) (hhi : err < 2 ^ 31) :
    vprintfmtNested collect (depth + 1) (cstr "error %d".toList) [.int (UInt32.ofInt err)] [] =
      .ok (codes ("error ".toList.map ascii) ++ numeralCodes 10 err.natAbs) := by
  have hvalue : (UInt32.ofInt err).toInt32.toInt = err := by
    have hmod : ((UInt32.ofInt err).toNat : Int) = err := by
      rw [UInt32.ofInt, UInt32.toNat_ofNat']
      omega
    rw [← wrapInt_toNat, hmod, wrapInt_of_range (by omega) hhi]
  have htext : cstr "error %d".toList = "error ".toList.map ascii ++ [ascii '%', ascii 'd', 0] := by
    decide
  rw [htext, vprintfmtNested_conversion depth (by decide)
    (by decide : label (ascii 'd') = .convert .decimal), conversion_decimal _ _ rfl (by decide),
    hvalue, signedCodes, if_neg (by omega)]
  rfl

theorem conversion_errorText {value : UInt32} (h : value ≠ 0x80000000) (depth : Nat)
    (loc : Locals) (ch : UInt8) (ap : List Arg) :
    conversion collect (vprintfmtNested collect (depth + 1)) loc ch (.int value :: ap) [] .error =
      .ok (ap, errorText value) := by
  rw [conversion_error, loadEntry_eq h]
  unfold errorText
  cases hentry : errorEntry value with
  | none =>
    have hcode := errorCode_eq h
    have hhi : errorCode value < 2 ^ 31 := by
      unfold errorCode
      split
      · exact wrapInt_lt _
      · exact value.toInt32.toInt_lt
    have hnumber := printfmt_errorNumber depth (show 0 ≤ errorCode value by omega) hhi
    rw [hcode, Int.natAbs_natCast] at hnumber
    simp only [bind, Except.bind, hcode, hnumber]
    rfl
  | some p =>
    obtain ⟨text, rfl, hplain, hlength⟩ := errorEntry_eq_some hentry
    have hpad : (wrapInt (-1 - text.length)).toNat = 0 := by
      rw [wrapInt_of_range] <;> omega
    have hstring := vprintfmtNested_string depth hplain
    rw [hpad, List.replicate_zero, List.append_nil] at hstring
    simp only [bind, Except.bind, hstring, stringAt_plain hplain]
    rfl

theorem vprintfmt_error {value : UInt32} (h : value ≠ 0x80000000) (rest : List UInt8)
    (ap : List Arg) :
    vprintfmt collect [] (ascii '%' :: ascii 'e' :: rest) (.int value :: ap) =
      (vprintfmt collect [] rest ap).map (errorText value ++ ·) := by
  rw [vprintfmt_eq_read, vprintfmt_eq_read,
    read_conversion _ (by decide : label (ascii 'e') = .convert .error), conversion_errorText h]
  rfl

/-- Only the least `int`, which is its own negation, is not made positive. -/
theorem signBlind_iff (value : UInt32) : SignBlind value ↔ value ≠ 0x80000000 := by
  constructor
  · rintro ⟨hindex, -⟩ rfl
    have hleast := hindex (-2 ^ 31) (by decide)
    omega
  · intro h
    have hneg : -value ≠ 0x80000000 := by
      intro heq
      apply h
      rw [← @UInt32.neg_neg value, heq]
      rfl
    constructor
    · intro err herr
      unfold errorIndex at herr
      split at herr
      · cases herr
      · next hmax =>
        have hcode := errorCode_eq h
        cases herr
        omega
    · intro code hcode rest ap
      rcases List.mem_pair.mp hcode with rfl | rfl
      · exact vprintfmt_error h rest ap
      · rw [vprintfmt_error hneg, errorText_neg]

/-- `%e` of -2^31 reads `error_string[-2^31]`. -/
theorem not_signBlind : ¬∀ value, SignBlind value := by
  intro h
  have hleast := (h 0x80000000).index (-2 ^ 31) (by decide)
  omega

end JosKernel.Lib
