import JosKernel.Lib.Strtol

/-! What `strtol` makes of any terminated string, whatever it consists of. -/
namespace JosKernel.Lib
open JosKernel.Inc JosKernel.General

def isBlank (byte : UInt8) : Bool := byte = ascii ' ' ∨ byte = 0x09

def isSign (byte : UInt8) : Bool := byte = ascii '+' ∨ byte = ascii '-'

def isDigitOf (radix : Nat) (byte : UInt8) : Bool :=
  match digitOf byte with
  | some dig => dig < radix
  | none => false

def digitValue (byte : UInt8) : Nat := ((digitOf byte).getD 0).toNat

theorem digitOf_nonneg {byte : UInt8} {dig : Int} (h : digitOf byte = some dig) : 0 ≤ dig := by
  have h0 : (ascii '0').toNat = 48 := rfl
  have ha : (ascii 'a').toNat = 97 := rfl
  have hA : (ascii 'A').toNat = 65 := rfl
  unfold digitOf at h
  simp only [UInt8.le_iff_toNat_le] at h
  split at h
  · cases h
    omega
  split at h
  · cases h
    omega
  split at h
  · cases h
    omega
  · cases h

theorem isDigitOf_cases (radix : Nat) (byte : UInt8) :
    (digitOf byte = none ∧ isDigitOf radix byte = false) ∨
      digitOf byte = some (digitValue byte : Int) ∧
        (isDigitOf radix byte = true ↔ digitValue byte < radix) := by
  unfold isDigitOf digitValue
  cases hdig : digitOf byte with
  | none => exact Or.inl ⟨rfl, rfl⟩
  | some dig =>
    have hnonneg := digitOf_nonneg hdig
    have hcast : ((dig.toNat : Nat) : Int) = dig := by omega
    refine Or.inr ⟨by rw [Option.getD_some, hcast], ?_⟩
    rw [Option.getD_some, decide_eq_true_iff]
    omega

theorem isDigitOf_plain {radix : Nat} {byte : UInt8} (h : isDigitOf radix byte = true) :
    isBlank byte = false ∧ isSign byte = false ∧ byte ≠ 0 := by
  have hnone : ∀ other : UInt8, digitOf other = none → byte ≠ other := by
    rintro other hother rfl
    unfold isDigitOf at h
    rw [hother] at h
    cases h
  have hspace := hnone (ascii ' ') rfl
  have htab := hnone 0x09 rfl
  have hplus := hnone (ascii '+') rfl
  have hminus := hnone (ascii '-') rfl
  simp [isBlank, isSign, hspace, htab, hplus, hminus, hnone 0 rfl]

theorem terminated_dropWhile {s : List UInt8} (h : Terminated s) {p : UInt8 → Bool}
    (hp : p 0 = false) : Terminated (s.dropWhile p) := by
  induction s with
  | nil => cases h
  | cons byte s ih =>
    rw [List.dropWhile_cons]
    split
    · next hbyte =>
      refine ih (h.tail ?_)
      rintro rfl
      rw [hp] at hbyte
      cases hbyte
    · exact h

theorem skipBlanks_run {s : List UInt8} (hs : Terminated s) :
    skipBlanks s = .ok (s.dropWhile isBlank) := by
  induction s with
  | nil => cases hs
  | cons byte s ih =>
    unfold skipBlanks
    rw [List.dropWhile_cons]
    by_cases hblank : byte = ascii ' ' ∨ byte = 0x09
    · have hbyte : byte ≠ 0 := by
        rintro rfl
        exact absurd hblank (by decide)
      have hskip : isBlank byte = true := decide_eq_true hblank
      rw [if_pos hblank, if_pos hskip]
      exact ih (hs.tail hbyte)
    · rw [if_neg hblank, if_neg (by simpa [isBlank] using hblank)]

def dropSign : List UInt8 → List UInt8
  | [] => []
  | byte :: s => if isSign byte then s else byte :: s

def isMinus (s : List UInt8) : Bool := s.head? = some (ascii '-')

theorem takeSign_run {s : List UInt8} (hs : Terminated s) :
    takeSign s = .ok (dropSign s, isMinus s) := by
  cases s with
  | nil => cases hs
  | cons byte s =>
    have hload : load (byte :: s) 0 = .ok byte := rfl
    simp only [takeSign, hload, bind, Except.bind]
    by_cases hplus : byte = ascii '+'
    · subst hplus
      rfl
    by_cases hminus : byte = ascii '-'
    · subst hminus
      rfl
    · rw [if_neg hplus, if_neg hminus]
      simp [dropSign, isSign, isMinus, hplus, hminus, pure, Except.pure]

theorem dropSign_terminated {s : List UInt8} (hs : Terminated s) : Terminated (dropSign s) := by
  cases s with
  | nil => cases hs
  | cons byte s =>
    rw [dropSign]
    split
    · next hsign =>
      refine hs.tail ?_
      rintro rfl
      exact absurd hsign (by decide)
    · exact hs

def afterSign (s : List UInt8) : List UInt8 := dropSign (s.dropWhile isBlank)

def hexMarked (base : Nat) (r : List UInt8) : Bool :=
  (base = 0 ∨ base = 16) ∧ r.take 2 = [ascii '0', ascii 'x']

def radixOf (base : Nat) (r : List UInt8) : Nat :=
  if base = 0 then if r.head? = some (ascii '0') then 8 else 10 else base

theorem radixOf_given {base : Nat} (h : base ≠ 0) (r : List UInt8) : radixOf base r = base := if_neg h

theorem hexAhead_run {r : List UInt8} (hr : Terminated r) (base : Nat) :
    hexAhead r base = .ok (hexMarked base r) := by
  cases r with
  | nil => cases hr
  | cons byte r =>
    have hload : load (byte :: r) 0 = .ok byte := rfl
    unfold hexAhead hexMarked
    by_cases hbase : base = 0 ∨ base = 16
    · have hbase' : (base : Int) = 0 ∨ (base : Int) = 16 := by omega
      rw [if_pos hbase']
      simp only [hload, bind, Except.bind, hbase, true_and]
      by_cases hzero : byte = ascii '0'
      · subst hzero
        cases r with
        | nil => exact absurd hr (by decide)
        | cons second r =>
          have hload' : load (ascii '0' :: second :: r) 1 = .ok second := rfl
          simp [hload', pure, Except.pure]
      · rw [if_neg hzero]
        simp [hzero, pure, Except.pure]
    · have hbase' : ¬((base : Int) = 0 ∨ (base : Int) = 16) := by omega
      rw [if_neg hbase']
      simp [hbase, pure, Except.pure]

theorem takeBase_run {r : List UInt8} (hr : Terminated r) (base : Nat) :
    takeBase r base = .ok (if hexMarked base r then (r.drop 2, 16)
      else (if base = 0 ∧ r.head? = some (ascii '0') then r.drop 1 else r, (radixOf base r : Int))) := by
  unfold takeBase
  rw [hexAhead_run hr base]
  simp only [bind, Except.bind]
  cases hexMarked base r with
  | true => rfl
  | false =>
    cases r with
    | nil => cases hr
    | cons byte r =>
      have hload : load (byte :: r) 0 = .ok byte := rfl
      unfold radixOf
      by_cases hbase : base = 0
      · subst hbase
        by_cases hzero : byte = ascii '0'
        · subst hzero
          rfl
        · simp [hload, hzero, pure, Except.pure]
      · have hbase' : ¬(base : Int) = 0 := by omega
        simp [hbase, pure, Except.pure]

def readDigits (radix : Nat) (r : List UInt8) : Nat × List UInt8 :=
  (positional radix ((r.takeWhile (isDigitOf radix)).map digitValue), r.dropWhile (isDigitOf radix))

theorem takeDigits_fold (radix : Nat) {r : List UInt8} (hr : Terminated r) (value : Nat) :
    takeDigits radix r (wrapInt value) = .ok (r.dropWhile (isDigitOf radix),
      wrapInt (((r.takeWhile (isDigitOf radix)).map digitValue).foldl
        (fun value digit => value * radix + digit) value : Nat)) := by
  induction r generalizing value with
  | nil => cases hr
  | cons byte r ih =>
    rw [takeDigits, List.dropWhile_cons, List.takeWhile_cons]
    rcases isDigitOf_cases radix byte with ⟨hnone, hnot⟩ | ⟨hsome, hdigit⟩
    · rw [hnone, hnot]
      rfl
    · rw [hsome]
      dsimp only
      by_cases hlt : digitValue byte < radix
      · have hin := hdigit.mpr hlt
        have hnext := ih (hr.tail (isDigitOf_plain hin).2.2) (value * radix + digitValue byte)
        rw [Int.natCast_add, Int.natCast_mul, ← wrapInt_step] at hnext
        rw [if_neg (by omega), hin, if_pos rfl, if_pos rfl, List.map_cons, List.foldl_cons]
        exact hnext
      · have hout : isDigitOf radix byte = false := Bool.eq_false_iff.mpr (mt hdigit.mp hlt)
        rw [if_pos (by omega), hout]
        rfl

theorem takeDigits_run (radix : Nat) {r : List UInt8} (hr : Terminated r) :
    takeDigits radix r 0 = .ok ((readDigits radix r).2, wrapInt (readDigits radix r).1) :=
  takeDigits_fold radix hr 0

theorem readDigits_zero {radix : Nat} (h : 0 < radix) (r : List UInt8) :
    readDigits radix (ascii '0' :: r) = readDigits radix r := by
  have hdigit : isDigitOf radix (ascii '0') = true := decide_eq_true (Int.natCast_pos.mpr h)
  have hvalue : digitValue (ascii '0') = 0 := rfl
  rw [readDigits, readDigits, List.takeWhile_cons_of_pos hdigit, List.dropWhile_cons_of_pos hdigit,
    List.map_cons, hvalue, positional, List.foldl_cons, Nat.zero_mul]
  rfl

def readNumber (base : Nat) (r : List UInt8) : Nat × List UInt8 :=
  if hexMarked base r then readDigits 16 (r.drop 2) else readDigits (radixOf base r) r

def signed (minus : Bool) (value : Nat) : Int := if minus then -value else value

theorem hexMarked_eq {base : Nat} {r : List UInt8} (h : hexMarked base r = true) :
    (base = 0 ∨ base = 16) ∧ r = ascii '0' :: ascii 'x' :: r.drop 2 := by
  obtain ⟨hbase, htake⟩ := of_decide_eq_true h
  refine ⟨hbase, ?_⟩
  conv_lhs => rw [← List.take_append_drop 2 r, htake]
  rfl

theorem readNumber_run {r : List UInt8} (hr : Terminated r) (base : Nat) :
    ∃ r' radix, takeBase r base = .ok (r', radix) ∧
      takeDigits radix r' 0 = .ok ((readNumber base r).2, wrapInt (readNumber base r).1) := by
  have hbase := takeBase_run hr base
  unfold readNumber
  by_cases hmark : hexMarked base r = true
  · obtain ⟨-, hsplit⟩ := hexMarked_eq hmark
    have hrest : Terminated (r.drop 2) := by
      rw [hsplit] at hr
      exact (hr.tail (by decide)).tail (by decide)
    rw [if_pos hmark] at hbase ⊢
    exact ⟨_, _, hbase, takeDigits_run 16 hrest⟩
  rw [if_neg hmark] at hbase ⊢
  by_cases hzero : base = 0 ∧ r.head? = some (ascii '0')
  · rw [if_pos hzero] at hbase
    obtain ⟨rfl, hhead⟩ := hzero
    cases r with
    | nil => cases hhead
    | cons byte r =>
      cases hhead
      have hradix : radixOf 0 (ascii '0' :: r) = 8 := rfl
      rw [hradix] at hbase ⊢
      rw [readDigits_zero (by decide)]
      exact ⟨_, _, hbase, takeDigits_run 8 (hr.tail (by decide))⟩
  · rw [if_neg hzero] at hbase
    exact ⟨_, _, hbase, takeDigits_run _ hr⟩

theorem strtol_run {s : List UInt8} (hs : Terminated s) (base : Nat) :
    strtol s base =
      .ok (wrapInt (signed (isMinus (s.dropWhile isBlank)) (readNumber base (afterSign s)).1),
        (readNumber base (afterSign s)).2) := by
  have hblanks : Terminated (s.dropWhile isBlank) := terminated_dropWhile hs rfl
  obtain ⟨r, radix, hbase, hdigits⟩ := readNumber_run (dropSign_terminated hblanks) base
  rw [← afterSign] at hdigits
  simp only [strtol, skipBlanks_run hs, takeSign_run hblanks, hbase, hdigits, bind, Except.bind,
    pure, Except.pure]
  cases isMinus (s.dropWhile isBlank) with
  | true => simp [signed, wrapInt_neg]
  | false => simp [signed]

end JosKernel.Lib
