import JosKernel.Lib.Spelling

/-! How much of a string `strtol` takes for a number. -/
namespace JosKernel.Lib
open JosKernel.Inc JosKernel.General

def NumberPrefix (base : Nat) (s rest : List UInt8) : Prop :=
  ∃ t : Spelling, t.Valid base ∧ s = t.text ++ rest

/-- The end pointer points behind the longest number that begins the string, or
back to the string if there is none. -/
def ConsumesNumber (s : List UInt8) (base : Nat) : Prop :=
  ∃ value rest, strtol s base = .ok (value, rest) ∧
    (NumberPrefix base s rest ∧ (∀ rest', NumberPrefix base s rest' → rest.length ≤ rest'.length) ∨
      (∀ rest', ¬NumberPrefix base s rest') ∧ value = 0 ∧ rest = s)

def startsDigit (base : Nat) (r : List UInt8) : Bool :=
  r.head?.any (isDigitOf (if base = 0 then 10 else base))

def bareMark (base : Nat) (r : List UInt8) : Bool := hexMarked base r && !startsDigit 16 (r.drop 2)

def WellBegun (base : Nat) (s : List UInt8) : Prop :=
  if startsDigit base (afterSign s) then bareMark base (afterSign s) = false else afterSign s = s

structure AreDigits (radix : Nat) (digits : List UInt8) : Prop where
  nonempty : digits ≠ []
  digits : ∀ byte ∈ digits, isDigitOf radix byte = true

inductive NumeralPrefix (base : Nat) (r rest : List UInt8) : Prop where
  | plain (digits : List UInt8) (h : AreDigits (radixOf base digits) digits) (hr : r = digits ++ rest)
  | marked (digits : List UInt8) (hbase : base = 0 ∨ base = 16) (h : AreDigits 16 digits)
      (hr : r = ascii '0' :: ascii 'x' :: (digits ++ rest))

theorem afterSign_split (s : List UInt8) : ∃ blanks sign,
    (∀ byte ∈ blanks, isBlank byte = true) ∧
      (sign = [] ∨ sign = [ascii '+'] ∨ sign = [ascii '-']) ∧ s = blanks ++ sign ++ afterSign s := by
  have hblanks : ∀ byte ∈ s.takeWhile isBlank, isBlank byte = true :=
    List.all_eq_true.mp List.all_takeWhile
  have hsplit := List.takeWhile_append_dropWhile (p := isBlank) (l := s)
  rw [afterSign]
  cases hrest : s.dropWhile isBlank with
  | nil =>
    rw [hrest] at hsplit
    exact ⟨s.takeWhile isBlank, [], hblanks, Or.inl rfl, by simpa [dropSign] using hsplit.symm⟩
  | cons byte rest =>
    rw [hrest] at hsplit
    rw [dropSign]
    by_cases hsign : isSign byte = true
    · rw [if_pos hsign]
      refine ⟨s.takeWhile isBlank, [byte], hblanks, Or.inr ?_, by simpa using hsplit.symm⟩
      simpa [isSign] using hsign
    · rw [if_neg hsign]
      exact ⟨s.takeWhile isBlank, [], hblanks, Or.inl rfl, by simpa using hsplit.symm⟩

theorem numberPrefix_iff (base : Nat) (s rest : List UInt8) :
    NumberPrefix base s rest ↔ NumeralPrefix base (afterSign s) rest := by
  constructor
  · rintro ⟨t, hvalid, rfl⟩
    have hdigits := hvalid.digits
    rw [hvalid.afterSign, Spelling.mark]
    rw [Spelling.radix] at hdigits
    cases hhex : t.hex with
    | true =>
      rw [hhex] at hdigits
      exact .marked t.digits (hvalid.hex hhex) ⟨hvalid.nonempty, hdigits⟩ rfl
    | false =>
      rw [hhex] at hdigits
      exact .plain t.digits ⟨hvalid.nonempty, hdigits⟩ rfl
  · obtain ⟨blanks, sign, hblanks, hsign, hsplit⟩ := afterSign_split s
    rintro (⟨digits, hdigits, hr⟩ | ⟨digits, hbase, hdigits, hr⟩)
    · refine ⟨⟨blanks, sign, false, digits⟩,
        ⟨hblanks, hsign, by simp, hdigits.nonempty, hdigits.digits⟩, ?_⟩
      rw [hsplit, hr]
      simp [Spelling.text, Spelling.mark]
    · refine ⟨⟨blanks, sign, true, digits⟩,
        ⟨hblanks, hsign, fun _ => hbase, hdigits.nonempty, hdigits.digits⟩, ?_⟩
      rw [hsplit, hr]
      simp [Spelling.text, Spelling.mark]

theorem readDigits_le {radix : Nat} {digits : List UInt8}
    (hdigits : ∀ byte ∈ digits, isDigitOf radix byte = true) (rest : List UInt8) :
    (readDigits radix (digits ++ rest)).2.length ≤ rest.length := by
  rw [readDigits, List.dropWhile_append_of_pos hdigits]
  exact readDigits_length radix rest

theorem readDigits_split (radix : Nat) (r : List UInt8) :
    r = r.takeWhile (isDigitOf radix) ++ (readDigits radix r).2 :=
  List.takeWhile_append_dropWhile.symm

theorem areDigits_takeWhile {radix : Nat} {r : List UInt8} {byte : UInt8}
    (hhead : r.head? = some byte) (hdigit : isDigitOf radix byte = true) :
    AreDigits radix (r.takeWhile (isDigitOf radix)) := by
  refine ⟨?_, List.all_eq_true.mp List.all_takeWhile⟩
  cases r with
  | nil => cases hhead
  | cons first r =>
    cases hhead
    rw [List.takeWhile_cons_of_pos hdigit]
    exact List.cons_ne_nil _ _

theorem startsDigit_iff (base : Nat) (r : List UInt8) :
    startsDigit base r = true ↔
      ∃ byte, r.head? = some byte ∧ isDigitOf (radixOf base r) byte = true := by
  unfold startsDigit radixOf
  cases r with
  | nil => simp
  | cons byte r =>
    by_cases hbase : base = 0
    · by_cases hzero : byte = ascii '0'
      · subst hbase hzero
        exact ⟨fun _ => ⟨ascii '0', rfl, rfl⟩, fun _ => rfl⟩
      · simp [hbase, hzero]
    · simp [hbase]

theorem readDigits_none {base : Nat} {r : List UInt8} (h : startsDigit base r = false) :
    readDigits (radixOf base r) r = (0, r) := by
  refine @readDigits_exact _ [] r nofun fun byte hhead => ?_
  rw [← Bool.not_eq_true]
  intro hin
  rw [(startsDigit_iff base r).mpr ⟨byte, hhead, hin⟩] at h
  cases h

section
variable {base : Nat} {r : List UInt8}

theorem startsDigit_of_marked (h : hexMarked base r = true) : startsDigit base r = true := by
  obtain ⟨hbase, hr⟩ := hexMarked_eq h
  rw [hr]
  rcases hbase with rfl | rfl <;> rfl

theorem readNumber_longest (hdigit : startsDigit base r = true) (hmark : bareMark base r = false) :
    NumeralPrefix base r (readNumber base r).2 ∧
      ∀ rest, NumeralPrefix base r rest → (readNumber base r).2.length ≤ rest.length := by
  rw [readNumber]
  by_cases hmarked : hexMarked base r = true
  · obtain ⟨hbase, hr⟩ := hexMarked_eq hmarked
    have hhex : startsDigit 16 (r.drop 2) = true := by simpa [bareMark, hmarked] using hmark
    obtain ⟨byte, hhead, hin⟩ := (startsDigit_iff 16 (r.drop 2)).mp hhex
    have hsplit := readDigits_split 16 (r.drop 2)
    rw [if_pos hmarked]
    refine ⟨.marked _ hbase (areDigits_takeWhile hhead hin) (by rw [← hsplit]; exact hr), ?_⟩
    rintro rest (⟨digits, hdigits, hplain⟩ | ⟨digits, -, hdigits, hmarked'⟩)
    · rw [hplain] at hmarked
      obtain ⟨-, -, hrest⟩ := marked_digits hdigits.nonempty hdigits.digits hmarked
      have hlength := congrArg List.length hrest
      have hshort := readDigits_length 16 (r.drop 2)
      rw [← hplain, List.length_cons] at hlength
      omega
    · rw [hmarked']
      exact readDigits_le hdigits.digits rest
  · obtain ⟨byte, hhead, hin⟩ := (startsDigit_iff base r).mp hdigit
    have hsplit := readDigits_split (radixOf base r) r
    have hdigits := areDigits_takeWhile hhead hin
    have hradix : radixOf base (r.takeWhile (isDigitOf (radixOf base r))) = radixOf base r := by
      conv_rhs => rw [hsplit]
      exact (radixOf_append base hdigits.nonempty _).symm
    rw [if_neg hmarked]
    refine ⟨.plain _ (hradix.symm ▸ hdigits) hsplit, ?_⟩
    rintro rest (⟨digits, hdigits', hplain⟩ | ⟨digits, hbase, -, hmarked'⟩)
    · have hsame : radixOf base r = radixOf base digits := by
        rw [hplain, radixOf_append base hdigits'.nonempty]
      rw [hsame, hplain]
      exact readDigits_le hdigits'.digits rest
    · exact absurd (by rw [hmarked']; exact decide_eq_true ⟨hbase, rfl⟩) hmarked

theorem readNumber_bare (hmark : bareMark base r = true) :
    ¬NumeralPrefix base r (readNumber base r).2 ∧ ∃ rest, NumeralPrefix base r rest := by
  obtain ⟨hmarked, hbare⟩ : hexMarked base r = true ∧ startsDigit 16 (r.drop 2) = false := by
    simpa [bareMark] using hmark
  obtain ⟨hbase, hr⟩ := hexMarked_eq hmarked
  have hread : (readNumber base r).2 = r.drop 2 := by
    have hnone : readDigits 16 (r.drop 2) = (0, r.drop 2) := readDigits_none hbare
    rw [readNumber, if_pos hmarked, hnone]
  rw [hread]
  refine ⟨?_, ascii 'x' :: r.drop 2, .plain [ascii '0'] ⟨List.cons_ne_nil _ _, ?_⟩ hr⟩
  · rintro (⟨digits, hdigits, hplain⟩ | ⟨digits, -, hdigits, hmarked'⟩)
    · rw [hplain] at hmarked
      obtain ⟨-, -, hrest⟩ := marked_digits hdigits.nonempty hdigits.digits hmarked
      have hlength := congrArg List.length hrest
      rw [← hplain, List.length_cons] at hlength
      omega
    · have hdrop : r.drop 2 = digits ++ r.drop 2 := by
        conv_lhs => rw [hmarked']
        rfl
      exact hdigits.nonempty (List.self_eq_append_left.mp hdrop)
  · rcases hbase with rfl | rfl <;> exact List.forall_mem_singleton.mpr rfl

theorem readNumber_none (hdigit : startsDigit base r = false) :
    readNumber base r = (0, r) ∧ ∀ rest, ¬NumeralPrefix base r rest := by
  have hmarked : ¬hexMarked base r = true := by
    intro hmarked
    rw [startsDigit_of_marked hmarked] at hdigit
    cases hdigit
  refine ⟨?_, ?_⟩
  · rw [readNumber, if_neg hmarked]
    exact readDigits_none hdigit
  · rintro rest (⟨digits, hdigits, hplain⟩ | ⟨digits, hbase, -, hmarked'⟩)
    · obtain ⟨byte, others, rfl⟩ := List.exists_cons_of_ne_nil hdigits.nonempty
      have hin := hdigits.digits byte List.mem_cons_self
      rw [← radixOf_append base hdigits.nonempty rest, ← hplain] at hin
      rw [(startsDigit_iff base r).mpr ⟨byte, by rw [hplain]; rfl, hin⟩] at hdigit
      cases hdigit
    · exact hmarked (by rw [hmarked']; exact decide_eq_true ⟨hbase, rfl⟩)

end

/-- `strtol` consumes a number and nothing else exactly when the number is well
begun. -/
theorem consumesNumber_iff (s : List UInt8) (base : Nat) (hs : Terminated s) :
    ConsumesNumber s base ↔ WellBegun base s := by
  unfold ConsumesNumber WellBegun
  simp only [strtol_run hs, numberPrefix_iff]
  cases hdigit : startsDigit base (afterSign s) with
  | true =>
    rw [if_pos rfl]
    cases hmark : bareMark base (afterSign s) with
    | true =>
      obtain ⟨hnot, rest, hnumber⟩ := readNumber_bare hmark
      refine ⟨?_, nofun⟩
      rintro ⟨value, rest', hrun, ⟨hnumber', -⟩ | ⟨hnone, -⟩⟩
      · rw [← (Prod.mk.inj (Except.ok.inj hrun)).2] at hnumber'
        exact absurd hnumber' hnot
      · exact absurd hnumber (hnone rest)
    | false => exact ⟨fun _ => rfl, fun _ => ⟨_, _, rfl, Or.inl (readNumber_longest hdigit hmark)⟩⟩
  | false =>
    obtain ⟨hread, hnone⟩ := readNumber_none hdigit
    rw [hread, if_neg nofun]
    refine ⟨?_, fun hstart => ⟨_, _, rfl, Or.inr ⟨hnone, ?_, hstart⟩⟩⟩
    · rintro ⟨value, rest, hrun, ⟨hnumber, -⟩ | ⟨-, -, hrest⟩⟩
      · exact absurd hnumber (hnone rest)
      · exact (Prod.mk.inj (Except.ok.inj hrun)).2.trans hrest
    · have hzero : ∀ minus, signed minus 0 = 0 := by decide
      rw [hzero]
      exact wrapInt_of_range (by decide) (by decide)

theorem consumesNumber_minus : ConsumesNumber [0x2D, 0x31, 0x32, 0] 10 :=
  (consumesNumber_iff [0x2D, 0x31, 0x32, 0] 10 (by decide)).mpr (by unfold WellBegun; decide)

/-- A sign without a number behind it is skipped all the same. -/
theorem not_consumesNumber :
    ¬∀ (s : List UInt8) (base : Nat), base = 0 ∨ 2 ≤ base ∧ base ≤ 36 → Terminated s →
      ConsumesNumber s base := by
  intro h
  obtain ⟨value, rest, hrun, hend⟩ := h [0x2D, 0] 10 (Or.inr ⟨by decide, by decide⟩) (by decide)
  have hresult : strtol [0x2D, 0] (10 : Nat) = .ok (0, [0]) := rfl
  rw [hresult] at hrun
  cases hrun
  rcases hend with ⟨hnumber, -⟩ | ⟨-, -, hrest⟩
  · rcases (numberPrefix_iff 10 [0x2D, 0] [0]).mp hnumber with
      ⟨digits, hdigits, hr⟩ | ⟨digits, hbase, -, -⟩
    · exact hdigits.nonempty (List.self_eq_append_left.mp hr)
    · exact absurd hbase (by decide)
  · exact absurd hrest (by decide)

end JosKernel.Lib
