import JosKernel.Lib.StrtolRun

/-! The spellings of a number, and what `strtol` reads of them. -/
namespace JosKernel.Lib
open JosKernel.Inc JosKernel.General

structure Spelling where
  blanks : List UInt8
  sign : List UInt8
  hex : Bool
  digits : List UInt8

namespace Spelling
variable (t : Spelling)

def mark : List UInt8 := if t.hex then [ascii '0', ascii 'x'] else []

def text : List UInt8 := t.blanks ++ t.sign ++ t.mark ++ t.digits

/-- Without the mark of base 16, a leading zero selects base 8 if no base is given. -/
def radix (base : Nat) : Nat := if t.hex then 16 else radixOf base t.digits

def value (base : Nat) : Int :=
  signed (t.sign = [ascii '-']) (positional (t.radix base) (t.digits.map digitValue))

structure Valid (base : Nat) : Prop where
  blanks : ∀ byte ∈ t.blanks, isBlank byte = true
  sign : t.sign = [] ∨ t.sign = [ascii '+'] ∨ t.sign = [ascii '-']
  hex : t.hex = true → base = 0 ∨ base = 16
  nonempty : t.digits ≠ []
  digits : ∀ byte ∈ t.digits, isDigitOf (t.radix base) byte = true

variable {t} {base : Nat}

theorem Valid.plain (h : t.Valid base) (tail : List UInt8) :
    ∃ byte rest, t.mark ++ (t.digits ++ tail) = byte :: rest ∧ isBlank byte = false ∧
      isSign byte = false := by
  unfold mark
  cases t.hex with
  | true => exact ⟨ascii '0', _, rfl, rfl, rfl⟩
  | false =>
    obtain ⟨byte, digits, hdigits⟩ := List.exists_cons_of_ne_nil h.nonempty
    have hdigit := h.digits byte (hdigits ▸ List.mem_cons_self)
    obtain ⟨hblank, hsign, -⟩ := isDigitOf_plain hdigit
    exact ⟨byte, digits ++ tail, by rw [hdigits]; rfl, hblank, hsign⟩

theorem Valid.dropBlanks (h : t.Valid base) (tail : List UInt8) :
    (t.text ++ tail).dropWhile isBlank = t.sign ++ (t.mark ++ (t.digits ++ tail)) := by
  obtain ⟨byte, rest, hbody, hblank, -⟩ := h.plain tail
  have hsplit : t.text ++ tail = t.blanks ++ (t.sign ++ (t.mark ++ (t.digits ++ tail))) := by
    simp [text]
  rw [hsplit, List.dropWhile_append_of_pos h.blanks, hbody]
  rcases h.sign with hsign | hsign | hsign
  · rw [hsign, List.nil_append, List.dropWhile_cons_of_neg (by simp [hblank])]
  · rw [hsign]
    rfl
  · rw [hsign]
    rfl

theorem Valid.afterSign (h : t.Valid base) (tail : List UInt8) :
    afterSign (t.text ++ tail) = t.mark ++ (t.digits ++ tail) := by
  obtain ⟨byte, rest, hbody, -, hplain⟩ := h.plain tail
  rw [Lib.afterSign, h.dropBlanks, hbody]
  rcases h.sign with hsign | hsign | hsign
  · rw [hsign, List.nil_append, dropSign, if_neg (by simp [hplain])]
  · rw [hsign]
    rfl
  · rw [hsign]
    rfl

theorem Valid.isMinus (h : t.Valid base) (tail : List UInt8) :
    isMinus ((t.text ++ tail).dropWhile isBlank) = decide (t.sign = [ascii '-']) := by
  obtain ⟨byte, rest, hbody, -, hplain⟩ := h.plain tail
  rw [h.dropBlanks, hbody]
  rcases h.sign with hsign | hsign | hsign
  · have hne : byte ≠ ascii '-' := by
      rintro rfl
      cases hplain
    simp [hsign, Lib.isMinus, hne]
  · rw [hsign]
    rfl
  · rw [hsign]
    rfl

end Spelling

theorem readDigits_exact {radix : Nat} {digits tail : List UInt8}
    (hdigits : ∀ byte ∈ digits, isDigitOf radix byte = true)
    (hend : ∀ byte, tail.head? = some byte → isDigitOf radix byte = false) :
    readDigits radix (digits ++ tail) = (positional radix (digits.map digitValue), tail) := by
  have htail : tail.takeWhile (isDigitOf radix) = [] ∧ tail.dropWhile (isDigitOf radix) = tail := by
    cases tail with
    | nil => exact ⟨rfl, rfl⟩
    | cons byte tail =>
      have hout := hend byte rfl
      simp [hout]
  rw [readDigits, List.takeWhile_append_of_pos hdigits, List.dropWhile_append_of_pos hdigits,
    htail.1, htail.2, List.append_nil]

theorem readDigits_length (radix : Nat) (r : List UInt8) :
    (readDigits radix r).2.length ≤ r.length :=
  (List.dropWhile_suffix (isDigitOf radix)).length_le

theorem radixOf_append (base : Nat) {digits : List UInt8} (hne : digits ≠ []) (tail : List UInt8) :
    radixOf base (digits ++ tail) = radixOf base digits := by
  rw [radixOf, radixOf, List.head?_append_of_ne_nil digits hne]

theorem hexMarked_of_head {base : Nat} (hbase : base = 0 ∨ base = 16) {tail : List UInt8}
    (hx : tail.head? = some (ascii 'x')) : hexMarked base ([ascii '0'] ++ tail) = true := by
  cases tail with
  | nil => cases hx
  | cons byte tail =>
    cases hx
    exact decide_eq_true ⟨hbase, rfl⟩

theorem marked_digits {base : Nat} {digits tail : List UInt8} (hne : digits ≠ [])
    (hdigits : ∀ byte ∈ digits, isDigitOf (radixOf base digits) byte = true)
    (h : hexMarked base (digits ++ tail) = true) :
    (base = 0 ∨ base = 16) ∧ digits = [ascii '0'] ∧
      tail = ascii 'x' :: (digits ++ tail).drop 2 := by
  obtain ⟨hbase, hsplit⟩ := hexMarked_eq h
  obtain ⟨first, rest, rfl⟩ := List.exists_cons_of_ne_nil hne
  obtain ⟨hfirst, hrest⟩ := List.cons.inj hsplit
  subst hfirst
  refine ⟨hbase, ?_⟩
  cases rest with
  | nil => exact ⟨rfl, hrest⟩
  | cons second rest =>
    -- no base that looks for the mark has `x` as a digit
    have hsecond : second = ascii 'x' := (List.cons.inj hrest).1
    have hdigit := hdigits second (by simp)
    rw [hsecond] at hdigit
    rcases hbase with rfl | rfl <;> cases hdigit

theorem strtol_spelling {t : Spelling} {base : Nat} (hvalid : t.Valid base) {tail : List UInt8}
    (htail : Terminated tail)
    (hend : ∀ byte, tail.head? = some byte → isDigitOf (t.radix base) byte = false)
    (hplain : t.hex = true ∨ hexMarked base (t.digits ++ tail) = false) :
    strtol (t.text ++ tail) base = .ok (wrapInt (t.value base), tail) := by
  have hs : Terminated (t.text ++ tail) := List.mem_append_right _ htail
  have hexact : readDigits (t.radix base) (t.digits ++ tail) =
      (positional (t.radix base) (t.digits.map digitValue), tail) :=
    readDigits_exact hvalid.digits hend
  have hread : readNumber base (t.mark ++ (t.digits ++ tail)) =
      readDigits (t.radix base) (t.digits ++ tail) := by
    unfold readNumber Spelling.mark Spelling.radix
    cases hhex : t.hex with
    | true =>
      have hmarked : hexMarked base ([ascii '0', ascii 'x'] ++ (t.digits ++ tail)) = true :=
        decide_eq_true ⟨hvalid.hex hhex, rfl⟩
      rw [if_pos rfl, if_pos rfl, if_pos hmarked]
      rfl
    | false =>
      have hunmarked : hexMarked base (t.digits ++ tail) = false :=
        hplain.resolve_left (by simp [hhex])
      simp only [Bool.false_eq_true, if_false, List.nil_append, hunmarked]
      rw [radixOf_append base hvalid.nonempty]
  rw [strtol_run hs, hvalid.afterSign, hvalid.isMinus, Spelling.value, hread, hexact]

section
variable (t : Spelling) (tail : List UInt8) (base : Nat)

def ReadsSpelling : Prop := strtol (t.text ++ tail) base = .ok (wrapInt (t.value base), tail)

/-- The number is read and nothing else is skipped, unless it is a single zero
and an `x` behind it makes it look like the mark of base 16. -/
theorem readsSpelling_iff (hvalid : t.Valid base) (htail : Terminated tail)
    (hend : ∀ byte, tail.head? = some byte → isDigitOf (t.radix base) byte = false) :
    ReadsSpelling t tail base ↔
      ¬(t.hex = false ∧ (base = 0 ∨ base = 16) ∧ t.digits = [ascii '0'] ∧
        tail.head? = some (ascii 'x')) := by
  constructor
  · rintro hreads ⟨hhex, hbase, hzero, hx⟩
    have hs : Terminated (t.text ++ tail) := List.mem_append_right _ htail
    have hmark : t.mark = [] := by rw [Spelling.mark, hhex]; rfl
    have hmarked : hexMarked base (t.digits ++ tail) = true := by
      rw [hzero]
      exact hexMarked_of_head hbase hx
    rw [ReadsSpelling, strtol_run hs, hvalid.afterSign, hmark, List.nil_append] at hreads
    have hrest : (readNumber base (t.digits ++ tail)).2 = tail :=
      (Prod.mk.inj (Except.ok.inj hreads)).2
    rw [readNumber, if_pos hmarked, hzero] at hrest
    -- the digits are read behind the mark, which the end does not include
    have hshort := readDigits_length 16 (([ascii '0'] ++ tail).drop 2)
    rw [hrest, List.length_drop, List.singleton_append, List.length_cons] at hshort
    have hlength := List.length_pos_of_mem htail
    omega
  · intro hnot
    refine strtol_spelling hvalid htail hend ?_
    cases hhex : t.hex with
    | true => exact Or.inl rfl
    | false =>
      refine Or.inr (Bool.eq_false_iff.mpr fun hmarked => hnot ?_)
      have hdigits := hvalid.digits
      rw [Spelling.radix, hhex] at hdigits
      obtain ⟨hbase, hzero, hx⟩ := marked_digits hvalid.nonempty hdigits hmarked
      exact ⟨hhex, hbase, hzero, by rw [hx]; rfl⟩

end

theorem readsSpelling_hex : ReadsSpelling ⟨[0x20], [0x2D], true, [0x31, 0x46]⟩ [0x67, 0] 16 := by
  refine (readsSpelling_iff ⟨[0x20], [0x2D], true, [0x31, 0x46]⟩ [0x67, 0] 16
    ⟨List.forall_mem_singleton.mpr rfl, Or.inr (Or.inr rfl), fun _ => Or.inr rfl,
      List.cons_ne_nil _ _, List.forall_mem_cons.mpr ⟨rfl, List.forall_mem_singleton.mpr rfl⟩⟩
    (by decide) (fun byte hbyte => by cases hbyte; rfl)).mpr ?_
  rintro ⟨hmark, -⟩
  exact absurd hmark (by decide)

/-- The text `0xg`, whose `x` is skipped although no digit of base 16 follows. -/
theorem not_readsSpelling :
    ¬∀ (t : Spelling) (tail : List UInt8) (base : Nat), base = 0 ∨ 2 ≤ base ∧ base ≤ 36 →
      t.Valid base → Terminated tail →
      (∀ byte, tail.head? = some byte → isDigitOf (t.radix base) byte = false) →
      (∀ byte rest, tail = ascii 'x' :: byte :: rest → isDigitOf 16 byte = false) →
      ReadsSpelling t tail base := by
  intro h
  have hread : strtol [0x30, 0x78, 0x67, 0] 16 = .ok (wrapInt 0, [0x78, 0x67, 0]) :=
    h ⟨[], [], false, [0x30]⟩ [0x78, 0x67, 0] 16 (Or.inr ⟨by decide, by decide⟩)
      ⟨nofun, Or.inl rfl, nofun, List.cons_ne_nil _ _, List.forall_mem_singleton.mpr rfl⟩
      (by decide) (fun byte hbyte => by cases hbyte; rfl)
      (fun byte rest hsplit => by cases hsplit; rfl)
  have hrun : strtol [0x30, 0x78, 0x67, 0] 16 = .ok (0, [0x67, 0]) := rfl
  rw [hrun] at hread
  exact absurd (Prod.mk.inj (Except.ok.inj hread)).2 (by decide)

def numeralSpelling (sign : List UInt8) (hex : Bool) (base num : Nat) : Spelling :=
  ⟨[], sign, hex, (numeral base num).map digitChar⟩

section
variable {base : Nat} (hlo : 2 ≤ base) (hhi : base ≤ 16) (num : Nat) (after : List UInt8)

include hlo hhi in
theorem map_digitValue_numeral :
    ((numeral base num).map digitChar).map digitValue = numeral base num := by
  rw [List.map_map]
  calc (numeral base num).map (digitValue ∘ digitChar) = (numeral base num).map id := by
        refine List.map_congr_left fun digit hdigit => ?_
        have hlt := numeral_lt hlo num digit hdigit
        simp [digitValue, digitOf_digitChar (Nat.lt_of_lt_of_le hlt hhi)]
    _ = numeral base num := List.map_id _

include hlo hhi in
theorem isDigitOf_numeral : ∀ byte ∈ (numeral base num).map digitChar, isDigitOf base byte = true := by
  rw [List.forall_mem_map]
  intro digit hdigit
  have hlt := numeral_lt hlo num digit hdigit
  simp [isDigitOf, digitOf_digitChar (Nat.lt_of_lt_of_le hlt hhi), hlt]

include hlo hhi in
theorem strtol_numeralSpelling (sign : List UInt8) (hex : Bool) {base' : Nat}
    (hsign : sign = [] ∨ sign = [ascii '+'] ∨ sign = [ascii '-'])
    (hhex : hex = true → base' = 0 ∨ base' = 16)
    (hradix : (numeralSpelling sign hex base num).radix base' = base) :
    strtol ((numeralSpelling sign hex base num).text ++ 0 :: after) base' =
      .ok (wrapInt (signed (sign = [ascii '-']) num), 0 :: after) := by
  have hvalid : (numeralSpelling sign hex base num).Valid base' :=
    { blanks := nofun
      sign := hsign
      hex := hhex
      nonempty := by simp [numeralSpelling, numeral_ne_nil]
      digits := by
        rw [hradix]
        exact isDigitOf_numeral hlo hhi num }
  have hvalue : (numeralSpelling sign hex base num).value base' =
      signed (sign = [ascii '-']) num := by
    rw [Spelling.value, hradix, numeralSpelling, map_digitValue_numeral hlo hhi,
      positional_numeral hlo]
  rw [← hvalue]
  refine strtol_spelling hvalid List.mem_cons_self (fun byte hbyte => by cases hbyte; rfl) ?_
  cases hhex' : hex with
  | true => exact Or.inl rfl
  | false =>
    refine Or.inr (Bool.eq_false_iff.mpr fun hmarked => ?_)
    have hdigits := hvalid.digits
    rw [Spelling.radix, hhex'] at hdigits
    have hx := (marked_digits hvalid.nonempty hdigits hmarked).2.2
    cases hx

include hlo hhi in
theorem strtol_numeral :
    strtol (digitChars (numeral base num) after) base = .ok (wrapInt num, 0 :: after) :=
  strtol_numeralSpelling hlo hhi num after [] false (Or.inl rfl) (by simp)
    (radixOf_given (by omega) _)

include hlo hhi in
theorem strtol_minus :
    strtol (ascii '-' :: digitChars (numeral base num) after) base =
      .ok (wrapInt (-num), 0 :: after) :=
  strtol_numeralSpelling hlo hhi num after [ascii '-'] false (Or.inr (Or.inr rfl)) (by simp)
    (radixOf_given (by omega) _)

theorem strtol_hex {base : Nat} (hbase : base = 0 ∨ base = 16) :
    strtol (ascii '0' :: ascii 'x' :: digitChars (numeral 16 num) after) base =
      .ok (wrapInt num, 0 :: after) :=
  strtol_numeralSpelling (by decide) (Nat.le_refl 16) num after [] true (Or.inl rfl)
    (fun _ => hbase) rfl

end

end JosKernel.Lib
