import JosKernel.Lib.Matching

/-! Case `s`: a string in its field, and the two ways to print a text. -/
namespace JosKernel.Lib
open JosKernel.Inc JosKernel.General Sink

theorem charInt_eq (byte : UInt8) : charInt byte = (byte.toNat : Int).bmod (2 ^ 8) :=
  BitVec.toInt_eq_toNat_bmod byte.toBitVec

theorem ofInt_charInt (byte : UInt8) : UInt8.ofInt (charInt byte) = byte := by
  have hmod : (charInt byte % 2 ^ 8).toNat = byte.toNat % 2 ^ 8 := by
    rw [charInt_eq, Int.bmod_def]
    omega
  rw [UInt8.ofInt, hmod]
  simp

theorem charInt_eq_toNat (byte : UInt8) : charInt byte = byte.toNat ↔ byte < 0x80 := by
  have hlt := byte.toNat_lt
  rw [charInt_eq, UInt8.lt_iff_toNat_lt, Int.bmod_def]
  change _ ↔ byte.toNat < 128
  omega

def shownByte (altflag : Bool) (byte : UInt8) : UInt8 :=
  if altflag ∧ ¬(0x20 ≤ byte ∧ byte ≤ 0x7e) then ascii '?' else byte

theorem ofInt_shown (altflag : Bool) (byte : UInt8) :
    UInt8.ofInt (shown altflag byte) = shownByte altflag byte := by
  have hlt := byte.toNat_lt
  have hrange : (charInt byte < 32 ∨ 126 < charInt byte) ↔ ¬(0x20 ≤ byte ∧ byte ≤ 0x7e) := by
    rw [charInt_eq, UInt8.le_iff_toNat_le, UInt8.le_iff_toNat_le, Int.bmod_def]
    change _ ↔ ¬(32 ≤ byte.toNat ∧ byte.toNat ≤ 126)
    omega
  unfold shown shownByte
  simp only [hrange]
  split
  · rfl
  · exact ofInt_charInt byte

theorem countDown_wrapInt (count : Nat) (width : Int) :
    countDown count (wrapInt width) = wrapInt (width - count) := by
  induction count generalizing width with
  | zero => simp [countDown]
  | succ count ih =>
    have hnext : width - 1 - count = width - (count + 1 : Nat) := by omega
    rw [countDown, wrapInt_wrapInt_sub, ih, hnext]

theorem countDown_eq {count : Nat} {width : Int} (hlo : -2 ^ 31 ≤ width - count)
    (hhi : width < 2 ^ 31) : countDown count width = width - count := by
  have h := countDown_wrapInt count width
  rwa [wrapInt_of_range (by omega) hhi, wrapInt_of_range hlo (by omega)] at h

def limitedBytes (loc : Locals) (p : List UInt8) : List UInt8 :=
  (limit loc.precision (stringAt p)).map (shownByte loc.altflag)

/-- A string in its field: padded on the right with spaces for `-`, else on the
left with the pad character. -/
def stringField (loc : Locals) (p : List UInt8) : List UInt8 :=
  let chars := limitedBytes loc p
  if loc.padc = ascii '-' then chars ++ List.replicate (loc.width - chars.length).toNat (ascii ' ')
  else List.replicate (loc.width - chars.length).toNat loc.padc ++ chars

/-- The `int` in which case `s` counts the width for so many characters does not
overflow: it goes down once for each of them, and where the string fills a width
that is padded on the left, twice. -/
def Locals.Counts (loc : Locals) (length : Nat) : Prop :=
  if 0 < loc.width ∧ loc.width ≤ length ∧ loc.padc ≠ ascii '-' then
    2 * (length : Int) ≤ 2 ^ 31 + loc.width
  else (length : Int) ≤ 2 ^ 31 + loc.width

instance (loc : Locals) (length : Nat) : Decidable (loc.Counts length) :=
  inferInstanceAs (Decidable (ite _ _ _))

theorem limit_length (precision : Int) (chars : List UInt8) :
    ((limit precision chars).length : Int) =
      if precision < 0 then (chars.length : Int) else min precision chars.length := by
  unfold limit
  split
  · rfl
  · rw [List.length_take]
    omega

theorem take_precision {loc : Locals} (hloc : loc.InRange) {chars : List UInt8}
    (h : ((limit loc.precision chars).length : Int) ≤ 2 ^ 31) :
    (chars.take (UInt32.ofInt loc.precision).toNat).length = (limit loc.precision chars).length := by
  have hlo := hloc.precision_lo
  have hhi := hloc.precision_hi
  have hsize : ((UInt32.ofInt loc.precision).toNat : Int) = loc.precision % 2 ^ 32 := by
    rw [UInt32.ofInt, UInt32.toNat_ofNat']
    omega
  have hlength := limit_length loc.precision chars
  rw [List.length_take]
  split at hlength <;> omega

theorem counts_le {loc : Locals} (hloc : loc.InRange) {length : Nat} (h : loc.Counts length)
    (hwidth : 0 < loc.width) (hpad : loc.padc ≠ ascii '-') : (length : Int) ≤ 2 ^ 31 := by
  have hhi := hloc.width_hi
  unfold Locals.Counts at h
  split at h
  · omega
  · next hnot =>
    have hlt : ¬loc.width ≤ length := fun hle => hnot ⟨hwidth, hle, hpad⟩
    omega

/-- The padding that case `s` prints in front of a string and behind it. -/
theorem string_padding {loc : Locals} (hloc : loc.InRange) {length : Nat} (h : loc.Counts length) :
    (leadWidth loc length).toNat =
        (if loc.padc = ascii '-' then 0 else (loc.width - length).toNat) ∧
      (countDown length (restWidth loc length)).toNat =
        (if loc.padc = ascii '-' then (loc.width - length).toNat else 0) := by
  have hlo := hloc.width_lo
  have hhi := hloc.width_hi
  by_cases hlead : 0 < loc.width ∧ loc.padc ≠ ascii '-'
  · have hle := counts_le hloc h hlead.1 hlead.2
    have hwrap : wrapInt (loc.width - length) = loc.width - length :=
      wrapInt_of_range (by omega) (by omega)
    unfold leadWidth restWidth
    rw [if_pos hlead, if_pos hlead, if_neg hlead.2, if_neg hlead.2, hwrap]
    by_cases hfill : 0 < loc.width - length
    · rw [if_pos hfill, countDown_eq (by omega) (by omega)]
      omega
    · have hcounts : 2 * (length : Int) ≤ 2 ^ 31 + loc.width := by
        rwa [Locals.Counts, if_pos ⟨hlead.1, by omega, hlead.2⟩] at h
      rw [if_neg hfill, countDown_eq (by omega) (by omega)]
      omega
  · have hcounts : (length : Int) ≤ 2 ^ 31 + loc.width := by
      rwa [Locals.Counts, if_neg fun hnot => hlead ⟨hnot.1, hnot.2.2⟩] at h
    unfold leadWidth restWidth
    rw [if_neg hlead, if_neg hlead, countDown_eq (by omega) hhi]
    split
    · simp
    · next hpad =>
      have hwidth : loc.width ≤ 0 := Int.not_lt.mp fun hwidth => hlead ⟨hwidth, hpad⟩
      omega

theorem stringText_eq {loc : Locals} (hloc : loc.InRange) {p : List UInt8}
    (h : loc.Counts (limit loc.precision (stringAt p)).length) :
    stringText loc p =
      List.replicate (if loc.padc = ascii '-' then 0
          else (loc.width - (limit loc.precision (stringAt p)).length).toNat) (loc.padc.toNat : Int) ++
        (limit loc.precision (stringAt p)).map (shown loc.altflag) ++
        List.replicate (if loc.padc = ascii '-' then
          (loc.width - (limit loc.precision (stringAt p)).length).toNat else 0) 32 := by
  obtain ⟨hlead, hrest⟩ := string_padding hloc h
  have hlength : leadWidth loc ((stringAt p).take (UInt32.ofInt loc.precision).toNat).length =
        leadWidth loc (limit loc.precision (stringAt p)).length ∧
      restWidth loc ((stringAt p).take (UInt32.ofInt loc.precision).toNat).length =
        restWidth loc (limit loc.precision (stringAt p)).length := by
    by_cases hpad : 0 < loc.width ∧ loc.padc ≠ ascii '-'
    · rw [take_precision hloc (counts_le hloc h hpad.1 hpad.2)]
      exact ⟨rfl, rfl⟩
    · simp [leadWidth, restWidth, hpad]
  unfold stringText
  dsimp only
  rw [List.length_map, hlength.1, hlength.2, hlead, hrest]

theorem stringText_field {loc : Locals} (hloc : loc.InRange) {p : List UInt8}
    (h : loc.Counts (limitedBytes loc p).length) :
    (stringText loc p).map UInt8.ofInt = stringField loc p := by
  have hlength : (limitedBytes loc p).length = (limit loc.precision (stringAt p)).length :=
    List.length_map _
  have hbytes : ((limit loc.precision (stringAt p)).map (shown loc.altflag)).map UInt8.ofInt =
      limitedBytes loc p := by
    simp [limitedBytes, ofInt_shown]
  have hpad : UInt8.ofInt (loc.padc.toNat : Int) = loc.padc := ofInt_byte loc.padc
  rw [hlength] at h
  rw [stringText_eq hloc h, List.map_append, List.map_append, hbytes, List.map_replicate,
    List.map_replicate, hpad, ← hlength]
  unfold stringField
  dsimp only
  split
  · simp only [List.replicate_zero, List.nil_append]
    rfl
  · simp only [List.replicate_zero, List.append_nil]

theorem conversion_string (printfmt : List UInt8 → List Arg → List Int → Except Fault (List Int))
    (loc : Locals) (ch : UInt8) {p : Option (List UInt8)} (hterm : ∀ bytes ∈ p, Terminated bytes)
    (ap : List Arg) :
    conversion collect printfmt loc ch (.str p :: ap) [] .string =
      .ok (ap, stringText loc (p.getD (cstr "(null)".toList))) := by
  have hstring : Terminated (p.getD (cstr "(null)".toList)) := by
    cases p with
    | none => decide
    | some bytes => exact hterm bytes rfl
  simp only [conversion, argStr, bind, Except.bind, printString_eq collect loc hstring,
    feed_collect, List.nil_append]
  rfl

/-- What case `s` prints for a terminated string or `NULL` is the string in its
field. -/
def PrintsField (loc : Locals) (p : Option (List UInt8)) : Prop :=
  ∀ printfmt ch ap, ∃ out,
    conversion collect printfmt loc ch (.str p :: ap) [] .string = .ok (ap, out) ∧
      out.map UInt8.ofInt = stringField loc (p.getD (cstr "(null)".toList))

theorem printsField_of_counts (loc : Locals) (hloc : loc.InRange) (p : Option (List UInt8))
    (hterm : ∀ bytes ∈ p, Terminated bytes)
    (h : loc.Counts (limitedBytes loc (p.getD (cstr "(null)".toList))).length) :
    PrintsField loc p := by
  intro printfmt ch ap
  exact ⟨_, conversion_string printfmt loc ch hterm ap, stringText_field hloc h⟩

theorem printsField_of_counts_null : PrintsField ⟨ascii '0', 9, 4, 0, true⟩ none :=
  printsField_of_counts ⟨ascii '0', 9, 4, 0, true⟩
    ⟨by decide, by decide, by decide, by decide⟩ none (fun _ h => by cases h) (by decide)

theorem stringAt_plain {text : List UInt8} (h : Plain text) : stringAt (text ++ [0]) = text := by
  unfold stringAt
  rw [List.takeWhile_append_of_pos]
  · simp
  · intro byte hbyte
    simpa using (h byte hbyte).2

theorem plain_replicate (count : Nat) : Plain (List.replicate count 97) := by
  intro byte hbyte
  rw [List.eq_of_mem_replicate hbyte]
  decide

theorem length_stringText_long {count : Nat} (hlo : 2 ^ 30 < count) (hhi : count < 2 ^ 31) :
    (stringText ⟨ascii ' ', 1, -1, 0, false⟩ (List.replicate count 97 ++ [0])).length ≠
      (stringField ⟨ascii ' ', 1, -1, 0, false⟩ (List.replicate count 97 ++ [0])).length := by
  have hpad : (0 : Int) < 1 ∧ ascii ' ' ≠ ascii '-' := by decide
  have hnot : ¬(0 : Int) < 1 - count := by omega
  have hwrap : wrapInt (1 - (count : Int)) = 1 - count := wrapInt_of_range (by omega) (by omega)
  have hlength : ((List.replicate count (97 : UInt8)).take (UInt32.ofInt (-1)).toNat).length =
      count := by
    rw [List.length_take, List.length_replicate, show (UInt32.ofInt (-1)).toNat = 2 ^ 32 - 1 from rfl]
    omega
  have htrailing : countDown count (1 - (count : Int)) = 1 - count - count + 2 ^ 32 := by
    have h := countDown_wrapInt count (1 - count)
    rw [hwrap] at h
    rw [h, wrapInt, Int.bmod_def]
    omega
  have hlimit : limit (-1) (List.replicate count 97) = List.replicate count 97 := if_pos (by decide)
  unfold stringText stringField limitedBytes leadWidth restWidth
  rw [stringAt_plain (plain_replicate count)]
  dsimp only
  rw [hlength, hwrap, if_pos hpad, if_pos hpad, if_neg hnot, if_neg hpad.2, hlimit]
  simp only [List.length_append, List.length_replicate, List.length_map, htrailing]
  omega

theorem terminated_some (text : List UInt8) : ∀ p ∈ some (text ++ [0]), Terminated p := by
  intro p hp
  rw [← Option.mem_some.mp hp]
  exact List.mem_append_right _ (List.mem_singleton_self 0)

theorem not_printsField_long {count : Nat} (hlo : 2 ^ 30 < count) (hhi : count < 2 ^ 31) :
    ¬PrintsField ⟨ascii ' ', 1, -1, 0, false⟩ (some (List.replicate count 97 ++ [0])) := by
  intro h
  obtain ⟨out, hout, hbytes⟩ := h (fun _ _ out => .ok out) (ascii 's') []
  rw [conversion_string _ _ _ (terminated_some _)] at hout
  cases hout
  apply length_stringText_long hlo hhi
  have hlength := congrArg List.length hbytes
  rwa [List.length_map] at hlength

/-- A string of 2^30 + 1 letters with the width 1 is followed by 2^31 - 1 spaces. -/
theorem not_printsField : ¬∀ (loc : Locals), (loc.padc = ascii ' ' ∨ loc.padc = ascii '0' ∨
    loc.padc = ascii '-') → -1 ≤ loc.width → loc.InRange → ∀ p : Option (List UInt8),
    (∀ bytes ∈ p, Terminated bytes) → PrintsField loc p := by
  intro h
  apply @not_printsField_long (2 ^ 30 + 1) (by decide) (by decide)
  exact h _ (.inl rfl) (show (-1 : Int) ≤ 1 by decide)
    ⟨show -(2 : Int) ^ 31 ≤ 1 by decide, show (1 : Int) < 2 ^ 31 by decide,
      show -(2 : Int) ^ 31 ≤ -1 by decide, show (-1 : Int) < 2 ^ 31 by decide⟩
    _ (terminated_some _)

/-! ### Literal text and `%s` -/

/-- A text without `%`, as a format and as the argument of `%s`: any `putch` is
passed the same characters. -/
def SameEitherWay (text : List UInt8) : Prop :=
  (∃ calls, vprintfmt collect [] (text ++ [0]) [] = .ok calls) ∧
    ∀ (σ : Type) (putch : Int → σ → σ) (putdat : σ),
      vprintfmt putch putdat (text ++ [0]) [] =
        vprintfmt putch putdat (cstr "%s".toList) [.str (some (text ++ [0]))]

theorem vprintfmt_literal {text : List UInt8} (h : Plain text) :
    vprintfmt collect [] (text ++ [0]) [] = .ok (codes text) := by
  rw [vprintfmt_eq_read, read_plain _ h]
  exact congrArg Except.ok (List.append_nil _)

theorem stringText_start {text : List UInt8} (h : Plain text) :
    stringText .start (text ++ [0]) = text.map charInt ++
      List.replicate (wrapInt (-1 - text.length)).toNat 32 := by
  have hwrap := countDown_wrapInt text.length (-1)
  rw [wrapInt_of_range (by decide) (by decide)] at hwrap
  have hwidth : ¬((0 : Int) < -1 ∧ ascii ' ' ≠ ascii '-') := by decide
  unfold stringText leadWidth restWidth Locals.start
  dsimp only
  rw [if_neg hwidth, if_neg hwidth, stringAt_plain h, List.length_map, limit, if_pos (by decide),
    hwrap]
  rfl

theorem vprintfmtNested_string (depth : Nat) {text : List UInt8} (h : Plain text) :
    vprintfmtNested collect (depth + 1) (cstr "%s".toList) [.str (some (text ++ [0]))] [] =
      .ok (text.map charInt ++ List.replicate (wrapInt (-1 - text.length)).toNat 32) := by
  have hnested := vprintfmtNested_conversion depth (show Plain [] by decide)
    (show label (ascii 's') = .convert .string by decide) [.str (some (text ++ [0]))]
  rw [conversion_string _ _ _ (terminated_some text)] at hnested
  refine hnested.trans ?_
  rw [← stringText_start h]
  rfl

theorem vprintfmt_string {text : List UInt8} (h : Plain text) :
    vprintfmt collect [] (cstr "%s".toList) [.str (some (text ++ [0]))] =
      .ok (text.map charInt ++ List.replicate (wrapInt (-1 - text.length)).toNat 32) :=
  vprintfmtNested_string 1 h

theorem codes_eq_charInt {text : List UInt8} :
    codes text = text.map charInt ↔ ∀ byte ∈ text, byte < 0x80 := by
  unfold codes
  rw [List.map_inj_left]
  apply forall₂_congr
  intro byte _
  rw [eq_comm, charInt_eq_toNat]

/-- The two agree exactly on 7-bit texts that are not too long for the counter
of the width, which goes down from -1 and wraps around. -/
theorem sameEitherWay_iff {text : List UInt8} (h : Plain text) :
    SameEitherWay text ↔ (∀ byte ∈ text, byte < 0x80) ∧ (text.length + 1) % 2 ^ 32 ≤ 2 ^ 31 := by
  have hcount : (wrapInt (-1 - text.length)).toNat = 0 ↔ (text.length + 1) % 2 ^ 32 ≤ 2 ^ 31 := by
    rw [wrapInt, Int.bmod_def]
    omega
  rw [← codes_eq_charInt, ← hcount]
  constructor
  · rintro ⟨-, hsame⟩
    have hout := hsame _ collect []
    rw [vprintfmt_literal h, vprintfmt_string h] at hout
    have hlists := Except.ok.inj hout
    have hlength := congrArg List.length hlists
    simp only [codes, List.length_append, List.length_map, List.length_replicate] at hlength
    have hzero : (wrapInt (-1 - text.length)).toNat = 0 := by omega
    rw [hzero, List.replicate_zero, List.append_nil] at hlists
    exact ⟨hlists, hzero⟩
  · rintro ⟨hbytes, hzero⟩
    refine ⟨⟨_, vprintfmt_literal h⟩, fun σ putch putdat => ?_⟩
    have hout := vprintfmt_string h
    rw [hzero, List.replicate_zero, List.append_nil, ← hbytes] at hout
    rw [vprintfmt_of_collect (vprintfmt_literal h), vprintfmt_of_collect hout]

theorem sameEitherWay_hi : SameEitherWay [104, 105] :=
  (@sameEitherWay_iff [104, 105] (by decide)).mpr
    ⟨List.forall_mem_cons.mpr ⟨by decide, List.forall_mem_singleton.mpr (by decide)⟩, by decide⟩

/-- The single byte 0x80: 128 in the format, -128 from `%s` -/
theorem not_sameEitherWay : ¬∀ text, Plain text → SameEitherWay text := by
  intro h
  have hout := (h [0x80] (by decide)).2 _ collect []
  rw [vprintfmt_literal (by decide), vprintfmt_string (by decide)] at hout
  exact absurd (Except.ok.inj hout) (by decide)

end JosKernel.Lib
