import JosKernel.Lib.Reading

/-! What the conversions print, as lists of characters. -/
namespace JosKernel.Lib
open JosKernel.Inc JosKernel.General Sink

theorem feed_collect (before items : List Int) : feed collect before items = before ++ items := by
  induction items generalizing before with
  | nil => simp
  | cons item items ih => simp [ih, collect]

theorem repeatPut_eq_feed (putch : Int → σ → σ) (ch : Int) (count : Nat) (putdat : σ) :
    repeatPut putch ch count putdat = feed putch putdat (List.replicate count ch) := by
  induction count generalizing putdat with
  | zero => rfl
  | succ count ih => rw [repeatPut, ih, List.replicate_succ, feed_cons]

theorem printnum_collect (num base : Nat) (width padc : Int) (out : List Int) :
    ∃ before, printnum collect num base width padc out =
      before ++ [((digitChar (num % base)).toNat : Int)] := by
  by_cases hbase : base ≤ num ∧ 2 ≤ base
  · exact ⟨_, printnum_step collect hbase width padc out⟩
  · exact ⟨_, printnum_last collect hbase width padc out⟩

theorem printnum_ne_nil (num base : Nat) (width padc : Int) (out : List Int) :
    printnum collect num base width padc out ≠ [] := by
  obtain ⟨before, h⟩ := printnum_collect num base width padc out
  simp [h]

def stringAt (p : List UInt8) : List UInt8 := p.takeWhile (· ≠ 0)

theorem stringAt_cons (byte : UInt8) (p : List UInt8) :
    stringAt (byte :: p) = if byte ≠ 0 then byte :: stringAt p else [] := by
  by_cases h : byte = 0 <;> simp [stringAt, h]

theorem stringAt_ne_zero (p : List UInt8) : ∀ byte ∈ stringAt p, byte ≠ 0 := by
  induction p with
  | nil => simp [stringAt]
  | cons byte p ih =>
    rw [stringAt_cons]
    split
    · next hbyte => exact List.forall_mem_cons.mpr ⟨hbyte, ih⟩
    · simp

theorem stringAt_append {p : List UInt8} (h : Terminated p) :
    ∃ after, p = stringAt p ++ 0 :: after := by
  induction p with
  | nil => cases h
  | cons byte p ih =>
    rw [stringAt_cons]
    by_cases hbyte : byte = 0
    · exact ⟨p, by rw [if_neg (not_not_intro hbyte), hbyte]; rfl⟩
    · obtain ⟨after, hafter⟩ := ih (h.tail hbyte)
      exact ⟨after, by rw [if_pos hbyte, List.cons_append, ← hafter]⟩

/-- The part of a string that a precision lets through; negative means no limit. -/
def limit (precision : Int) (chars : List UInt8) : List UInt8 :=
  if precision < 0 then chars else chars.take precision.toNat

@[simp] theorem limit_nil (precision : Int) : limit precision [] = [] := by
  simp [limit]

theorem limit_cons (precision : Int) (byte : UInt8) (chars : List UInt8) :
    limit precision (byte :: chars) =
      if precision < 0 ∨ 0 ≤ precision - 1 then
        byte :: limit (if precision < 0 then precision else precision - 1) chars
      else [] := by
  unfold limit
  by_cases hneg : precision < 0
  · simp [hneg]
  · by_cases hpos : 0 ≤ precision - 1
    · obtain ⟨n, hn⟩ : ∃ n : Nat, precision = n + 1 := ⟨(precision - 1).toNat, by omega⟩
      have hn1 : (precision - 1).toNat = n := by omega
      have hn2 : precision.toNat = n + 1 := by omega
      have hnn : ¬precision - 1 < 0 := by omega
      rw [if_neg hneg, if_pos (Or.inr hpos), if_neg hneg, if_neg hnn, hn1, hn2, List.take_succ_cons]
    · have hzero : precision.toNat = 0 := by omega
      rw [if_neg hneg, if_neg (not_or.mpr ⟨hneg, hpos⟩), hzero, List.take_zero]

theorem limit_eq_nil {precision : Int} {chars : List UInt8} :
    limit precision chars = [] ↔ precision = 0 ∨ chars = [] := by
  unfold limit
  split
  · constructor
    · exact Or.inr
    · rintro (h | h)
      · omega
      · exact h
  · rw [List.take_eq_nil_iff]
    have : precision.toNat = 0 ↔ precision = 0 := by omega
    rw [this]

def shown (altflag : Bool) (byte : UInt8) : Int :=
  if altflag ∧ (charInt byte < 32 ∨ 126 < charInt byte) then 63 else charInt byte

def countDown : Nat → Int → Int
  | 0, width => width
  | count + 1, width => countDown count (wrapInt (width - 1))

theorem putString_eq (putch : Int → σ → σ) (altflag : Bool) {p : List UInt8} (hterm : Terminated p)
    (precision width : Int) (putdat : σ) :
    putString putch altflag p precision width putdat =
      .ok (countDown (limit precision (stringAt p)).length width,
        feed putch putdat ((limit precision (stringAt p)).map (shown altflag))) := by
  induction p generalizing precision width putdat with
  | nil => cases hterm
  | cons byte p ih =>
    rw [putString, stringAt_cons]
    by_cases hbyte : byte = 0
    · simp [hbyte, countDown]
    · have hrest := hterm.tail hbyte
      rw [if_pos hbyte, limit_cons]
      by_cases hprec : precision < 0 ∨ 0 ≤ precision - 1
      · rw [if_pos ⟨hbyte, hprec⟩, if_pos hprec]
        dsimp only
        rw [ih hrest, List.length_cons, countDown, List.map_cons, feed_cons]
        rfl
      · rw [if_neg (fun h => hprec h.2), if_neg hprec]
        rfl

theorem strnlen_eq {s : List UInt8} (hterm : Terminated s) (size : Nat) :
    strnlen s size = .ok ((stringAt s).take size).length := by
  induction s generalizing size with
  | nil => cases hterm
  | cons byte s ih =>
    rw [strnlen, stringAt_cons]
    by_cases hsize : 0 < size
    · by_cases hbyte : byte = 0
      · simp [hbyte]
      · have hrest := hterm.tail hbyte
        obtain ⟨n, rfl⟩ : ∃ n, size = n + 1 := ⟨size - 1, by omega⟩
        rw [if_pos hsize, if_pos hbyte, if_pos hbyte, Nat.add_sub_cancel, ih hrest]
        simp [bind, Except.bind, pure, Except.pure]
    · obtain rfl : size = 0 := by omega
      simp

structure Locals.InRange (loc : Locals) : Prop where
  width_lo : -2 ^ 31 ≤ loc.width
  width_hi : loc.width < 2 ^ 31
  precision_lo : -2 ^ 31 ≤ loc.precision
  precision_hi : loc.precision < 2 ^ 31

def leadWidth (loc : Locals) (length : Nat) : Int :=
  if 0 < loc.width ∧ loc.padc ≠ ascii '-' then wrapInt (loc.width - length) else 0

def restWidth (loc : Locals) (length : Nat) : Int :=
  if 0 < loc.width ∧ loc.padc ≠ ascii '-' then
    if 0 < wrapInt (loc.width - length) then 0 else wrapInt (loc.width - length)
  else loc.width

def stringText (loc : Locals) (p : List UInt8) : List Int :=
  let length := ((stringAt p).take (UInt32.ofInt loc.precision).toNat).length
  let chars := (limit loc.precision (stringAt p)).map (shown loc.altflag)
  List.replicate (leadWidth loc length).toNat (loc.padc.toNat : Int) ++ chars ++
    List.replicate (countDown chars.length (restWidth loc length)).toNat 32

theorem printString_eq (putch : Int → σ → σ) (loc : Locals) {p : List UInt8}
    (hterm : Terminated p) (putdat : σ) :
    printString putch loc p putdat = .ok (feed putch putdat (stringText loc p)) := by
  have trailing (width : Int) (putdat : σ) :
      (do let rest ← putString putch loc.altflag p loc.precision width putdat
          return repeatPut putch 32 rest.1.toNat rest.2) =
        Except.ok (ε := Fault) (feed putch (feed putch putdat
          ((limit loc.precision (stringAt p)).map (shown loc.altflag)))
          (List.replicate (countDown (limit loc.precision (stringAt p)).length width).toNat 32)) := by
    rw [putString_eq putch loc.altflag hterm, ← repeatPut_eq_feed]
    rfl
  unfold printString stringText leadWidth restWidth
  dsimp only
  rw [feed_append, feed_append, List.length_map]
  by_cases hlead : 0 < loc.width ∧ loc.padc ≠ ascii '-'
  · rw [if_pos hlead, if_pos hlead, if_pos hlead, strnlen_eq hterm]
    generalize ((stringAt p).take (UInt32.ofInt loc.precision).toNat).length = length
    by_cases hpad : 0 < wrapInt (loc.width - length)
    · simpa only [bind, Except.bind, pure, Except.pure, hpad, if_true, repeatPut_eq_feed]
        using trailing 0 (feed putch putdat
          (List.replicate (wrapInt (loc.width - length)).toNat (loc.padc.toNat : Int)))
    · have hzero : (wrapInt (loc.width - length)).toNat = 0 := by omega
      simpa only [bind, Except.bind, pure, Except.pure, hpad, if_false, hzero, repeatPut_eq_feed,
        List.replicate_zero, feed_nil] using trailing (wrapInt (loc.width - length)) putdat
  · rw [if_neg hlead, if_neg hlead, if_neg hlead]
    exact trailing loc.width putdat

theorem stringText_eq_nil {loc : Locals} (hloc : loc.InRange) {p : List UInt8} :
    stringText loc p = [] ↔ loc.width ≤ 0 ∧ (loc.precision = 0 ∨ stringAt p = []) := by
  unfold stringText
  dsimp only
  rw [List.append_eq_nil_iff, List.append_eq_nil_iff, List.map_eq_nil_iff, limit_eq_nil,
    List.replicate_eq_nil_iff, List.replicate_eq_nil_iff]
  by_cases hempty : loc.precision = 0 ∨ stringAt p = []
  · have hlimit : limit loc.precision (stringAt p) = [] := limit_eq_nil.mpr hempty
    have hlength : ((stringAt p).take (UInt32.ofInt loc.precision).toNat).length = 0 := by
      rcases hempty with h | h
      · rw [h]
        rfl
      · rw [h, List.take_nil, List.length_nil]
    have hwrap : wrapInt (loc.width - (0 : Nat)) = loc.width := by
      rw [Int.natCast_zero, Int.sub_zero]
      exact wrapInt_of_range hloc.width_lo hloc.width_hi
    simp only [hlimit, List.map_nil, List.length_nil, countDown, hlength, leadWidth, restWidth, hwrap]
    split <;> grind
  · simp [hempty]

end JosKernel.Lib
