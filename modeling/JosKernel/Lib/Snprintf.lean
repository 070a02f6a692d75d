import JosKernel.Lib.Matching

/-! `vsnprintf` of `lib/printfmt.c`. The buffer is an object of its own, so that
a store outside it is a fault; it overlaps neither the format nor a string
argument. -/
namespace JosKernel.Lib
open JosKernel.Inc JosKernel.General Sink

/-- `struct sprintbuf`, with its pointers as offsets into the object that the
caller's buffer points to. -/
structure SprintBuf where
  object : List UInt8
  buf : Nat
  ebuf : Int
  cnt : Int

def sprintputch (ch : Int) (b : SprintBuf) : Except Fault SprintBuf := do
  let b := { b with cnt := wrapInt (b.cnt + 1) }
  if (b.buf : Int) < b.ebuf then
    let object ← store b.object b.buf (UInt8.ofInt ch)
    return { b with object, buf := b.buf + 1 }
  else return b

/-- The result and the buffer afterwards; the buffer `none` is `NULL`. -/
def vsnprintf (buf : Option (List UInt8)) (n : Int) (text : List UInt8) (ap : List Arg) :
    Except Fault (Int × Option (List UInt8)) :=
  match buf with
  | none => return (-eInval, none)
  | some object =>
    if n < 1 then return (-eInval, some object)
    else do
      let start : Except Fault SprintBuf := .ok ⟨object, 0, n - 1, 0⟩
      let b ← ← vprintfmt (fun ch b => b >>= sprintputch ch) start text ap
      let object ← store b.object b.buf 0
      return (b.cnt, some object)

def overwrite (object chars : List UInt8) : List UInt8 := chars ++ object.drop chars.length

theorem overwrite_set {object chars : List UInt8} (h : chars.length < object.length) (byte : UInt8) :
    (overwrite object chars).set chars.length byte = overwrite object (chars ++ [byte]) := by
  unfold overwrite
  rw [List.set_append_right _ _ (Nat.le_refl _), Nat.sub_self, List.drop_eq_getElem_cons h,
    List.set_cons_zero, List.length_append, List.append_assoc]
  rfl

theorem length_overwrite {object chars : List UInt8} (h : chars.length ≤ object.length) :
    (overwrite object chars).length = object.length := by
  unfold overwrite
  rw [List.length_append, List.length_drop]
  omega

/-- The state behind `sprintputch` when `ebuf` is at offset `last` and the sink
of that capacity has seen the same characters. -/
def sprintState (object : List UInt8) (last : Nat) (sink : Bounded Int) : SprintBuf :=
  ⟨overwrite object (sink.kept.map UInt8.ofInt), sink.kept.length, last, wrapInt sink.count⟩

theorem sprintputch_eq {object : List UInt8} {last : Nat} (hlast : last < object.length)
    (sink : Bounded Int) (ch : Int) :
    sprintputch ch (sprintState object last sink) =
      .ok (sprintState object last (sink.put last ch)) := by
  have hcnt : wrapInt (wrapInt sink.count + 1) = wrapInt (sink.count + 1 : Nat) := by
    unfold wrapInt
    rw [Int.bmod_add_bmod]
    rfl
  unfold sprintputch sprintState Bounded.put
  by_cases hroom : sink.kept.length < last
  · have hlength : (sink.kept.map UInt8.ofInt).length < object.length := by
      rw [List.length_map]
      omega
    have hstore : store (overwrite object (sink.kept.map UInt8.ofInt)) sink.kept.length
        (UInt8.ofInt ch) = .ok (overwrite object ((sink.kept ++ [ch]).map UInt8.ofInt)) := by
      have hset := overwrite_set hlength (UInt8.ofInt ch)
      rw [List.length_map] at hset hlength
      rw [store, if_pos, hset, List.map_append]
      · rfl
      · rw [length_overwrite (by rw [List.length_map]; omega)]
        exact hlength
    have hlt : (sink.kept.length : Int) < last := by omega
    simp only [hlt, hroom, if_true, hstore, hcnt, bind, Except.bind, pure, Except.pure,
      List.length_append, List.length_singleton]
  · have hlt : ¬(sink.kept.length : Int) < last := by omega
    simp only [hlt, hroom, if_false, hcnt, pure, Except.pure]

theorem feed_sprintputch {object : List UInt8} {last : Nat} (hlast : last < object.length)
    (out : List Int) :
    feed (fun ch b => b >>= sprintputch ch) (.ok ⟨object, 0, last, 0⟩) out =
      .ok (sprintState object last ⟨out.take last, out.length⟩) := by
  have hstart : sprintState object last Bounded.empty = ⟨object, 0, last, 0⟩ := by
    have hzero : wrapInt 0 = 0 := wrapInt_of_range (by omega) (by omega)
    simp [sprintState, Bounded.empty, overwrite, hzero]
  have hfeed : feed (fun ch b => b >>= sprintputch ch)
      (.ok (sprintState object last Bounded.empty)) out =
      .ok (sprintState object last (feed (Bounded.put last) Bounded.empty out)) := by
    refine feed_simulates (fun sink b => b = Except.ok (sprintState object last sink)) ?_ out
      Bounded.empty _ rfl
    rintro ch sink _ rfl
    exact sprintputch_eq hlast sink ch
  rw [← hstart, hfeed, Bounded.feed_empty]

def kept (out : List Int) (n : Int) : List UInt8 := (out.take (n - 1).toNat).map UInt8.ofInt

theorem vsnprintf_eq {text : List UInt8} {ap : List Arg} {out : List Int}
    (hout : vprintfmt collect [] text ap = .ok out) (hlength : out.length < 2 ^ 31)
    (object : List UInt8) {n : Int} (hn : 1 ≤ n) (hfit : n ≤ object.length) :
    vsnprintf (some object) n text ap =
      .ok (out.length, some (overwrite object (kept out n ++ [0]))) := by
  obtain ⟨last, hlast⟩ : ∃ last : Nat, n - 1 = last := ⟨(n - 1).toNat, by omega⟩
  have hroom : last < object.length := by omega
  have hkept : (kept out n).length ≤ last := by
    unfold kept
    rw [List.length_map, List.length_take, hlast]
    omega
  have hstate : sprintState object last ⟨out.take last, out.length⟩ =
      ⟨overwrite object (kept out n), (kept out n).length, last, out.length⟩ := by
    unfold sprintState kept
    dsimp only
    rw [hlast, wrapInt_of_range (by omega) (by omega), List.length_map]
    rfl
  have hstore : store (overwrite object (kept out n)) (kept out n).length 0 =
      .ok (overwrite object (kept out n ++ [0])) := by
    rw [store, if_pos, overwrite_set (by omega)]
    rw [length_overwrite (by omega)]
    omega
  unfold vsnprintf
  dsimp only
  rw [if_neg (by omega), vprintfmt_of_collect hout, hlast, feed_sprintputch hroom, hstate]
  simp only [bind, Except.bind, hstore]
  rfl

theorem kept_grows (out : List Int) {n m : Int} (h : n ≤ m) : kept out n <+: kept out m := by
  unfold kept
  exact (List.take_prefix_take_left (by omega)).map _

/-- `vsnprintf` writes the characters that fit and one NUL, nothing else, and
returns how many there were, whatever the size of the buffer. -/
theorem vsnprintf_bounded_output :
    (∀ text ap, Matching text ap → ∃ out, vprintfmt collect [] text ap = .ok out) ∧
    (∀ text ap out, vprintfmt collect [] text ap = .ok out → out.length < 2 ^ 31 →
      (∀ (object : List UInt8) (n : Int), 1 ≤ n → n ≤ object.length →
        vsnprintf (some object) n text ap =
          .ok (out.length, some (kept out n ++ 0 :: object.drop ((kept out n).length + 1)))) ∧
      ∀ n m : Int, n ≤ m → kept out n <+: kept out m) ∧
    ∀ text ap buf n, buf = none ∨ n < 1 → vsnprintf buf n text ap = .ok (-eInval, buf) := by
  refine ⟨fun text ap h => ?_, fun text ap out hout hlength => ⟨fun object n hn hfit => ?_, ?_⟩,
    fun text ap buf n h => ?_⟩
  · obtain ⟨out, hout, -⟩ := vprintfmt_matching h
    exact ⟨out, hout⟩
  · rw [vsnprintf_eq hout hlength object hn hfit]
    simp [overwrite]
  · exact fun n m h => kept_grows out h
  · unfold vsnprintf
    cases buf with
    | none => rfl
    | some object =>
      rcases h with h | h
      · cases h
      · dsimp only
        rw [if_pos h]
        rfl

theorem vsnprintf_bounded_output_four :
    vsnprintf (some [1, 2, 3, 4, 5, 6]) 4 (cstr "%s-%c".toList) [.str (some [104, 105, 0]), .int 33] =
      .ok (4, some [104, 105, 45, 0, 5, 6]) :=
  (vsnprintf_bounded_output.2.1 (cstr "%s-%c".toList) [.str (some [104, 105, 0]), .int 33]
    [104, 105, 45, 33] rfl (by decide)).1 [1, 2, 3, 4, 5, 6] 4 (by decide) (by decide)

end JosKernel.Lib
