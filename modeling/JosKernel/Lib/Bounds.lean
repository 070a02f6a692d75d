import JosKernel.Lib.Matching
import JosKernel.Lib.Composition

/-! Where `vprintfmt` reads its format, and that it ends. Going back from an
unrecognised directive stops at the `%` that began it, so no read is in front
of the format, and nothing goes on behind its NUL. -/
namespace JosKernel.Lib
open JosKernel.Inc JosKernel.General Sink

/-- The indices at which `rewind` reads; the last one is that of the `%`. -/
def rewindReads (text : List UInt8) : Nat → List Int
  | 0 => [-1]
  | fmt + 1 => fmt :: if text[fmt]? = some (ascii '%') then [] else rewindReads text fmt

/-- The indices at which a round reads the format. -/
def reads (text : List UInt8) (s : State σ) : List Int :=
  s.fmt :: match s.point with
    | .reswitch _ =>
      if text[s.fmt]?.map label = some .default then rewindReads text s.fmt else []
    | _ => []

theorem rewindReads_within {text : List UInt8} {before fmt : Nat}
    (hpercent : text[before]? = some (ascii '%')) (hlt : before < fmt) {i : Int}
    (h : i ∈ rewindReads text fmt) : before ≤ i ∧ i < fmt := by
  induction fmt with
  | zero => omega
  | succ fmt ih =>
    rw [rewindReads, List.mem_cons] at h
    rcases h with rfl | h
    · omega
    · by_cases hfound : text[fmt]? = some (ascii '%')
      · rw [if_pos hfound] at h
        cases h
      · have hne : before ≠ fmt := by
          rintro rfl
          exact hfound hpercent
        rw [if_neg hfound] at h
        have hrest := ih (by omega) h
        omega

theorem rewind_le {text : List UInt8} {fmt back : Nat} (h : rewind text fmt = .ok back) :
    back ≤ fmt := by
  induction fmt with
  | zero => cases h
  | succ fmt ih =>
    rw [rewind] at h
    obtain ⟨ch, -, h⟩ := exists_of_bind_eq_ok h
    split at h
    · exact Nat.le_succ_of_le (ih h)
    · cases h
      exact Nat.le_refl _

theorem load_congr {text text' : List UInt8} {i : Nat} (h : text'[i]? = text[i]?) :
    load text' i = load text i := by
  rw [load, load, h]

theorem rewind_congr {text text' : List UInt8} {fmt : Nat}
    (h : ∀ i : Nat, (i : Int) ∈ rewindReads text fmt → text'[i]? = text[i]?) :
    rewind text' fmt = rewind text fmt := by
  induction fmt with
  | zero => rfl
  | succ fmt ih =>
    have hcell : text'[fmt]? = text[fmt]? := h fmt (List.mem_cons_self ..)
    rw [rewind, rewind, load_congr hcell]
    by_cases hfound : text[fmt]? = some (ascii '%')
    · rw [load_eq hfound]
      rfl
    · rw [ih]
      intro i hi
      apply h
      rw [rewindReads, if_neg hfound]
      exact List.mem_cons_of_mem _ hi

section
variable {σ : Type} {putch : Int → σ → σ} {printfmt : List UInt8 → List Arg → σ → Except Fault σ}

theorem round_congr {text text' : List UInt8} {s : State σ}
    (h : ∀ i : Nat, (i : Int) ∈ reads text s → text'[i]? = text[i]?) :
    round putch printfmt text' s = round putch printfmt text s := by
  have hcell : text'[s.fmt]? = text[s.fmt]? := h s.fmt (List.mem_cons_self ..)
  unfold round
  rw [load_congr hcell]
  cases hpoint : s.point with
  | text => rfl
  | digits loc => rfl
  | reswitch loc =>
    cases hget : text[s.fmt]? with
    | none => rw [load, hget]; rfl
    | some ch =>
      rw [load_eq hget]
      simp only [bind, Except.bind, reswitch]
      cases hlabel : label ch with
      | default =>
        have hrewind : rewind text' (s.fmt + 1 - 1) = rewind text (s.fmt + 1 - 1) := by
          apply rewind_congr
          intro i hi
          apply h
          simp only [reads, hpoint, hget, Option.map_some, hlabel, if_true]
          exact List.mem_cons_of_mem _ hi
        dsimp only
        rw [hrewind]
      | _ => rfl

theorem reswitch_cases {text : List UInt8} {loc : Locals} {ch : UInt8} {s next : State σ}
    (h : reswitch putch printfmt text loc ch s = .ok next) :
    label ch ≠ .default ∧ next.fmt = s.fmt ∨
      label ch = .default ∧ next.point = .text ∧ rewind text (s.fmt - 1) = .ok next.fmt := by
  unfold reswitch at h
  cases hlabel : label ch with
  | minus | zero | digit | dot | sharp | long =>
    rw [hlabel] at h
    cases h
    exact .inl ⟨by simp, rfl⟩
  | star =>
    rw [hlabel] at h
    obtain ⟨arg, -, h⟩ := exists_of_bind_eq_ok h
    cases h
    exact .inl ⟨by simp, rfl⟩
  | convert conv =>
    rw [hlabel] at h
    obtain ⟨result, -, h⟩ := exists_of_bind_eq_ok h
    cases h
    exact .inl ⟨by simp, rfl⟩
  | default =>
    rw [hlabel] at h
    obtain ⟨back, hrewind, h⟩ := exists_of_bind_eq_ok h
    cases h
    exact .inr ⟨rfl, rfl, hrewind⟩

structure Within (format text : List UInt8) (s : State σ) : Prop where
  fmt_le : s.fmt ≤ format.length
  percent : s.point = .text ∨ ∃ before < s.fmt, text[before]? = some (ascii '%')

theorem Within.cell {format after : List UInt8} {s : State σ}
    (h : Within format (format ++ 0 :: after) s) :
    ∃ ch, (format ++ 0 :: after)[s.fmt]? = some ch ∧ (ch ≠ 0 → s.fmt + 1 ≤ format.length) := by
  rcases Nat.lt_or_eq_of_le h.fmt_le with hlt | heq
  · have hcell : (format ++ 0 :: after)[s.fmt]? = some format[s.fmt] := by
      rw [List.getElem?_append_left hlt, List.getElem?_eq_getElem hlt]
    exact ⟨_, hcell, fun _ => hlt⟩
  · have hcell : (format ++ 0 :: after)[s.fmt]? = some 0 := by
      rw [heq, List.getElem?_append_right (Nat.le_refl _), Nat.sub_self]
      rfl
    exact ⟨0, hcell, fun hne => absurd rfl hne⟩

theorem Within.reswitch {format text : List UInt8} {loc : Locals} {ch : UInt8} {s next : State σ}
    (h : Within format text s) (hpoint : s.point ≠ .text)
    (hstop : ch ≠ 0 → s.fmt + 1 ≤ format.length)
    (hswitch : reswitch putch printfmt text loc ch { s with fmt := s.fmt + 1 } = .ok next) :
    Within format text next := by
  obtain ⟨before, hlt, hbefore⟩ := h.percent.resolve_left hpoint
  rcases reswitch_cases hswitch with ⟨hlabel, hfmt⟩ | ⟨-, htext, hrewind⟩
  · have h0 : ch ≠ 0 := by
      rintro rfl
      exact hlabel (by decide)
    constructor
    · rw [hfmt]
      exact hstop h0
    · refine .inr ⟨before, ?_, hbefore⟩
      rw [hfmt]
      exact Nat.lt_succ_of_lt hlt
  · constructor
    · exact Nat.le_trans (rewind_le hrewind) h.fmt_le
    · exact .inl htext

/-- The step lemma: no round leaves the format. -/
theorem Within.round {format after : List UInt8} {s next : State σ}
    (h : Within format (format ++ 0 :: after) s)
    (hround : round putch printfmt (format ++ 0 :: after) s = .ok (.inl next)) :
    Within format (format ++ 0 :: after) next := by
  obtain ⟨ch, hget, hstop⟩ := h.cell
  unfold Lib.round at hround
  simp only [load_eq hget, bind, Except.bind, pure, Except.pure] at hround
  cases hpoint : s.point with
  | text =>
    simp only [hpoint] at hround
    by_cases hp : ch = ascii '%'
    · subst hp
      cases hround
      exact ⟨hstop (by decide), .inr ⟨s.fmt, Nat.lt_succ_self _, hget⟩⟩
    · by_cases h0 : ch = 0
      · rw [if_pos hp, if_pos h0] at hround
        cases hround
      · simp only [hp, h0, ne_eq, not_false_eq_true, if_true, if_false] at hround
        cases hround
        exact ⟨hstop h0, .inl rfl⟩
  | digits loc =>
    obtain ⟨before, hlt, hbefore⟩ := h.percent.resolve_left (by simp [hpoint])
    simp only [hpoint] at hround
    by_cases hdigit : isDigit ch = true
    · simp only [hdigit, if_true] at hround
      cases hround
      exact ⟨hstop (isDigit_plain hdigit).2, .inr ⟨before, Nat.lt_succ_of_lt hlt, hbefore⟩⟩
    · simp only [hdigit] at hround
      cases hround
      exact ⟨h.fmt_le, .inr ⟨before, hlt, hbefore⟩⟩
  | reswitch loc =>
    simp only [hpoint] at hround
    obtain ⟨next', hswitch, hround⟩ := exists_of_bind_eq_ok hround
    cases hround
    rw [← hpoint] at hswitch
    exact h.reswitch (by simp [hpoint]) hstop hswitch

theorem Within.reads {format after : List UInt8} {s : State σ}
    (h : Within format (format ++ 0 :: after) s) :
    ∀ i ∈ reads (format ++ 0 :: after) s, 0 ≤ i ∧ i ≤ format.length := by
  have hle := h.fmt_le
  intro i hi
  rcases List.mem_cons.mp hi with rfl | hi
  · omega
  · cases hpoint : s.point with
    | text | digits loc =>
      rw [hpoint] at hi
      cases hi
    | reswitch loc =>
      obtain ⟨before, hlt, hbefore⟩ := h.percent.resolve_left (by simp [hpoint])
      simp only [hpoint] at hi
      split at hi
      · have hback := rewindReads_within hbefore hlt hi
        omega
      · cases hi

end

/-! ### Nothing runs on -/

def Finishes (result : Except Fault α) : Prop := result ≠ .error .unfinished

theorem Finishes.ok (value : α) : Finishes (.ok value) := by
  simp [Finishes]

theorem Finishes.bind {result : Except Fault α} {next : α → Except Fault β} (h : Finishes result)
    (hnext : ∀ value, Finishes (next value)) : Finishes (result >>= next) := by
  cases result with
  | error fault => simpa [Finishes, Bind.bind, Except.bind] using h
  | ok value => exact hnext value

theorem Finishes.map {result : Except Fault α} (h : Finishes result) (f : α → β) :
    Finishes (result.map f) := by
  cases result with
  | error fault => simpa [Finishes, Except.map] using h
  | ok value => exact .ok _

theorem argInt_finishes (ap : List Arg) : Finishes (argInt ap) := by
  unfold argInt
  split <;> simp [Finishes]

theorem getint_finishes (ap : List Arg) (lflag : Nat) : Finishes (getint ap lflag) := by
  unfold getint
  split
  · split <;> simp [Finishes]
  · split <;> simp [Finishes]

theorem getuint_finishes (ap : List Arg) (lflag : Nat) : Finishes (getuint ap lflag) := by
  unfold getuint
  split
  · split <;> simp [Finishes]
  · split <;> simp [Finishes]

theorem strnlen_finishes (s : List UInt8) (size : Nat) : Finishes (strnlen s size) := by
  induction s generalizing size with
  | nil =>
    unfold strnlen
    split <;> simp [Finishes]
  | cons byte s ih =>
    unfold strnlen
    split
    · split
      · exact (ih _).bind fun _ => .ok _
      · exact .ok _
    · exact .ok _

theorem putString_finishes (putch : Int → σ → σ) (altflag : Bool) (p : List UInt8)
    (precision width : Int) (putdat : σ) :
    Finishes (putString putch altflag p precision width putdat) := by
  induction p generalizing precision width putdat with
  | nil => simp [putString, Finishes]
  | cons byte p ih =>
    unfold putString
    split
    · exact ih _ _ _
    · exact .ok _

theorem printString_finishes (putch : Int → σ → σ) (loc : Locals) (p : List UInt8) (putdat : σ) :
    Finishes (printString putch loc p putdat) := by
  have hrest (lead : Int × σ) : Finishes (do
      let rest ← putString putch loc.altflag p loc.precision lead.1 lead.2
      return repeatPut putch 32 rest.1.toNat rest.2) :=
    (putString_finishes putch loc.altflag p loc.precision lead.1 lead.2).bind fun _ => .ok _
  unfold printString
  split
  · exact (strnlen_finishes p _).bind fun _ => hrest _
  · exact hrest (loc.width, putdat)

theorem conversion_finishes (depth : Nat) (loc : Locals) (ch : UInt8) (ap : List Arg)
    (conv : Conv) :
    Finishes (conversion collect (vprintfmtNested collect (depth + 1)) loc ch ap [] conv) := by
  cases conv with
  | char => exact (argInt_finishes ap).bind fun _ => .ok _
  | error =>
    refine (argInt_finishes ap).bind fun ⟨value, ap⟩ => ?_
    dsimp only
    generalize (if value < 0 then wrapInt (-value) else value) = err
    obtain ⟨out, -, hout⟩ := printfmt_error depth (UInt32.ofInt err)
    by_cases hmax : maxError ≤ err
    · rw [if_pos hmax, hout]
      exact .ok _
    · rw [if_neg hmax]
      rcases loadErrorString_cases err with hload | hload | ⟨p, hload, hterm, hp⟩
      · rw [hload]
        simp [Finishes, bind, Except.bind]
      · rw [hload]
        dsimp only [bind, Except.bind]
        rw [hout]
        exact .ok _
      · obtain ⟨text, -, htext⟩ := printfmt_string depth hterm hp
        rw [hload]
        dsimp only [bind, Except.bind]
        rw [htext]
        exact .ok _
  | string =>
    have hstr : Finishes (argStr ap) := by
      unfold argStr
      split <;> simp [Finishes]
    exact hstr.bind fun _ => (printString_finishes collect loc _ []).bind fun _ => .ok _
  | decimal =>
    refine (getint_finishes ap loc.lflag).bind fun ⟨num, ap⟩ => ?_
    dsimp only
    split <;> exact .ok _
  | unsigned | octal | hex => exact (getuint_finishes ap loc.lflag).bind fun _ => .ok _
  | pointer =>
    have hptr : Finishes (argPtr ap) := by
      unfold argPtr
      split <;> simp [Finishes]
    exact hptr.bind fun _ => .ok _
  | percent => exact .ok _

theorem directive_finishes (depth : Nat) (loc : Locals) (seen : List UInt8) (ch : UInt8)
    (ap : List Arg) {next : Mode → List Arg → Except Fault (List Int)}
    (h : ∀ mode ap, Finishes (next mode ap)) :
    Finishes (directive (vprintfmtNested collect (depth + 1)) loc seen ch ap next) := by
  unfold directive onSwitch
  cases label ch with
  | minus | zero | digit | dot | sharp | long => exact h _ _
  | star =>
    have harg := argInt_finishes ap
    dsimp only
    split
    · exact h _ _
    · next fault heq =>
      rw [heq] at harg
      simpa [Finishes] using harg
  | convert conv =>
    exact (conversion_finishes depth loc ch ap conv).bind fun result => (h .text result.1).map _
  | default =>
    dsimp only
    split
    · exact .ok _
    · exact (h .text ap).map _

theorem read_finishes (depth : Nat) (rest : List UInt8) (mode : Mode) (ap : List Arg) :
    Finishes (read (vprintfmtNested collect (depth + 1)) rest mode ap) := by
  induction rest generalizing mode ap with
  | nil => simp [read, Finishes]
  | cons ch rest ih =>
    cases mode with
    | text =>
      rw [read]
      split
      · split
        · exact .ok _
        · exact (ih .text ap).map _
      · exact ih _ ap
    | reswitch loc seen => exact directive_finishes depth loc seen ch ap ih
    | digits loc seen =>
      rw [read]
      split
      · exact ih _ ap
      · exact directive_finishes depth _ seen ch ap ih

theorem vprintfmt_finishes (putch : Int → σ → σ) (putdat : σ) (text : List UInt8)
    (ap : List Arg) : Finishes (vprintfmt putch putdat text ap) := by
  rw [vprintfmt_eq_feed, vprintfmt_eq_read]
  exact (read_finishes 0 text .text ap).map _

/-- `vprintfmt` ends on every format and returns on matching arguments. In every
state that it comes to, its round depends on the format only at indices from 0
to that of the NUL. -/
theorem vprintfmt_within {format after : List UInt8} {ap : List Arg}
    (hmatching : Matching (format ++ 0 :: after) ap) {σ : Type} (putch : Int → σ → σ) (putdat : σ) :
    (∃ sink, vprintfmt putch putdat (format ++ 0 :: after) ap = .ok sink) ∧
      (∀ args, vprintfmt putch putdat (format ++ 0 :: after) args ≠ .error .unfinished) ∧
      ∀ args s, Loop.Reaches (round putch (vprintfmtNested putch 1) (format ++ 0 :: after))
          ⟨0, args, putdat, .text⟩ s →
        (∀ i ∈ reads (format ++ 0 :: after) s, 0 ≤ i ∧ i ≤ format.length) ∧
          ∀ text', (∀ i : Nat, (i : Int) ∈ reads (format ++ 0 :: after) s →
              text'[i]? = (format ++ 0 :: after)[i]?) →
            round putch (vprintfmtNested putch 1) text' s =
              round putch (vprintfmtNested putch 1) (format ++ 0 :: after) s := by
  refine ⟨?_, vprintfmt_finishes putch putdat _, fun args s hreaches => ⟨?_, ?_⟩⟩
  · obtain ⟨out, hout, -⟩ := vprintfmt_matching hmatching
    exact ⟨_, vprintfmt_of_collect hout putch putdat⟩
  · apply Within.reads
    apply hreaches.invariant ⟨Nat.zero_le _, .inl rfl⟩
    exact fun state next hstate hround => hstate.round hround
  · intro text' hagree
    exact round_congr hagree

theorem vprintfmt_within_truncated :
    (∃ out, vprintfmt collect [] (cstr "%-08.3l".toList) [] = .ok out) ∧
      (∀ args, vprintfmt collect [] (cstr "%-08.3l".toList) args ≠ .error .unfinished) ∧
      ∀ args s, Loop.Reaches (round collect (vprintfmtNested collect 1) (cstr "%-08.3l".toList))
          ⟨0, args, [], .text⟩ s →
        (∀ i ∈ reads (cstr "%-08.3l".toList) s, 0 ≤ i ∧ i ≤ 7) ∧
          ∀ text', (∀ i : Nat, (i : Int) ∈ reads (cstr "%-08.3l".toList) s →
              text'[i]? = (cstr "%-08.3l".toList)[i]?) →
            round collect (vprintfmtNested collect 1) text' s =
              round collect (vprintfmtNested collect 1) (cstr "%-08.3l".toList) s :=
  @vprintfmt_within ("%-08.3l".toList.map Char.toUInt8) [] [] (by decide) _ collect []

end JosKernel.Lib
