import JosKernel.General.Sink
import JosKernel.Lib.Printfmt

/-! The formatter is uniform in its sink: it reads nothing of what lies behind
`putdat`, so its effect on any sink is that of feeding the characters it would
collect in a list. -/
namespace JosKernel.Lib
open JosKernel.Inc JosKernel.General Sink

theorem bind_map_congr {x : Except ε α} {f : α → Except ε β} {f' : α → Except ε γ} {g : β → γ}
    (h : ∀ a, f' a = (f a).map g) : (x >>= f') = (x >>= f).map g := by
  cases x with
  | error e => rfl
  | ok a => exact h a

theorem map_bind_pair (a : α) (h : β → γ) (x : Except ε β) :
    (x.map h >>= fun value => pure (a, value)) =
      (x >>= fun value => pure (a, value)).map (Prod.map id h) := by
  cases x <;> rfl

section
variable {σ τ : Type} {putch : Int → σ → σ} {putch' : Int → τ → τ} {h : σ → τ}

theorem repeatPut_hom (hom : Hom putch putch' h) (ch : Int) (count : Nat) (putdat : σ) :
    repeatPut putch' ch count (h putdat) = h (repeatPut putch ch count putdat) := by
  induction count generalizing putdat with
  | zero => rfl
  | succ count ih => rw [repeatPut, repeatPut, hom, ih]

theorem printnum_hom (hom : Hom putch putch' h) (num base : Nat) (width padc : Int)
    (putdat : σ) :
    printnum putch' num base width padc (h putdat) =
      h (printnum putch num base width padc putdat) := by
  induction num using Nat.strongRecOn generalizing width with
  | ind num ih =>
    by_cases hbase : base ≤ num ∧ 2 ≤ base
    · have hlt : num / base < num := Nat.div_lt_self (by omega) (by omega)
      rw [printnum_step putch' hbase, printnum_step putch hbase, ih _ hlt, hom]
    · rw [printnum_last putch' hbase, printnum_last putch hbase, repeatPut_hom hom, hom]

theorem putString_hom (hom : Hom putch putch' h) (altflag : Bool) (p : List UInt8)
    (precision width : Int) (putdat : σ) :
    putString putch' altflag p precision width (h putdat) =
      (putString putch altflag p precision width putdat).map (Prod.map id h) := by
  induction p generalizing precision width putdat with
  | nil => rfl
  | cons byte p ih =>
    unfold putString
    split
    · dsimp only
      rw [hom, ih]
    · rfl

theorem printString_hom (hom : Hom putch putch' h) (loc : Locals) (p : List UInt8) (putdat : σ) :
    printString putch' loc p (h putdat) = (printString putch loc p putdat).map h := by
  have trailing (width : Int) (putdat : σ) :
      (do let rest ← putString putch' loc.altflag p loc.precision width (h putdat)
          return repeatPut putch' 32 rest.1.toNat rest.2) =
        Except.map h (do
          let rest ← putString putch loc.altflag p loc.precision width putdat
          return repeatPut putch 32 rest.1.toNat rest.2) := by
    rw [putString_hom hom]
    cases putString putch loc.altflag p loc.precision width putdat with
    | error e => rfl
    | ok result => exact congrArg Except.ok (repeatPut_hom hom _ _ _)
  unfold printString
  split
  · cases strnlen p (UInt32.ofInt loc.precision).toNat with
    | error e => rfl
    | ok n =>
      by_cases hpad : 0 < wrapInt (loc.width - n)
      · simp only [bind, Except.bind, pure, Except.pure, hpad, if_true, repeatPut_hom hom]
        exact trailing 0 _
      · simp only [bind, Except.bind, pure, Except.pure, hpad, if_false]
        exact trailing (wrapInt (loc.width - n)) putdat
  · exact trailing loc.width putdat

variable {printfmt : List UInt8 → List Arg → σ → Except Fault σ}
  {printfmt' : List UInt8 → List Arg → τ → Except Fault τ}
  (nested : ∀ text ap putdat, printfmt' text ap (h putdat) = (printfmt text ap putdat).map h)

include nested in
theorem conversion_hom (hom : Hom putch putch' h) (loc : Locals) (ch : UInt8) (ap : List Arg)
    (putdat : σ) (conv : Conv) :
    conversion putch' printfmt' loc ch ap (h putdat) conv =
      (conversion putch printfmt loc ch ap putdat conv).map (Prod.map id h) := by
  cases conv with
  | char =>
    refine bind_map_congr fun ⟨value, ap⟩ => ?_
    exact congrArg (fun s => Except.ok (ap, s)) (hom value putdat)
  | error =>
    refine bind_map_congr fun ⟨value, ap⟩ => ?_
    dsimp only
    generalize (if value < 0 then wrapInt (-value) else value) = err
    split
    · rw [nested]
      exact map_bind_pair ap h _
    · refine bind_map_congr fun entry => ?_
      cases entry with
      | none =>
        dsimp only
        rw [nested]
        exact map_bind_pair ap h _
      | some p =>
        dsimp only
        rw [nested]
        exact map_bind_pair ap h _
  | string =>
    refine bind_map_congr fun ⟨p, ap⟩ => ?_
    dsimp only
    rw [printString_hom hom]
    exact map_bind_pair ap h _
  | decimal =>
    refine bind_map_congr fun ⟨num, ap⟩ => ?_
    dsimp only
    split
    · rw [hom, printnum_hom hom]
      rfl
    · rw [printnum_hom hom]
      rfl
  | unsigned | octal | hex =>
    refine bind_map_congr fun ⟨num, ap⟩ => ?_
    dsimp only
    rw [printnum_hom hom]
    rfl
  | pointer =>
    refine bind_map_congr fun ⟨num, ap⟩ => ?_
    dsimp only
    rw [hom, hom, printnum_hom hom]
    rfl
  | percent => exact congrArg (fun s => Except.ok (ap, s)) (hom _ putdat)

def State.map (h : σ → τ) (s : State σ) : State τ := ⟨s.fmt, s.ap, h s.putdat, s.point⟩

include nested in
theorem reswitch_hom (hom : Hom putch putch' h) (text : List UInt8) (loc : Locals) (ch : UInt8)
    (s : State σ) :
    reswitch putch' printfmt' text loc ch (s.map h) =
      (reswitch putch printfmt text loc ch s).map (State.map h) := by
  unfold reswitch
  cases label ch with
  | star => exact bind_map_congr fun _ => rfl
  | default =>
    refine bind_map_congr fun fmt => ?_
    simp only [State.map]
    rw [hom]
    rfl
  | convert conv =>
    simp only [State.map, conversion_hom nested hom]
    cases conversion putch printfmt loc ch s.ap s.putdat conv <;> rfl
  | _ => rfl

include nested in
theorem round_hom (hom : Hom putch putch' h) (text : List UInt8) (s : State σ) :
    round putch' printfmt' text (s.map h) =
      (round putch printfmt text s).map (Sum.map (State.map h) h) := by
  refine bind_map_congr fun ch => ?_
  obtain ⟨fmt, ap, putdat, point⟩ := s
  cases point with
  | text =>
    simp only [State.map]
    split
    · split
      · rfl
      · rw [hom]; rfl
    · rfl
  | reswitch loc =>
    have hswitch := reswitch_hom nested hom text loc ch ⟨fmt + 1, ap, putdat, .reswitch loc⟩
    simp only [State.map] at hswitch ⊢
    rw [hswitch]
    cases reswitch putch printfmt text loc ch ⟨fmt + 1, ap, putdat, .reswitch loc⟩ <;> rfl
  | digits loc =>
    simp only [State.map]
    split <;> rfl

theorem vprintfmtNested_hom (hom : Hom putch putch' h) (depth : Nat) (text : List UInt8)
    (ap : List Arg) (putdat : σ) :
    vprintfmtNested putch' depth text ap (h putdat) =
      (vprintfmtNested putch depth text ap putdat).map h := by
  induction depth generalizing text ap putdat with
  | zero => rfl
  | succ depth ih =>
    unfold vprintfmtNested
    exact Loop.run_map (State.map h) h (round_hom ih hom text) _ ⟨0, ap, putdat, .text⟩

end

/-- `vprintfmt` on any sink feeds it the characters collected in a list. -/
theorem vprintfmt_eq_feed (putch : Int → σ → σ) (putdat : σ) (text : List UInt8)
    (ap : List Arg) :
    vprintfmt putch putdat text ap = (vprintfmt collect [] text ap).map (feed putch putdat) :=
  vprintfmtNested_hom (feed_hom putch putdat) 2 text ap []

theorem vprintfmt_of_collect {text : List UInt8} {ap : List Arg} {out : List Int}
    (h : vprintfmt collect [] text ap = .ok out) (putch : Int → σ → σ) (putdat : σ) :
    vprintfmt putch putdat text ap = .ok (feed putch putdat out) := by
  rw [vprintfmt_eq_feed, h]
  rfl

end JosKernel.Lib
