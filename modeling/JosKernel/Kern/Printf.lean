import JosKernel.Lib.Snprintf

/-! `kern/printf.c`: the formatter on the kernel console. -/
namespace JosKernel.Kern
open JosKernel.Inc JosKernel.Lib JosKernel.General Sink

structure Counted (σ : Type) where
  cnt : Int
  console : σ

section
variable {σ : Type} (cputchar : Int → σ → σ)

def putch (ch : Int) (s : Counted σ) : Counted σ :=
  -- `*cnt++` moves the parameter `cnt` on and drops the value it points to
  { s with console := cputchar ch s.console }

def vcprintf (text : List UInt8) (ap : List Arg) (console : σ) : Except Fault (Int × σ) := do
  let s ← vprintfmt (putch cputchar) ⟨0, console⟩ text ap
  return (s.cnt, s.console)

def cprintf (text : List UInt8) (ap : List Arg) (console : σ) : Except Fault (Int × σ) := do
  let (cnt, console) ← vcprintf cputchar text ap console
  return (cnt, console)

theorem feed_putch (out : List Int) (s : Counted σ) :
    feed (putch cputchar) s out = ⟨s.cnt, feed cputchar s.console out⟩ := by
  induction out generalizing s with
  | nil => rfl
  | cons ch out ih => exact ih (putch cputchar ch s)

theorem vcprintf_eq {text : List UInt8} {ap : List Arg} {out : List Int}
    (hout : vprintfmt collect [] text ap = .ok out) (console : σ) :
    vcprintf cputchar text ap console = .ok (0, feed cputchar console out) := by
  simp only [vcprintf, vprintfmt_of_collect hout, feed_putch, bind, Except.bind]
  rfl

end

/-- What `cprintf` would report if it counted: `vcprintf` and `cprintf` return
how often they called `cputchar`, which is what `vsnprintf` returns too. The
calls are recorded by a console that remembers their arguments. -/
def ReportsLength (text : List UInt8) (ap : List Arg) : Prop :=
  ∃ (cnt : Int) (calls : List Int),
    vcprintf collect text ap [] = .ok (cnt, calls) ∧ cprintf collect text ap [] = .ok (cnt, calls) ∧
    cnt = calls.length ∧
    ∀ (object : List UInt8) (n : Int), 1 ≤ n → n ≤ object.length →
      ∃ buf, vsnprintf (some object) n text ap = .ok (cnt, buf)

theorem reportsLength_iff {text : List UInt8} {ap : List Arg} {out : List Int}
    (hout : vprintfmt collect [] text ap = .ok out) : ReportsLength text ap ↔ out = [] := by
  have hcalls : vcprintf collect text ap [] = .ok (0, out) := by
    rw [vcprintf_eq collect hout, feed_collect, List.nil_append]
  constructor
  · rintro ⟨cnt, calls, hvc, -, hcnt, -⟩
    rw [hcalls] at hvc
    cases hvc
    exact List.length_eq_zero_iff.mp (by omega)
  · rintro rfl
    refine ⟨0, [], hcalls, by rw [cprintf, hcalls]; rfl, rfl, fun object n hn hfit => ?_⟩
    exact ⟨_, vsnprintf_eq hout (by decide) object hn hfit⟩

/-- `cprintf` reports its length exactly for the formats that print nothing. -/
theorem cprintf_reportsLength_iff_silent (text : List UInt8) (ap : List Arg)
    (h : Matching text ap) : ReportsLength text ap ↔ Silent text ap := by
  obtain ⟨out, hout, hsilent⟩ := vprintfmt_matching h
  rw [reportsLength_iff hout, hsilent]

theorem cprintf_reportsLength_empty : ReportsLength (cstr "%s".toList) [.str (some [0])] :=
  (cprintf_reportsLength_iff_silent (cstr "%s".toList) [.str (some [0])] (by decide)).mpr
    (by decide)

/-- `cprintf("a")` calls `cputchar` once and returns 0. -/
theorem cprintf_not_reportsLength :
    ¬∀ text ap, Matching text ap → ReportsLength text ap := by
  intro h
  have hletter := h (cstr "a".toList) [] (by decide)
  rw [@reportsLength_iff _ _ [97] rfl] at hletter
  cases hletter

end JosKernel.Kern
