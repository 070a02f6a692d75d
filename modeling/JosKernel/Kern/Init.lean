import JosKernel.Kern.Session
import JosKernel.Kern.Typing

/-! `kern/init.c`: the kernel from its entry to its monitor, and `_panic`. -/
namespace JosKernel.Kern
open JosKernel.Inc JosKernel.Lib JosKernel.General Sink Serial Keyboard
open Readline (Line onConsole)

section
variable {σ : Type} (cputchar : Int → σ → σ)

def testBacktraceNested : Nat → Int → σ → Except Fault σ
  | 0, _, _ => .error .unfinished
  | depth + 1, x, console => do
    let console ← say cputchar "entering test_backtrace %d\n".toList [.int (UInt32.ofInt x)] console
    let console ←
      if 0 < x then testBacktraceNested depth (x - 1) console
      else (monBacktrace () console).map Prod.snd
    say cputchar "leaving test_backtrace %d\n".toList [.int (UInt32.ofInt x)] console

def testBacktrace (x : Int) (console : σ) : Except Fault σ :=
  testBacktraceNested cputchar (x.toNat + 1) x console

def bootMessages (console : σ) : Except Fault σ := do
  let console ← say cputchar "6828 decimal is %o octal!\n".toList [.int 6828] console
  testBacktrace cputchar 5 console

/-! ### What they print -/

end

/-! ### The whole kernel -/

def monitorForever {τ σ : Type} (commands : List (Command τ σ)) (cputchar : Int → σ → σ)
    (stack : Stack) (tf : τ) (fuel : Nat) (s : Session σ) : Except Fault (Session σ) :=
  Loop.run .unfinished (fun s => (monitor commands cputchar stack tf fuel s).map Sum.inl) fuel s

def Session.entry (input : List Int) (console : σ) : Session σ :=
  ⟨input, List.replicate 1024 0, 0, console⟩

/-- `i386_init`, whose `memset` has cleared the static data. -/
def i386Init {τ : Type} (machine : Hardware) (symbols : Symbols) (stack : Stack) (tf : τ)
    (fuel : Nat) (input : List Int) : Except Fault (Session (Except Fault Console)) := do
  let (_, s) ← consInit machine.device machine.video machine.ports
  let console ← bootMessages (onConsole machine.device) (.ok s)
  monitorForever (commands (onConsole machine.device) symbols) (onConsole machine.device) stack tf
    fuel (.entry input console)

section
variable {τ σ : Type} {commands : List (Command τ σ)} {cputchar : Int → σ → σ}
  {answer : List UInt8 → Option (List Int)} (stack : Stack) (tf : τ)

end

section
variable {τ : Type} (machine : Hardware) (uart : Uart) (symbols : Symbols) (stack : Stack) (tf : τ)

end

section
variable {σ τ : Type} {cputchar : Int → σ → σ} (idle : σ) (status : UInt8) (machine : Hardware)
  (hcursor : machine.OnScreen) (uart : Uart) (symbols : Symbols) (stack : Stack) (tf : τ)
  {lines : List Line} (htypeable : ∀ c ∈ lines.flatMap pressed, Typeable c)
  {happenings : List Happening} (hlast : happenings.getLast? = some .getc)
  (hkeys : arrivedKeys happenings =
    Keyboard.sent (Keyboard.typed ((lines.flatMap pressed).flatMap keystrokes)))
  (hline : arrivedBytes happenings = [])
  (hfits : fits machine.serialExists 0 ((Inputs.boot idle status).trace cputchar
    machine.serialExists happenings))
include hcursor htypeable hlast hkeys hline hfits

end

section
variable {τ σ : Type} (cputchar : Int → σ → σ) (file : List UInt8) (line : UInt32)
  (fmt : List UInt8) (ap : List Arg)

/-- `cprintf("kernel panic at %s:%d: ", file, line);` and the like in `_warn`, with
what follows -/
def report (format : List Char) (console : σ) : Except Fault σ := do
  let console ← say cputchar format [.str (some file), .int line] console
  let (_, console) ← vcprintf cputchar fmt ap console
  say cputchar "\n".toList [] console

def warn (console : σ) : Except Fault σ :=
  report cputchar file line fmt ap "kernel warning at %s:%d: ".toList console

def reportText (title : List Char) (out : List Int) : List Int :=
  plainCodes title ++ ((stringAt file).map charInt ++ (plainCodes ":".toList ++
    (signedCodes line.toInt32.toInt ++ (plainCodes ": ".toList ++ (out ++ plainCodes "\n".toList)))))

variable {fmt ap} {file} {out : List Int} (hfile : Terminated file)
  (hshort : (stringAt file).length < 2 ^ 31) (hfmt : vprintfmt collect [] fmt ap = .ok out)
include hfile hshort hfmt

theorem report_says {title : List Char} (htitle : Plain (title.map Char.toUInt8)) (console : σ) :
    report cputchar file line fmt ap (title ++ "%s:%d: ".toList) console =
      .ok (feed cputchar console (reportText file line title out)) := by
  have hhead := ((emits_text title htitle).append ((emits_string hfile hshort).append
    ((emits_text ":".toList (by decide)).append ((emits_decimal line).append
      (emits_text ": ".toList (by decide)))))).say cputchar (title ++ "%s:%d: ".toList)
    (by rw [List.map_append]; rfl) console
  simp only [List.nil_append, List.append_nil, List.singleton_append] at hhead
  have hend := say_text cputchar "\n".toList (by decide)
  rw [report, bind_of_ok hhead, bind_of_ok (vcprintf_eq cputchar hfmt _), reportText]
  refine (hend _).trans ?_
  simp only [feed_append]

theorem warn_says (console : σ) :
    warn cputchar file line fmt ap console =
      .ok (feed cputchar console (reportText file line "kernel warning at ".toList out)) :=
  report_says cputchar line hfile hshort hfmt (show Plain ("kernel warning at ".toList.map
    Char.toUInt8) by decide) console

end

end JosKernel.Kern
