import JosKernel.Inc.Mmu
import JosKernel.Inc.Rounding
import JosKernel.Kern.Monitor
import JosKernel.Lib.Messages

/-! The commands of `kern/monitor.c`, and what they print. -/
namespace JosKernel.Kern
open JosKernel.Inc JosKernel.Lib JosKernel.General Sink

structure Symbols where
  start : UInt32
  entry : UInt32
  etext : UInt32
  edata : UInt32
  stop : UInt32

def commandTexts : List (List UInt8 × List UInt8) :=
  [(cstr "help".toList, cstr "Display this list of commands".toList),
   (cstr "kerninfo".toList, cstr "Display information about the kernel".toList)]

theorem isSome_roundUp (a : UInt32) : (roundUp a 1024).isSome := rfl

/-- `ROUNDUP(end - entry, 1024) / 1024`, where the difference is an `int`. -/
def footprint (symbols : Symbols) : Int :=
  let size := (roundUp (symbols.stop - symbols.entry) 1024).get (isSome_roundUp _)
  size.toInt32.toInt.tdiv 1024

section
variable {τ σ : Type} (cputchar : Int → σ → σ) (symbols : Symbols)

def helpLines : List (List UInt8 × List UInt8) → σ → Except Fault σ
  | [], console => .ok console
  | (name, desc) :: texts, console => do
    let console ← say cputchar "%s - %s\n".toList [.str (some name), .str (some desc)] console
    helpLines texts console

def monHelp (_ : Parse) (_ : τ) (console : σ) : Except Fault (Int × σ) := do
  let console ← helpLines cputchar commandTexts console
  return (0, console)

/-- `cprintf("  entry  %08x (virt)  %08x (phys)\n", entry, entry - KERNBASE);` and
the three like it -/
def symbolLine (format : List Char) (address : UInt32) (console : σ) : Except Fault σ :=
  say cputchar format [.int address, .int (address - kernbase)] console

def monKerninfo (_ : Parse) (_ : τ) (console : σ) : Except Fault (Int × σ) := do
  let console ← say cputchar "Special kernel symbols:\n".toList [] console
  let console ← say cputchar "  _start                  %08x (phys)\n".toList [.int symbols.start]
    console
  let console ← symbolLine cputchar "  entry  %08x (virt)  %08x (phys)\n".toList symbols.entry console
  let console ← symbolLine cputchar "  etext  %08x (virt)  %08x (phys)\n".toList symbols.etext console
  let console ← symbolLine cputchar "  edata  %08x (virt)  %08x (phys)\n".toList symbols.edata console
  let console ← symbolLine cputchar "  end    %08x (virt)  %08x (phys)\n".toList symbols.stop console
  let console ← say cputchar "Kernel executable memory footprint: %dKB\n".toList
    [.int (UInt32.ofInt (footprint symbols))] console
  return (0, console)

/-- `mon_backtrace` is left to be written. -/
def monBacktrace (_ : τ) (console : σ) : Except Fault (Int × σ) := .ok (0, console)

def commands : List (Command τ σ) :=
  [⟨cstr "help".toList, monHelp cputchar, by decide⟩,
   ⟨cstr "kerninfo".toList, monKerninfo cputchar symbols, by decide⟩]

end

/-! ### What they print -/

def helpLine (text : List UInt8 × List UInt8) : List Int :=
  (stringAt text.1).map charInt ++ (plainCodes " - ".toList ++
    ((stringAt text.2).map charInt ++ plainCodes "\n".toList))

def helpText : List Int := commandTexts.flatMap helpLine

def symbolText (label : List Char) (address : UInt32) : List Int :=
  plainCodes label ++ (wordCodes address ++ (plainCodes " (virt)  ".toList ++
    (wordCodes (address - kernbase) ++ plainCodes " (phys)\n".toList)))

def kerninfoText (symbols : Symbols) : List Int :=
  plainCodes "Special kernel symbols:\n".toList ++
    (plainCodes "  _start                  ".toList ++ (wordCodes symbols.start ++
      plainCodes " (phys)\n".toList)) ++
    symbolText "  entry  ".toList symbols.entry ++ symbolText "  etext  ".toList symbols.etext ++
    symbolText "  edata  ".toList symbols.edata ++ symbolText "  end    ".toList symbols.stop ++
    (plainCodes "Kernel executable memory footprint: ".toList ++
      (signedCodes (footprint symbols) ++ plainCodes "KB\n".toList))

section
variable {τ σ : Type} (cputchar : Int → σ → σ)

theorem helpLines_eq {texts : List (List UInt8 × List UInt8)}
    (h : ∀ text ∈ texts, (Terminated text.1 ∧ (stringAt text.1).length < 2 ^ 31) ∧
      Terminated text.2 ∧ (stringAt text.2).length < 2 ^ 31) (console : σ) :
    helpLines cputchar texts console = .ok (feed cputchar console (texts.flatMap helpLine)) := by
  induction texts generalizing console with
  | nil => rfl
  | cons text texts ih =>
    obtain ⟨name, desc⟩ := text
    obtain ⟨⟨hname, hdesc⟩, hrest⟩ := List.forall_mem_cons.mp h
    have hline := ((emits_string hname.1 hname.2).append ((emits_text " - ".toList (by decide)).append
      ((emits_string hdesc.1 hdesc.2).append (emits_text "\n".toList (by decide))))).say cputchar
      "%s - %s\n".toList rfl console
    rw [List.flatMap_cons, feed_append, ← ih hrest]
    exact congrArg (· >>= helpLines cputchar texts) hline

theorem monHelp_says (s : Parse) (tf : τ) (console : σ) :
    monHelp cputchar s tf console = .ok (0, feed cputchar console helpText) := by
  rw [monHelp, helpLines_eq cputchar (by decide)]
  rfl

theorem symbolLine_eq (label : List Char) (h : Plain (label.map Char.toUInt8)) (format : List Char)
    (hformat : label ++ "%08x (virt)  %08x (phys)\n".toList = format) (address : UInt32)
    (console : σ) :
    symbolLine cputchar format address console =
      .ok (feed cputchar console (symbolText label address)) := by
  subst hformat
  apply ((emits_text label h).append ((emits_word address).append
    ((emits_text " (virt)  ".toList (by decide)).append ((emits_word (address - kernbase)).append
      (emits_text " (phys)\n".toList (by decide)))))).say
  rw [List.map_append]
  rfl

theorem toInt_ofInt {value : Int} (hlo : -2 ^ 31 ≤ value) (hhi : value < 2 ^ 31) :
    (UInt32.ofInt value).toInt32.toInt = value := by
  have hmod : ((UInt32.ofInt value).toNat : Int) = value % 2 ^ 32 := by
    rw [UInt32.ofInt, UInt32.toNat_ofNat']
    omega
  rw [← wrapInt_toNat, hmod, wrapInt, Int.bmod_def]
  omega

theorem footprint_range (symbols : Symbols) :
    -2 ^ 31 ≤ footprint symbols ∧ footprint symbols < 2 ^ 31 := by
  unfold footprint
  dsimp only
  generalize ((roundUp (symbols.stop - symbols.entry) 1024).get _).toInt32 = size
  have hlo := size.le_toInt
  have hhi := size.toInt_lt
  have hquotient : (size.toInt.tdiv 1024).natAbs = size.toInt.natAbs / 1024 := Int.natAbs_tdiv _ _
  omega

theorem monKerninfo_says (symbols : Symbols) (s : Parse) (tf : τ) (console : σ) :
    monKerninfo cputchar symbols s tf console =
      .ok (0, feed cputchar console (kerninfoText symbols)) := by
  obtain ⟨hlo, hhi⟩ := footprint_range symbols
  have hsize := emits_decimal (UInt32.ofInt (footprint symbols))
  rw [toInt_ofInt hlo hhi] at hsize
  have hstart := ((emits_text "  _start                  ".toList (by decide)).append
    ((emits_word symbols.start).append (emits_text " (phys)\n".toList (by decide)))).say cputchar
    "  _start                  %08x (phys)\n".toList rfl
  have hfootprint := ((emits_text "Kernel executable memory footprint: ".toList (by decide)).append
    (hsize.append (emits_text "KB\n".toList (by decide)))).say cputchar
    "Kernel executable memory footprint: %dKB\n".toList rfl
  have hentry := symbolLine_eq cputchar "  entry  ".toList (by decide)
    "  entry  %08x (virt)  %08x (phys)\n".toList rfl symbols.entry
  have hetext := symbolLine_eq cputchar "  etext  ".toList (by decide)
    "  etext  %08x (virt)  %08x (phys)\n".toList rfl symbols.etext
  have hedata := symbolLine_eq cputchar "  edata  ".toList (by decide)
    "  edata  %08x (virt)  %08x (phys)\n".toList rfl symbols.edata
  have hstop := symbolLine_eq cputchar "  end    ".toList (by decide)
    "  end    %08x (virt)  %08x (phys)\n".toList rfl symbols.stop
  unfold monKerninfo kerninfoText
  simp only [List.nil_append, List.append_nil, feed_append] at hstart hfootprint ⊢
  rw [bind_of_ok (say_text cputchar _ (by decide) console), bind_of_ok (hstart _),
    bind_of_ok (hentry _), bind_of_ok (hetext _), bind_of_ok (hedata _), bind_of_ok (hstop _),
    bind_of_ok (hfootprint _)]
  rfl

end

end JosKernel.Kern
