import JosKernel.General.Loop
import JosKernel.General.Marks
import JosKernel.General.Overlay
import JosKernel.General.Ring
import JosKernel.General.Sink
import JosKernel.General.Terminal
import JosKernel.General.Words
import JosKernel.General.Numeral
import JosKernel.General.Flags
import JosKernel.General.Strokes
import JosKernel.General.Interleave
import JosKernel.General.Block
import JosKernel.General.StringInstructions
import JosKernel.General.Multiples
import JosKernel.General.BitFields
import JosKernel.General.MachineCode
import JosKernel.General.Assembly
import JosKernel.Lib.Printfmt
import JosKernel.Lib.Snprintf
import JosKernel.Kern.Printf
import JosKernel.Lib.Messages
import JosKernel.Kern.ConsoleInput
import JosKernel.Lib.Readline
import JosKernel.Lib.String
import JosKernel.Kern.ConsoleOutput
import JosKernel.Kern.Screen
import JosKernel.Kern.CgaInit
import JosKernel.Kern.Mirror
import JosKernel.Lib.ReadlineScreen
import JosKernel.Lib.ReadlineEcho
import JosKernel.Lib.Memmove
import JosKernel.Lib.Strcat
import JosKernel.Lib.Memset
import JosKernel.Lib.Compare
import JosKernel.Lib.BoundedCopy
import JosKernel.Lib.Strtol
import JosKernel.Lib.StrtolRun
import JosKernel.Lib.Spelling
import JosKernel.Lib.StrtolExtent
import JosKernel.Lib.Printnum
import JosKernel.Lib.Numeric
import JosKernel.Lib.NumberField
import JosKernel.Lib.Errors
import JosKernel.Lib.Numbers
import JosKernel.Lib.Composition
import JosKernel.Lib.Directive
import JosKernel.Lib.Unrecognised
import JosKernel.Lib.Bounds
import JosKernel.Lib.StringField
import JosKernel.Lib.Fields
import JosKernel.Inc.Rounding
import JosKernel.Inc.Mmu
import JosKernel.Inc.Segdesc
import JosKernel.Kern.Entrypgdir
import JosKernel.Kern.Keyboard
import JosKernel.Kern.Modifiers
import JosKernel.Kern.Mouse
import JosKernel.Kern.Monitor
import JosKernel.Kern.Commands
import JosKernel.Kern.Session
import JosKernel.Kern.Serial
import JosKernel.Kern.Inputs
import JosKernel.Kern.Typing
import JosKernel.Kern.Init
import JosKernel.Boot.Gdt
import JosKernel.Boot.Main
import JosKernel.Boot.Readseg
import JosKernel.Boot.Segments
import JosKernel.Boot.Transfers
import JosKernel.Boot.Rounds
import JosKernel.Boot.Image
import JosKernel.Boot.Processor
import JosKernel.Boot.Start
import JosKernel.Boot.BootBlock
import JosKernel.Kern.Loading
import JosKernel.Kern.Entry
import JosKernel.Kern.Startup
import JosKernel.Kern.Stab
import JosKernel.Kern.StabSearch
import JosKernel.Kern.StabBrackets
import JosKernel.Kern.StabExact
import JosKernel.Kern.StabSafe
import JosKernel.Kern.Debuginfo
import JosKernel.Kern.DebuginfoFile
import JosKernel.Kern.DebuginfoTables
import JosKernel.Kern.DebuginfoLinked
import JosKernel.Kern.StabMisses
import JosKernel.Kern.DebuginfoArgs
