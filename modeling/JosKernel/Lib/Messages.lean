import JosKernel.Kern.Printf
import JosKernel.Lib.Numbers
import JosKernel.Lib.StringField

/-! What a message prints, put together from what its parts print. -/
namespace JosKernel.Lib
open JosKernel.Inc JosKernel.Kern JosKernel.General Sink

theorem bind_of_ok {x : Except ε α} {value : α} (h : x = .ok value) (f : α → Except ε β) :
    (x >>= f) = f value := by
  rw [h]
  rfl

/-- On these arguments this part of a format prints these characters, whatever
comes behind both. -/
def Emits (format : List UInt8) (args : List Arg) (out : List Int) : Prop :=
  ∀ printfmt rest ap, read printfmt (format ++ rest) .text (args ++ ap) =
    (read printfmt rest .text ap).map (out ++ ·)

theorem emits_plain {text : List UInt8} (h : Plain text) : Emits text [] (codes text) :=
  fun printfmt rest ap => read_plain printfmt h rest ap

def plainCodes (text : List Char) : List Int := codes (text.map Char.toUInt8)

theorem emits_text (text : List Char) (h : Plain (text.map Char.toUInt8)) :
    Emits (text.map Char.toUInt8) [] (plainCodes text) := emits_plain h

theorem Emits.append {left right : List UInt8} {args args' : List Arg} {out out' : List Int}
    (hleft : Emits left args out) (hright : Emits right args' out') :
    Emits (left ++ right) (args ++ args') (out ++ out') := by
  intro printfmt rest ap
  rw [List.append_assoc, List.append_assoc, hleft, hright, map_append_append]

theorem emits_conversion {ch : UInt8} {conv : Conv} (h : label ch = .convert conv) {arg : Arg}
    {out : List Int} (hconv : ∀ printfmt ap,
      conversion collect printfmt .start ch (arg :: ap) [] conv = .ok (ap, out)) :
    Emits [ascii '%', ch] [arg] out := by
  intro printfmt rest ap
  refine (read_conversion printfmt h rest (arg :: ap)).trans ?_
  rw [hconv]
  rfl

theorem emits_decimal (value : UInt32) :
    Emits [ascii '%', ascii 'd'] [.int value] (signedCodes value.toInt32.toInt) :=
  emits_conversion (by decide) fun printfmt ap =>
    conversion_decimal printfmt .start rfl (by decide) (ascii 'd') value ap

theorem emits_unsigned {ch : UInt8} {conv : Conv} (h : label ch = .convert conv) {base : Nat}
    (hbase : unsignedBase conv = some base) (value : UInt32) :
    Emits [ascii '%', ch] [.int value] (numeralCodes base value.toNat) :=
  emits_conversion h fun printfmt ap =>
    conversion_unsigned printfmt .start rfl (by decide) ch value ap hbase

theorem stringText_short {p : List UInt8} (hlength : (stringAt p).length < 2 ^ 31) :
    stringText .start p = (stringAt p).map charInt := by
  have hcount : countDown (stringAt p).length (-1) = -1 - (stringAt p).length :=
    countDown_eq (by omega) (by decide)
  have hrest : (-1 - ((stringAt p).length : Int)).toNat = 0 := by omega
  have hwidth : ¬((0 : Int) < -1 ∧ ascii ' ' ≠ ascii '-') := by decide
  unfold stringText leadWidth restWidth Locals.start
  dsimp only
  rw [if_neg hwidth, if_neg hwidth, limit, if_pos (by decide), List.length_map, hcount, hrest]
  exact List.append_nil _

theorem emits_string {p : List UInt8} (hterm : Terminated p)
    (hlength : (stringAt p).length < 2 ^ 31) :
    Emits [ascii '%', ascii 's'] [.str (some p)] ((stringAt p).map charInt) := by
  apply emits_conversion (show label (ascii 's') = .convert .string by decide)
  intro printfmt ap
  rw [← stringText_short hlength]
  exact conversion_string printfmt .start (ascii 's') (fun bytes hbytes => by cases hbytes; exact hterm) ap

def wordCodes (value : UInt32) : List Int :=
  List.replicate (8 - (numeral 16 value.toNat).length) 48 ++ numeralCodes 16 value.toNat

theorem emits_word (value : UInt32) :
    Emits [ascii '%', ascii '0', ascii '8', ascii 'x'] [.int value] (wordCodes value) := by
  intro printfmt rest ap
  have hread : read printfmt ([ascii '%', ascii '0', ascii '8', ascii 'x'] ++ rest) .text
      ([.int value] ++ ap) =
        conversion collect printfmt ⟨ascii '0', 8, -1, 0, false⟩ (ascii 'x') (.int value :: ap) []
          .hex >>= fun converted =>
        (read printfmt rest .text converted.1).map (converted.2 ++ ·) := rfl
  have hnumber := @conversion_number printfmt (wordNumber 0 (by decide) value)
    ⟨ascii '0', 8, -1, 0, false⟩ rfl _ _ (show numberBase .hex = some 16 from rfl) (ascii 'x') ap
  have hlength := length_numeral_word (show 2 ≤ 16 by decide) value.toUInt64.toNat_lt
  have hcodes : (wordNumber 0 (by decide) value).codes .hex 16 8 48 = wordCodes value := by
    have hpads : (wrapInt (8 - (numeral 16 value.toNat).length)).toNat =
        8 - (numeral 16 value.toNat).length := by
      rw [UInt32.toNat_toUInt64] at hlength
      rw [wrapInt_of_range (by omega) (by omega)]
      omega
    rw [wordCodes, ← hpads]
    rfl
  rw [hread, ← hcodes]
  change (conversion collect printfmt ⟨ascii '0', 8, -1, 0, false⟩ (ascii 'x')
    ((wordNumber 0 (by decide) value).arg :: ap) [] .hex >>= _) = _
  rw [hnumber]
  rfl

section
variable {format : List UInt8} {args : List Arg} {out : List Int}

theorem Emits.vprintfmt (h : Emits format args out) :
    vprintfmt collect [] (format ++ [0]) args = .ok out := by
  have hread := h (vprintfmtNested collect 1) [0] []
  rw [List.append_nil] at hread
  rw [vprintfmt_eq_read, hread]
  exact congrArg Except.ok (List.append_nil out)

end

section
variable {σ : Type} (cputchar : Int → σ → σ)

def say (format : List Char) (ap : List Arg) (console : σ) : Except Fault σ :=
  (cprintf cputchar (cstr format) ap console).map Prod.snd

theorem Emits.say {format : List UInt8} {args : List Arg} {out : List Int}
    (h : Emits format args out) (text : List Char) (htext : text.map Char.toUInt8 = format)
    (console : σ) : say cputchar text args console = .ok (feed cputchar console out) := by
  rw [Lib.say, cstr, htext, cprintf, vcprintf_eq cputchar h.vprintfmt]
  rfl

theorem say_text (text : List Char) (h : Plain (text.map Char.toUInt8)) (console : σ) :
    say cputchar text [] console = .ok (feed cputchar console (plainCodes text)) :=
  (emits_text text h).say cputchar text rfl console

end

end JosKernel.Lib
