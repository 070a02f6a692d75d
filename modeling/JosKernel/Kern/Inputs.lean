import JosKernel.General.Interleave
import JosKernel.Kern.Mouse
import JosKernel.Kern.Serial

/-! The console input with its two devices: bytes arrive at the keyboard
controller and on the serial line, interrupts and calls of `cons_getc` take
them, in any order. -/
namespace JosKernel.Kern
open JosKernel.Inc JosKernel.General Keyboard Serial

/-- The receiving half of the UART, whose FIFO `serial_init` has turned off: the one
byte that has arrived and not been read, and the other bits of the line status. -/
structure Receiver where
  status : UInt8
  register : Option UInt8

namespace Receiver

/-- A byte that has not been read is lost when the next one arrives. -/
def arrive (byte : UInt8) (receiver : Receiver) : Receiver := { receiver with register := some byte }

def lineStatus (receiver : Receiver) : UInt8 :=
  if receiver.register = none then receiver.status &&& ~~~comLsrData
  else receiver.status ||| comLsrData

def inb (port : UInt32) (receiver : Receiver) : UInt8 × Receiver :=
  if port = com1 + comRx then (receiver.register.getD 0, { receiver with register := none })
  else if port = com1 + comLsr then (receiver.lineStatus, receiver)
  else (0, receiver)

end Receiver

def serialProcData (receiver : Receiver) : Option UInt8 × Receiver :=
  let (lsr, receiver) := receiver.inb (com1 + comLsr)
  if lsr &&& comLsrData = 0 then (none, receiver)
  else
    let (c, receiver) := receiver.inb (com1 + comRx)
    (some c, receiver)

theorem serialProcData_data (status c : UInt8) :
    serialProcData ⟨status, some c⟩ = (some c, ⟨status, none⟩) := by
  have hdata : ¬(status ||| comLsrData) &&& comLsrData = 0 := by
    intro hzero
    have hbits := congrArg UInt8.toBitVec hzero
    rw [UInt8.toBitVec_and, UInt8.toBitVec_or, BitVec.and_or_distrib_right] at hbits
    exact absurd (BitVec.or_eq_zero_iff.mp hbits).2 (by decide)
  have hrx : ¬com1 + comLsr = com1 + comRx := by decide
  simp only [serialProcData, Receiver.inb, Receiver.lineStatus, hrx, if_true, if_false]
  rw [if_neg (Option.some_ne_none c), if_neg hdata]
  rfl

theorem serialProcData_empty (status : UInt8) :
    serialProcData ⟨status, none⟩ = (none, ⟨status, none⟩) := by
  have hdata : (status &&& ~~~comLsrData) &&& comLsrData = 0 := by
    rw [UInt8.and_assoc, UInt8.not_and_self, UInt8.and_zero]
  have hrx : ¬com1 + comLsr = com1 + comRx := by decide
  simp only [serialProcData, Receiver.inb, Receiver.lineStatus, hrx, if_true, if_false]
  rw [if_pos hdata]

theorem serialProcData_yields (receiver : Receiver) :
    Yields serialProcData receiver receiver.register.toList ⟨receiver.status, none⟩ := by
  obtain ⟨status, _ | c⟩ := receiver
  · exact .here _
  · exact .next (serialProcData_data status c) (.here _)

def Serial.serialIntr (serialExists : Bool) (receiver : Receiver) (cons : Cons) :
    Except Fault (Receiver × Cons) :=
  if serialExists then consIntr serialProcData receiver.register.toList.length receiver cons
  else .ok (receiver, cons)

def Receiver.drained (serialExists : Bool) (receiver : Receiver) : Receiver :=
  if serialExists then { receiver with register := none } else receiver

def Receiver.heard (serialExists : Bool) (receiver : Receiver) : List UInt8 :=
  if serialExists then receiver.register.toList else []

theorem serialIntr_eq (serialExists : Bool) (receiver : Receiver) (cons : Cons) :
    Serial.serialIntr serialExists receiver cons =
      (Kern.serialIntr serialExists receiver.register.toList cons).map
        fun cons => (receiver.drained serialExists, cons) := by
  cases serialExists with
  | false => rfl
  | true =>
    exact consIntr_yields (serialProcData_yields receiver) (serialProcData_empty receiver.status)
      (Nat.le_refl _) cons

structure Inputs (σ : Type) where
  controller : Controller
  driver : Driver σ
  receiver : Receiver
  cons : Cons

inductive Happening where
  | key (byte : Source × UInt8)
  | line (byte : UInt8)
  | kbdIntr
  | serialIntr
  | getc

namespace Inputs
variable {σ : Type} (cputchar : Int → σ → σ) (serialExists : Bool)

def boot (console : σ) (status : UInt8) : Inputs σ := ⟨[], .boot console, ⟨status, none⟩, .zeroed⟩

def kbdIntr (s : Inputs σ) : Except Fault (Inputs σ) := do
  let ((controller, driver), cons) ← Keyboard.kbdIntr cputchar s.controller s.driver s.cons
  return { s with controller, driver, cons }

def serialIntr (s : Inputs σ) : Except Fault (Inputs σ) := do
  let (receiver, cons) ← Serial.serialIntr serialExists s.receiver s.cons
  return { s with receiver, cons }

def consGetc (s : Inputs σ) : Except Fault (UInt8 × Inputs σ) := do
  let s ← s.serialIntr serialExists
  let s ← s.kbdIntr cputchar
  let (c, cons) ← grab s.cons
  return (c, { s with cons })

def step (s : Inputs σ) : Happening → Except Fault (List UInt8 × Inputs σ)
  | .key byte => .ok ([], { s with controller := s.controller ++ [byte] })
  | .line byte => .ok ([], { s with receiver := s.receiver.arrive byte })
  | .kbdIntr => do
    let s ← s.kbdIntr cputchar
    return ([], s)
  | .serialIntr => do
    let s ← s.serialIntr serialExists
    return ([], s)
  | .getc => do
    let (c, s) ← s.consGetc cputchar serialExists
    return ([c], s)

def run (s : Inputs σ) : List Happening → Except Fault (List UInt8 × Inputs σ)
  | [] => .ok ([], s)
  | happening :: happenings => do
    let (result, s) ← s.step cputchar serialExists happening
    let (results, s) ← s.run happenings
    return (result ++ results, s)

def keyed (s : Inputs σ) : List UInt8 := (decode cputchar (front s.controller) s.driver).1

def events (s : Inputs σ) : Happening → List Event
  | .key _ | .line _ => []
  | .kbdIntr => [.intr (s.keyed cputchar)]
  | .serialIntr => [.intr (s.receiver.heard serialExists)]
  | .getc => [.getc s.receiver.register.toList (s.keyed cputchar)]

def trace (s : Inputs σ) : List Happening → List Event
  | [] => []
  | happening :: happenings =>
    s.events cputchar serialExists happening ++
      match s.step cputchar serialExists happening with
      | .ok (_, s) => s.trace happenings
      | .error _ => []

end Inputs

def arrivedKeys (happenings : List Happening) : Controller :=
  happenings.filterMap fun
    | .key byte => some byte
    | _ => none

def arrivedBytes (happenings : List Happening) : List UInt8 :=
  happenings.filterMap fun
    | .line byte => some byte
    | _ => none

def Receiver.readBy (serialExists : Bool) (receiver : Receiver) : Happening → List UInt8
  | .serialIntr | .getc => receiver.heard serialExists
  | .key _ | .line _ | .kbdIntr => []

def Receiver.after (serialExists : Bool) (receiver : Receiver) : Happening → Receiver
  | .line byte => receiver.arrive byte
  | .serialIntr | .getc => receiver.drained serialExists
  | .key _ | .kbdIntr => receiver

/-- The bytes that are read in the course of a schedule, with the one that is left. -/
def received (serialExists : Bool) : Receiver → List Happening → List UInt8
  | receiver, [] => receiver.register.toList
  | receiver, happening :: happenings =>
    receiver.readBy serialExists happening ++
      received serialExists (receiver.after serialExists happening) happenings

def paced (serialExists : Bool) : Receiver → List Happening → Bool
  | _, [] => true
  | receiver, happening :: happenings =>
    (receiver.register = none || arrivedBytes [happening] = []) &&
      paced serialExists (receiver.after serialExists happening) happenings

/-- `keys` have arrived at the controller and `bytes` in the receive register; `read` and
`heard` of them have been taken, `stream` stored and `taken` returned. -/
structure Accounts {σ : Type} (cputchar : Int → σ → σ) (console : σ) (keys : Controller)
    (bytes : List UInt8) (s : Inputs σ) (read heard stream taken : List UInt8) : Prop where
  keyboard : keys = Keyboard.sent read ++ s.controller
  driver : s.driver = (decode cputchar read (.boot console)).2
  line : bytes = heard ++ s.receiver.register.toList
  served : Served s.cons stream taken
  merged : Interleaves (characters (decode cputchar read (.boot console)).1) (characters heard) stream

theorem arrivedKeys_cons (happening : Happening) (happenings : List Happening) :
    arrivedKeys (happening :: happenings) = arrivedKeys [happening] ++ arrivedKeys happenings :=
  @List.filterMap_append _ _ [happening] happenings _

theorem arrivedBytes_cons (happening : Happening) (happenings : List Happening) :
    arrivedBytes (happening :: happenings) = arrivedBytes [happening] ++ arrivedBytes happenings :=
  @List.filterMap_append _ _ [happening] happenings _

theorem Receiver.readBy_after (serialExists : Bool) (receiver : Receiver) (happening : Happening) :
    receiver.readBy serialExists happening ++
        (receiver.after serialExists happening).register.toList =
      (if arrivedBytes [happening] = [] then receiver.register.toList else []) ++
        arrivedBytes [happening] := by
  cases happening with
  | line byte => rfl
  | key byte | kbdIntr => exact (List.append_nil _).symm
  | serialIntr | getc =>
    cases serialExists with
    | false => exact (List.append_nil _).symm
    | true => rfl

theorem received_sublist (serialExists : Bool) (receiver : Receiver) (happenings : List Happening) :
    (received serialExists receiver happenings).Sublist
      (receiver.register.toList ++ arrivedBytes happenings) := by
  induction happenings generalizing receiver with
  | nil => exact List.sublist_append_left _ _
  | cons happening happenings ih =>
    rw [received, arrivedBytes_cons, ← List.append_assoc]
    refine ((ih _).append_left _).trans ?_
    rw [← List.append_assoc, receiver.readBy_after]
    refine List.Sublist.append_right (List.Sublist.append_right ?_ _) _
    split
    · exact List.Sublist.refl _
    · exact List.nil_sublist _

theorem received_paced {serialExists : Bool} {receiver : Receiver} {happenings : List Happening}
    (h : paced serialExists receiver happenings = true) :
    received serialExists receiver happenings = receiver.register.toList ++ arrivedBytes happenings := by
  induction happenings generalizing receiver with
  | nil => exact (List.append_nil _).symm
  | cons happening happenings ih =>
    obtain ⟨hempty, hrest⟩ := Bool.and_eq_true_iff.mp h
    rw [received, ih hrest, arrivedBytes_cons, ← List.append_assoc, receiver.readBy_after,
      ← List.append_assoc]
    congr 2
    split
    · rfl
    · next hbyte =>
      simp only [hbyte, Bool.or_eq_true, decide_eq_true_eq, decide_false, or_false,
        Bool.false_eq_true] at hempty
      exact congrArg Option.toList hempty.symm

theorem characters_append (left right : List UInt8) :
    characters (left ++ right) = characters left ++ characters right := List.filter_append _ _

section
variable {σ : Type} {cputchar : Int → σ → σ} {console : σ} {keys : Controller} {bytes : List UInt8}
  {s : Inputs σ} {read heard stream taken : List UInt8}

theorem Accounts.boot (console : σ) (status : UInt8) :
    Accounts cputchar console [] [] (.boot console status) [] [] [] [] where
  keyboard := rfl
  driver := rfl
  line := rfl
  served := .zeroed
  merged := .nil

theorem Accounts.kbdIntr (h : Accounts cputchar console keys bytes s read heard stream taken) :
    ∃ s', s.kbdIntr cputchar = .ok s' ∧
      queueIntr (s.keyed cputchar) s.cons = .ok s'.cons ∧
      Accounts cputchar console keys bytes s' (read ++ front s.controller) heard
        (stream ++ characters (s.keyed cputchar)) taken ∧
      s'.controller = Keyboard.behind s.controller ∧ s'.receiver = s.receiver := by
  obtain ⟨cons', hqueue, hserved⟩ := queueIntr_served h.served (s.keyed cputchar)
  refine ⟨⟨Keyboard.behind s.controller, (decode cputchar (front s.controller) s.driver).2, s.receiver,
    cons'⟩, ?_, hqueue, ?_, rfl, rfl⟩
  · rw [Inputs.kbdIntr, kbdIntr_eq]
    change ((queueIntr (s.keyed cputchar) s.cons).map _ >>= _) = _
    rw [hqueue]
    rfl
  · have hdecode := decode_append cputchar read (front s.controller) (.boot console)
    rw [← h.driver] at hdecode
    refine ⟨?_, ?_, h.line, hserved, ?_⟩
    · rw [Keyboard.sent, List.map_append, List.append_assoc]
      exact h.keyboard.trans (congrArg _ (sent_front s.controller).symm)
    · rw [hdecode]
    · rw [hdecode, characters_append]
      exact h.merged.append_left _

theorem Accounts.serialIntr (h : Accounts cputchar console keys bytes s read heard stream taken)
    (serialExists : Bool) :
    ∃ s', s.serialIntr serialExists = .ok s' ∧
      Kern.serialIntr serialExists s.receiver.register.toList s.cons = .ok s'.cons ∧
      Accounts cputchar console keys bytes s' read (heard ++ s.receiver.heard serialExists)
        (stream ++ characters (s.receiver.heard serialExists)) taken ∧
      s'.controller = s.controller ∧ s'.driver = s.driver ∧
      s'.receiver = s.receiver.drained serialExists := by
  obtain ⟨cons', hqueue, hserved⟩ := serialIntr_served h.served serialExists s.receiver.register.toList
  refine ⟨⟨s.controller, s.driver, s.receiver.drained serialExists, cons'⟩, ?_, hqueue, ?_, rfl, rfl,
    rfl⟩
  · rw [Inputs.serialIntr, serialIntr_eq, hqueue]
    rfl
  · have hheard : (if serialExists then characters s.receiver.register.toList else []) =
        characters (s.receiver.heard serialExists) := by
      cases serialExists <;> rfl
    rw [hheard] at hserved
    refine ⟨h.keyboard, h.driver, ?_, hserved, ?_⟩
    · rw [h.line, List.append_assoc]
      cases serialExists
      · rfl
      · exact congrArg _ (List.append_nil _).symm
    · rw [characters_append]
      exact h.merged.append_right _

structure Polled (serialExists : Bool) (s : Inputs σ) : Prop where
  keyboard : front s.controller = []
  line : serialExists → s.receiver.register = none

theorem front_behind (controller : Controller) : front (Keyboard.behind controller) = [] := by
  induction controller with
  | nil => rfl
  | cons byte rest ih =>
    obtain ⟨source, data⟩ := byte
    cases source with
    | keyboard => exact ih
    | mouse => rfl

structure Takes (stream taken : List UInt8) (c : UInt8) : Prop where
  first : waiting stream taken = characters [c] ++ waiting stream (taken ++ characters [c])
  zero : c = 0 → waiting stream taken = []

theorem Accounts.getc (h : Accounts cputchar console keys bytes s read heard stream taken)
    (serialExists : Bool) :
    ∃ c s', s.consGetc cputchar serialExists = .ok (c, s') ∧
      Kern.consGetc serialExists s.receiver.register.toList (s.keyed cputchar) s.cons =
        .ok (c, s'.cons) ∧
      Accounts cputchar console keys bytes s' (read ++ front s.controller)
        (heard ++ s.receiver.heard serialExists)
        (stream ++ arrivals serialExists (.getc s.receiver.register.toList (s.keyed cputchar)))
        (taken ++ characters [c]) ∧
      s'.receiver = s.receiver.drained serialExists ∧ Polled serialExists s' ∧
      Takes (stream ++ arrivals serialExists (.getc s.receiver.register.toList (s.keyed cputchar)))
        taken c := by
  obtain ⟨s₁, hserial, hserial', h₁, hcontroller₁, hdriver₁, hreceiver₁⟩ := h.serialIntr serialExists
  obtain ⟨s₂, hkbd, hkbd', h₂, hcontroller₂, hreceiver₂⟩ := h₁.kbdIntr
  obtain ⟨c, cons', hgrab, hserved, hfirst, hzero⟩ := grab_served h₂.served
  have hkeyed : s₁.keyed cputchar = s.keyed cputchar := by
    rw [Inputs.keyed, hcontroller₁, hdriver₁]
    rfl
  have hstream : stream ++ characters (s.receiver.heard serialExists) ++
      characters (s₁.keyed cputchar) =
        stream ++ arrivals serialExists (.getc s.receiver.register.toList (s.keyed cputchar)) := by
    rw [hkeyed, List.append_assoc]
    cases serialExists <;> rfl
  rw [hcontroller₁] at h₂
  rw [hstream] at hserved h₂ hfirst hzero
  refine ⟨c, { s₂ with cons := cons' }, ?_, ?_, ?_, hreceiver₂.trans hreceiver₁, ⟨?_, ?_⟩,
    ⟨hfirst, hzero⟩⟩
  · simp only [Inputs.consGetc, hserial, hkbd, hgrab, bind, Except.bind]
    rfl
  · rw [hkeyed] at hkbd'
    simp only [Kern.consGetc, hserial', Kern.kbdIntr, hkbd', hgrab, bind, Except.bind]
  · exact ⟨h₂.keyboard, h₂.driver, h₂.line, hserved, h₂.merged⟩
  · change front s₂.controller = []
    rw [hcontroller₂]
    exact front_behind s₁.controller
  · intro hexists
    change s₂.receiver.register = none
    rw [hreceiver₂, hreceiver₁, Receiver.drained, if_pos hexists]

/-- The next happening only adds to what has arrived and been taken. -/
theorem Accounts.step (h : Accounts cputchar console keys bytes s read heard stream taken)
    (serialExists : Bool) (happening : Happening) :
    ∃ result s' read', s.step cputchar serialExists happening = .ok (result, s') ∧
      Kern.run serialExists s.cons (s.events cputchar serialExists happening) =
        .ok (result, s'.cons) ∧
      Accounts cputchar console (keys ++ arrivedKeys [happening])
        (heard ++ received serialExists s.receiver [happening]) s' read'
        (heard ++ s.receiver.readBy serialExists happening)
        (stream ++ delivered serialExists (s.events cputchar serialExists happening))
        (taken ++ characters result) ∧
      s'.receiver = s.receiver.after serialExists happening ∧
      (happening = .getc → Polled serialExists s') := by
  have hbytes (hdrained : received serialExists s.receiver [happening] =
      s.receiver.register.toList) : heard ++ received serialExists s.receiver [happening] = bytes := by
    rw [hdrained, h.line]
  have hintr : s.receiver.heard serialExists ++ (s.receiver.drained serialExists).register.toList =
      s.receiver.register.toList := by
    cases serialExists
    · rfl
    · exact List.append_nil _
  cases happening with
  | key byte =>
    refine ⟨[], _, read, rfl, rfl, ?_, rfl, by rintro ⟨⟩⟩
    rw [hbytes rfl, Receiver.readBy, characters, List.filter_nil, List.append_nil, Inputs.events,
      delivered, List.flatMap_nil, List.append_nil, List.append_nil]
    refine ⟨?_, h.driver, h.line, h.served, h.merged⟩
    rw [h.keyboard, List.append_assoc]
    rfl
  | line byte =>
    refine ⟨[], _, read, rfl, rfl, ?_, rfl, by rintro ⟨⟩⟩
    rw [Receiver.readBy, characters, List.filter_nil, List.append_nil, Inputs.events,
      delivered, List.flatMap_nil, List.append_nil, List.append_nil]
    refine ⟨?_, h.driver, rfl, h.served, h.merged⟩
    rw [h.keyboard]
    exact List.append_nil _
  | kbdIntr =>
    obtain ⟨s', hrun, hqueue, hnext, -, hreceiver⟩ := h.kbdIntr
    refine ⟨[], s', read ++ front s.controller, ?_, ?_, ?_, hreceiver, by rintro ⟨⟩⟩
    · simp only [Inputs.step, hrun, bind, Except.bind]
      rfl
    · simp only [Inputs.events, Kern.run, Kern.step, hqueue, bind, Except.bind]
      rfl
    · rw [hbytes rfl]
      simpa [arrivedKeys, Receiver.readBy, characters, delivered, Inputs.events, arrivals] using hnext
  | serialIntr =>
    obtain ⟨s', hrun, hqueue, hnext, -, -, hreceiver⟩ := h.serialIntr serialExists
    have hheard : queueIntr (s.receiver.heard serialExists) s.cons = .ok s'.cons := by
      rw [← hqueue]
      cases serialExists <;> rfl
    refine ⟨[], s', read, ?_, ?_, ?_, hreceiver, by rintro ⟨⟩⟩
    · simp only [Inputs.step, hrun, bind, Except.bind]
      rfl
    · simp only [Inputs.events, Kern.run, Kern.step, hheard, bind, Except.bind]
      rfl
    · rw [hbytes hintr]
      simpa [arrivedKeys, Receiver.readBy, characters, delivered, Inputs.events, arrivals] using hnext
  | getc =>
    obtain ⟨c, s', hrun, hqueue, hnext, hreceiver, hpolled, -⟩ := h.getc serialExists
    refine ⟨[c], s', read ++ front s.controller, ?_, ?_, ?_, hreceiver, fun _ => hpolled⟩
    · simp only [Inputs.step, hrun, bind, Except.bind]
      rfl
    · simp only [Inputs.events, Kern.run, Kern.step, hqueue, bind, Except.bind]
      rfl
    · rw [hbytes hintr]
      simpa [arrivedKeys, Receiver.readBy, delivered, Inputs.events] using hnext

theorem Accounts.run (h : Accounts cputchar console keys bytes s read heard stream taken)
    (serialExists : Bool) (happenings : List Happening) :
    ∃ results s', s.run cputchar serialExists happenings = .ok (results, s') ∧
      Kern.run serialExists s.cons (s.trace cputchar serialExists happenings) =
        .ok (results, s'.cons) ∧
      (∃ read' heard', Accounts cputchar console (keys ++ arrivedKeys happenings)
        (heard ++ received serialExists s.receiver happenings) s' read' heard'
        (stream ++ delivered serialExists (s.trace cputchar serialExists happenings))
        (taken ++ characters results) ∧ (serialExists = false → heard' = heard)) ∧
      (happenings.getLast? = some .getc → Polled serialExists s') := by
  induction happenings generalizing s keys bytes read heard stream taken with
  | nil =>
    refine ⟨[], s, rfl, rfl, ⟨read, heard, ?_, fun _ => rfl⟩, by rintro ⟨⟩⟩
    simpa [arrivedKeys, received, ← h.line, characters, Inputs.trace, delivered] using h
  | cons happening happenings ih =>
    obtain ⟨result, next, read₁, hstep, hevents, hnext, hreceiver, hpolled⟩ :=
      h.step serialExists happening
    obtain ⟨results, s', hrun, htrace, ⟨read', heard', hafter, hnone⟩, hlast⟩ := ih hnext
    have hsplit : s.trace cputchar serialExists (happening :: happenings) =
        s.events cputchar serialExists happening ++ next.trace cputchar serialExists happenings := by
      rw [Inputs.trace, hstep]
    refine ⟨result ++ results, s', ?_, ?_, ⟨read', heard', ?_, fun hexists => ?_⟩, ?_⟩
    · simp only [Inputs.run, hstep, hrun, bind, Except.bind]
      rfl
    · simp only [hsplit, run_append, hevents, htrace, bind, Except.bind]
      rfl
    · rw [arrivedKeys_cons, characters_append, hsplit, delivered, List.flatMap_append, received,
        ← hreceiver, ← List.append_assoc, ← List.append_assoc, ← List.append_assoc,
        ← List.append_assoc]
      exact hafter
    · rw [hnone hexists, hexists]
      cases happening <;> exact List.append_nil heard
    · cases happenings with
      | nil =>
        intro hgetc
        cases hrun
        exact hpolled (Option.some.inj hgetc)
      | cons second rest => exact hlast

theorem Accounts.drain (h : Accounts cputchar console keys bytes s read heard stream taken)
    {serialExists : Bool} (hpolled : Polled serialExists s) (n : Nat) :
    ∃ results s', s.run cputchar serialExists (List.replicate n .getc) = .ok (results, s') ∧
      Accounts cputchar console keys bytes s' read heard stream (taken ++ characters results) ∧
      Polled serialExists s' ∧
      waiting stream taken = characters results ++ waiting stream (taken ++ characters results) ∧
      (waiting stream (taken ++ characters results)).length = (waiting stream taken).length - n := by
  induction n generalizing s taken with
  | zero =>
    refine ⟨[], s, rfl, (List.append_nil taken).symm ▸ h, hpolled, ?_, ?_⟩
    · simp [characters]
    · simp [characters]
  | succ n ih =>
    obtain ⟨c, next, hgetc, -, hnext, -, hpolled₁, htakes⟩ := h.getc serialExists
    have hunheard : s.receiver.heard serialExists = [] := by
      cases hexists : serialExists with
      | false => rfl
      | true => exact congrArg Option.toList (hpolled.line hexists)
    have hnothing : stream ++ arrivals serialExists
        (.getc s.receiver.register.toList (s.keyed cputchar)) = stream := by
      have hkeyed : s.keyed cputchar = [] := by rw [Inputs.keyed, hpolled.keyboard]; rfl
      cases hexists : serialExists with
      | false => rw [hkeyed]; exact List.append_nil stream
      | true => rw [hkeyed, hpolled.line hexists]; exact List.append_nil stream
    rw [hnothing, hunheard, hpolled.keyboard, List.append_nil, List.append_nil] at hnext
    rw [hnothing] at htakes
    obtain ⟨results, s', hrun, hlast, hpolled', hwaiting, hlength⟩ := ih hnext hpolled₁
    have hstep : s.step cputchar serialExists .getc = .ok ([c], next) := by
      simp only [Inputs.step, hgetc, bind, Except.bind]
      rfl
    have hresults : taken ++ characters [c] ++ characters results =
        taken ++ characters ([c] ++ results) := by rw [characters_append, List.append_assoc]
    rw [hresults] at hlast hwaiting hlength
    refine ⟨[c] ++ results, s', ?_, hlast, hpolled', ?_, ?_⟩
    · simp only [List.replicate_succ, Inputs.run, hstep, hrun, bind, Except.bind]
      rfl
    · rw [htakes.first, hwaiting, characters_append, List.append_assoc]
    · have hhead := congrArg List.length htakes.first
      rw [List.length_append] at hhead
      by_cases hzero : c = 0
      · rw [htakes.zero hzero] at hhead ⊢
        simp only [List.length_nil] at hhead ⊢
        omega
      · have hone : (characters [c]).length = 1 := by simp [characters, hzero]
        omega

theorem run_join {s next s' : Inputs σ} {serialExists : Bool} {left right : List Happening}
    {results more : List UInt8} (hleft : s.run cputchar serialExists left = .ok (results, next))
    (hright : next.run cputchar serialExists right = .ok (more, s')) :
    s.run cputchar serialExists (left ++ right) = .ok (results ++ more, s') := by
  induction left generalizing s results with
  | nil =>
    cases hleft
    exact hright
  | cons happening left ih =>
    obtain ⟨⟨result, after⟩, hstep, hleft⟩ := exists_of_bind_eq_ok hleft
    obtain ⟨⟨others, last⟩, hothers, hresults⟩ := exists_of_bind_eq_ok hleft
    cases hresults
    simp only [List.cons_append, Inputs.run, hstep, ih hothers, bind, Except.bind,
      List.append_assoc]
    rfl

end

theorem length_waiting_lt (stream taken : List UInt8) :
    (waiting stream taken).length < consBufSize := by
  have hmod : (stream.length - taken.length) % consBufSize < consBufSize :=
    Nat.mod_lt _ (by decide)
  rw [waiting, List.length_drop]
  omega

theorem inputs_drained {σ : Type} {cputchar : Int → σ → σ} (console : σ) (status : UInt8)
    {serialExists : Bool} {happenings : List Happening}
    (hlast : happenings.getLast? = some .getc)
    (hfits : fits serialExists 0 ((Inputs.boot console status).trace cputchar serialExists
      happenings)) :
    ∃ results s read heard,
      (Inputs.boot console status).run cputchar serialExists
        (happenings ++ List.replicate consBufSize .getc) = .ok (results, s) ∧
      Accounts cputchar console (arrivedKeys happenings)
        (received serialExists ⟨status, none⟩ happenings) s read heard
        (characters results) (characters results) ∧
      Polled serialExists s ∧ (serialExists = false → heard = []) := by
  obtain ⟨results, s, hrun, htrace, ⟨read, heard, haccounts, hnone⟩, hpolled⟩ :=
    (Accounts.boot console status : Accounts cputchar console _ _ _ _ _ _ _).run serialExists
      happenings
  simp only [List.nil_append] at haccounts
  obtain ⟨more, s', hmore, hlater, hpolled', hwaiting, hlength⟩ :=
    haccounts.drain (hpolled hlast) consBufSize
  have hall := haccounts.served.complete_iff.mpr
    ((fits_iff .zeroed serialExists _ 0 rfl (by decide)).mpr hfits _ (List.prefix_refl _) results
      s.cons htrace)
  generalize delivered serialExists _ = stream at haccounts hlater hwaiting hlength hall
  have hempty : waiting stream (characters results ++ characters more) = [] := by
    have hlt := length_waiting_lt stream (characters results)
    exact List.length_eq_zero_iff.mp (by omega)
  rw [hempty, List.append_nil] at hwaiting
  rw [hwaiting, ← characters_append] at hall
  rw [← characters_append, ← hall] at hlater
  exact ⟨results ++ more, s', read, heard, run_join hrun hmore, hlater, hpolled', hnone⟩

/-! ### `getchar`, which polls until there is a character -/

section
variable {σ : Type} (cputchar : Int → σ → σ) (serialExists : Bool)

end

/-- What the two devices deliver reaches the callers of `cons_getc` as one
stream, in which each device keeps its order: on any schedule the drivers and
the buffer refine the buffer alone, every character comes from a byte that has
arrived, and none is lost as long as the buffer has room and each byte of the line
is read before the next one arrives. -/
theorem inputs_refine {σ : Type} (cputchar : Int → σ → σ) (console : σ) (status : UInt8)
    (serialExists : Bool) (happenings : List Happening) :
    (∃ results s read heard stream,
      (Inputs.boot console status).run cputchar serialExists happenings = .ok (results, s) ∧
      Kern.run serialExists .zeroed
        ((Inputs.boot console status).trace cputchar serialExists happenings) =
          .ok (results, s.cons) ∧
      Accounts cputchar console (arrivedKeys happenings)
        (received serialExists ⟨status, none⟩ happenings) s read heard stream
        (characters results) ∧
      (serialExists = false → heard = []) ∧
      (happenings.getLast? = some .getc → Polled serialExists s) ∧
      (characters results).Sublist stream ∧
      (fits serialExists 0 ((Inputs.boot console status).trace cputchar serialExists happenings) →
        characters results ++ waiting stream (characters results) = stream)) ∧
    (received serialExists ⟨status, none⟩ happenings).Sublist (arrivedBytes happenings) ∧
    (paced serialExists ⟨status, none⟩ happenings →
      received serialExists ⟨status, none⟩ happenings = arrivedBytes happenings) := by
  refine ⟨?_, received_sublist serialExists ⟨status, none⟩ happenings, received_paced⟩
  obtain ⟨results, s, hrun, htrace, ⟨read, heard, haccounts, hnone⟩, hpolled⟩ :=
    (Accounts.boot console status : Accounts cputchar console _ _ _ _ _ _ _).run serialExists
      happenings
  simp only [List.nil_append] at haccounts
  refine ⟨results, s, read, heard, _, hrun, htrace, haccounts, hnone, hpolled,
    haccounts.served.serves.sublist_stream, fun hfits => ?_⟩
  apply haccounts.served.complete_iff.mpr
  exact (fits_iff .zeroed serialExists _ 0 rfl (by decide)).mpr hfits _ (List.prefix_refl _) results
    s.cons htrace

end JosKernel.Kern
