import JosKernel.General.Loop
import JosKernel.General.Ring
import JosKernel.Inc.Types

/-! The input half of `kern/console.c`: the device interrupts that fill the
circular buffer `cons` and `cons_getc`, which empties it. -/
namespace JosKernel.Kern
open JosKernel.Inc JosKernel.General

def consBufSize : Nat := 512

structure Cons where
  buf : List UInt8
  rpos : UInt32
  wpos : UInt32

def Cons.zeroed : Cons := ⟨List.replicate consBufSize 0, 0, 0⟩

def wrap (pos : UInt32) : UInt32 := if pos.toNat = consBufSize then 0 else pos

def consIntrRound (proc : δ → Option UInt8 × δ) : δ × Cons → Except Fault ((δ × Cons) ⊕ (δ × Cons))
  | (device, cons) =>
    match proc device with
    | (none, device) => return .inr (device, cons)
    | (some c, device) => do
      if c = 0 then return .inl (device, cons)
      let buf ← store cons.buf cons.wpos.toNat c
      return .inl (device, ⟨buf, cons.rpos, wrap (cons.wpos + 1)⟩)

/-- `cons_intr` on a driver procedure that has a character, possibly 0, or `-1`
(`none`) when its device has no more data. -/
def consIntr (proc : δ → Option UInt8 × δ) (bound : Nat) (device : δ) (cons : Cons) :
    Except Fault (δ × Cons) :=
  Loop.run .unfinished (consIntrRound proc) (bound + 1) (device, cons)

def queueProc : List UInt8 → Option UInt8 × List UInt8
  | [] => (none, [])
  | c :: rest => (some c, rest)

def queueIntr (queue : List UInt8) (cons : Cons) : Except Fault Cons := do
  let (_, cons) ← consIntr queueProc queue.length queue cons
  return cons

inductive Yields (proc : δ → Option UInt8 × δ) : δ → List UInt8 → δ → Prop where
  | here (device : δ) : Yields proc device [] device
  | next {device next last : δ} {c : UInt8} {items : List UInt8}
      (call : proc device = (some c, next)) (more : Yields proc next items last) :
      Yields proc device (c :: items) last

def serialIntr (serialExists : Bool) (queue : List UInt8) (cons : Cons) : Except Fault Cons :=
  if serialExists then queueIntr queue cons else .ok cons

def kbdIntr (queue : List UInt8) (cons : Cons) : Except Fault Cons := queueIntr queue cons

def grab (cons : Cons) : Except Fault (UInt8 × Cons) := do
  if cons.rpos ≠ cons.wpos then
    let c ← load cons.buf cons.rpos.toNat
    return (c, ⟨cons.buf, wrap (cons.rpos + 1), cons.wpos⟩)
  return (0, cons)

def consGetc (serialExists : Bool) (serial kbd : List UInt8) (cons : Cons) :
    Except Fault (UInt8 × Cons) := do
  -- the devices are polled, so that input arrives with interrupts disabled too
  let cons ← serialIntr serialExists serial cons
  let cons ← kbdIntr kbd cons
  grab cons

def iscons (_fdnum : Int) : Int := 1

/-- What happens to the buffer: a device interrupt, or a call of `cons_getc`
that finds the given data at the devices. -/
inductive Event where
  | intr (queue : List UInt8)
  | getc (serial kbd : List UInt8)
  deriving Repr

section
variable (serialExists : Bool)

def step (cons : Cons) : Event → Except Fault (List UInt8 × Cons)
  | .intr queue => do
    let cons ← queueIntr queue cons
    return ([], cons)
  | .getc serial kbd => do
    let (c, cons) ← consGetc serialExists serial kbd cons
    return ([c], cons)

def run (cons : Cons) : List Event → Except Fault (List UInt8 × Cons)
  | [] => .ok ([], cons)
  | event :: events => do
    let (result, cons) ← step serialExists cons event
    let (results, cons) ← run cons events
    return (result ++ results, cons)

end

def characters (bytes : List UInt8) : List UInt8 := bytes.filter (· ≠ 0)

def arrivals (serialExists : Bool) : Event → List UInt8
  | .intr queue => characters queue
  | .getc serial kbd =>
    (if serialExists then characters serial else []) ++ characters kbd

def delivered (serialExists : Bool) (events : List Event) : List UInt8 :=
  events.flatMap (arrivals serialExists)

def Cons.ring (cons : Cons) : General.Ring UInt8 := ⟨cons.buf, cons.rpos.toNat, cons.wpos.toNat⟩

/-- `stream` has been stored in the buffer and `taken` has been returned. -/
structure Served (cons : Cons) (stream taken : List UInt8) : Prop where
  size : cons.buf.length = consBufSize
  serves : Ring.Serves cons.ring stream taken
  nonzero : ∀ c ∈ stream, c ≠ 0

/-- The characters that wait in the buffer: the latest ones, as many as the
numbers of stored and returned characters differ by, modulo its size. -/
def waiting (stream taken : List UInt8) : List UInt8 :=
  stream.drop (stream.length - (stream.length - taken.length) % consBufSize)

theorem wrap_toNat {pos : UInt32} (h : pos.toNat < consBufSize) :
    (wrap (pos + 1)).toNat = Ring.advance consBufSize pos.toNat := by
  have hnext : (pos + 1).toNat = pos.toNat + 1 := by
    unfold consBufSize at h
    have hlt : pos.toNat + 1 < 2 ^ 32 := by omega
    rw [UInt32.toNat_add, UInt32.toNat_one, Nat.mod_eq_of_lt hlt]
  unfold wrap Ring.advance
  rw [hnext]
  split
  · rfl
  · exact hnext

theorem Served.zeroed : Served .zeroed [] [] where
  size := List.length_replicate
  serves := Ring.Serves.empty (by unfold Cons.zeroed; rw [List.length_replicate]; decide)
  nonzero := by
    intro c hc
    cases hc

def stash (c : UInt8) (cons : Cons) : Except Fault Cons :=
  if c = 0 then .ok cons
  else do
    let buf ← store cons.buf cons.wpos.toNat c
    return ⟨buf, cons.rpos, wrap (cons.wpos + 1)⟩

theorem consIntr_next {proc : δ → Option UInt8 × δ} {device next : δ} {c : UInt8}
    (hproc : proc device = (some c, next)) (bound : Nat) (cons : Cons) :
    consIntr proc (bound + 1) device cons = stash c cons >>= consIntr proc bound next := by
  unfold consIntr
  rw [Loop.run]
  unfold consIntrRound stash
  simp only [hproc]
  by_cases hzero : c = 0
  · rw [if_pos hzero, if_pos hzero]
    rfl
  · rw [if_neg hzero, if_neg hzero]
    cases store cons.buf cons.wpos.toNat c <;> rfl

theorem queueIntr_cons (c : UInt8) (items : List UInt8) (cons : Cons) :
    queueIntr (c :: items) cons = stash c cons >>= queueIntr items := by
  unfold queueIntr
  rw [List.length_cons, @consIntr_next _ queueProc (c :: items) items c rfl]
  cases stash c cons <;> rfl

section
variable {cons : Cons} {stream taken : List UInt8}

theorem Served.rpos_lt (h : Served cons stream taken) : cons.rpos.toNat < consBufSize :=
  h.size ▸ h.serves.tracks.rpos_lt

theorem Served.wpos_lt (h : Served cons stream taken) : cons.wpos.toNat < consBufSize :=
  h.size ▸ h.serves.tracks.wpos_lt

theorem stash_served (h : Served cons stream taken) (c : UInt8) :
    ∃ cons', stash c cons = .ok cons' ∧ Served cons' (stream ++ characters [c]) taken := by
  unfold stash characters
  by_cases hzero : c = 0
  · refine ⟨cons, if_pos hzero, ?_⟩
    simpa [hzero] using h
  · have hstore : store cons.buf cons.wpos.toNat c = .ok (cons.buf.set cons.wpos.toNat c) :=
      if_pos (h.size ▸ h.wpos_lt)
    rw [if_neg hzero, hstore]
    refine ⟨_, rfl, List.length_set.trans h.size, ?_, ?_⟩
    · have hring := h.serves.push c
      simpa [Cons.ring, Ring.push, h.size, wrap_toNat h.wpos_lt, hzero] using hring
    · intro b hb
      rcases List.mem_append.mp hb with hb | hb
      · exact h.nonzero b hb
      · simpa using (List.mem_filter.mp hb).2

theorem queueIntr_served (h : Served cons stream taken) (queue : List UInt8) :
    ∃ cons', queueIntr queue cons = .ok cons' ∧
      Served cons' (stream ++ characters queue) taken := by
  induction queue generalizing cons stream with
  | nil => exact ⟨cons, rfl, by simpa [characters] using h⟩
  | cons c queue ih =>
    obtain ⟨stored, hstash, hstored⟩ := stash_served h c
    obtain ⟨cons', hqueue, hserved⟩ := ih hstored
    refine ⟨cons', ?_, ?_⟩
    · rw [queueIntr_cons, hstash]
      exact hqueue
    · rw [List.append_assoc, characters, characters, ← List.filter_append] at hserved
      exact hserved

/-- `cons_intr` on any driver is `cons_intr` on the data that it hands over. -/
theorem consIntr_yields {proc : δ → Option UInt8 × δ} {device last : δ} {items : List UInt8}
    (h : Yields proc device items last) {rest : δ} (hlast : proc last = (none, rest)) {bound : Nat}
    (hbound : items.length ≤ bound) (cons : Cons) :
    consIntr proc bound device cons = (queueIntr items cons).map fun cons => (rest, cons) := by
  induction h generalizing bound cons with
  | here device =>
    have hround : consIntrRound proc (device, cons) = .ok (.inr (rest, cons)) := by
      simp only [consIntrRound, hlast]
      rfl
    exact Loop.run_done hround bound
  | @next device next last c items call more ih =>
    obtain ⟨bound, rfl⟩ : ∃ left, bound = left + 1 :=
      ⟨bound - 1, by rw [List.length_cons] at hbound; omega⟩
    rw [consIntr_next call, queueIntr_cons]
    cases stash c cons with
    | error e => rfl
    | ok stored => exact ih hlast (Nat.le_of_succ_le_succ hbound) stored

structure Cons.Sized (cons : Cons) : Prop where
  size : cons.buf.length = consBufSize
  wpos_lt : cons.wpos.toNat < consBufSize

theorem Served.sized (h : Served cons stream taken) : cons.Sized := ⟨h.size, h.wpos_lt⟩

theorem stash_sized (h : cons.Sized) (c : UInt8) :
    ∃ cons', stash c cons = .ok cons' ∧ cons'.Sized := by
  unfold stash
  by_cases hzero : c = 0
  · exact ⟨cons, if_pos hzero, h⟩
  · have hstore := store_eq (h.size.symm ▸ h.wpos_lt : cons.wpos.toNat < cons.buf.length) c
    rw [if_neg hzero, hstore]
    refine ⟨_, rfl, List.length_set.trans h.size, ?_⟩
    rw [wrap_toNat h.wpos_lt]
    exact Ring.advance_lt h.wpos_lt

theorem queueIntr_sized (h : cons.Sized) (items : List UInt8) :
    ∃ cons', queueIntr items cons = .ok cons' ∧ cons'.Sized := by
  induction items generalizing cons with
  | nil => exact ⟨cons, rfl, h⟩
  | cons c items ih =>
    obtain ⟨stored, hstash, hstored⟩ := stash_sized h c
    obtain ⟨cons', hqueue, hsized⟩ := ih hstored
    exact ⟨cons', by rw [queueIntr_cons, hstash]; exact hqueue, hsized⟩

theorem grab_served (h : Served cons stream taken) :
    ∃ c cons', grab cons = .ok (c, cons') ∧ Served cons' stream (taken ++ characters [c]) ∧
      waiting stream taken = characters [c] ++ waiting stream (taken ++ characters [c]) ∧
      (c = 0 → waiting stream taken = []) := by
  unfold grab
  by_cases hmeet : cons.rpos = cons.wpos
  · refine ⟨0, cons, by rw [if_neg (not_not_intro hmeet)]; rfl, ?_, ?_, ?_⟩
    · simpa [characters] using h
    · simp [characters]
    · intro _
      have hempty := h.serves.tracks.meet_iff.mp (congrArg UInt32.toNat hmeet)
      rw [← Ring.length_waiting] at hempty
      change (Ring.waiting cons.buf.length stream taken.length).length = 0 at hempty
      rw [h.size] at hempty
      exact List.length_eq_zero_iff.mp hempty
  · have hne : cons.ring.rpos ≠ cons.ring.wpos := fun heq => hmeet (UInt32.toNat_inj.mp heq)
    obtain ⟨c, hcell, hserves, hwaiting⟩ := h.serves.pop hne
    change cons.buf[cons.rpos.toNat]? = some c at hcell
    change Ring.waiting cons.buf.length stream taken.length =
      c :: Ring.waiting cons.buf.length stream (taken ++ [c]).length at hwaiting
    rw [h.size] at hwaiting
    have hmem : c ∈ stream := by
      apply List.mem_of_mem_drop
      change c ∈ Ring.waiting consBufSize stream taken.length
      rw [hwaiting]
      exact List.mem_cons_self
    have hchar : characters [c] = [c] := by simp [characters, h.nonzero c hmem]
    rw [if_pos hmeet, load, hcell]
    refine ⟨c, _, rfl, ⟨h.size, ?_, h.nonzero⟩, ?_, ?_⟩
    · rw [hchar]
      simpa [Cons.ring, Ring.pop, h.size, wrap_toNat h.rpos_lt] using hserves
    · rw [hchar]
      exact hwaiting
    · intro hzero
      exact absurd hzero (h.nonzero c hmem)

theorem serialIntr_served (h : Served cons stream taken) (serialExists : Bool) (queue : List UInt8) :
    ∃ cons', serialIntr serialExists queue cons = .ok cons' ∧
      Served cons' (stream ++ if serialExists then characters queue else []) taken := by
  cases serialExists with
  | true => exact queueIntr_served h queue
  | false => exact ⟨cons, rfl, by simpa using h⟩

def Event.takes : Event → Nat
  | .intr _ => 0
  | .getc _ _ => 1

theorem step_served (h : Served cons stream taken) (serialExists : Bool) (event : Event) :
    ∃ result cons', step serialExists cons event = .ok (result, cons') ∧
      Served cons' (stream ++ arrivals serialExists event) (taken ++ characters result) ∧
      (characters result).length =
        if Ring.backlog consBufSize (stream ++ arrivals serialExists event) taken.length = 0 then 0
        else event.takes := by
  cases event with
  | intr queue =>
    obtain ⟨cons', hrun, hserved⟩ := queueIntr_served h queue
    refine ⟨[], cons', by rw [step, hrun]; rfl, ?_, ?_⟩
    · rw [arrivals]
      simpa [characters] using hserved
    · simp [characters, Event.takes]
  | getc serial kbd =>
    obtain ⟨cons₁, hserial, h₁⟩ := serialIntr_served h serialExists serial
    obtain ⟨cons₂, hkbd, h₂⟩ := queueIntr_served h₁ kbd
    rw [List.append_assoc] at h₂
    obtain ⟨c, cons', hgrab, hserved, hwaiting, hnone⟩ := grab_served h₂
    refine ⟨[c], cons', ?_, hserved, ?_⟩
    · simp only [step, consGetc, kbdIntr, hserial, hkbd, hgrab, bind, Except.bind]
      rfl
    · rw [arrivals, ← Ring.length_waiting]
      change _ = if (waiting _ taken).length = 0 then 0 else _
      by_cases hzero : c = 0
      · rw [hnone hzero]
        simp [hzero, characters]
      · rw [hwaiting]
        simp [hzero, characters, Event.takes]

theorem run_served (h : Served cons stream taken) (serialExists : Bool) (events : List Event) :
    ∃ results cons', run serialExists cons events = .ok (results, cons') ∧
      Served cons' (stream ++ delivered serialExists events) (taken ++ characters results) := by
  induction events generalizing cons stream taken with
  | nil => exact ⟨[], cons, rfl, by simpa [delivered, characters] using h⟩
  | cons event events ih =>
    obtain ⟨result, next, hstep, hnext, -⟩ := step_served h serialExists event
    obtain ⟨results, cons', hrun, hserved⟩ := ih hnext
    refine ⟨result ++ results, cons', ?_, ?_⟩
    · simp only [run, hstep, hrun, bind, Except.bind]
      rfl
    · rw [List.append_assoc, List.append_assoc] at hserved
      rw [delivered, List.flatMap_cons, characters, List.filter_append]
      exact hserved

def Unread (serialExists : Bool) (cons : Cons) (rest : List UInt8) : Prop :=
  ∀ n, ∃ cons', run serialExists cons (List.replicate n (.getc [] [])) =
    .ok (rest.take n ++ List.replicate (n - rest.length) 0, cons')

theorem Served.unread (h : Served cons stream taken) (serialExists : Bool) :
    Unread serialExists cons (waiting stream taken) := by
  intro n
  induction n generalizing cons taken with
  | zero => exact ⟨cons, by simp [run]⟩
  | succ n ih =>
    obtain ⟨c, next, hgrab, hnext, hwaiting, hnone⟩ := grab_served h
    obtain ⟨cons', hrun⟩ := ih hnext
    have hstep : step serialExists cons (.getc [] []) = .ok ([c], next) := by
      have hpoll : serialIntr serialExists [] cons = .ok cons := by cases serialExists <;> rfl
      have hkbd : kbdIntr [] cons = .ok cons := rfl
      simp only [step, consGetc, hpoll, hkbd, hgrab, bind, Except.bind]
      rfl
    refine ⟨cons', ?_⟩
    simp only [List.replicate_succ, run, hstep, hrun, bind, Except.bind, pure, Except.pure]
    by_cases hzero : c = 0
    · have hempty := hnone hzero
      have hrest : waiting stream (taken ++ characters [c]) = [] := by
        rw [hwaiting] at hempty
        exact (List.append_eq_nil_iff.mp hempty).2
      rw [hempty, hrest, hzero]
      simp [List.replicate_succ]
    · rw [hwaiting]
      simp [characters, hzero]

theorem Unread.unique {serialExists : Bool} {left right : List UInt8}
    (hleft : Unread serialExists cons left) (hright : Unread serialExists cons right)
    (hl : ∀ c ∈ left, c ≠ 0) (hr : ∀ c ∈ right, c ≠ 0) : left = right := by
  obtain ⟨_, hrunl⟩ := hleft (left.length + right.length)
  obtain ⟨_, hrunr⟩ := hright (left.length + right.length)
  rw [hrunl] at hrunr
  have hpadded := congrArg characters (congrArg Prod.fst (Except.ok.inj hrunr))
  dsimp only at hpadded
  rw [List.take_of_length_le (by omega), List.take_of_length_le (by omega), characters, characters,
    List.filter_append, List.filter_append, List.filter_replicate_of_neg (by decide),
    List.filter_replicate_of_neg (by decide), List.append_nil, List.append_nil,
    List.filter_eq_self.mpr (by simpa using hl), List.filter_eq_self.mpr (by simpa using hr)] at hpadded
  exact hpadded

theorem Served.complete_iff (h : Served cons stream taken) :
    taken ++ waiting stream taken = stream ↔ stream.length < taken.length + consBufSize := by
  have hring := h.serves.complete_iff
  change _ ++ Ring.waiting cons.buf.length _ _ = _ ↔ _ < _ + cons.buf.length at hring
  rw [h.size] at hring
  exact hring

end

def returned (serialExists : Bool) (events : List Event) : List UInt8 :=
  match run serialExists .zeroed events with
  | .ok (results, _) => characters results
  | .error _ => []

/-- Every run from the zeroed state ends, and the state it ends in serves the
characters it delivered. -/
theorem run_zeroed (serialExists : Bool) (events : List Event) :
    ∃ results cons, run serialExists .zeroed events = .ok (results, cons) ∧
      returned serialExists events = characters results ∧
      Served cons (delivered serialExists events) (characters results) := by
  obtain ⟨results, cons, hrun, hserved⟩ := run_served .zeroed serialExists events
  exact ⟨results, cons, hrun, by rw [returned, hrun], hserved⟩

theorem run_append (serialExists : Bool) (cons : Cons) (before after : List Event) :
    run serialExists cons (before ++ after) = do
      let (results, cons) ← run serialExists cons before
      let (more, cons) ← run serialExists cons after
      return (results ++ more, cons) := by
  induction before generalizing cons with
  | nil =>
    simp only [List.nil_append, run, bind, Except.bind]
    cases run serialExists cons after <;> rfl
  | cons event before ih =>
    simp only [List.cons_append, run, ih, bind, Except.bind]
    cases step serialExists cons event with
    | error e => rfl
    | ok p =>
      dsimp only
      cases run serialExists p.2 before with
      | error e => rfl
      | ok q =>
        dsimp only [pure, Except.pure]
        cases run serialExists q.2 after with
        | error e => rfl
        | ok r => simp only [List.append_assoc]

theorem returned_grows (serialExists : Bool) (before after : List Event) :
    returned serialExists before <+: returned serialExists (before ++ after) := by
  obtain ⟨results, cons, hrun, hreturned, hserved⟩ := run_zeroed serialExists before
  obtain ⟨more, cons', hmore, -⟩ := run_served hserved serialExists after
  rw [hreturned, returned, run_append, hrun]
  simp only [hmore, bind, Except.bind, pure, Except.pure, characters, List.filter_append]
  exact List.prefix_append _ _

/-- Both cursors stay in the buffer, and what waits in it are the latest
arrivals, as many as the cursors can tell. -/
theorem cons_ring_exact_content (serialExists : Bool) (events : List Event) :
    ∃ results cons, run serialExists .zeroed events = .ok (results, cons) ∧
      cons.rpos < 512 ∧ cons.wpos < 512 ∧
      Unread serialExists cons (waiting (delivered serialExists events) (characters results)) ∧
      (characters results).Sublist (delivered serialExists events) ∧
      ((∀ before event after, events = before ++ event :: after →
          (delivered serialExists (before ++ [event])).length ≤
            (returned serialExists before).length + 511) →
        characters results ++ waiting (delivered serialExists events) (characters results) =
          delivered serialExists events) := by
  obtain ⟨results, cons, hrun, hreturned, h⟩ := run_zeroed serialExists events
  refine ⟨results, cons, hrun, h.rpos_lt, h.wpos_lt, h.unread serialExists,
    h.serves.sublist_stream, fun hbacklog => ?_⟩
  apply h.complete_iff.mpr
  rw [← hreturned]
  rcases List.eq_nil_or_concat events with hnil | ⟨before, event, hconcat⟩
  · subst hnil
    simp [delivered, consBufSize]
  · rw [List.concat_eq_append] at hconcat
    have hlast := hbacklog before event [] hconcat
    have hprefix := (returned_grows serialExists before [event]).length_le
    rw [← hconcat] at hlast hprefix
    unfold consBufSize
    omega

/-- No stored character is lost: those that have been returned and those that
further calls return are all that was stored, in order. `cons_intr` refuses no
character, so the stored ones are the delivered ones. -/
def Intact (serialExists : Bool) (events : List Event) : Prop :=
  ∃ results cons rest, run serialExists .zeroed events = .ok (results, cons) ∧
    Unread serialExists cons rest ∧ characters results ++ rest = delivered serialExists events

theorem intact_iff (serialExists : Bool) (events : List Event) :
    Intact serialExists events ↔
      (delivered serialExists events).length < (returned serialExists events).length + consBufSize := by
  obtain ⟨results, cons, hrun, hreturned, h⟩ := run_zeroed serialExists events
  rw [hreturned, ← h.complete_iff]
  constructor
  · rintro ⟨results', cons', rest, hrun', hunread, hall⟩
    rw [hrun] at hrun'
    cases hrun'
    have hrest : rest = waiting (delivered serialExists events) (characters results) := by
      refine hunread.unique (h.unread serialExists) ?_ ?_
      · exact fun c hc => h.nonzero c (hall ▸ List.mem_append_right _ hc)
      · exact fun c hc => h.nonzero c (List.mem_of_mem_drop hc)
    rw [← hrest]
    exact hall
  · intro hall
    exact ⟨results, cons, _, hrun, h.unread serialExists, hall⟩

/-- No character arrives while one less than the size of the buffer wait.
`count` characters wait before the events. -/
def fits (serialExists : Bool) (count : Nat) : List Event → Prop
  | [] => True
  | event :: events =>
    count + (arrivals serialExists event).length < consBufSize ∧
      fits serialExists (count + (arrivals serialExists event).length - event.takes) events

theorem step_outstanding {cons cons' : Cons} {stream taken result : List UInt8}
    (h : Served cons stream taken) {serialExists : Bool} {event : Event} {count : Nat}
    (hcount : stream.length = taken.length + count)
    (hstep : step serialExists cons event = .ok (result, cons')) :
    let arrived := count + (arrivals serialExists event).length
    (arrived < consBufSize → (stream ++ arrivals serialExists event).length =
      (taken ++ characters result).length + (arrived - event.takes)) ∧
    (consBufSize ≤ arrived → (taken ++ characters result).length + consBufSize ≤
      (stream ++ arrivals serialExists event).length) := by
  obtain ⟨result', cons'', hstep', -, hlength⟩ := step_served h serialExists event
  rw [hstep] at hstep'
  cases hstep'
  have harrived : (stream ++ arrivals serialExists event).length - taken.length =
      count + (arrivals serialExists event).length := by
    rw [List.length_append]
    omega
  have htakes : event.takes ≤ 1 := by cases event <;> simp [Event.takes]
  rw [Ring.backlog, harrived] at hlength
  rw [List.length_append, List.length_append]
  refine ⟨fun hfits => ?_, fun hfull => ?_⟩
  · rw [Nat.mod_eq_of_lt hfits] at hlength
    split at hlength <;> omega
  · by_cases heq : count + (arrivals serialExists event).length = consBufSize
    · rw [heq, Nat.mod_self, if_pos rfl] at hlength
      omega
    · split at hlength <;> omega

theorem fits_iff {cons : Cons} {stream taken : List UInt8} (h : Served cons stream taken)
    (serialExists : Bool) (events : List Event) (count : Nat)
    (hcount : stream.length = taken.length + count) (hfits : count < consBufSize) :
    (∀ before, before <+: events → ∀ results cons', run serialExists cons before = .ok (results, cons') →
      (stream ++ delivered serialExists before).length <
        (taken ++ characters results).length + consBufSize) ↔
    fits serialExists count events := by
  induction events generalizing cons stream taken count with
  | nil =>
    simp only [List.prefix_nil, fits, iff_true]
    rintro before rfl results cons' hrun
    cases hrun
    simp [delivered, characters]
    omega
  | cons event events ih =>
    obtain ⟨result, next, hstep, hnext, -⟩ := step_served h serialExists event
    obtain ⟨hroom, hfull⟩ := step_outstanding h hcount hstep
    have hafter : ∀ rest results cons', run serialExists next rest = .ok (results, cons') →
        run serialExists cons (event :: rest) = .ok (result ++ results, cons') ∧
        stream ++ delivered serialExists (event :: rest) =
          stream ++ arrivals serialExists event ++ delivered serialExists rest ∧
        taken ++ characters (result ++ results) =
          taken ++ characters result ++ characters results := by
      intro rest results cons' hrun
      simp only [run, hstep, hrun, bind, Except.bind, pure, Except.pure, delivered,
        List.flatMap_cons, characters, List.filter_append, List.append_assoc, and_self]
    constructor
    · intro hall
      have hevent : count + (arrivals serialExists event).length < consBufSize := by
        apply Nat.lt_of_not_le
        intro hover
        obtain ⟨hrun, hstream, htaken⟩ := hafter [] [] next rfl
        have hlt := hall [event] (List.prefix_append [event] events) _ _ hrun
        rw [hstream, htaken] at hlt
        have hle := hfull hover
        simp [delivered, characters] at hlt hle
        omega
      refine ⟨hevent, (ih hnext _ (hroom hevent) (by omega)).mp ?_⟩
      intro before hbefore results cons' hrun
      obtain ⟨hrun', hstream, htaken⟩ := hafter before results cons' hrun
      have hlt := hall (event :: before) ((List.prefix_cons_inj event).mpr hbefore) _ _ hrun'
      rw [hstream, htaken] at hlt
      exact hlt
    · rintro ⟨hevent, hevents⟩ before hbefore results cons' hrun
      rcases List.prefix_cons_iff.mp hbefore with hnil | ⟨rest, hcons, hrest⟩
      · subst hnil
        cases hrun
        simp [delivered, characters]
        omega
      · subst hcons
        obtain ⟨more, last, hmore, -⟩ := run_served hnext serialExists rest
        obtain ⟨hrun', hstream, htaken⟩ := hafter rest more last hmore
        rw [hrun] at hrun'
        cases hrun'
        rw [hstream, htaken]
        exact (ih hnext _ (hroom hevent) (by omega)).mpr hevents rest hrest more _ hmore

/-- No stored character is ever lost exactly in the runs in which no character
arrives while 511 of them wait. -/
theorem cons_input_intact_iff_fits (serialExists : Bool) (events : List Event) :
    (∀ before, before <+: events → Intact serialExists before) ↔ fits serialExists 0 events := by
  rw [← fits_iff .zeroed serialExists events 0 rfl (by decide)]
  constructor
  · intro hall before hbefore results cons hrun
    have hlt := (intact_iff serialExists before).mp (hall before hbefore)
    rw [returned, hrun] at hlt
    exact hlt
  · intro hall before hbefore
    obtain ⟨results, cons, hrun, hreturned, -⟩ := run_zeroed serialExists before
    rw [intact_iff, hreturned]
    exact hall before hbefore results cons hrun

/-- 512 keystrokes in a row leave the cursors as they were: all are lost. -/
theorem cons_input_not_intact : ¬∀ serialExists events, Intact serialExists events := by
  have hkeys : ∀ count, Intact false [.intr (List.replicate count 97)] → count < consBufSize := by
    intro count hintact
    rw [intact_iff] at hintact
    obtain ⟨cons, hrun, -⟩ := queueIntr_served .zeroed (List.replicate count 97)
    have hreturned : returned false [.intr (List.replicate count 97)] = [] := by
      simp only [returned, run, step, hrun, bind, Except.bind]
      rfl
    have hdelivered : delivered false [.intr (List.replicate count 97)] = List.replicate count 97 := by
      simp [delivered, arrivals, characters]
    rw [hreturned, hdelivered, List.length_replicate, List.length_nil, Nat.zero_add] at hintact
    exact hintact
  intro hall
  exact absurd (hkeys 512 (hall false _)) (Nat.lt_irrefl 512)

end JosKernel.Kern
