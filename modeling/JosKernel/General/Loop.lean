/-! Loops of imperative programs, as bounded iteration of one body. A body either
asks for another round with a new state, leaves the loop with a value, or stops
with an error. The bound is only a way to write the loop down: the rules below
remove it by a potential that every round lowers. -/
namespace JosKernel.General.Loop

/-- Iterate `body` at most `fuel` times. `late` is the error of a loop that
still asks for another round when the fuel is gone. -/
def run (late : ε) (body : σ → Except ε (σ ⊕ α)) : Nat → σ → Except ε α
  | 0, _ => .error late
  | fuel + 1, state =>
    match body state with
    | .error e => .error e
    | .ok (.inl next) => run late body fuel next
    | .ok (.inr value) => .ok value

variable {late : ε} {body : σ → Except ε (σ ⊕ α)}

theorem run_error {state : σ} {e : ε} (h : body state = .error e) (fuel : Nat) :
    run late body (fuel + 1) state = .error e := by
  simp only [run, h]

theorem run_next {state next : σ} (h : body state = .ok (.inl next)) (fuel : Nat) :
    run late body (fuel + 1) state = run late body fuel next := by
  simp only [run, h]

theorem run_done {state : σ} {value : α} (h : body state = .ok (.inr value)) (fuel : Nat) :
    run late body (fuel + 1) state = .ok value := by
  simp only [run, h]

/-- What one round owes the loop rule: another round pays from the potential
`k`, and every other outcome satisfies the postcondition. -/
def Round (inv : Nat → σ → Prop) (post : Except ε α → Prop) (k : Nat) :
    Except ε (σ ⊕ α) → Prop
  | .ok (.inl next) => ∃ k', k' < k ∧ inv k' next
  | .ok (.inr value) => post (.ok value)
  | .error e => post (.error e)

/-- The invariant rule for total correctness: an invariant indexed by a
potential which every round lowers establishes the postcondition, whatever
fuel above the potential is given. -/
theorem run_spec (inv : Nat → σ → Prop) (post : Except ε α → Prop)
    (round : ∀ k state, inv k state → Round inv post k (body state))
    (fuel k : Nat) (state : σ) (hinv : inv k state) (hfuel : k < fuel) :
    post (run late body fuel state) := by
  induction fuel generalizing k state with
  | zero => omega
  | succ fuel ih =>
    have hround := round k state hinv
    unfold run
    cases hbody : body state with
    | error e => simpa only [hbody, Round] using hround
    | ok outcome =>
      cases outcome with
      | inl next =>
        rw [hbody] at hround
        obtain ⟨k', hlt, hnext⟩ := hround
        exact ih k' next hnext (by omega)
      | inr value => simpa only [hbody, Round] using hround

theorem run_ok (inv : σ → Prop) (post : α → Prop)
    (next : ∀ state next, inv state → body state = .ok (.inl next) → inv next)
    (done : ∀ state value, inv state → body state = .ok (.inr value) → post value)
    {fuel : Nat} {state : σ} (hinv : inv state) {value : α}
    (hrun : run late body fuel state = .ok value) : post value := by
  induction fuel generalizing state with
  | zero => cases hrun
  | succ fuel ih =>
    unfold run at hrun
    cases hbody : body state with
    | error e =>
      rw [hbody] at hrun
      cases hrun
    | ok outcome =>
      rw [hbody] at hrun
      cases outcome with
      | inl after => exact ih (next state after hinv hbody) hrun
      | inr last =>
        cases hrun
        exact done state value hinv hbody

/-- A loop that never leaves the states in which it goes on is still running
after every bound. -/
theorem run_forever (inv : σ → Prop)
    (round : ∀ state, inv state → ∃ next, body state = .ok (.inl next) ∧ inv next)
    (fuel : Nat) {state : σ} (hinv : inv state) : run late body fuel state = .error late := by
  induction fuel generalizing state with
  | zero => rfl
  | succ fuel ih =>
    obtain ⟨next, hround, hnext⟩ := round state hinv
    rw [run_next hround]
    exact ih hnext

theorem run_trace (states : Nat → σ) {n : Nat}
    (round : ∀ k < n, body (states k) = .ok (.inl (states (k + 1)))) (fuel : Nat) :
    run late body fuel (states 0) =
      if fuel ≤ n then .error late else run late body (fuel - n) (states n) := by
  induction n generalizing fuel with
  | zero =>
    cases fuel with
    | zero => rfl
    | succ fuel => exact (if_neg (Nat.not_succ_le_zero fuel)).symm
  | succ n ih =>
    rw [ih (fun k hk => round k (Nat.lt_succ_of_lt hk))]
    by_cases hend : fuel ≤ n
    · rw [if_pos hend, if_pos (Nat.le_succ_of_le hend)]
    · obtain ⟨rest, rfl⟩ := Nat.exists_eq_add_of_lt (Nat.lt_of_not_le hend)
      have hrest : n + rest + 1 - n = rest + 1 := by omega
      rw [if_neg hend, hrest, run_next (round n (Nat.lt_succ_self n))]
      cases rest with
      | zero => exact (if_pos (Nat.le_refl _)).symm
      | succ rest =>
        rw [if_neg (by omega)]
        congr 1
        omega

theorem run_trace_ok (states : Nat → σ) {n : Nat}
    (round : ∀ k < n, body (states k) = .ok (.inl (states (k + 1)))) {value : α}
    (done : body (states n) = .ok (.inr value)) (fuel : Nat) (result : α) :
    run late body fuel (states 0) = .ok result ↔ n < fuel ∧ result = value := by
  rw [run_trace states round]
  by_cases hend : fuel ≤ n
  · rw [if_pos hend]
    exact ⟨fun h => (by cases h), fun h => absurd h.1 (Nat.not_lt.mpr hend)⟩
  · obtain ⟨rest, hrest⟩ := Nat.exists_eq_add_of_lt (Nat.lt_of_not_le hend)
    have hfuel : fuel - n = rest + 1 := by omega
    rw [if_neg hend, hfuel, run_done done]
    constructor
    · intro h
      exact ⟨Nat.lt_of_not_le hend, (Except.ok.inj h).symm⟩
    · rintro ⟨-, rfl⟩
      rfl

theorem run_congr {body' : σ → Except ε (σ ⊕ α)} (inv : σ → Prop)
    (round : ∀ state next, inv state → body state = .ok (.inl next) → inv next)
    (agree : ∀ state, inv state → body' state = body state)
    (fuel : Nat) {state : σ} (hinv : inv state) :
    run late body' fuel state = run late body fuel state := by
  induction fuel generalizing state with
  | zero => rfl
  | succ fuel ih =>
    unfold run
    rw [agree state hinv]
    cases hbody : body state with
    | error e => rfl
    | ok outcome =>
      cases outcome with
      | inl next => exact ih (round state next hinv hbody)
      | inr value => rfl

/-- The states in which the loop begins a round. -/
inductive Reaches (body : σ → Except ε (σ ⊕ α)) (start : σ) : σ → Prop where
  | start : Reaches body start start
  | next {state next : σ} (before : Reaches body start state)
      (round : body state = .ok (.inl next)) : Reaches body start next

theorem Reaches.invariant {inv : σ → Prop} {start state : σ} (h : Reaches body start state)
    (hstart : inv start) (round : ∀ state next, inv state → body state = .ok (.inl next) → inv next) :
    inv state := by
  induction h with
  | start => exact hstart
  | next before hround ih => exact round _ _ ih hround

/-- A loop that begins a round in a state goes on like one started there. -/
theorem Reaches.run {start state : σ} (h : Reaches body start state) :
    ∃ rounds, ∀ fuel, Loop.run late body (rounds + fuel) start = Loop.run late body fuel state := by
  induction h with
  | start => exact ⟨0, fun fuel => by rw [Nat.zero_add]⟩
  | next before round ih =>
    obtain ⟨rounds, hrun⟩ := ih
    refine ⟨rounds + 1, fun fuel => ?_⟩
    rw [Nat.add_assoc, Nat.add_comm 1 fuel, hrun, run_next round]

theorem Reaches.mono {body' : σ → Except ε (σ ⊕ β)} {start state : σ} (h : Reaches body start state)
    (step : ∀ state next, body state = .ok (.inl next) → body' state = .ok (.inl next)) :
    Reaches body' start state := by
  induction h with
  | start => exact .start
  | next before round ih => exact ih.next (step _ _ round)

theorem Reaches.trans {start middle state : σ} (h : Reaches body start middle)
    (h' : Reaches body middle state) : Reaches body start state := by
  induction h' with
  | start => exact h
  | next before round ih => exact ih.next round

theorem Reaches.head {start state : σ} (h : Reaches body start state) :
    start = state ∨ ∃ next, body start = .ok (.inl next) ∧ Reaches body next state := by
  induction h with
  | start => exact .inl rfl
  | @next state next before round ih =>
    rcases ih with rfl | ⟨second, hsecond, hreaches⟩
    · exact .inr ⟨next, round, .start⟩
    · exact .inr ⟨second, hsecond, hreaches.next round⟩

theorem Reaches.total {start left right : σ} (hleft : Reaches body start left)
    (hright : Reaches body start right) : Reaches body left right ∨ Reaches body right left := by
  induction hright with
  | start => exact .inr hleft
  | @next state next before round ih =>
    rcases ih with ih | ih
    · exact .inl (ih.next round)
    · rcases ih.head with rfl | ⟨second, hsecond, hreaches⟩
      · exact .inl (.next .start round)
      · rw [round] at hsecond
        cases hsecond
        exact .inr hreaches

theorem Reaches.stop_unique {start left right : σ} {value value' : α}
    (hleft : Reaches body start left) (hstop : body left = .ok (.inr value))
    (hright : Reaches body start right) (hstop' : body right = .ok (.inr value')) : left = right := by
  rcases hleft.total hright with h | h
  · rcases h.head with rfl | ⟨next, hnext, -⟩
    · rfl
    · rw [hstop] at hnext
      cases hnext
  · rcases h.head with rfl | ⟨next, hnext, -⟩
    · rfl
    · rw [hstop'] at hnext
      cases hnext

theorem run_map {body' : τ → Except ε (τ ⊕ β)} (f : σ → τ) (g : α → β)
    (h : ∀ state, body' (f state) = (body state).map (Sum.map f g)) (fuel : Nat) (state : σ) :
    run late body' fuel (f state) = (run late body fuel state).map g := by
  induction fuel generalizing state with
  | zero => rfl
  | succ fuel ih =>
    unfold run
    rw [h state]
    cases body state with
    | error e => rfl
    | ok outcome =>
      cases outcome with
      | inl next => exact ih next
      | inr value => rfl

end JosKernel.General.Loop
