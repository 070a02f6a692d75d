import JosKernel.Boot.Segments

/-! How many rounds the loop of `readseg` makes. -/
namespace JosKernel.Boot
open JosKernel.Inc JosKernel.General

section
variable (disk : Disk)

def readsegRounds (rounds : Nat) (pa count offset : UInt32) (m : Machine) : Except Fault Machine :=
  Loop.run .unfinished (readsegRound disk (pa + count)) (rounds + 1)
    (pa &&& ~~~(UInt32.ofNat sectSize - 1), offset / UInt32.ofNat sectSize + 1, m)

theorem readseg_eq_rounds (pa count offset : UInt32) (m : Machine) :
    readseg disk pa count offset m = readsegRounds disk (2 ^ 23) pa count offset m := rfl

theorem readsegRound_below {endPa pa : UInt32} (h : pa < endPa) (offset : UInt32) (m : Machine) :
    ∃ m', readsegRound disk endPa (pa, offset, m) = .ok (.inl (pa + 512, offset + 1, m')) := by
  obtain ⟨ports, hread, -⟩ := readsect_run disk pa offset m
  refine ⟨insl disk pa (sectSize / 4) { m with ports := ports }, ?_⟩
  simp only [readsegRound, if_pos h, hread, bind, Except.bind]
  rfl

theorem readsegRounds_ok {rounds : Nat} {pa count offset : UInt32} (m : Machine)
    (hend : (pa + count).toNat ≤ 2 ^ 32 - 512)
    (hrounds : (pa + count).toNat ≤ pa.toNat / 512 * 512 + 512 * rounds) :
    ∃ m', readsegRounds disk rounds pa count offset m = .ok m' := by
  have hfirst : (pa &&& ~~~(UInt32.ofNat sectSize - 1)).toNat = pa.toNat / 512 * 512 :=
    @toNat_and_not_low _ 9 rfl pa
  refine Loop.run_spec
    (fun k (state : UInt32 × UInt32 × Machine) => (pa + count).toNat ≤ state.1.toNat + 512 * k)
    (fun result => ∃ m', result = .ok m') ?_ (rounds + 1) rounds _ (by dsimp only; omega)
    (Nat.lt_succ_self _)
  rintro k ⟨pa', offset', current⟩ hk
  dsimp only at hk
  by_cases hlt : pa' < pa + count
  · obtain ⟨m', hround⟩ := readsegRound_below disk hlt offset' current
    have hbelow := UInt32.lt_iff_toNat_lt.mp hlt
    have hnext : (pa' + 512).toNat = pa'.toNat + 512 :=
      toNat_add_of_lt (show pa'.toNat + 512 < 2 ^ 32 by omega)
    rw [hround]
    refine ⟨k - 1, by omega, ?_⟩
    dsimp only
    omega
  · rw [readsegRound_end disk hlt]
    exact ⟨current, rfl⟩

theorem readsegRounds_unfinished (rounds : Nat) {pa count offset : UInt32} (m : Machine)
    (hend : 2 ^ 32 - 512 < (pa + count).toNat) :
    readsegRounds disk rounds pa count offset m = .error .unfinished := by
  have hfirst : (pa &&& ~~~(UInt32.ofNat sectSize - 1)).toNat = pa.toNat / 512 * 512 :=
    @toNat_and_not_low _ 9 rfl pa
  refine Loop.run_forever (fun state : UInt32 × UInt32 × Machine => state.1.toNat % 512 = 0) ?_
    (rounds + 1) (by dsimp only; omega)
  rintro ⟨pa', offset', current⟩ haligned
  dsimp only at haligned
  have hbound := pa'.toNat_lt
  have hlt : pa' < pa + count := UInt32.lt_iff_toNat_lt.mpr (by omega)
  obtain ⟨m', hround⟩ := readsegRound_below disk hlt offset' current
  refine ⟨_, hround, ?_⟩
  have hnext : (pa' + 512).toNat = (pa'.toNat + 512) % 2 ^ 32 := UInt32.toNat_add pa' 512
  dsimp only
  omega

def EndsWithin (rounds : Nat) (pa count offset : UInt32) (m : Machine) : Prop :=
  ∃ m', readsegRounds disk rounds pa count offset m = .ok m'

/-- The loop ends, and within the expected number of rounds, exactly when the end
of the segment, as it wraps around, does not lie behind the last sector boundary
of the address space. -/
theorem endsWithin_iff (pa count offset : UInt32) (m : Machine) :
    EndsWithin disk (count.toNat / 512 + 2) pa count offset m ↔
      (pa + count).toNat ≤ 2 ^ 32 - 512 := by
  refine ⟨?_, fun hend => ?_⟩
  · rintro ⟨m', hrun⟩
    refine Nat.le_of_not_lt fun hend => ?_
    rw [readsegRounds_unfinished disk _ m hend] at hrun
    cases hrun
  · have hpa := pa.toNat_lt
    have hcount := count.toNat_lt
    have hsum : (pa + count).toNat = (pa.toNat + count.toNat) % 2 ^ 32 := UInt32.toNat_add pa count
    exact readsegRounds_ok disk m hend (by omega)

end

/-- One byte at the last sector boundary: no bound on the rounds is enough. -/
theorem not_endsWithin :
    ¬∀ (disk : Disk) (pa count offset : UInt32) (m : Machine),
      ∃ rounds, rounds ≤ count.toNat / 512 + 2 ∧ EndsWithin disk rounds pa count offset m := by
  intro h
  obtain ⟨rounds, -, m', hrun⟩ := h (elfDisk neighbours 0x1100) 0xFFFFFE00 1 0 .zeroed
  rw [readsegRounds_unfinished _ _ _ (by decide)] at hrun
  cases hrun

end JosKernel.Boot
