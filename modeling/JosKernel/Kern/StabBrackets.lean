import JosKernel.Kern.StabSearch

/-! When `stab_binsearch` brackets its address. -/
namespace JosKernel.Kern
open JosKernel.Inc JosKernel.General Marks

def Sorted (marks : Int → Option UInt32) (left right : Int) : Prop :=
  ∀ i j value value', left ≤ i → i ≤ j → j ≤ right → marks i = some value →
    marks j = some value' → value ≤ value'

/-- The region starts at the last entry of the type that does not lie above the
address and reaches up to the next entry of the type. -/
structure Brackets (marks : Int → Option UInt32) (left right : Int) (addr : UInt32)
    (region : Region) : Prop where
  le_left : left ≤ region.left
  contains : ∃ value, marks region.left = some value ∧ value ≤ addr
  largest : ∀ i value, region.left < i → i ≤ right → marks i = some value → addr < value
  le_right : region.left ≤ region.right
  none : ∀ i, region.left < i → i ≤ region.right → marks i = none
  next : region.right = right ∨
    region.right < right ∧ ∃ value, marks (region.right + 1) = some value

/-- No exact match moves the key onto another entry: where bisection lands on
the address, none of the entries that are left lies at the next address. -/
def Undisturbed (marks : Int → Option UInt32) (left right : Int) (addr : UInt32) : Prop :=
  ∀ m r, land marks addr left right = some (m, r) →
    addr + 1 ≠ 0 ∧ ∀ i, m ≤ i → i ≤ r → marks i ≠ some (addr + 1)

structure Good (marks : Int → Option UInt32) (left right : Int) (addr : UInt32) (s : Search) :
    Prop where
  below : ∀ i value, left ≤ i → i < s.l → marks i = some value → value ≤ addr
  above : ∀ i value, s.r < i → i ≤ right → marks i = some value → addr < value
  next : s.r = right ∨ s.r < right ∧ ∃ value, marks (s.r + 1) = some value
  found : s.region.left = left ∨ ∃ value, marks s.region.left = some value ∧ value ≤ addr
  fresh : s.anyMatches = false → (∀ i, left ≤ i → i < s.l → marks i = none) ∧ s.r = right
  key : s.addr = addr ∧ land marks addr s.l s.r = land marks addr left right ∨
    s.addr = addr + 1 ∧ addr + 1 ≠ 0 ∧ ∀ i, s.l ≤ i → i ≤ s.r → marks i ≠ some (addr + 1)

section
variable {marks : Int → Option UInt32} {left right : Int} {addr : UInt32} {s s' : Search}

theorem Good.step (hsorted : Sorted marks left right) (hquiet : Undisturbed marks left right addr)
    (hs : Within left right s) (hle : s.l ≤ s.r) (h : Good marks left right addr s)
    (hstep : Step marks s s') : Good marks left right addr s' := by
  have hlo := le_mid hle
  have hhi := mid_le hle
  have hleft := hs.le_l
  have hright := hs.r_le
  cases hstep with
  | skip hlast hnone =>
    refine ⟨fun i value hi hil hmark => ?_, h.above, h.next, h.found, fun hany => ⟨?_, ?_⟩, ?_⟩
    · by_cases hlt : i < s.l
      · exact h.below i value hi hlt hmark
      · rw [hnone i (by omega) (by dsimp only at hil; omega)] at hmark
        cases hmark
    · intro i hi hil
      by_cases hlt : i < s.l
      · exact (h.fresh hany).1 i hi hlt
      · exact hnone i (by omega) (by dsimp only at hil; omega)
    · exact (h.fresh hany).2
    · rcases h.key with ⟨hkey, hland⟩ | ⟨hkey, hwrap, hquiet'⟩
      · exact Or.inl ⟨hkey, by rw [← hland, land_none hle hlast]⟩
      · exact Or.inr ⟨hkey, hwrap, fun i hi => hquiet' i (by dsimp only at hi; omega)⟩
  | less m value hlast hlm hmm hmark hnone hlt =>
    have hvalue : value ≤ addr := by
      rcases h.key with ⟨hkey, -⟩ | ⟨hkey, hwrap, -⟩ <;> grind
    refine ⟨fun i v hi hil hv => ?_, h.above, h.next, Or.inr ⟨value, hmark, hvalue⟩,
      (fun hany => by cases hany), ?_⟩
    · by_cases him : i ≤ m
      · exact UInt32.le_trans (hsorted i m v value hi him (by omega) hv hmark) hvalue
      · rw [hnone i (by omega) (by dsimp only at hil; omega)] at hv
        cases hv
    · rcases h.key with ⟨hkey, hland⟩ | ⟨hkey, hwrap, hquiet'⟩
      · refine Or.inl ⟨hkey, ?_⟩
        rw [← hland, land_some hle hlast, if_pos (hkey ▸ hlt)]
      · exact Or.inr ⟨hkey, hwrap, fun i hi => hquiet' i (by dsimp only at hi; omega)⟩
  | greater m value hlast hlm hmm hmark hlt =>
    have hvalue : addr < value := by
      rcases h.key with ⟨hkey, -⟩ | ⟨hkey, hwrap, -⟩ <;> grind
    refine ⟨h.below, fun i v hi hir hv => ?_, Or.inr ⟨?_, value, ?_⟩, h.found,
      (fun hany => by cases hany), ?_⟩
    · exact UInt32.lt_of_lt_of_le hvalue
        (hsorted m i value v (by omega) (by dsimp only at hi; omega) hir hmark hv)
    · dsimp only
      omega
    · dsimp only
      rw [Int.sub_add_cancel]
      exact hmark
    · rcases h.key with ⟨hkey, hland⟩ | ⟨hkey, hwrap, hquiet'⟩
      · refine Or.inl ⟨hkey, ?_⟩
        have hnot : ¬value < addr := by grind
        rw [← hland, land_some hle hlast, if_neg hnot, if_pos hvalue]
      · exact Or.inr ⟨hkey, hwrap, fun i hi hir => hquiet' i hi (by dsimp only at hir; omega)⟩
  | hit m hlast hlm hmm hmark =>
    rcases h.key with ⟨hkey, hland⟩ | ⟨hkey, hwrap, hquiet'⟩
    · have hlanded : land marks addr left right = some (m, s.r) := by
        rw [← hland, land_some hle hlast, hkey, if_neg (UInt32.lt_irrefl _),
          if_neg (UInt32.lt_irrefl _)]
      obtain ⟨hwrap, hnone⟩ := hquiet m s.r hlanded
      refine ⟨fun i v hi hil hv => ?_, h.above, h.next, Or.inr ⟨s.addr, hmark, ?_⟩,
        (fun hany => by cases hany), Or.inr ⟨by rw [hkey], hwrap, hnone⟩⟩
      · have hle' := hsorted i m v s.addr hi (by dsimp only at hil; omega) (by omega) hv hmark
        exact hkey ▸ hle'
      · rw [hkey]
        exact UInt32.le_refl addr
    · exact absurd (hkey ▸ hmark) (hquiet' m hlm (by omega))

theorem Good.brackets (hs : Within left right s) (hend : s.r < s.l)
    (h : Good marks left right addr s)
    (hcontained : ∃ i value, left ≤ i ∧ i ≤ right ∧ marks i = some value ∧ value ≤ addr) :
    Brackets marks left right addr (finish marks s) := by
  obtain ⟨i, value, hi, hir, hmark, hvalue⟩ := hcontained
  have hright := hs.right_eq
  have hleft := hs.le_left
  have hbelow : i ≤ s.r := by
    apply Int.le_of_not_gt
    intro hlt
    exact UInt32.not_le.mpr (h.above i value hlt hir hmark) hvalue
  have hany : s.anyMatches = true := by
    cases hany : s.anyMatches with
    | true => rfl
    | false =>
      have hnone := (h.fresh hany).1 i hi (by omega)
      rw [hmark] at hnone
      cases hnone
  have hfound : s.region.left ≤ s.r := by
    rcases h.found with hstart | ⟨value', hmark', hvalue'⟩
    · omega
    · apply Int.le_of_not_gt
      intro hlt
      have hin : s.region.left ≤ right := hs.left_le.elim id (by omega)
      exact UInt32.not_le.mpr (h.above _ value' hlt hin hmark') hvalue'
  obtain ⟨hlo, hhi, hnone, hat⟩ := rightmost_cases marks (hright ▸ hfound)
  rw [finish, if_pos hany]
  refine ⟨Int.le_trans hleft hlo, ?_, ?_, hhi, hnone, ?_⟩
  · rcases hat with heq | ⟨value', hmark'⟩
    · dsimp only
      rw [heq]
      rcases h.found with hstart | hfound'
      · -- nothing lies behind the start, so the entry below the address is there
        have hfirst : i = s.region.left := by
          apply Int.le_antisymm _ (by omega)
          apply Int.le_of_not_gt
          intro hlt
          rw [hnone i (by omega) (by omega)] at hmark
          cases hmark
        rw [← hfirst]
        exact ⟨value, hmark, hvalue⟩
      · exact hfound'
    · exact ⟨value', hmark', h.below _ value' (by omega) (by omega) hmark'⟩
  · intro j value' hj hjr hmark'
    dsimp only at hj
    apply h.above j value' _ hjr hmark'
    apply Int.lt_of_not_ge
    intro hle
    rw [hnone j hj (by omega)] at hmark'
    cases hmark'
  · dsimp only
    rw [hright]
    exact h.next

theorem Good.finish_left (hs : Within left right s) (hend : s.r < s.l) (hrange : left ≤ right)
    (h : Good marks left right addr s) (hfirst : marks left = none)
    (habove : ∀ i value, left ≤ i → i ≤ right → marks i = some value → addr < value) :
    (finish marks s).left = left := by
  have hr := hs.r_le
  have hright := hs.right_eq
  have hlow : ∀ i value, left ≤ i → i ≤ right → marks i = some value → ¬value ≤ addr :=
    fun i value hi hir hmark hle => UInt32.not_le.mpr (habove i value hi hir hmark) hle
  have hleft : s.region.left = left := by
    rcases h.found with hstart | ⟨value, hmark, hvalue⟩
    · exact hstart
    · exact absurd hvalue (hlow _ value hs.le_left (hs.left_le.elim id (by omega)) hmark)
  have hfront : left ≤ s.r := by
    rcases h.next with hend' | ⟨-, value, hmark⟩
    · omega
    · have hne : s.r + 1 ≠ left := by
        intro heq
        rw [heq, hfirst] at hmark
        cases hmark
      have hle := hs.le_r
      omega
  unfold finish
  split
  · dsimp only
    obtain ⟨hlo, hhi, -, hat⟩ := @rightmost_cases marks s.region.left s.region.right (by omega)
    rcases hat with heq | ⟨value, hmark⟩
    · exact heq.trans hleft
    · have hvalue := h.below _ value (by omega) (by omega) hmark
      exact absurd hvalue (hlow _ value (by omega) (by omega) hmark)
  · exact hleft

theorem undisturbed_of_apart
    (h : ∀ m, left ≤ m → m ≤ right → marks m = some addr →
      addr + 1 ≠ 0 ∧ ∀ i, m ≤ i → i ≤ right → marks i ≠ some (addr + 1)) :
    Undisturbed marks left right addr := by
  intro m r hland
  obtain ⟨hm, hmr, hr, value, hmark, hge, hle⟩ := land_mark hland
  have hvalue : value = addr := by grind
  obtain ⟨hwrap, hnext⟩ := h m hm (by omega) (hvalue ▸ hmark)
  exact ⟨hwrap, fun i hi hir => hnext i hi (by omega)⟩

end

section
variable {stabs : StabReader} (type : Int) {left right : Int} {addr : UInt32}

theorem stabBinsearch_good (hread : Readable stabs left right) (hrange : left ≤ right)
    (hsorted : Sorted (marks stabs type) left right)
    (hquiet : Undisturbed (marks stabs type) left right addr) :
    ∃ s, Within left right s ∧ s.r < s.l ∧ Good (marks stabs type) left right addr s ∧
      stabBinsearch stabs type ⟨left, right⟩ addr = .ok (finish (marks stabs type) s) :=
  stabBinsearch_rule type hread (by omega) addr (Good (marks stabs type) left right addr)
    ⟨fun i value hi hlt => by dsimp only at hlt; omega,
      fun i value hi hir => by dsimp only at hi; omega, Or.inl rfl, Or.inl rfl,
      fun _ => ⟨fun i hi hlt => by dsimp only at hlt; omega, rfl⟩, Or.inl ⟨rfl, rfl⟩⟩
    (fun s s' hs hle hgood hstep => hgood.step hsorted hquiet hs hle hstep)

theorem stabBinsearch_undisturbed (hread : Readable stabs left right) (hrange : left ≤ right)
    (hsorted : Sorted (marks stabs type) left right)
    (hcontained : ∃ i value, left ≤ i ∧ i ≤ right ∧ marks stabs type i = some value ∧ value ≤ addr)
    (hquiet : Undisturbed (marks stabs type) left right addr) :
    ∃ region, stabBinsearch stabs type ⟨left, right⟩ addr = .ok region ∧
      Brackets (marks stabs type) left right addr region := by
  obtain ⟨s, hs, hend, hgood, hresult⟩ := stabBinsearch_good type hread hrange hsorted hquiet
  exact ⟨_, hresult, hgood.brackets hs hend hcontained⟩

end

end JosKernel.Kern
