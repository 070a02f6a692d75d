import JosKernel.General.Loop
import JosKernel.Lib.Memmove
import Mathlib.Data.Nat.Find

/-! `strlen`, `strcpy` and `strcat` of `lib/string.c` on the whole 32-bit memory, whatever
overlaps. -/
namespace JosKernel.Lib
open JosKernel.Inc JosKernel.General Block

def strlenRound (mem : Memory) : Int × UInt32 → Except Fault ((Int × UInt32) ⊕ Int)
  | (n, s) => if mem s ≠ 0 then .ok (.inl (wrapInt (n + 1), s + 1)) else .ok (.inr n)

def strlen (rounds : Nat) (s : UInt32) (mem : Memory) : Except Fault Int :=
  Loop.run .unfinished (strlenRound mem) rounds (0, s)

def strcpyRound :
    UInt32 × UInt32 × Memory → Except Fault ((UInt32 × UInt32 × Memory) ⊕ Memory)
  | (dst, src, mem) =>
    let byte := mem src
    let mem := Function.update mem dst byte
    if byte ≠ 0 then .ok (.inl (dst + 1, src + 1, mem)) else .ok (.inr mem)

def strcpy (rounds : Nat) (dst src : UInt32) (mem : Memory) : Except Fault (UInt32 × Memory) := do
  let mem ← Loop.run .unfinished strcpyRound rounds (dst, src, mem)
  return (dst, mem)

def strcat (rounds : Nat) (dst src : UInt32) (mem : Memory) : Except Fault (UInt32 × Memory) := do
  let len ← strlen rounds dst mem
  let copied ← strcpy rounds (dst + UInt32.ofInt len) src mem
  return (dst, copied.2)

/-- A string of `n` bytes and its NUL, which may wrap around the end of memory. -/
structure StringIn (mem : Memory) (s : UInt32) (n : Nat) : Prop where
  text : ∀ i < n, mem (s + UInt32.ofNat i) ≠ 0
  ends : mem (s + UInt32.ofNat n) = 0

def textIn (mem : Memory) (s : UInt32) (n : Nat) : List UInt8 :=
  (List.range n).map fun i => mem (s + UInt32.ofNat i)

theorem offset_next (s : UInt32) (k : Nat) : s + UInt32.ofNat k + 1 = s + UInt32.ofNat (k + 1) :=
  offset_add s k 1

theorem offset_toNat (s address : UInt32) : s + UInt32.ofNat (address - s).toNat = address := by
  rw [UInt32.ofNat_toNat, UInt32.add_comm, UInt32.sub_add_cancel]

theorem exists_stringIn (mem : Memory) (s : UInt32) :
    (∀ address, mem address ≠ 0) ∨ ∃ n, StringIn mem s n := by
  by_cases h : ∃ n, mem (s + UInt32.ofNat n) = 0
  · exact .inr ⟨Nat.find h, fun i hi => Nat.find_min h hi, Nat.find_spec h⟩
  · refine .inl fun address hzero => h ⟨(address - s).toNat, ?_⟩
    rw [offset_toNat, hzero]

section
variable {mem : Memory} {s : UInt32} {n : Nat} (h : StringIn mem s n)
include h

theorem StringIn.size : n < 2 ^ 32 := by
  apply Nat.lt_of_not_le
  intro hlarge
  have hwrapped : s + UInt32.ofNat (n % 2 ^ 32) = s + UInt32.ofNat n :=
    congrArg (s + ·) (UInt32.ofNat_mod_size)
  exact h.text (n % 2 ^ 32) (by omega) (hwrapped ▸ h.ends)

theorem StringIn.suffix {k m : Nat} (hk : k ≤ n) (hrest : StringIn mem (s + UInt32.ofNat k) m) :
    n = k + m := by
  have hplace (i : Nat) :
      mem (s + UInt32.ofNat k + UInt32.ofNat i) = mem (s + UInt32.ofNat (k + i)) := by
    rw [offset_add]
  rcases Nat.lt_trichotomy n (k + m) with hlt | heq | hgt
  · have hnonzero := hrest.text (n - k) (by omega)
    rw [hplace, Nat.add_sub_cancel' hk] at hnonzero
    exact absurd h.ends hnonzero
  · exact heq
  · have hzero := hrest.ends
    rw [hplace] at hzero
    exact absurd hzero (h.text _ hgt)

theorem StringIn.unique {m : Nat} (h' : StringIn mem s m) : n = m := by
  have hstart : s + UInt32.ofNat 0 = s := UInt32.add_zero s
  rw [h.suffix (Nat.zero_le n) (hstart.symm ▸ h'), Nat.zero_add]

end

theorem wrapInt_succ (n : Nat) : wrapInt (wrapInt n + 1) = wrapInt (n + 1 : Nat) := by
  unfold wrapInt
  rw [Int.bmod_add_bmod]
  rfl

theorem ofInt_wrapInt (n : Nat) : UInt32.ofInt (wrapInt n) = UInt32.ofNat n := by
  have hmod : (wrapInt n % 2 ^ 32).toNat = n % 2 ^ 32 := by
    rw [wrapInt, Int.bmod_def]
    omega
  rw [UInt32.ofInt, hmod]
  exact UInt32.ofNat_mod_size

theorem strlen_iff (rounds : Nat) (s : UInt32) (mem : Memory) (len : Int) :
    strlen rounds s mem = .ok len ↔ ∃ n < rounds, StringIn mem s n ∧ len = wrapInt n := by
  have htrace {n : Nat} (h : StringIn mem s n) : strlen rounds s mem = .ok len ↔
      n < rounds ∧ len = wrapInt n := by
    have hrun := @Loop.run_trace_ok _ _ _ Fault.unfinished (strlenRound mem)
      (fun k => (wrapInt k, s + UInt32.ofNat k)) n (fun k hk => by
        rw [strlenRound, if_pos (h.text k hk), wrapInt_succ, offset_next]) (wrapInt n)
      (by rw [strlenRound, if_neg (not_not.mpr h.ends)]) rounds len
    have hstart : s + UInt32.ofNat 0 = s := UInt32.add_zero s
    rw [hstart] at hrun
    exact hrun
  rcases exists_stringIn mem s with hfull | ⟨n, h⟩
  · have hforever : strlen rounds s mem = .error .unfinished := by
      refine Loop.run_forever (fun _ => True) (fun state _ => ?_) rounds trivial
      exact ⟨_, if_pos (hfull state.2), trivial⟩
    rw [hforever]
    exact ⟨fun h => (by cases h), fun ⟨n, _, h, _⟩ => absurd h.ends (hfull _)⟩
  · rw [htrace h]
    constructor
    · rintro ⟨hrounds, hlen⟩
      exact ⟨n, hrounds, h, hlen⟩
    · rintro ⟨m, hrounds, h', hlen⟩
      rw [h.unique h']
      exact ⟨hrounds, hlen⟩

theorem strcpyRound_copies {mem : Memory} {dst src : UInt32} {n k : Nat} (h : StringIn mem src n)
    (hapart : dst = src ∨ n < (dst - src).toNat) (hk : k ≤ n) :
    strcpyRound (dst + UInt32.ofNat k, src + UInt32.ofNat k, block mem dst src k) =
      if k < n then
        .ok (.inl (dst + UInt32.ofNat (k + 1), src + UInt32.ofNat (k + 1), block mem dst src (k + 1)))
      else .ok (.inr (block mem dst src (k + 1))) := by
  have hsize := h.size
  have hread : block mem dst src k (src + UInt32.ofNat k) = mem (src + UInt32.ofNat k) := by
    apply fill_outside
    have hk' : (UInt32.ofNat k).toNat = k := UInt32.toNat_ofNat_of_lt' (show k < 2 ^ 32 by omega)
    have hoffset : src + UInt32.ofNat k - dst = UInt32.ofNat k - (dst - src) := by grind
    have hlt := (dst - src).toNat_lt
    rw [hoffset, UInt32.toNat_sub, hk']
    rcases hapart with rfl | hapart
    · rw [UInt32.sub_self]
      change k ≤ (2 ^ 32 - 0 + k) % 2 ^ 32
      omega
    · omega
  have hwrite : Function.update (block mem dst src k) (dst + UInt32.ofNat k)
      (mem (src + UInt32.ofNat k)) = block mem dst src (k + 1) := by
    unfold block
    rw [← fill_append mem dst _ (show k + 1 ≤ 2 ^ 32 by omega), fill_one]
    rfl
  simp only [strcpyRound, hread, hwrite, offset_next]
  by_cases hend : k < n
  · rw [if_pos hend, if_pos (h.text k hend)]
  · have hlast : k = n := by omega
    rw [if_neg hend, if_neg (not_not.mpr (hlast ▸ h.ends))]

theorem strcpyRound_forever {mem : Memory} {dst src : UInt32} (hbehind : dst ≠ src)
    (h : ∀ i < (dst - src).toNat, mem (src + UInt32.ofNat i) ≠ 0) (rounds : Nat) :
    Loop.run .unfinished strcpyRound rounds (dst, src, mem) = .error .unfinished := by
  refine Loop.run_forever (fun state => state.1 - state.2.1 = dst - src ∧
    ∀ i < (dst - src).toNat, state.2.2 (state.2.1 + UInt32.ofNat i) ≠ 0) ?_ rounds ⟨rfl, h⟩
  rintro ⟨d, s, m⟩ ⟨hdistance, hwindow⟩
  dsimp only at hdistance hwindow
  have hpositive : 0 < (dst - src).toNat := by
    apply Nat.pos_of_ne_zero
    intro hzero
    have hequal : dst - src = 0 := UInt32.toNat_inj.mp hzero
    exact hbehind (by grind)
  have hbyte : m s ≠ 0 := by
    have hfirst := hwindow 0 hpositive
    rwa [show s + UInt32.ofNat 0 = s from UInt32.add_zero s] at hfirst
  refine ⟨_, if_pos hbyte, ?_, fun i hi => ?_⟩
  · grind
  · dsimp only
    rw [Function.update_apply]
    split
    · exact hbyte
    · next hother =>
      have hnext : s + 1 + UInt32.ofNat i = s + UInt32.ofNat (i + 1) := by
        rw [UInt32.ofNat_add]
        grind
      rw [hnext] at hother ⊢
      refine hwindow (i + 1) (Nat.lt_of_le_of_ne hi fun hlast => hother ?_)
      -- the byte at the end of the window is the one that has just been written
      rw [hlast, UInt32.ofNat_toNat, ← hdistance]
      grind

theorem strcpyRound_full {mem : Memory} (h : ∀ address, mem address ≠ 0) (dst src : UInt32)
    (rounds : Nat) :
    Loop.run .unfinished strcpyRound rounds (dst, src, mem) = .error .unfinished := by
  refine Loop.run_forever (fun state => ∀ address, state.2.2 address ≠ 0) ?_ rounds h
  rintro ⟨d, s, m⟩ hfull
  dsimp only at hfull
  refine ⟨_, if_pos (hfull s), fun address => ?_⟩
  dsimp only
  rw [Function.update_apply]
  split
  · exact hfull s
  · exact hfull address

/-- `strcpy` returns exactly if the destination is not inside the string, behind its start. -/
theorem strcpy_iff (rounds : Nat) (dst src : UInt32) (mem : Memory) (result : UInt32 × Memory) :
    strcpy rounds dst src mem = .ok result ↔
      ∃ n < rounds, StringIn mem src n ∧ (dst = src ∨ n < (dst - src).toNat) ∧
        result = (dst, block mem dst src (n + 1)) := by
  have hfailed (h : Loop.run .unfinished strcpyRound rounds (dst, src, mem) = .error .unfinished) :
      strcpy rounds dst src mem ≠ .ok result := by
    intro hresult
    rw [strcpy, h] at hresult
    cases hresult
  rcases exists_stringIn mem src with hfull | ⟨n, h⟩
  · refine ⟨fun hrun => absurd hrun (hfailed (strcpyRound_full hfull dst src rounds)), ?_⟩
    rintro ⟨n, -, h, -⟩
    exact absurd h.ends (hfull _)
  by_cases hapart : dst = src ∨ n < (dst - src).toNat
  · have hrun (after : Memory) := @Loop.run_trace_ok _ _ _ Fault.unfinished strcpyRound
      (fun k => (dst + UInt32.ofNat k, src + UInt32.ofNat k, block mem dst src k)) n
      (fun k hk => (strcpyRound_copies h hapart (Nat.le_of_lt hk)).trans (if_pos hk)) _
      ((strcpyRound_copies h hapart (Nat.le_refl n)).trans (if_neg (Nat.lt_irrefl n))) rounds after
    have hstart (p : UInt32) : p + UInt32.ofNat 0 = p := UInt32.add_zero p
    rw [hstart, hstart, block_zero] at hrun
    constructor
    · intro hresult
      obtain ⟨after, hafter, heq⟩ := exists_of_bind_eq_ok hresult
      obtain ⟨hrounds, hblock⟩ := (hrun after).mp hafter
      exact ⟨n, hrounds, h, hapart, (Except.ok.inj heq).symm.trans (by rw [hblock])⟩
    · rintro ⟨m, hrounds, h', -, rfl⟩
      rw [← h.unique h'] at hrounds ⊢
      rw [strcpy, (hrun _).mpr ⟨hrounds, rfl⟩]
      rfl
  · rw [not_or, Nat.not_lt] at hapart
    have hforever := strcpyRound_forever hapart.1
      (fun i hi => h.text i (Nat.lt_of_lt_of_le hi hapart.2)) rounds
    refine ⟨fun hrun => absurd hrun (hfailed hforever), ?_⟩
    rintro ⟨m, -, h', hapart', -⟩
    rw [← h.unique h'] at hapart'
    rcases hapart' with heq | hlt
    · exact absurd heq hapart.1
    · exact absurd hlt (Nat.not_lt.mpr hapart.2)

def Separate (p q : UInt32) (len n : Nat) : Prop := len < (q - p).toNat ∧ n < (p - q).toNat

theorem Separate.lt {p q : UInt32} {len n : Nat} (h : Separate p q len n) : len + n < 2 ^ 32 := by
  obtain ⟨hp, hq⟩ := h
  have hplt := p.toNat_lt
  have hqlt := q.toNat_lt
  rw [UInt32.toNat_sub] at hp hq
  omega

theorem separate_iff {mem : Memory} {dst src : UInt32} {len n : Nat} (hdst : StringIn mem dst len)
    (hsrc : StringIn mem src n) :
    n < (dst + UInt32.ofNat len - src).toNat ↔ Separate dst src len n := by
  have hlen : (UInt32.ofNat len).toNat = len := UInt32.toNat_ofNat_of_lt' hdst.size
  have hsize := hsrc.size
  have hoffset : dst + UInt32.ofNat len - src = dst - src + UInt32.ofNat len := by grind
  have hend : (dst + UInt32.ofNat len - src).toNat = ((dst - src).toNat + len) % 2 ^ 32 := by
    rw [hoffset, UInt32.toNat_add, hlen]
  have hback := (UInt32.toNat_sub src dst)
  have hfront := (UInt32.toNat_sub dst src)
  have hdstlt := dst.toNat_lt
  have hsrclt := src.toNat_lt
  rw [hend]
  constructor
  · intro hlt
    constructor
    · -- a source inside the destination would end where the destination ends
      by_contra hinside
      have hsuffix := hdst.suffix (Nat.le_of_not_lt hinside) (m := n)
        (by rwa [offset_toNat])
      omega
    · by_contra hinside
      have hsuffix := hsrc.suffix (Nat.le_of_not_lt hinside) (m := len)
        (by rwa [offset_toNat])
      omega
  · intro h
    have hlt := h.lt
    obtain ⟨hbefore, hafter⟩ := h
    omega

theorem concatenated {mem : Memory} {dst src : UInt32} {len n : Nat} (hdst : StringIn mem dst len)
    (hsrc : StringIn mem src n) (hlt : len + n < 2 ^ 32) :
    StringIn (block mem (dst + UInt32.ofNat len) src (n + 1)) dst (len + n) ∧
      textIn (block mem (dst + UInt32.ofNat len) src (n + 1)) dst (len + n) =
        textIn mem dst len ++ textIn mem src n := by
  have hfirst {i : Nat} (hi : i < len) :
      block mem (dst + UInt32.ofNat len) src (n + 1) (dst + UInt32.ofNat i) =
        mem (dst + UInt32.ofNat i) := by
    apply fill_outside
    have hoffset : dst + UInt32.ofNat i - (dst + UInt32.ofNat len) =
        UInt32.ofNat i - UInt32.ofNat len := by
      grind
    rw [hoffset, UInt32.toNat_sub, UInt32.toNat_ofNat_of_lt' (show len < 2 ^ 32 by omega),
      UInt32.toNat_ofNat_of_lt' (show i < 2 ^ 32 by omega)]
    omega
  have hsecond {j : Nat} (hj : j ≤ n) :
      block mem (dst + UInt32.ofNat len) src (n + 1) (dst + UInt32.ofNat (len + j)) =
        mem (src + UInt32.ofNat j) := by
    have hoffset : dst + UInt32.ofNat (len + j) - (dst + UInt32.ofNat len) = UInt32.ofNat j := by
      rw [← offset_add]
      grind
    have hj' : (UInt32.ofNat j).toNat = j := UInt32.toNat_ofNat_of_lt' (show j < 2 ^ 32 by omega)
    rw [block, fill, hoffset, hj', if_pos (Nat.lt_succ_of_le hj)]
  refine ⟨⟨fun i hi => ?_, (hsecond (Nat.le_refl n)).trans hsrc.ends⟩, ?_⟩
  · by_cases hdest : i < len
    · exact (hfirst hdest).symm ▸ hdst.text i hdest
    · obtain ⟨j, rfl⟩ := Nat.exists_eq_add_of_le (Nat.le_of_not_lt hdest)
      have hj : j < n := by omega
      exact (hsecond (Nat.le_of_lt hj)).symm ▸ hsrc.text j hj
  · rw [textIn, List.range_add, List.map_append, List.map_map]
    refine congr (congrArg _ (List.map_congr_left fun i hi => ?_))
      (List.map_congr_left fun j hj => ?_)
    · exact hfirst (List.mem_range.mp hi)
    · exact hsecond (Nat.le_of_lt (List.mem_range.mp hj))

theorem strcat_iff (rounds : Nat) (dst src : UInt32) (mem : Memory) (result : UInt32 × Memory) :
    strcat rounds dst src mem = .ok result ↔
      ∃ len < rounds, ∃ n < rounds, StringIn mem dst len ∧ StringIn mem src n ∧
        (src = dst + UInt32.ofNat len ∨ Separate dst src len n) ∧
        result = (dst, block mem (dst + UInt32.ofNat len) src (n + 1)) ∧
        StringIn result.2 dst (len + n) ∧
        textIn result.2 dst (len + n) = textIn mem dst len ++ textIn mem src n := by
  constructor
  · intro h
    obtain ⟨value, hlength, h⟩ := exists_of_bind_eq_ok h
    obtain ⟨copied, hcopy, hresult⟩ := exists_of_bind_eq_ok h
    obtain ⟨len, hlen, hdst, hvalue⟩ := (strlen_iff rounds dst mem value).mp hlength
    rw [hvalue, ofInt_wrapInt, strcpy_iff] at hcopy
    obtain ⟨n, hn, hsrc, hapart, rfl⟩ := hcopy
    cases hresult
    rw [separate_iff hdst hsrc] at hapart
    have hlt : len + n < 2 ^ 32 := by
      rcases hapart with heq | hseparate
      · have hempty : len = len + n := hdst.suffix (Nat.le_refl len) (by rwa [heq])
        exact hempty ▸ hdst.size
      · exact hseparate.lt
    have hboth := concatenated hdst hsrc hlt
    exact ⟨len, hlen, n, hn, hdst, hsrc, hapart.imp_left Eq.symm, rfl, hboth.1, hboth.2⟩
  · rintro ⟨len, hlen, n, hn, hdst, hsrc, hapart, rfl, -, -⟩
    have hcopy := (strcpy_iff rounds (dst + UInt32.ofNat len) src mem _).mpr
      ⟨n, hn, hsrc, hapart.imp Eq.symm (separate_iff hdst hsrc).mpr, rfl⟩
    rw [strcat, (strlen_iff rounds dst mem _).mpr ⟨len, hlen, hdst, rfl⟩]
    change (strcpy rounds (dst + UInt32.ofInt (wrapInt len)) src mem).bind _ = _
    rw [ofInt_wrapInt, hcopy]
    rfl

def abAndC (address : UInt32) : UInt8 := [97, 98, 0, 0, 0, 0, 0, 0, 99].getD address.toNat 0

example : (strcat 3 0 8 abAndC).map (fun result => textIn result.2 0 4) = .ok [97, 98, 99, 0] := by
  decide

example : (strcat 20 0 0 abAndC).map Prod.fst = .error .unfinished := by
  decide

end JosKernel.Lib
