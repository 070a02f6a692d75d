import JosKernel.Boot.Main
import JosKernel.General.Flags
import JosKernel.General.Overlay

/-! What the disk routines of the boot loader leave in memory. -/
namespace JosKernel.Boot
open JosKernel.Inc JosKernel.General

section
variable (disk : Disk)

theorem waitdisk_ok (ports : Ports) :
    ∃ ports', waitdisk disk ports = .ok ports' ∧ ports'.outs = ports.outs := by
  obtain ⟨wait, hpatience, hready⟩ := disk.ready ports.reads
  -- the potential is the number of reads until the disk is ready
  refine Loop.run_spec
    (fun k current => current.outs = ports.outs ∧
      disk.device (current.reads + k) 0x1F7 &&& 0xC0 = 0x40)
    (fun result => ∃ ports' : Ports, result = .ok ports' ∧ ports'.outs = ports.outs)
    ?_ disk.patience wait ports ⟨rfl, hready⟩ hpatience
  rintro k current ⟨houts, hk⟩
  change Loop.Round _ _ _ (if disk.device current.reads 0x1F7 &&& 0xC0 ≠ 0x40 then _ else _)
  by_cases hstatus : disk.device current.reads 0x1F7 &&& 0xC0 = 0x40
  · rw [if_neg (not_not_intro hstatus)]
    exact ⟨_, rfl, houts⟩
  · rw [if_pos hstatus]
    cases k with
    | zero => exact absurd hk hstatus
    | succ k =>
      refine ⟨k, Nat.lt_succ_self k, houts, ?_⟩
      rw [← hk]
      change disk.device (current.reads + 1 + k) 0x1F7 &&& 0xC0 = _
      rw [Nat.add_right_comm, Nat.add_assoc]

def command (offset : UInt32) : List (UInt16 × UInt8) :=
  [(0x1F2, 1), (0x1F3, offset.toUInt8), (0x1F4, (offset >>> 8).toUInt8),
    (0x1F5, (offset >>> 16).toUInt8), (0x1F6, ((offset >>> 24) ||| 0xE0).toUInt8), (0x1F7, 0x20)]

theorem command_sector (ide : Ide) {offset : UInt32} (h : offset.toNat < 2 ^ 28) :
    ((command offset).foldl Ide.write ide).sector = offset.toNat := by
  have hsector : ((command offset).foldl Ide.write ide).sector =
      Ide.lba ⟨offset.toUInt8, (offset >>> 8).toUInt8, (offset >>> 16).toUInt8,
        ((offset >>> 24) ||| 0xE0).toUInt8, 0⟩ := rfl
  have h8 : (offset >>> 8).toNat = offset.toNat / 2 ^ 8 :=
    toNat_shiftRight_of_lt offset (by decide)
  have h16 : (offset >>> 16).toNat = offset.toNat / 2 ^ 16 :=
    toNat_shiftRight_of_lt offset (by decide)
  have h24 : (offset >>> 24).toNat = offset.toNat / 2 ^ 24 :=
    toNat_shiftRight_of_lt offset (by decide)
  have hdrive : (((offset >>> 24) ||| 0xE0).toUInt8 &&& 0x0F).toNat = offset.toNat / 2 ^ 24 := by
    rw [UInt8.toNat_and, UInt32.toNat_toUInt8, UInt32.toNat_or, h24]
    change _ &&& (2 ^ 4 - 1) = _
    rw [Nat.and_two_pow_sub_one_eq_mod, Nat.mod_mod_of_dvd _ (by decide), Nat.or_mod_two_pow]
    change offset.toNat / 2 ^ 24 % 2 ^ 4 ||| 0 = _
    rw [Nat.or_zero]
    omega
  rw [hsector, Ide.lba]
  dsimp only
  rw [UInt32.toNat_toUInt8, UInt32.toNat_toUInt8, UInt32.toNat_toUInt8, h8, h16, hdrive]
  omega

theorem readsect_run (dst offset : UInt32) (m : Machine) :
    ∃ ports, readsect disk dst offset m =
        .ok (insl disk dst (sectSize / 4) { m with ports := ports }) ∧
      ports.outs = m.ports.outs ++ command offset := by
  obtain ⟨before, hbefore, houts⟩ := waitdisk_ok disk m.ports
  obtain ⟨after, hafter, houts'⟩ := waitdisk_ok disk
    { before with outs := before.outs ++ command offset }
  have hcommand : outb 0x1F7 0x20 (outb 0x1F6 ((offset >>> 24) ||| 0xE0).toUInt8
      (outb 0x1F5 (offset >>> 16).toUInt8 (outb 0x1F4 (offset >>> 8).toUInt8
        (outb 0x1F3 offset.toUInt8 (outb 0x1F2 1 before))))) =
      { before with outs := before.outs ++ command offset } := by
    simp only [outb, List.append_assoc, List.cons_append, List.nil_append]
    rfl
  refine ⟨after, ?_, ?_⟩
  · simp only [readsect, hbefore, hcommand, hafter, bind, Except.bind]
    rfl
  · rw [houts', houts]

theorem readsect_ok (dst offset : UInt32) (m : Machine) (h : offset.toNat < 2 ^ 28) :
    ∃ m', readsect disk dst offset m = .ok m' ∧ ∀ address, m'.mem address =
      if (address - dst).toNat < 512 then
        disk.bytes (offset.toNat * 512 + (address - dst).toNat)
      else m.mem address := by
  obtain ⟨ports, hrun, houts⟩ := readsect_run disk dst offset m
  have hsector : sectorRead ports = offset.toNat := by
    rw [sectorRead, houts, List.foldl_append, command_sector _ h]
  refine ⟨_, hrun, fun address => ?_⟩
  rw [insl]
  dsimp only
  rw [hsector]
  rfl

end

/-- The image starts at the second sector. -/
def image (disk : Disk) (index : Nat) : UInt8 := disk.bytes (sectSize + index)

/-- The whole sectors that `readseg` writes for a segment, and the image bytes
it writes there. -/
def sectors (image : Nat → UInt8) : Pieces Proghdr UInt32 UInt8 where
  covers seg address :=
    seg.pa.toNat / 512 * 512 ≤ address.toNat ∧
      address.toNat / 512 * 512 < seg.pa.toNat + seg.memsz.toNat
  value seg address :=
    image (seg.offset.toNat / 512 * 512 + (address.toNat - seg.pa.toNat / 512 * 512))

section
variable (disk : Disk)

def Loaded (seg : Proghdr) (mem : UInt32 → UInt8) (done : Nat) :
    UInt32 × UInt32 × Machine → Prop
  | (pa, offset, m) =>
    pa.toNat = seg.pa.toNat / 512 * 512 + 512 * done ∧
    offset.toNat = seg.offset.toNat / 512 + 1 + done ∧
    ∀ address : UInt32, m.mem address =
      if seg.pa.toNat / 512 * 512 ≤ address.toNat ∧
          address.toNat < seg.pa.toNat / 512 * 512 + 512 * done then
        (sectors (image disk)).value seg address
      else mem address

theorem readsegRound_next {seg : Proghdr} {mem : UInt32 → UInt8} {done : Nat}
    {pa offset : UInt32} {m : Machine} (h : Loaded disk seg mem done (pa, offset, m))
    (hend : seg.pa.toNat + seg.memsz.toNat ≤ 2 ^ 32 - 512) (hlt : pa < seg.pa + seg.memsz) :
    ∃ m', readsect disk pa offset m = .ok m' ∧
      readsegRound disk (seg.pa + seg.memsz) (pa, offset, m) =
        .ok (.inl (pa + 512, offset + 1, m')) ∧
      Loaded disk seg mem (done + 1) (pa + 512, offset + 1, m') := by
  obtain ⟨hpa, hoffset, hmem⟩ := h
  have hendPa : (seg.pa + seg.memsz).toNat = seg.pa.toNat + seg.memsz.toNat :=
    toNat_add_of_lt (by omega)
  have hbelow : pa.toNat < seg.pa.toNat + seg.memsz.toNat := hendPa ▸ UInt32.lt_iff_toNat_lt.mp hlt
  have hsegOffset := seg.offset.toNat_lt
  obtain ⟨m', hread, hmem'⟩ := readsect_ok disk pa offset m (by omega)
  refine ⟨m', hread, ?_, ?_, ?_, fun address => ?_⟩
  · simp only [readsegRound, if_pos hlt, hread, bind, Except.bind]
    rfl
  · rw [UInt32.toNat_add, hpa]
    change (_ + 512) % 2 ^ 32 = _
    omega
  · rw [UInt32.toNat_add, hoffset]
    change (_ + 1) % 2 ^ 32 = _
    omega
  · have haddress := address.toNat_lt
    have hdiff : (address - pa).toNat < 512 ↔
        pa.toNat ≤ address.toNat ∧ address.toNat < pa.toNat + 512 := by
      rw [UInt32.toNat_sub]
      omega
    rw [hmem', hmem]
    by_cases hnew : (address - pa).toNat < 512
    · have hin := hdiff.mp hnew
      have hdist : (address - pa).toNat = address.toNat - pa.toNat := by
        rw [UInt32.toNat_sub]
        omega
      have hindex : offset.toNat * 512 + (address.toNat - pa.toNat) =
          512 + (seg.offset.toNat / 512 * 512 + (address.toNat - seg.pa.toNat / 512 * 512)) := by
        omega
      rw [if_pos hnew, if_pos (by omega), hdist, hindex]
      rfl
    · rw [if_neg hnew]
      by_cases hold : seg.pa.toNat / 512 * 512 ≤ address.toNat ∧
          address.toNat < seg.pa.toNat / 512 * 512 + 512 * done
      · rw [if_pos hold, if_pos (by omega)]
      · rw [if_neg hold, if_neg (by omega)]

theorem readsegRound_end {endPa pa : UInt32} (h : ¬pa < endPa) (offset : UInt32) (m : Machine) :
    readsegRound disk endPa (pa, offset, m) = .ok (.inr m) := by
  simp only [readsegRound, if_neg h]
  rfl

def sectorCount (seg : Proghdr) : Nat := (seg.pa.toNat % 512 + seg.memsz.toNat + 511) / 512

/-- The rule of `readseg`: it writes the sectors of its segment and nothing else,
and what every `readsect` preserves, counting the sectors, holds at its end. -/
theorem readseg_rule (seg : Proghdr) (m : Machine)
    (hend : seg.pa.toNat + seg.memsz.toNat ≤ 2 ^ 32 - 512) (inv : Nat → Machine → Prop)
    (hstart : inv 0 m)
    (hstep : ∀ done pa offset current next, done < sectorCount seg →
      offset.toNat = seg.offset.toNat / 512 + 1 + done → inv done current →
      readsect disk pa offset current = .ok next → inv (done + 1) next) :
    ∃ m', readseg disk seg.pa seg.memsz seg.offset m = .ok m' ∧
      m'.mem = (sectors (image disk)).write m.mem seg ∧ inv (sectorCount seg) m' := by
  have hfirst : (seg.pa &&& ~~~(UInt32.ofNat sectSize - 1)).toNat = seg.pa.toNat / 512 * 512 :=
    @toNat_and_not_low _ 9 rfl seg.pa
  have hoffset : (seg.offset / UInt32.ofNat sectSize + 1).toNat = seg.offset.toNat / 512 + 1 := by
    have hsegOffset := seg.offset.toNat_lt
    rw [UInt32.toNat_add, UInt32.toNat_div]
    change (seg.offset.toNat / 512 + 1) % 2 ^ 32 = _
    omega
  have hendPa : (seg.pa + seg.memsz).toNat = seg.pa.toNat + seg.memsz.toNat :=
    toNat_add_of_lt (by omega)
  have htotal : sectorCount seg =
      (seg.pa.toNat % 512 + seg.memsz.toNat + 511) / 512 := rfl
  have hinit : Loaded disk seg m.mem 0 (seg.pa &&& ~~~(UInt32.ofNat sectSize - 1),
      seg.offset / UInt32.ofNat sectSize + 1, m) := by
    refine ⟨by rw [hfirst, Nat.mul_zero, Nat.add_zero], by rw [hoffset, Nat.add_zero], ?_⟩
    intro address
    rw [if_neg (by omega)]
  unfold readseg
  -- the potential is the number of sectors that are still to be read
  refine Loop.run_spec
    (fun k state => ∃ done, done + k = sectorCount seg ∧ Loaded disk seg m.mem done state ∧
      inv done state.2.2)
    (fun result => ∃ m' : Machine, result = .ok m' ∧
      m'.mem = (sectors (image disk)).write m.mem seg ∧ inv (sectorCount seg) m')
    ?_ (2 ^ 23 + 1) (sectorCount seg) _ ⟨0, Nat.zero_add _, hinit, hstart⟩ (by omega)
  rintro k ⟨pa, offset, current⟩ ⟨done, hdone, hloaded, hinv⟩
  by_cases hlt : pa < seg.pa + seg.memsz
  · obtain ⟨next, hread, hround, hnext⟩ := readsegRound_next disk hloaded hend hlt
    rw [hround]
    have hbelow := UInt32.lt_iff_toNat_lt.mp hlt
    rw [hendPa, hloaded.1] at hbelow
    exact ⟨k - 1, by omega, done + 1, by omega, hnext,
      hstep done pa offset current next (by omega) hloaded.2.1 hinv hread⟩
  · rw [readsegRound_end disk hlt]
    have habove := Nat.le_of_not_lt (mt UInt32.lt_iff_toNat_lt.mpr hlt)
    rw [hendPa, hloaded.1] at habove
    have hall : done = sectorCount seg := by omega
    refine ⟨current, rfl, ?_, hall ▸ hinv⟩
    funext address
    have hcovered : (seg.pa.toNat / 512 * 512 ≤ address.toNat ∧
          address.toNat < seg.pa.toNat / 512 * 512 + 512 * done) ↔
        (sectors (image disk)).covers seg address = true := by
      rw [sectors, decide_eq_true_iff]
      omega
    rw [hloaded.2.2, Pieces.write]
    simp only [hcovered]

theorem readseg_ok (seg : Proghdr) (m : Machine)
    (hend : seg.pa.toNat + seg.memsz.toNat ≤ 2 ^ 32 - 512) :
    ∃ m', readseg disk seg.pa seg.memsz seg.offset m = .ok m' ∧
      m'.mem = (sectors (image disk)).write m.mem seg := by
  obtain ⟨m', hrun, hmem, -⟩ := readseg_rule disk seg m hend (fun _ _ => True) trivial
    (fun _ _ _ _ _ _ _ _ _ => trivial)
  exact ⟨m', hrun, hmem⟩

end

end JosKernel.Boot
