import JosKernel.Boot.Readseg

/-! The boot loader on ELF images: what the segments leave of one another. -/
namespace JosKernel.Boot
open JosKernel.Inc JosKernel.General

def page (image : Nat → UInt8) : UInt32 → UInt8 := fun address => image (address - elfhdr).toNat

def phoff (image : Nat → UInt8) : UInt32 := load32 (page image) (elfhdr + 28)

def phnum (image : Nat → UInt8) : UInt32 := load16 (page image) (elfhdr + 44)

def segments (image : Nat → UInt8) : List Proghdr :=
  (List.range (phnum image).toNat).map fun index =>
    loadProghdr (page image) (elfhdr + phoff image + 32 * UInt32.ofNat index)

/-- What the loader needs of an image: its segments stay below the last sector
and away from the scratch page, and have their file position in their address. -/
structure Loadable (image : Nat → UInt8) : Prop where
  magic : load32 (page image) elfhdr = elfMagic
  headers : (phoff image).toNat + 32 * (phnum image).toNat ≤ 4096
  below : ∀ seg ∈ segments image, seg.pa.toNat + seg.memsz.toNat ≤ 2 ^ 32 - 512
  scratch : ∀ seg ∈ segments image,
    seg.pa.toNat + seg.memsz.toNat ≤ 0x10000 ∨ 0x11000 ≤ seg.pa.toNat
  congruent : ∀ seg ∈ segments image, seg.pa.toNat % 512 = seg.offset.toNat % 512

/-- An image as a linker makes it: the segments are in increasing order and
disjoint, and away from the boot sector and from the loader's stack below it. -/
structure WellFormed (image : Nat → UInt8) : Prop extends Loadable image where
  ordered : (segments image).Pairwise fun seg next => seg.pa.toNat < next.pa.toNat
  disjoint : (segments image).Pairwise fun seg next =>
    seg.pa.toNat + seg.memsz.toNat ≤ next.pa.toNat
  loader : ∀ seg ∈ segments image, 0x7e00 ≤ seg.pa.toNat

def Agrees (image : Nat → UInt8) (mem : UInt32 → UInt8) : Prop :=
  ∀ address : UInt32, 0x10000 ≤ address.toNat → address.toNat < 0x11000 →
    mem address = page image address

theorem Agrees.load16 {image : Nat → UInt8} {mem : UInt32 → UInt8} (h : Agrees image mem)
    {address : UInt32} (hlo : 0x10000 ≤ address.toNat) (hhi : address.toNat + 2 ≤ 0x11000) :
    load16 mem address = load16 (page image) address := by
  have hnext : (address + 1).toNat = address.toNat + 1 :=
    toNat_add_of_lt (show address.toNat + 1 < 2 ^ 32 by omega)
  unfold Boot.load16
  rw [h address hlo (by omega), h (address + 1) (by omega) (by omega)]

theorem Agrees.load32 {image : Nat → UInt8} {mem : UInt32 → UInt8} (h : Agrees image mem)
    {address : UInt32} (hlo : 0x10000 ≤ address.toNat) (hhi : address.toNat + 4 ≤ 0x11000) :
    load32 mem address = load32 (page image) address := by
  have hnext : (address + 2).toNat = address.toNat + 2 :=
    toNat_add_of_lt (show address.toNat + 2 < 2 ^ 32 by omega)
  unfold Boot.load32
  rw [h.load16 hlo (by omega), h.load16 (by omega) (by omega)]

theorem Agrees.loadProghdr {image : Nat → UInt8} {mem : UInt32 → UInt8} (h : Agrees image mem)
    (ph : UInt32) (hlo : 0x10000 ≤ ph.toNat) (hhi : ph.toNat + 32 ≤ 0x11000) :
    loadProghdr mem ph = loadProghdr (page image) ph := by
  have hfield : ∀ k : UInt32, k.toNat ≤ 20 → (ph + k).toNat = ph.toNat + k.toNat := fun k hk =>
    toNat_add_of_lt (by omega)
  have hload : ∀ k : UInt32, k.toNat ≤ 20 →
      Boot.load32 mem (ph + k) = Boot.load32 (page image) (ph + k) := fun k hk =>
    h.load32 (by rw [hfield k hk]; omega) (by rw [hfield k hk]; omega)
  unfold Boot.loadProghdr
  rw [hload 4 (by decide), hload 12 (by decide), hload 20 (by decide)]

theorem Agrees.write {image : Nat → UInt8} {mem : UInt32 → UInt8} (h : Agrees image mem)
    {seg : Proghdr}
    (hscratch : seg.pa.toNat + seg.memsz.toNat ≤ 0x10000 ∨ 0x11000 ≤ seg.pa.toNat) :
    Agrees image ((sectors image).write mem seg) := by
  intro address hlo hhi
  rw [Pieces.write, if_neg, h address hlo hhi]
  rw [sectors, decide_eq_true_iff]
  omega

section
variable (disk : Disk)

theorem readseg_page (m : Machine) :
    ∃ m', readseg disk elfhdr (UInt32.ofNat (sectSize * 8)) 0 m = .ok m' ∧
      Agrees (image disk) m'.mem := by
  obtain ⟨m', hread, hmem⟩ := readseg_ok disk ⟨0, elfhdr, UInt32.ofNat (sectSize * 8)⟩ m (by decide)
  refine ⟨m', hread, fun address hlo hhi => ?_⟩
  rw [hmem, Pieces.write, if_pos]
  · have hoffset : (address - elfhdr).toNat = address.toNat - 65536 := by
      have hbase : elfhdr.toNat = 65536 := rfl
      have haddress := address.toNat_lt
      rw [UInt32.toNat_sub, hbase]
      omega
    have hvalue : (sectors (image disk)).value ⟨0, elfhdr, UInt32.ofNat (sectSize * 8)⟩ address =
        image disk (0 + (address.toNat - 65536)) := rfl
    rw [hvalue, page, hoffset, Nat.zero_add]
  · rw [sectors, decide_eq_true_iff]
    change 65536 ≤ address.toNat ∧ address.toNat / 512 * 512 < 69632
    omega

theorem phdr_toNat {image : Nat → UInt8} (h : Loadable image) {index : Nat}
    (hindex : index ≤ (phnum image).toNat) :
    (elfhdr + phoff image + 32 * UInt32.ofNat index).toNat =
      65536 + (phoff image).toNat + 32 * index := by
  have hheaders := h.headers
  have hbase : elfhdr.toNat = 65536 := rfl
  have hsize : UInt32.toNat 32 = 32 := rfl
  rw [UInt32.toNat_add, UInt32.toNat_add, UInt32.toNat_mul, hbase, hsize,
    UInt32.toNat_ofNat_of_lt' (by change index < 2 ^ 32; omega)]
  omega

theorem bootmainRound_next (h : Loadable (image disk)) {m : Machine}
    (hagrees : Agrees (image disk) m.mem) {index : Nat}
    (hindex : index < (phnum (image disk)).toNat) :
    ∃ seg m', (segments (image disk))[index]? = some seg ∧
      bootmainRound disk (elfhdr + phoff (image disk) + 32 * phnum (image disk))
          (elfhdr + phoff (image disk) + 32 * UInt32.ofNat index, m) =
        .ok (.inl (elfhdr + phoff (image disk) + 32 * UInt32.ofNat (index + 1), m')) ∧
      m'.mem = (sectors (image disk)).write m.mem seg ∧ Agrees (image disk) m'.mem := by
  have hheaders := h.headers
  have hph := phdr_toNat h (Nat.le_of_lt hindex)
  have heph := phdr_toNat h (Nat.le_refl (phnum (image disk)).toNat)
  rw [UInt32.ofNat_toNat] at heph
  have hseg : (segments (image disk))[index]? = some (loadProghdr (page (image disk))
      (elfhdr + phoff (image disk) + 32 * UInt32.ofNat index)) := by
    rw [segments, List.getElem?_map, List.getElem?_range hindex]
    rfl
  have hmem := List.mem_of_getElem? hseg
  have hload := hagrees.loadProghdr (elfhdr + phoff (image disk) + 32 * UInt32.ofNat index)
    (by omega) (by omega)
  obtain ⟨m', hread, hm'⟩ := readseg_ok disk _ m (h.below _ hmem)
  refine ⟨_, m', hseg, ?_, hm', hm' ▸ hagrees.write (h.scratch _ hmem)⟩
  have hlt : elfhdr + phoff (image disk) + 32 * UInt32.ofNat index <
      elfhdr + phoff (image disk) + 32 * phnum (image disk) := by
    rw [UInt32.lt_iff_toNat_lt, hph, heph]
    omega
  have hnext : elfhdr + phoff (image disk) + 32 * UInt32.ofNat index + 32 =
      elfhdr + phoff (image disk) + 32 * UInt32.ofNat (index + 1) := by
    rw [UInt32.ofNat_add]
    grind
  simp only [bootmainRound, if_pos hlt, hload, hread, bind, Except.bind, hnext]
  rfl

/-- The loop over the program headers writes the segments one over the other. -/
theorem bootmain_loop (h : Loadable (image disk)) {m : Machine}
    (hagrees : Agrees (image disk) m.mem) :
    ∃ m', Loop.run .unfinished
        (bootmainRound disk (elfhdr + phoff (image disk) + 32 * phnum (image disk))) (2 ^ 16)
        (elfhdr + phoff (image disk), m) = .ok m' ∧
      m'.mem = (segments (image disk)).foldl (sectors (image disk)).write m.mem := by
  have hheaders := h.headers
  have hlength : (segments (image disk)).length = (phnum (image disk)).toNat := by
    rw [segments, List.length_map, List.length_range]
  -- the potential is the number of headers that are left
  refine Loop.run_spec
    (fun k state => ∃ done, done + k = (phnum (image disk)).toNat ∧
      state.1 = elfhdr + phoff (image disk) + 32 * UInt32.ofNat done ∧
      Agrees (image disk) state.2.mem ∧
      state.2.mem = ((segments (image disk)).take done).foldl (sectors (image disk)).write m.mem)
    (fun result => ∃ m' : Machine, result = .ok m' ∧
      m'.mem = (segments (image disk)).foldl (sectors (image disk)).write m.mem)
    ?_ (2 ^ 16) (phnum (image disk)).toNat _ ⟨0, Nat.zero_add _, ?_, hagrees, rfl⟩ (by omega)
  · intro k state hinv
    -- the outcome is named so that nothing tries to evaluate the round
    generalize houtcome : bootmainRound disk _ state = outcome
    obtain ⟨ph, current⟩ := state
    obtain ⟨done, hdone, hph, hcurrent, hmem⟩ := hinv
    dsimp only at hph hcurrent hmem
    by_cases hlt : done < (phnum (image disk)).toNat
    · obtain ⟨seg, next, hseg, hround, hnext, hnextAgrees⟩ := bootmainRound_next disk h hcurrent hlt
      rw [hph, hround] at houtcome
      rw [← houtcome]
      refine ⟨k - 1, by omega, done + 1, by omega, rfl, hnextAgrees, ?_⟩
      rw [List.take_add_one, hseg, List.foldl_append, ← hmem]
      exact hnext
    · have hend : done = (phnum (image disk)).toNat := by omega
      have hround : bootmainRound disk (elfhdr + phoff (image disk) + 32 * phnum (image disk))
          (elfhdr + phoff (image disk) + 32 * UInt32.ofNat done, current) = .ok (.inr current) := by
        rw [hend, UInt32.ofNat_toNat]
        simp only [bootmainRound, if_neg (UInt32.lt_irrefl _)]
        rfl
      rw [hph, hround] at houtcome
      rw [← houtcome]
      refine ⟨current, rfl, ?_⟩
      rw [hmem, List.take_of_length_le (by omega)]
  · grind

theorem bootmain_ok (h : Loadable (image disk)) (m : Machine) :
    ∃ entry m', bootmain disk m = .ok (some entry, m') ∧
      ∀ seg ∈ segments (image disk), ∀ i, i < seg.memsz.toNat →
        ∃ last, (sectors (image disk)).top (segments (image disk)) (seg.pa + UInt32.ofNat i) =
            some last ∧
          m'.mem (seg.pa + UInt32.ofNat i) =
            image disk (last.offset.toNat + (seg.pa.toNat + i) - last.pa.toNat) := by
  have hheaders := h.headers
  obtain ⟨m₁, hread, hagrees⟩ := readseg_page disk m
  obtain ⟨m', hloop, hmem⟩ := bootmain_loop disk h hagrees
  have hmagic : load32 m₁.mem elfhdr = elfMagic := by
    rw [hagrees.load32 (by decide) (by decide), h.magic]
  have hphoff : load32 m₁.mem (elfhdr + 28) = phoff (image disk) :=
    hagrees.load32 (by decide) (by decide)
  have hphnum : load16 m₁.mem (elfhdr + 44) = phnum (image disk) :=
    hagrees.load16 (by decide) (by decide)
  refine ⟨load32 m'.mem (elfhdr + 24), m', ?_, fun seg hseg i hi => ?_⟩
  · simp only [bootmain, hread, bind, Except.bind, hmagic, hphoff, hphnum, hloop]
    rfl
  · have hbelow := h.below seg hseg
    have haddress : (seg.pa + UInt32.ofNat i).toNat = seg.pa.toNat + i := toNat_offset (by omega)
    have hcovers : (sectors (image disk)).covers seg (seg.pa + UInt32.ofNat i) := by
      rw [sectors, decide_eq_true_iff, haddress]
      omega
    obtain ⟨last, htop⟩ := (sectors (image disk)).top_isSome hseg hcovers
    obtain ⟨hlast, hover⟩ := (sectors (image disk)).of_top htop
    have hcongruent := h.congruent last hlast
    rw [sectors, decide_eq_true_iff, haddress] at hover
    refine ⟨last, htop, ?_⟩
    rw [hmem, Pieces.foldl_write, htop]
    change image disk (last.offset.toNat / 512 * 512 +
      ((seg.pa + UInt32.ofNat i).toNat - last.pa.toNat / 512 * 512)) = _
    have hindex : last.offset.toNat / 512 * 512 +
        (seg.pa.toNat + i - last.pa.toNat / 512 * 512) =
          last.offset.toNat + (seg.pa.toNat + i) - last.pa.toNat := by omega
    rw [haddress, hindex]

end

def Survive (disk : Disk) (m : Machine) : Prop :=
  ∃ entry m', bootmain disk m = .ok (some entry, m') ∧
    ∀ seg ∈ segments (image disk), ∀ i, i < seg.memsz.toNat →
      m'.mem (seg.pa + UInt32.ofNat i) = image disk (seg.offset.toNat + i)

/-- Where the sectors of a segment lie under those of a later one, the last one
has the same bytes in the image there. -/
def Repaired (image : Nat → UInt8) : Prop :=
  ∀ seg ∈ segments image, ∀ i, i < seg.memsz.toNat →
    ∀ last, (sectors image).top (segments image) (seg.pa + UInt32.ofNat i) = some last →
      image (last.offset.toNat + (seg.pa.toNat + i) - last.pa.toNat) = image (seg.offset.toNat + i)

/-- The segments survive one another exactly if the image repairs them. -/
theorem bootmain_survive_iff_repaired (disk : Disk) (m : Machine) (h : Loadable (image disk)) :
    Survive disk m ↔ Repaired (image disk) := by
  obtain ⟨entry, m', hrun, hmem⟩ := bootmain_ok disk h m
  constructor
  · rintro ⟨entry', m'', hrun', hsegs⟩ seg hseg i hi last htop
    rw [hrun] at hrun'
    cases hrun'
    obtain ⟨last', htop', hbyte⟩ := hmem seg hseg i hi
    rw [htop] at htop'
    cases htop'
    rw [← hbyte, hsegs seg hseg i hi]
  · intro hrepaired
    refine ⟨entry, m', hrun, fun seg hseg i hi => ?_⟩
    obtain ⟨last, htop, hbyte⟩ := hmem seg hseg i hi
    rw [hbyte, hrepaired seg hseg i hi last htop]

def le32 (value : UInt32) : List UInt8 :=
  [value.toUInt8, (value >>> 8).toUInt8, (value >>> 16).toUInt8, (value >>> 24).toUInt8]

def elfHeaders (segs : List Proghdr) : List UInt8 :=
  le32 elfMagic ++ List.replicate 24 0 ++ le32 52 ++ List.replicate 12 0 ++
    [UInt8.ofNat segs.length, 0] ++ List.replicate 6 0 ++
    segs.flatMap fun seg => le32 1 ++ le32 seg.offset ++ le32 seg.pa ++ le32 seg.pa ++
      le32 seg.memsz ++ le32 seg.memsz ++ List.replicate 8 0

def elfDisk (segs : List Proghdr) (one : Nat) : Disk where
  bytes index :=
    if index = sectSize + one then 1 else (elfHeaders segs).getD (index - sectSize) 0
  device _ _ := 0x40
  patience := 1
  ready _ := ⟨0, Nat.zero_lt_one, rfl⟩

def Machine.zeroed : Machine := ⟨⟨0, []⟩, fun _ => 0⟩

def neighbours : List Proghdr := [⟨0x1000, 0x100000, 0x110⟩, ⟨0x1180, 0x100180, 0x80⟩]

theorem segments_neighbours : segments (image (elfDisk neighbours 0x1100)) = neighbours := by decide

theorem bootmain_survive_neighbours : Survive (elfDisk neighbours 0x1100) .zeroed := by
  refine (bootmain_survive_iff_repaired (elfDisk neighbours 0x1100) .zeroed ?_).mpr ?_
  · refine ⟨by decide, by decide, ?_, ?_, ?_⟩ <;> rw [segments_neighbours] <;> decide
  · have hshift : ∀ seg ∈ neighbours, seg.pa.toNat = seg.offset.toNat + 0xFF000 := by decide
    intro seg hseg i hi last htop
    have hlast := ((sectors _).of_top htop).1
    rw [segments_neighbours] at hseg hlast
    have hseg' := hshift seg hseg
    have hlast' := hshift last hlast
    have hindex : last.offset.toNat + (seg.pa.toNat + i) - last.pa.toNat = seg.offset.toNat + i := by
      omega
    rw [hindex]

def meeting : List Proghdr := [⟨0x1000, 0x100000, 0x110⟩, ⟨0x2180, 0x100180, 0x80⟩]

theorem segments_meeting : segments (image (elfDisk meeting 0x1100)) = meeting := by decide

theorem wellFormed_meeting : WellFormed (image (elfDisk meeting 0x1100)) := by
  refine ⟨⟨by decide, by decide, ?_, ?_, ?_⟩, ?_, ?_, ?_⟩ <;> rw [segments_meeting] <;> decide

/-- The second segment's first sector overwrites the end of the first segment. -/
theorem bootmain_not_survive : ¬∀ disk m, WellFormed (image disk) → Survive disk m := by
  intro h
  obtain ⟨entry, m', hrun, hsegs⟩ := h (elfDisk meeting 0x1100) .zeroed wellFormed_meeting
  obtain ⟨entry', m'', hrun', hmem⟩ :=
    bootmain_ok (elfDisk meeting 0x1100) wellFormed_meeting.toLoadable .zeroed
  rw [hrun] at hrun'
  cases hrun'
  have hfirst : ⟨0x1000, 0x100000, 0x110⟩ ∈ segments (image (elfDisk meeting 0x1100)) := by
    rw [segments_meeting]
    decide
  obtain ⟨last, htop, hbyte⟩ := hmem _ hfirst 0x100 (by decide)
  have hsecond : (sectors (image (elfDisk meeting 0x1100))).top
      (segments (image (elfDisk meeting 0x1100))) ((0x100000 : UInt32) + UInt32.ofNat 0x100) =
      some ⟨0x2180, 0x100180, 0x80⟩ := by
    rw [segments_meeting]
    decide
  rw [hsecond] at htop
  cases htop
  rw [hsegs _ hfirst 0x100 (by decide)] at hbyte
  exact absurd hbyte (by decide)

end JosKernel.Boot
