import JosKernel.Boot.Segments

/-! `readseg` as seen from the disk: the sectors that it requests, in their
order, and the bytes of the disk that it delivers for them. -/
namespace JosKernel.Boot
open JosKernel.Inc JosKernel.General

structure Registers where
  count : UInt8
  ide : Ide

def Registers.write (regs : Registers) (out : UInt16 × UInt8) : Registers :=
  { count := if out.1 = 0x1F2 then out.2 else regs.count, ide := regs.ide.write out }

/-- What a read command asks for: how many sectors, in which mode and from which
drive, and the address of the first one. -/
structure Request where
  count : UInt8
  mode : UInt8
  sector : Nat
  deriving DecidableEq, Repr

def Registers.request (regs : Registers) : Request :=
  ⟨regs.count, regs.ide.drive &&& 0xF0, regs.ide.lba⟩

def requests (regs : Registers) : List (UInt16 × UInt8) → List Request
  | [] => []
  | out :: outs =>
    if out.1 = 0x1F7 ∧ out.2 = 0x20 then (regs.write out).request :: requests (regs.write out) outs
    else requests (regs.write out) outs

theorem requests_append (regs : Registers) (outs outs' : List (UInt16 × UInt8)) :
    requests regs (outs ++ outs') =
      requests regs outs ++ requests (outs.foldl Registers.write regs) outs' := by
  induction outs generalizing regs with
  | nil => rfl
  | cons out outs ih =>
    rw [List.cons_append, requests, requests, ih, List.foldl_cons]
    split <;> rfl

theorem drive_mode {offset : UInt32} (h : offset.toNat < 2 ^ 28) :
    ((offset >>> 24) ||| 0xE0).toUInt8 &&& 0xF0 = 0xE0 := by
  have hnibble : ∀ n < 16, (n ||| 0xE0) % 2 ^ 8 &&& 0xF0 = 0xE0 := by decide
  have hshift : (offset >>> 24).toNat = offset.toNat / 2 ^ 24 :=
    toNat_shiftRight_of_lt offset (by decide)
  apply UInt8.toNat_inj.mp
  rw [UInt8.toNat_and, UInt32.toNat_toUInt8, UInt32.toNat_or, hshift]
  exact hnibble _ (by omega)

theorem foldl_write_ide (regs : Registers) (outs : List (UInt16 × UInt8)) :
    (outs.foldl Registers.write regs).ide = outs.foldl Ide.write regs.ide := by
  induction outs generalizing regs with
  | nil => rfl
  | cons out outs ih => exact ih (regs.write out)

theorem requests_other (regs : Registers) (port : UInt16) (data : UInt8)
    (outs : List (UInt16 × UInt8)) (h : port ≠ 0x1F7) :
    requests regs ((port, data) :: outs) = requests (regs.write (port, data)) outs := by
  rw [requests, if_neg fun hread => h hread.1]

theorem write_read_lba (ide : Ide) :
    (ide.write (0x1F7, 0x20)).lba = (ide.write (0x1F7, 0x20)).sector := by
  have hwrite : ide.write (0x1F7, 0x20) = { ide with sector := ide.lba } := rfl
  rw [hwrite]
  unfold Ide.lba
  rfl

theorem command_lba (ide : Ide) (offset : UInt32) :
    ((command offset).foldl Ide.write ide).lba = ((command offset).foldl Ide.write ide).sector := by
  have hcommand : command offset = (command offset).dropLast ++ [(0x1F7, 0x20)] := rfl
  rw [hcommand, List.foldl_append]
  exact write_read_lba _

theorem requests_command (regs : Registers) {offset : UInt32} (h : offset.toNat < 2 ^ 28) :
    requests regs (command offset) = [⟨1, 0xE0, offset.toNat⟩] := by
  have hrequest : requests regs (command offset) =
      [((command offset).foldl Registers.write regs).request] := by
    rw [command]
    iterate 5 rw [requests_other _ _ _ _ (by decide)]
    rfl
  have hdrive : ((command offset).foldl Ide.write regs.ide).drive =
      ((offset >>> 24) ||| 0xE0).toUInt8 := rfl
  have hcount : ((command offset).foldl Registers.write regs).count = 1 := rfl
  rw [hrequest, Registers.request, foldl_write_ide, hdrive, hcount, drive_mode h, command_lba,
    command_sector regs.ide h]

/-- The bytes that were asked for are in memory, nothing but whole sectors has
been written, and each of these was requested once, in increasing order. -/
structure Delivered (disk : Disk) (pa count offset : UInt32) (m m' : Machine) : Prop where
  bytes : ∀ i, i < count.toNat →
    m'.mem (pa + UInt32.ofNat i) = disk.bytes (512 + offset.toNat + i)
  frame : ∀ address : UInt32, address.toNat < pa.toNat / 512 * 512 ∨
    (pa.toNat + count.toNat + 511) / 512 * 512 ≤ address.toNat → m'.mem address = m.mem address
  requested : ∃ outs, m'.ports.outs = m.ports.outs ++ outs ∧ ∀ regs, requests regs outs =
    (List.range (sectorCount ⟨offset, pa, count⟩)).map fun k => ⟨1, 0xE0, offset.toNat / 512 + 1 + k⟩

/-- `readseg` delivers the bytes asked for. -/
theorem readseg_delivers (disk : Disk) (pa count offset : UInt32) (m : Machine)
    (haligned : pa.toNat % 512 = offset.toNat % 512)
    (hend : pa.toNat + count.toNat ≤ 2 ^ 32 - 512) :
    ∃ m', readseg disk pa count offset m = .ok m' ∧ Delivered disk pa count offset m m' := by
  have hoffset := offset.toNat_lt
  have hcount : sectorCount ⟨offset, pa, count⟩ = (pa.toNat % 512 + count.toNat + 511) / 512 := rfl
  obtain ⟨m', hrun, hmem, hrequested⟩ := readseg_rule disk ⟨offset, pa, count⟩ m hend
    (fun done current => ∃ outs, current.ports.outs = m.ports.outs ++ outs ∧ ∀ regs,
      requests regs outs = (List.range done).map fun k => ⟨1, 0xE0, offset.toNat / 512 + 1 + k⟩)
    ⟨[], (List.append_nil _).symm, fun _ => rfl⟩
    (by
      rintro done pa' sector current next hdone hsector ⟨outs, houts, hrequests⟩ hread
      obtain ⟨ports, hrun, hports⟩ := readsect_run disk pa' sector current
      cases hrun.symm.trans hread
      dsimp only at hsector
      refine ⟨outs ++ command sector, ?_, fun regs => ?_⟩
      · rw [← List.append_assoc, ← houts]
        exact hports
      · rw [requests_append, requests_command _ (by omega), hrequests, hsector, List.range_succ,
          List.map_append]
        rfl)
  refine ⟨m', hrun, ?_, ?_, hrequested⟩
  · intro i hi
    have hpa : (pa + UInt32.ofNat i).toNat = pa.toNat + i := toNat_offset (by omega)
    have hcovers : (sectors (image disk)).covers ⟨offset, pa, count⟩ (pa + UInt32.ofNat i) := by
      rw [sectors, decide_eq_true_iff, hpa]
      dsimp only
      omega
    have hindex : 512 + (offset.toNat / 512 * 512 + (pa.toNat + i - pa.toNat / 512 * 512)) =
        512 + offset.toNat + i := by omega
    rw [hmem, Pieces.write, if_pos hcovers, ← hindex, ← hpa]
    rfl
  · intro address houtside
    have hcovers : ¬(sectors (image disk)).covers ⟨offset, pa, count⟩ address := by
      rw [sectors, decide_eq_true_iff]
      dsimp only
      omega
    rw [hmem, Pieces.write, if_neg hcovers]

theorem readseg_delivers_unaligned :
    ∃ m', readseg (elfDisk neighbours 0x1100) 0x100010 0x400 0x1010 .zeroed = .ok m' ∧
      Delivered (elfDisk neighbours 0x1100) 0x100010 0x400 0x1010 .zeroed m' :=
  readseg_delivers (elfDisk neighbours 0x1100) 0x100010 0x400 0x1010 .zeroed (by decide) (by decide)

end JosKernel.Boot
