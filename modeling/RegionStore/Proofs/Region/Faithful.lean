import RegionStore.Proofs.Region.Frame

/-!
An open region whose file tells the same about its chunks: the words of every chunk are on disk, and the
file has exactly the sectors of the region. Changes that get through keep it so; they write the words of
their own slot and leave the bytes of all other chunks alone.
-/

set_option autoImplicit false

namespace RegionStore

open Disk

namespace Region

/-- The region and its file agree about all chunks. -/
structure Faithful (region : Region) (file : Device) : Prop where
  partitioned : Partitioned region.tables region.space
  size : file.content.size = region.space.sectors.toNat * sectorSize
  offsets : ∀ slot : Slot, region.tables.offsets.get slot ≠ 0 →
    (stored file.content).offsets.get slot = region.tables.offsets.get slot
  timestamps : ∀ slot : Slot, region.tables.offsets.get slot ≠ 0 →
    (stored file.content).timestamps.get slot = region.tables.timestamps.get slot

theorem Loaded.faithful {position : RegionPos} {sync : Bool} {file after : Device} {region : Region}
    (loaded : Loaded position sync file region after) : Faithful region after := by
  have surveyed := Tables.surveyed_survey (stored after.content) region.space.sectors
  have keeps := surveyed.keeps
  have kept := surveyed.kept
  rw [← loaded.tables] at keeps kept
  refine ⟨loaded.partitioned, loaded.prepared.size, fun slot present => ?_,
    fun slot present => (kept slot present).symm⟩
  have found : region.tables.extent? slot = some (Extent.ofWord (region.tables.offsets.get slot)) :=
    Tables.extent?_eq_some_iff.2 ⟨present, rfl⟩
  have same := ((keeps slot slot.isLt _).1 found).1
  exact Tables.extent?_eq_iff.1 (same.trans found.symm)

theorem Faithful.header_le {region : Region} {file : Device} (faithful : Faithful region file) :
    headerSize ≤ file.content.size := by
  have header := faithful.partitioned.header
  rw [Extent.headerSectors_toNat] at header
  rw [faithful.size, headerSize, sectorSize]
  omega

theorem Faithful.absent {region : Region} {file : Device} (faithful : Faithful region file) {slot : Slot}
    (zero : (stored file.content).offsets.get slot = 0) : region.tables.extent? slot = none := by
  rw [Tables.extent?_eq_none_iff]
  by_cases present : region.tables.offsets.get slot = 0
  · exact present
  · rw [← faithful.offsets slot present, zero]

theorem Faithful.admissible {region : Region} {file : Device} (faithful : Faithful region file)
    (short : region.space.sectors.toNat ≤ maxSectorIndex + maxExtentSectors) :
    Admissible file.content.size := by
  refine .inr ⟨?_, faithful.header_le, ?_⟩
  · rw [faithful.size]
    exact Nat.mul_mod_left _ _
  · rw [faithful.size]
    exact Nat.mul_le_mul_right _ short

theorem Faithful.set {region changed : Region} {file after : Device} (faithful : Faithful region file)
    {slot : Slot} {offset : UInt32} {timestamp : Int32}
    (tables : changed.tables = region.tables.set slot offset timestamp)
    (onDisk : stored after.content = (stored file.content).set slot offset timestamp)
    (partitioned : Partitioned changed.tables changed.space)
    (size : after.content.size = changed.space.sectors.toNat * sectorSize) : Faithful changed after := by
  refine ⟨partitioned, size, fun other present => ?_, fun other present => ?_⟩
  · rw [tables, Tables.offsets_set] at present ⊢
    rw [onDisk, Tables.offsets_set]
    split
    · rfl
    · next different =>
      rw [if_neg different] at present
      exact faithful.offsets other present
  · rw [tables, Tables.offsets_set] at present
    rw [tables, onDisk, Tables.timestamps_set, Tables.timestamps_set]
    split
    · rfl
    · next different =>
      rw [if_neg different] at present
      exact faithful.timestamps other present

structure SaveEffect (region : Region) (slot : Slot) (data : Bytes) (file : Device)
    (extent : Extent) (next : FreeSpace) (written : Device) : Prop where
  faithful : Faithful (region.moved slot extent next file.around.timestamp) written
  stored : stored written.content =
    (stored file.content).set slot extent.toWord file.around.timestamp
  own : written.content.read extent.position extent.size = extent.padded (record data)
  others : ∀ other place, other ≠ slot → region.tables.extent? other = some place →
    written.content.read place.position place.size = file.content.read place.position place.size
  continues : file.Continues written

theorem Faithful.intact {region : Region} {file : Device} (faithful : Faithful region file) :
    Intact region.space.sectors.toNat region file :=
  ⟨faithful.partitioned, Nat.le_refl _, Nat.le_of_eq faithful.size.symm⟩

theorem Faithful.placed_size {region : Region} {slot : Slot} {data : Bytes} {file placed : Device}
    {extent : Extent} {next : FreeSpace} (faithful : Faithful region file)
    (wrote : FreeSpace.Placed region.space file (region.tables.extent? slot) (record data) extent next
      placed) : placed.content.size = next.sectors.toNat * sectorSize := by
  obtain ⟨inside, longer⟩ := faithful.intact.target_inside wrote.target wrote.small
  have enough := faithful.intact.covered_next wrote
  have scaled := Nat.mul_le_mul_right sectorSize longer
  have size := faithful.intact.placed_size wrote
  have last := inside.end_le
  rw [faithful.size] at size
  omega

theorem SaveWritten.effect {region : Region} {slot : Slot} {data : Bytes} {file : Device}
    {extent : Extent} {next : FreeSpace} {written : Device}
    (saved : SaveWritten region slot data file extent next written) (faithful : Faithful region file)
    (packable : extent.Packable) : SaveEffect region slot data file extent next written := by
  obtain ⟨placed, wrote, entry⟩ := saved.phases
  have intact := faithful.intact
  obtain ⟨inside, longer⟩ := intact.target_inside wrote.target wrote.small
  have sizePlaced := faithful.placed_size wrote
  have enough : headerSize ≤ placed.content.size :=
    Nat.le_trans faithful.header_le wrote.wrote.size_le
  obtain ⟨sizeWritten, confined⟩ := entry.confined enough
  have storedWritten : stored written.content =
      (stored file.content).set slot extent.toWord file.around.timestamp := by
    rw [stored_of_entryWritten entry, intact.placed_stored wrote]
  refine ⟨faithful.set rfl storedWritten ?_ ?_, storedWritten, ?_, ?_, ?_⟩
  · exact faithful.partitioned.moved wrote.target (record_size_pos data) wrote.small packable _
  · rw [sectors_moved, sizeWritten, sizePlaced]
  · have present := inside.end_le
    rw [confined _ _ (sizePlaced ▸ present) (.inr inside.position_ge), wrote.read_own]
  · intro other place different found
    have insidePlace := faithful.partitioned.inside other place found
    have present := Nat.le_trans insidePlace.end_le intact.covered
    rw [confined _ _ (Nat.le_trans present wrote.wrote.size_le) (.inr insidePlace.position_ge)]
    exact intact.read_of_spares wrote.target wrote.small (intact.placed_spares wrote) found
      (.inl different)
  · exact wrote.wrote.continues.trans entry.continues

structure ClearEffect (region : Region) (slot : Slot) (extent : Extent) (file after : Device) :
    Prop where
  faithful : Faithful (region.removed slot extent) after
  stored : stored after.content = (stored file.content).set slot 0 0
  others : ∀ other place, region.tables.extent? other = some place →
    after.content.read place.position place.size = file.content.read place.position place.size
  continues : file.Continues after

theorem Cleared.effect {region cleared : Region} {slot : Slot} {extent : Extent}
    {file after : Device} (ends : Cleared region slot extent file cleared after)
    (found : region.tables.extent? slot = some extent) (faithful : Faithful region file) :
    ClearEffect region slot extent file after := by
  obtain ⟨written, entry, keeps⟩ := ends.phases
  have storedAfter : stored after.content = (stored file.content).set slot 0 0 := by
    rw [keeps.content, stored_of_entryWritten entry]
  refine ⟨faithful.set rfl storedAfter (faithful.partitioned.removed found) ?_, storedAfter, ?_,
    entry.continues.trans keeps.continues⟩
  · rw [keeps.content, (entry.confined faithful.header_le).1, faithful.size, removed,
      FreeSpace.sectors_release]
  · intro other place foundOther
    have inside := faithful.partitioned.inside other place foundOther
    rw [keeps.content]
    refine (entry.confined faithful.header_le).2 _ _ ?_ (.inr inside.position_ge)
    rw [faithful.size]
    exact inside.end_le

theorem Faithful.congr {region : Region} {file after : Device} (faithful : Faithful region file)
    (content : after.content = file.content) : Faithful region after := by
  refine ⟨faithful.partitioned, ?_, ?_, ?_⟩
  · rw [content]
    exact faithful.size
  · rw [content]
    exact faithful.offsets
  · rw [content]
    exact faithful.timestamps

end Region
end RegionStore
