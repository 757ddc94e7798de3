import RegionStore.Proofs.Region.History

/-!
What is loaded of a chunk after a change, as the file has it: a record that was placed is found once the
words of its slot are written, and a change does not touch what is found of the other chunks. A record
that could not be placed leaves them alone too, and its own chunk if that was to move.
-/

set_option autoImplicit false

namespace RegionStore.Region

open Disk

theorem slot_ne_of_ne {region : Region} {chunk other : ChunkPos} {slot : Slot}
    (own : region.slot chunk = .ok slot) (different : other ≠ chunk) : region.slot other ≠ .ok slot := by
  intro same
  obtain ⟨inRegion, isSlot⟩ := slot_eq_ok_iff.1 own
  obtain ⟨inRegion', isSlot'⟩ := slot_eq_ok_iff.1 same
  apply different
  rw [← RegionPos.chunkAt_slotOf other, ← RegionPos.chunkAt_slotOf chunk, inRegion, inRegion', ← isSlot,
    ← isSlot']

variable [Codec]

theorem find_of_padded [LawfulCodec] {region : Region} {content : Content} {chunk : ChunkPos} {slot : Slot}
    {payload data : Bytes} {tag : UInt8} {extent : Extent} (own : region.slot chunk = .ok slot)
    (found : region.tables.extent? slot = some extent) (accepted : encodeChunk payload tag = .ok data)
    (fits : sectorsOf (record data).size ≤ extent.count.toNat)
    (small : sectorsOf (record data).size ≤ maxExtentSectors)
    (bytes : content.read extent.position extent.size = extent.padded (record data)) :
    region.find content chunk = .ok (some payload) := by
  unfold find
  simp only [own, found, bytes]
  rw [recordData_padded _ (encodeChunk_nonempty accepted) fits small, decodeChunk_encodeChunk accepted]
  rfl

section
variable {limit : Nat} {region : Region} {file : Device} (intact : Intact limit region file)
include intact

theorem Intact.find_elsewhere {change : Change} {pending : Pending}
    (reaches : change.Reaches region file pending) {written : Device}
    (entry : EntryWritten pending.slot pending.offset pending.timestamp pending.file written)
    {other : ChunkPos} (elsewhere : region.slot other ≠ .ok pending.slot) :
    pending.changed.find written.content other = region.find file.content other := by
  have framed := intact.framed reaches
  have longer : file.content.size ≤ pending.file.content.size := by
    rw [framed.size]
    exact Nat.le_max_left ..
  have confined := (entry.confined (Nat.le_trans intact.header_present longer)).2
  apply find_congr framed.positions.2
  intro slot own
  have different : slot ≠ pending.slot := fun same => elsewhere (same ▸ own)
  refine ⟨?_, fun place found => ?_⟩
  · rw [framed.changes, Tables.extent?_set, if_neg different]
  · have inside := intact.partitioned.inside slot place found
    have present := Nat.le_trans inside.end_le (Nat.le_trans intact.covered longer)
    rw [confined _ _ present (.inr inside.position_ge), framed.others slot place different found]

section
variable {slot : Slot} {chunk : ChunkPos} {payload data : Bytes} {tag : UInt8}

omit [Codec] in
theorem Intact.extent?_moved {extent : Extent} {next : FreeSpace} {placed : Device}
    (wrote : FreeSpace.Placed region.space file (region.tables.extent? slot) (record data) extent next
      placed) (packable : extent.Packable) (timestamp : Int32) :
    (region.moved slot extent next timestamp).tables.extent? slot = some extent := by
  obtain ⟨inside, _⟩ := intact.target_inside wrote.target wrote.small
  rw [moved, Tables.extent?_set_toWord _ _ _ packable inside.nonempty, if_pos rfl]

/-- What is found of a chunk whose record was placed, if a table word can tell where. -/
theorem Intact.find_saved [LawfulCodec] (own : region.slot chunk = .ok slot)
    (accepted : encodeChunk payload tag = .ok data) {extent : Extent} {next : FreeSpace}
    {placed written : Device}
    (wrote : FreeSpace.Placed region.space file (region.tables.extent? slot) (record data) extent next
      placed) (packable : extent.Packable) {timestamp : Int32}
    (entry : EntryWritten slot extent.toWord timestamp placed written) :
    (region.moved slot extent next timestamp).find written.content chunk = .ok (some payload) := by
  obtain ⟨inside, _⟩ := intact.target_inside wrote.target wrote.small
  have found := intact.extent?_moved wrote packable timestamp
  have here : (region.moved slot extent next timestamp).slot chunk = .ok slot := own
  apply find_of_padded here found accepted wrote.target.fits wrote.small
  have longer := wrote.wrote.size_le
  have confined := (entry.confined (Nat.le_trans intact.header_present longer)).2
  have present := Nat.le_trans inside.end_le (intact.covered_next wrote)
  rw [confined _ _ present (.inr inside.position_ge), wrote.read_own]

/-- Nothing is lost to a record that was to go elsewhere and could not be placed. -/
theorem Intact.find_unplaced {failure : Failure} {after : Device}
    (cause : FreeSpace.Unplaced region.space file (region.tables.extent? slot) (record data) failure
      after)
    (moves : ∀ place, region.tables.extent? slot = some place →
      place.count.toNat < sectorsOf (record data).size) (other : ChunkPos) :
    region.find after.content other = region.find file.content other := by
  refine find_congr rfl fun place _ => ⟨rfl, fun extent found => ?_⟩
  apply intact.read_of_unplaced cause found
  by_cases same : place = slot
  · exact .inr (moves extent (same ▸ found))
  · exact .inl same

end

end

theorem exists_save_newFile [LawfulCodec] :
    ∃ region opened live now, load ⟨0, 0⟩ true newFile = .ok region opened ∧
      Change.apply (region, opened) (Surroundings.initial, .save ⟨0, 0⟩ ⟨#[97, 98, 99]⟩ 3) = (live, now) ∧
      Reached ⟨0, 0⟩ EntryWrites (live, now) ∧ live.sync = true ∧
      live.slot ⟨0, 0⟩ = .ok ⟨0, by decide⟩ ∧
      outcome (loadChunk ⟨0, 0⟩) (live, now.under Surroundings.initial) = .ok (some ⟨#[97, 98, 99]⟩) ∧
      Appended region ⟨0, by decide⟩ ⟨#[3, 97, 98, 99]⟩ (opened.under Surroundings.initial) ⟨2, 1⟩
        live now := by
  obtain ⟨region, opened, ran, loaded, fresh⟩ :=
    blank_newFile.exists_load ⟨rfl, untroubled_initial⟩ ⟨0, 0⟩ true
  have isFile : opened.full = false := loaded.prepared.continues.full
  have inRegion : ChunkPos.regionOf ⟨0, 0⟩ = ⟨0, 0⟩ := by decide
  have encoded : encodeChunk ⟨#[97, 98, 99]⟩ 3 = .ok ⟨#[3, 97, 98, 99]⟩ := rfl
  obtain ⟨live, now, made, appended⟩ :=
    fresh.exists_save loaded rfl untroubled_initial inRegion encoded (by decide)
  have reached : Reached ⟨0, 0⟩ EntryWrites (live, now) :=
    made ▸ .changed (.opened blank_newFile ran) (entryWrites_of_untroubled
      (loaded.intact loaded.prepared.short) isFile untroubled_initial)
  have untroubled : (now.under Surroundings.initial).Untroubled :=
    ⟨reached.compact.isFile, untroubled_initial⟩
  have own : live.slot ⟨0, 0⟩ = .ok ⟨0, by decide⟩ := by
    rw [slot, appended.position.trans loaded.position]
    rfl
  refine ⟨region, opened, live, now, ran, made, reached, appended.sync.trans loaded.sync, own, ?_, appended⟩
  rw [outcome_loadChunk live untroubled]
  exact find_of_padded own (appended.extents _) encoded (by decide) (by decide) appended.own

end RegionStore.Region
