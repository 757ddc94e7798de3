import RegionStore.Proofs.Disk.Survival
import RegionStore.Proofs.Region.Requests

/-!
What a region file stands for that is left behind by a change which did not come to its end. Whichever of
the writes are there, the words of the slot tell either the old extent of the chunk or the new one, and
the record is whole in the one they tell, because it was synced before them.
-/

set_option autoImplicit false

namespace RegionStore

open Disk

namespace Region

variable [Codec]

section
variable {chunks : Chunks} {region : Region} {file : Device} (represents : Represents chunks region file)
include represents

theorem Represents.of_kept_entry {chunk : ChunkPos} {slot : Slot} (found : region.slot chunk = .ok slot)
    {placed after : Device} {timestamp : Int32} {space : FreeSpace}
    (words : stored placed.content = stored file.content)
    (records : ∀ other place, region.tables.extent? other = some place →
      placed.content.read place.position place.size = file.content.read place.position place.size)
    (size : placed.content.size = space.sectors.toNat * sectorSize)
    (entry : EntryWritten slot (region.tables.offsets.get slot) timestamp placed after)
    (partitioned : Partitioned region.tables space)
    (longer : region.space.sectors.toNat ≤ space.sectors.toNat)
    (short : space.sectors.toNat ≤ Partitioned.fragmentedSectors + maxExtentSectors) :
    Represents (chunks.put chunk ((chunks chunk).map fun known => ⟨known.payload, timestamp⟩))
      { region with
        tables := region.tables.set slot (region.tables.offsets.get slot) timestamp
        space := space } after := by
  have same (other : Slot) : (region.tables.set slot (region.tables.offsets.get slot) timestamp).extent?
      other = region.tables.extent? other := by
    rw [Tables.extent?_eq_iff, Tables.offsets_set]
    split
    · next here => rw [here]
    · rfl
  have scaled := Nat.mul_le_mul_right sectorSize longer
  have header : headerSize ≤ placed.content.size := by
    have header := represents.faithful.header_le
    rw [represents.faithful.size] at header
    omega
  refine represents.of_entry found
    { region with
      tables := region.tables.set slot (region.tables.offsets.get slot) timestamp, space := space }
    words (fun other place _ => records other place) size entry rfl rfl
    (partitioned.congr same) longer short ?_
  have tells := represents.tells_own found
  cases known : chunks chunk with
  | none =>
    rw [known] at tells
    exact (same slot).trans tells
  | some saved =>
    rw [known] at tells
    obtain ⟨extent, present, _, data⟩ := tells
    have inside := represents.faithful.partitioned.inside slot extent present
    have kept : extent.position + extent.size ≤ placed.content.size :=
      Nat.le_trans inside.end_le (Nat.le_trans scaled (Nat.le_of_eq size.symm))
    refine ⟨extent, (same slot).trans present, ?_, ?_⟩
    · rw [Tables.timestamp?_set, if_pos rfl, if_neg (Tables.extent?_eq_some_iff.1 present).1]
    · rw [(entry.confined header).2 _ _ kept (.inr inside.position_ge), records slot extent present]
      exact data

end

/-- The content is one of a region file in which every chunk has the payload of one of two maps, or is
missing there as well. -/
def Between (position : RegionPos) (before after : Chunks) (content : Content) : Prop :=
  ∃ found region file, file.content = content ∧ region.position = position ∧
    Represents found region file ∧ ∀ chunk,
      (found chunk).map SavedChunk.payload = (before chunk).map SavedChunk.payload ∨
        (found chunk).map SavedChunk.payload = (after chunk).map SavedChunk.payload

/-- The chunk is as in one of two maps, and the others are as before. -/
theorem between_of_put {chunks : Chunks} {position : RegionPos} {chunk : ChunkPos}
    {known saved : Option SavedChunk} {changed : Region} {after : Device}
    (left : Represents (chunks.put chunk known) changed after)
    (same : changed.position = position)
    (either : known.map SavedChunk.payload = (chunks chunk).map SavedChunk.payload ∨
      known.map SavedChunk.payload = saved.map SavedChunk.payload) :
    Between position chunks (chunks.put chunk saved) after.content := by
  refine ⟨_, changed, after, rfl, same, left, fun other => ?_⟩
  unfold Chunks.put
  split
  · next same =>
    subst same
    exact either
  · exact .inl rfl

section
variable {chunks : Chunks} {region : Region} {file : Device} (represents : Represents chunks region file)
include represents

theorem Represents.between (after : Chunks) : Between region.position chunks after file.content :=
  ⟨chunks, region, file, rfl, rfl, represents, fun _ => .inl rfl⟩

theorem Represents.word (slot : Slot) :
    (stored file.content).offsets.get slot = region.tables.offsets.get slot := by
  by_cases absent : region.tables.offsets.get slot = 0
  · rw [absent, represents.vacant slot absent]
  · exact represents.faithful.offsets slot absent

/-- A save that has placed its record, with the offset written or not. -/
theorem Represents.between_saved [LawfulCodec] {chunk : ChunkPos} {slot : Slot}
    (found : region.slot chunk = .ok slot)
    {payload data : Bytes} {tag : UInt8} (accepted : encodeChunk payload tag = .ok data) {extent : Extent}
    {next : FreeSpace} {placed after : Device}
    (wrote : FreeSpace.Placed region.space file (region.tables.extent? slot) (record data) extent next
      placed)
    {offset : UInt32} {timestamp : Int32}
    (either : offset = region.tables.offsets.get slot ∨ offset = extent.toWord)
    (entry : EntryWritten slot offset timestamp placed after) (second : Int32) :
    Between region.position chunks (chunks.put chunk (some ⟨payload, second⟩)) after.content := by
  have faithful := represents.faithful
  have positive := record_size_pos data
  have intact := represents.intact
  have moved (told : offset = extent.toWord) :
      Between region.position chunks (chunks.put chunk (some ⟨payload, second⟩)) after.content := by
    subst told
    exact between_of_put (represents.of_moved_entry found accepted wrote entry) rfl (.inr rfl)
  rcases either with kept | told
  · by_cases stays : region.tables.extent? slot = some extent
    · -- the record has replaced the old one, whose extent the offset tells in any case
      obtain ⟨_, same⟩ := Tables.extent?_eq_some_iff.1 stays
      exact moved (by rw [kept, ← same, Extent.toWord_ofWord])
    · subst kept
      have partitioned := faithful.partitioned.unmoved wrote.target positive wrote.small
      refine between_of_put (represents.of_kept_entry found (intact.placed_stored wrote) ?_ ?_ entry
        partitioned ?_ ?_) rfl (.inl ?_)
      · intro other place foundOther
        refine intact.read_of_spares wrote.target wrote.small (intact.placed_spares wrote) foundOther ?_
        by_cases here : other = slot
        · subst here
          exact .inr fun same => stays (same ▸ foundOther)
        · exact .inl here
      · rw [sectors_unmoved]
        exact faithful.placed_size wrote
      · rw [sectors_unmoved]
        exact (intact.target_inside wrote.target wrote.small).2
      · rw [sectors_unmoved]
        exact intact.short_next (Nat.le_refl _) wrote.target wrote.small
      · rw [Option.map_map]
        rfl
  · exact moved told

theorem Represents.between_cleared {chunk : ChunkPos} {slot : Slot} (found : region.slot chunk = .ok slot)
    {extent : Extent} (present : region.tables.extent? slot = some extent) {after : Device}
    {offset : UInt32} {timestamp : Int32} (either : offset = region.tables.offsets.get slot ∨ offset = 0)
    (entry : EntryWritten slot offset timestamp file after) :
    Between region.position chunks (chunks.put chunk none) after.content := by
  rcases either with rfl | rfl
  · refine between_of_put (represents.of_kept_entry found rfl (fun _ _ _ => rfl) represents.faithful.size
      entry represents.faithful.partitioned (Nat.le_refl _) represents.short) rfl (.inl ?_)
    rw [Option.map_map]
    rfl
  · exact between_of_put (represents.of_removed_entry found present entry) rfl (.inr rfl)

end

end Region
end RegionStore
