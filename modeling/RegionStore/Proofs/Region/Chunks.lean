import RegionStore.Proofs.Compression
import RegionStore.Proofs.Coordinates
import RegionStore.Proofs.Region.Record
import RegionStore.Proofs.Region.Reopen

/-!
What an open region and its file stand for: a map from chunks to payloads with the seconds they were saved
in. Saving and deleting a chunk change the map at that chunk, and closing and opening change nothing,
because a file that began empty has no entries on disk but those of its chunks.
-/

set_option autoImplicit false

namespace RegionStore

open Disk

/-- What is known of a chunk that was saved: its payload and the second of its last save. -/
structure SavedChunk where
  payload : Bytes
  second : Int32
  deriving DecidableEq

abbrev Chunks := ChunkPos → Option SavedChunk

def Chunks.empty : Chunks := fun _ => none

def Chunks.put (chunks : Chunks) (chunk : ChunkPos) (saved : Option SavedChunk) : Chunks :=
  fun other => if other = chunk then saved else chunks other

theorem Tables.timestamp?_eq_none_iff {tables : Tables} {slot : Slot} :
    tables.timestamp? slot = none ↔ tables.extent? slot = none := by
  rw [Tables.extent?_eq_none_iff, Tables.timestamp?_eq]
  split
  · next absent => simp only [absent]
  · next present => simp only [present, reduceCtorEq]

theorem Tables.timestamp?_set (tables : Tables) (slot other : Slot) (offset : UInt32)
    (timestamp : Int32) :
    (tables.set slot offset timestamp).timestamp? other =
      if other = slot then if offset = 0 then none else some timestamp
      else tables.timestamp? other := by
  rw [Tables.timestamp?_eq, Tables.timestamp?_eq, Tables.offsets_set, Tables.timestamps_set]
  split <;> rfl

namespace Region

variable [Codec]

def Tells (region : Region) (content : Content) (slot : Slot) : Option SavedChunk → Prop
  | none => region.tables.extent? slot = none
  | some saved => ∃ extent, region.tables.extent? slot = some extent ∧
      region.tables.timestamp? slot = some saved.second ∧
      recordData (region.position.chunkAt slot) extent (content.read extent.position extent.size) =
        .ok saved.payload

/-- The region and its file stand for the map. No entry on disk is there without its chunk, and the file
is so short that there is always room. -/
structure Represents (chunks : Chunks) (region : Region) (file : Device) : Prop where
  faithful : Faithful region file
  short : region.space.sectors.toNat ≤ Partitioned.fragmentedSectors + maxExtentSectors
  vacant : ∀ slot : Slot, region.tables.offsets.get slot = 0 → (stored file.content).offsets.get slot = 0
  own : ∀ chunk, chunks chunk ≠ none → chunk.regionOf = region.position
  tells : ∀ slot, region.Tells file.content slot (chunks (region.position.chunkAt slot))

omit [Codec] in
theorem slot_eq_ok_iff {region : Region} {chunk : ChunkPos} {slot : Slot} :
    region.slot chunk = .ok slot ↔ chunk.regionOf = region.position ∧ slot = chunk.slotOf := by
  unfold Region.slot
  split
  · next own => simp only [Except.ok.injEq, own, true_and, eq_comm]
  · next foreign => simp only [reduceCtorEq, foreign, false_and]

section
variable {chunks : Chunks} {region : Region} {file after : Device}

theorem Tells.congr {again : Region} {content content' : Content} {slot : Slot}
    {saved : Option SavedChunk} (tells : region.Tells content slot saved)
    (position : again.position = region.position)
    (extents : again.tables.extent? slot = region.tables.extent? slot)
    (timestamps : again.tables.timestamp? slot = region.tables.timestamp? slot)
    (same : ∀ extent, region.tables.extent? slot = some extent →
      content'.read extent.position extent.size = content.read extent.position extent.size) :
    again.Tells content' slot saved := by
  cases saved with
  | none => exact extents.trans tells
  | some saved =>
    obtain ⟨extent, found, second, data⟩ := tells
    refine ⟨extent, extents.trans found, timestamps.trans second, ?_⟩
    rw [same extent found, position]
    exact data

theorem Represents.congr (represents : Represents chunks region file)
    (content : after.content = file.content) : Represents chunks region after := by
  refine ⟨represents.faithful.congr content, represents.short, ?_, represents.own, ?_⟩
  · rw [content]
    exact represents.vacant
  · rw [content]
    exact represents.tells

theorem Represents.tells_own (represents : Represents chunks region file) {chunk : ChunkPos} {slot : Slot}
    (found : region.slot chunk = .ok slot) : region.Tells file.content slot (chunks chunk) := by
  obtain ⟨own, rfl⟩ := slot_eq_ok_iff.1 found
  have tells := represents.tells chunk.slotOf
  rwa [← own, RegionPos.chunkAt_slotOf] at tells

theorem Represents.none_of_foreign (represents : Represents chunks region file) {chunk : ChunkPos}
    (foreign : chunk.regionOf ≠ region.position) : chunks chunk = none := by
  cases known : chunks chunk with
  | none => rfl
  | some saved => exact absurd (represents.own chunk (known ▸ nofun)) foreign

theorem Represents.put_of_tells {changed : Region} (represents : Represents chunks region file)
    {chunk : ChunkPos} {slot : Slot} (found : region.slot chunk = .ok slot) {saved : Option SavedChunk}
    (position : changed.position = region.position) (faithful : Faithful changed after)
    (short : changed.space.sectors.toNat ≤ Partitioned.fragmentedSectors + maxExtentSectors)
    (vacant : ∀ other : Slot, changed.tables.offsets.get other = 0 →
      (stored after.content).offsets.get other = 0)
    (here : changed.Tells after.content slot saved)
    (others : ∀ other ≠ slot, ∀ known, region.Tells file.content other known →
      changed.Tells after.content other known) :
    Represents (chunks.put chunk saved) changed after := by
  obtain ⟨own, rfl⟩ := slot_eq_ok_iff.1 found
  refine ⟨faithful, short, vacant, fun other known => ?_, fun other => ?_⟩
  · rw [position]
    unfold Chunks.put at known
    split at known
    · next same => rw [same, own]
    · exact represents.own other known
  · rw [position]
    unfold Chunks.put
    by_cases same : other = chunk.slotOf
    · rwa [if_pos (by rw [same, ← own, RegionPos.chunkAt_slotOf]), same]
    · have different : region.position.chunkAt other ≠ chunk := by
        intro equal
        exact same (by rw [← equal, RegionPos.slotOf_chunkAt])
      rw [if_neg different]
      exact others other same _ (represents.tells other)

theorem Represents.intact (represents : Represents chunks region file) :
    Intact (Partitioned.fragmentedSectors + maxExtentSectors) region file :=
  ⟨represents.faithful.partitioned, represents.short, Nat.le_of_eq represents.faithful.size.symm⟩

section
variable (represents : Represents chunks region file)
include represents

/-- What a file stands for in which the words of a slot have been written, possibly as they were, when the
rest of it is as for the region that has these words. -/
theorem Represents.of_entry {chunk : ChunkPos} {slot : Slot} (found : region.slot chunk = .ok slot)
    {placed : Device} {offset : UInt32} {timestamp : Int32} (changed : Region)
    (words : stored placed.content = stored file.content)
    (others : ∀ other place, other ≠ slot → region.tables.extent? other = some place →
      placed.content.read place.position place.size = file.content.read place.position place.size)
    (size : placed.content.size = changed.space.sectors.toNat * sectorSize)
    (entry : EntryWritten slot offset timestamp placed after)
    (position : changed.position = region.position)
    (tables : changed.tables = region.tables.set slot offset timestamp)
    (partitioned : Partitioned changed.tables changed.space)
    (longer : region.space.sectors.toNat ≤ changed.space.sectors.toNat)
    (short : changed.space.sectors.toNat ≤ Partitioned.fragmentedSectors + maxExtentSectors)
    {saved : Option SavedChunk} (here : changed.Tells after.content slot saved) :
    Represents (chunks.put chunk saved) changed after := by
  have faithful := represents.faithful
  have scaled := Nat.mul_le_mul_right sectorSize longer
  have header : headerSize ≤ placed.content.size := by
    have header := faithful.header_le
    rw [faithful.size] at header
    omega
  obtain ⟨sizeAfter, confined⟩ := entry.confined header
  have onDisk : stored after.content = (stored file.content).set slot offset timestamp := by
    rw [stored_of_entryWritten entry, words]
  have faithfulAfter : Faithful changed after :=
    faithful.set tables onDisk partitioned (sizeAfter.trans size)
  refine represents.put_of_tells found position faithfulAfter short ?_ here ?_
  · intro other absent
    rw [tables] at absent
    rw [onDisk]
    rcases Tables.absent_set absent with ⟨_, zero⟩ | ⟨before, same⟩
    · exact zero
    · rw [same]
      exact represents.vacant other before
  · intro other different known tells
    refine tells.congr position ?_ ?_ fun place foundOther => ?_
    · rw [tables, Tables.extent?_set, if_neg different]
    · rw [tables, Tables.timestamp?_set, if_neg different]
    · have inside := faithful.partitioned.inside other place foundOther
      have present := inside.end_le
      rw [confined _ _ (by omega) (.inr inside.position_ge), others other place different foundOther]

theorem Represents.of_moved_entry [LawfulCodec] {chunk : ChunkPos} {slot : Slot}
    (found : region.slot chunk = .ok slot)
    {payload data : Bytes} {tag : UInt8} (accepted : encodeChunk payload tag = .ok data) {extent : Extent}
    {next : FreeSpace} {placed : Device}
    (wrote : FreeSpace.Placed region.space file (region.tables.extent? slot) (record data) extent next
      placed) {timestamp : Int32}
    (entry : EntryWritten slot extent.toWord timestamp placed after) :
    Represents (chunks.put chunk (some ⟨payload, timestamp⟩)) (region.moved slot extent next timestamp)
      after := by
  have faithful := represents.faithful
  have positive := record_size_pos data
  have intact := represents.intact
  have packable := intact.packable (by decide) wrote.target positive wrote.small
  obtain ⟨inside, longer⟩ := intact.target_inside wrote.target wrote.small
  have word := Extent.toWord_ne_zero packable inside.nonempty
  have size := faithful.placed_size wrote
  have header : headerSize ≤ placed.content.size := Nat.le_trans faithful.header_le wrote.wrote.size_le
  refine represents.of_entry found (region.moved slot extent next timestamp)
    (intact.placed_stored wrote) ?_ ?_ entry rfl rfl
    (faithful.partitioned.moved wrote.target positive wrote.small packable timestamp) ?_ ?_ ?_
  · intro other place different foundOther
    exact intact.read_of_spares wrote.target wrote.small (intact.placed_spares wrote) foundOther
      (.inl different)
  · rw [sectors_moved, size]
  · rwa [sectors_moved]
  · rw [sectors_moved]
    exact intact.short_next (Nat.le_refl _) wrote.target wrote.small
  · refine ⟨extent, ?_, ?_, ?_⟩
    · rw [moved, Tables.extent?_set_toWord _ _ _ packable inside.nonempty, if_pos rfl]
    · rw [moved, Tables.timestamp?_set, if_pos rfl, if_neg word]
    · rw [(entry.confined header).2 _ _ (size ▸ inside.end_le) (.inr inside.position_ge), wrote.read_own,
        recordData_padded _ (encodeChunk_nonempty accepted) wrote.target.fits wrote.small,
        decodeChunk_encodeChunk accepted]

theorem Represents.of_removed_entry {chunk : ChunkPos} {slot : Slot} (found : region.slot chunk = .ok slot)
    {extent : Extent} (present : region.tables.extent? slot = some extent) {timestamp : Int32}
    (entry : EntryWritten slot 0 timestamp file after) :
    Represents (chunks.put chunk none)
      { region with
        tables := region.tables.set slot 0 timestamp
        space := region.space.release extent } after := by
  have sectors := region.space.sectors_release extent
  refine represents.of_entry found
    { region with tables := region.tables.set slot 0 timestamp, space := region.space.release extent }
    rfl (fun _ _ _ _ => rfl) ?_ entry rfl rfl
    (represents.faithful.partitioned.vacate present timestamp) ?_ ?_ ?_
  · simp only [sectors]
    exact represents.faithful.size
  · simp only [sectors, Nat.le_refl]
  · simp only [sectors]
    exact represents.short
  · change (region.tables.set slot 0 timestamp).extent? slot = none
    rw [Tables.extent?_set, if_pos rfl, if_pos rfl]

theorem Represents.saved [LawfulCodec] {chunk : ChunkPos} {slot : Slot} (found : region.slot chunk = .ok slot)
    {payload data : Bytes} {tag : UInt8} (accepted : encodeChunk payload tag = .ok data) {saved : Region}
    (ends : Saved region slot data file saved after) :
    Represents (chunks.put chunk (some ⟨payload, file.around.timestamp⟩)) saved after ∧
      saved.position = region.position ∧ file.Continues after := by
  obtain ⟨extent, next, written, phases, keeps, rfl⟩ := ends.phases
  obtain ⟨placed, wrote, entry⟩ := phases.phases
  have continues := wrote.wrote.continues.trans entry.continues
  exact ⟨(represents.of_moved_entry found accepted wrote entry).congr keeps.content, rfl,
    continues.trans keeps.continues⟩

theorem Represents.cleared {chunk : ChunkPos} {slot : Slot} (found : region.slot chunk = .ok slot)
    {extent : Extent} (present : region.tables.extent? slot = some extent) {cleared : Region}
    (ends : Cleared region slot extent file cleared after) :
    Represents (chunks.put chunk none) cleared after ∧ cleared.position = region.position ∧
      file.Continues after := by
  obtain ⟨written, entry, keeps⟩ := ends.phases
  rw [ends.region]
  exact ⟨(represents.of_removed_entry found present entry).congr keeps.content, rfl,
    entry.continues.trans keeps.continues⟩

end

theorem Tells.extent?_eq_none_iff {content : Content} {slot : Slot} {known : Option SavedChunk}
    (tells : region.Tells content slot known) : region.tables.extent? slot = none ↔ known = none := by
  cases known with
  | none => exact ⟨fun _ => rfl, fun _ => tells⟩
  | some saved =>
    obtain ⟨extent, found, _⟩ := tells
    simp only [found, reduceCtorEq]

theorem Represents.settled (represents : Represents chunks region file) :
    Settled region file.content := by
  intro slot extent absent found _
  have zero := represents.vacant slot (Tables.extent?_eq_none_iff.1 absent)
  exact absurd zero (Tables.extent?_eq_some_iff.1 found).1

theorem Represents.reopened (represents : Represents chunks region file) (untroubled : file.Untroubled)
    {again : Region} {sync : Bool} (loaded : Loaded region.position sync file again after) :
    Represents chunks again after := by
  have faithful := represents.faithful
  obtain ⟨content, sectors, _⟩ := faithful.reopened loaded
  have reproduces := (faithful.reproduces_iff untroubled loaded).2 represents.settled
  have position := loaded.position
  refine ⟨loaded.faithful, sectors ▸ represents.short, fun slot absent => ?_, ?_, fun slot => ?_⟩
  · rw [content]
    refine represents.vacant slot ?_
    rw [← Tables.extent?_eq_none_iff] at absent ⊢
    rw [← reproduces.extents, absent]
  · rw [position]
    exact represents.own
  · rw [position]
    refine (represents.tells slot).congr position (reproduces.extents slot)
      (reproduces.timestamps slot) fun extent _ => ?_
    rw [content]

theorem represents_of_loaded {position : RegionPos} {sync : Bool}
    (loaded : Loaded position sync file region after) (empty : file.content.size = 0) :
    Represents Chunks.empty region after := by
  have content := loaded.prepared.content
  have faithful := loaded.faithful
  rw [if_pos empty] at content
  have size : after.content.size = headerSize := by
    rw [content.size, Content.size_write, empty, Bytes.size_zeros, headerSize]
    rfl
  have zero (slot : Slot) : (stored after.content).offsets.get slot = 0 := by
    apply offsets_stored_of_zero
    intro position _
    rw [content.byte, Content.byteAt_write, Bytes.get_zeros,
      Content.byteAt_of_size_le (empty ▸ Nat.zero_le _), ite_self]
  refine ⟨faithful, ?_, fun slot _ => zero slot, fun _ some => absurd rfl some, fun slot =>
    faithful.absent (zero slot)⟩
  rw [faithful.size, headerSize, sectorSize] at size
  rw [Partitioned.fragmentedSectors, maxExtentSectors]
  omega

end

end Region
end RegionStore
