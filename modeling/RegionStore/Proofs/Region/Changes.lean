import RegionStore.Region.Basic
import RegionStore.Proofs.Placement
import RegionStore.Proofs.Region.Partition

/-!
How saving and deleting a chunk end, under any schedule. A change goes through phases, and the way it
fails tells which phases are complete: before the table words are written the old extent stays, and
after that the new one holds, whatever a sync says.
-/

set_option autoImplicit false

namespace RegionStore.Region

open Disk

structure EntryWritten (slot : Slot) (offset : UInt32) (timestamp : Int32) (file after : Device) :
    Prop where
  words : ∃ between,
    file.Wrote (Tables.timestampPosition slot) (Bytes.ofWord timestamp.toUInt32) between ∧
      between.Wrote (Tables.offsetPosition slot) (Bytes.ofWord offset) after

inductive EntryCut (slot : Slot) (offset : UInt32) (timestamp : Int32) (file after : Device) :
    Prop where
  | first (count : Nat) (short : count < 4)
    (wrote : file.Wrote (Tables.timestampPosition slot)
      ((Bytes.ofWord timestamp.toUInt32).extract 0 count) after)
  | second (between : Device) (count : Nat) (short : count < 4)
    (whole : file.Wrote (Tables.timestampPosition slot) (Bytes.ofWord timestamp.toUInt32) between)
    (wrote : between.Wrote (Tables.offsetPosition slot) ((Bytes.ofWord offset).extract 0 count) after)

theorem EntryWritten.continues {slot : Slot} {offset : UInt32} {timestamp : Int32}
    {file after : Device} (written : EntryWritten slot offset timestamp file after) :
    file.Continues after := by
  obtain ⟨between, first, second⟩ := written.words
  exact first.continues.trans second.continues

theorem EntryWritten.size_le {slot : Slot} {offset : UInt32} {timestamp : Int32}
    {file after : Device} (written : EntryWritten slot offset timestamp file after) :
    file.content.size ≤ after.content.size := by
  obtain ⟨between, first, second⟩ := written.words
  exact Nat.le_trans first.size_le second.size_le

theorem EntryCut.size_le {slot : Slot} {offset : UInt32} {timestamp : Int32}
    {file after : Device} (cut : EntryCut slot offset timestamp file after) :
    file.content.size ≤ after.content.size := by
  cases cut with
  | first count short wrote => exact wrote.size_le
  | second between count short whole wrote => exact Nat.le_trans whole.size_le wrote.size_le

theorem EntryCut.continues {slot : Slot} {offset : UInt32} {timestamp : Int32} {file after : Device}
    (cut : EntryCut slot offset timestamp file after) : file.Continues after := by
  cases cut with
  | first count short wrote => exact wrote.continues
  | second between count short whole wrote => exact whole.continues.trans wrote.continues

theorem offsetPosition_bounded (slot : Slot) : Tables.offsetPosition slot + 4 ≤ sectorSize := by
  have : slot.val < 1024 := slot.isLt
  rw [Tables.offsetPosition, sectorSize]
  omega

theorem timestampPosition_bounded (slot : Slot) : Tables.timestampPosition slot + 4 ≤ headerSize := by
  have : slot.val < 1024 := slot.isLt
  rw [Tables.timestampPosition, sectorSize, headerSize]
  omega

theorem writeEntry_ends (slot : Slot) (offset : UInt32) (timestamp : Int32) (file : Device) :
    Ends (writeEntry slot offset timestamp) file
      (fun _ after => EntryWritten slot offset timestamp file after)
      fun _ after => EntryCut slot offset timestamp file after ∧ ¬ file.Untroubled := by
  have size : ∀ word, (Bytes.ofWord word).size = 4 := fun _ => rfl
  have timestampBounded := timestampPosition_bounded slot
  have offsetBounded := offsetPosition_bounded slot
  rw [headerSize] at timestampBounded
  rw [sectorSize] at offsetBounded
  simp only [writeEntry, ends_bind]
  refine Ends.mono (Device.writeAt_ends _ _ file) ?_ ?_
  · intro _ between first
    refine Ends.mono (Device.writeAt_ends _ _ between) ?_ ?_
    · exact fun _ after second => ⟨between, first, second⟩
    · rintro _ after ⟨⟨count, short, second⟩, troubled⟩
      refine ⟨.second between count short first second, fun untroubled => ?_⟩
      refine troubled ?_ (first.continues.untroubled untroubled)
      rw [size, maxOffset]
      omega
  · rintro _ after ⟨⟨count, short, first⟩, troubled⟩
    refine ⟨.first count short first, troubled ?_⟩
    rw [size, maxOffset]
    omega

/-- The region once a chunk has moved to an extent that was taken from the free space. -/
def moved (region : Region) (slot : Slot) (extent : Extent) (next : FreeSpace) (timestamp : Int32) :
    Region :=
  { region with
    tables := region.tables.set slot extent.toWord timestamp
    space := match region.tables.extent? slot with
      | some old => if old ≠ extent then next.release old else next
      | none => next }

def unmoved (region : Region) (slot : Slot) (extent : Extent) (next : FreeSpace) : Region :=
  { region with
    space := if region.tables.extent? slot ≠ some extent then next.release extent else next }

def removed (region : Region) (slot : Slot) (extent : Extent) : Region :=
  { region with
    tables := region.tables.set slot 0 0
    space := region.space.release extent }

structure SaveWritten (region : Region) (slot : Slot) (data : Bytes) (file : Device)
    (extent : Extent) (next : FreeSpace) (after : Device) : Prop where
  phases : ∃ placed,
    FreeSpace.Placed region.space file (region.tables.extent? slot) (record data) extent next placed ∧
      EntryWritten slot extent.toWord file.around.timestamp placed after

structure Saved (region : Region) (slot : Slot) (data : Bytes) (file : Device) (saved : Region)
    (after : Device) : Prop where
  phases : ∃ extent next written, SaveWritten region slot data file extent next written ∧
    written.Keeps after ∧ saved = region.moved slot extent next file.around.timestamp

inductive SaveFailed (region : Region) (slot : Slot) (data : Bytes) (file : Device)
    (failure : Failure) : Region → Device → Prop where
  | unplaced (after : Device)
    (unplaced : FreeSpace.Unplaced region.space file (region.tables.extent? slot) (record data)
      failure after) : SaveFailed region slot data file failure region after
  | unwritten (extent : Extent) (next : FreeSpace) (placed after : Device)
    (wrote : FreeSpace.Placed region.space file (region.tables.extent? slot) (record data) extent next
      placed)
    (cut : EntryCut slot extent.toWord file.around.timestamp placed after)
    (troubled : ¬ file.Untroubled) :
    SaveFailed region slot data file failure (region.unmoved slot extent next) after
  | unsynced (extent : Extent) (next : FreeSpace) (written after : Device)
    (saved : SaveWritten region slot data file extent next written) (keeps : written.Keeps after)
    (troubled : ¬ file.Untroubled) :
    SaveFailed region slot data file failure
      (region.moved slot extent next file.around.timestamp) after

theorem syncChange_ends (region : Region) (file : Device) :
    Ends syncChange (region, file) (fun _ state => state.1 = region ∧ file.Keeps state.2)
      fun _ state => state.1 = region ∧ file.Keeps state.2 ∧ ¬ file.Untroubled := by
  simp only [syncChange, ends_bind, ends_get]
  split
  · rw [ends_device]
    exact Ends.mono (Device.sync_ends file) (fun _ _ keeps => ⟨rfl, keeps⟩)
      fun _ _ troubled => ⟨rfl, troubled⟩
  · exact ⟨rfl, Device.Keeps.refl file⟩

theorem ends_onSpace {Result : Type} (action : OnFile FreeSpace Result) (region : Region)
    (file : Device) (done : Result → Region × Device → Prop)
    (failed : Failure → Region × Device → Prop) :
    Ends (onSpace action) (region, file) done failed ↔
      Ends action (region.space, file)
        (fun result state => done result ({ region with space := state.1 }, state.2))
        fun failure state => failed failure ({ region with space := state.1 }, state.2) := by
  simp only [Ends, onSpace]
  cases action (region.space, file) <;> rfl

theorem saveData_ends {region : Region} (sound : region.space.Sound) (file : Device) (slot : Slot)
    (data : Bytes) :
    Ends (saveData slot data) (region, file)
      (fun _ state => Saved region slot data file state.1 state.2)
      fun failure state => SaveFailed region slot data file failure state.1 state.2 := by
  unfold saveData
  simp only [ends_bind, ends_get, ends_onSpace]
  refine Ends.mono (FreeSpace.place_ends sound file (record data) (region.tables.extent? slot)
    region.sync) ?_ ?_
  · rintro extent ⟨next, placed⟩ wrote
    simp only at wrote ⊢
    rw [wrote.wrote.continues.timestamp, ends_tryCatch, ends_device]
    refine Ends.mono (writeEntry_ends slot extent.toWord file.around.timestamp placed) ?_ ?_
    · intro _ written entry
      have phases : SaveWritten region slot data file extent next written := ⟨placed, wrote, entry⟩
      have synced : Ends syncChange (region.moved slot extent next file.around.timestamp, written)
          (fun _ state => Saved region slot data file state.1 state.2)
          fun failure state => SaveFailed region slot data file failure state.1 state.2 := by
        refine Ends.mono (syncChange_ends _ written) ?_ ?_
        · rintro _ ⟨_, after⟩ ⟨rfl, keeps⟩
          exact ⟨extent, next, written, phases, keeps, rfl⟩
        · rintro _ ⟨_, after⟩ ⟨rfl, keeps, troubled⟩
          refine .unsynced extent next written after phases keeps fun untroubled => troubled ?_
          exact (wrote.wrote.continues.trans entry.continues).untroubled untroubled
      simp only [setEntry, ends_modify]
      unfold moved at synced
      cases found : region.tables.extent? slot with
      | none =>
        rw [found] at synced
        exact synced
      | some old =>
        simp only [found] at synced ⊢
        split at synced
        · next different =>
          simp only [if_pos different, ends_bind, release, ends_modify]
          exact synced
        · next same =>
          simp only [if_neg same]
          exact synced
    · rintro failure after ⟨cut, troubled⟩
      have failed : SaveFailed region slot data file failure (region.unmoved slot extent next) after :=
        .unwritten extent next placed after wrote cut fun untroubled =>
          troubled (wrote.wrote.continues.untroubled untroubled)
      unfold unmoved at failed
      split
      · next different =>
        simp only [ends_bind, release, ends_modify, ends_throw]
        rwa [if_pos different] at failed
      · next same =>
        simp only [ends_throw]
        rwa [if_neg same] at failed
  · rintro failure ⟨next, after⟩ ⟨same, unplaced⟩
    simp only at same unplaced ⊢
    rw [same]
    exact .unplaced after unplaced

structure Cleared (region : Region) (slot : Slot) (extent : Extent) (file : Device) (cleared : Region)
    (after : Device) : Prop where
  phases : ∃ written, EntryWritten slot 0 0 file written ∧ written.Keeps after
  region : cleared = region.removed slot extent

inductive ClearFailed (region : Region) (slot : Slot) (extent : Extent) (file : Device) :
    Region → Device → Prop where
  | unwritten (after : Device) (cut : EntryCut slot 0 0 file after) (troubled : ¬ file.Untroubled) :
    ClearFailed region slot extent file region after
  | unsynced (after : Device) (cleared : Cleared region slot extent file (region.removed slot extent) after)
    (troubled : ¬ file.Untroubled) :
    ClearFailed region slot extent file (region.removed slot extent) after

theorem clearSlot_absent {region : Region} {slot : Slot} (absent : region.tables.extent? slot = none)
    (file : Device) :
    Ends (clearSlot slot) (region, file) (fun _ state => state = (region, file)) fun _ _ => False := by
  unfold clearSlot
  simp only [ends_bind, ends_get, absent]
  exact rfl

theorem clearSlot_ends {region : Region} {slot : Slot} {extent : Extent}
    (found : region.tables.extent? slot = some extent) (file : Device) :
    Ends (clearSlot slot) (region, file)
      (fun _ state => Cleared region slot extent file state.1 state.2)
      fun _ state => ClearFailed region slot extent file state.1 state.2 := by
  unfold clearSlot
  simp only [ends_bind, ends_get, found, ends_device]
  refine Ends.mono (writeEntry_ends slot 0 0 file) ?_ ?_
  · intro _ written entry
    simp only [setEntry, release, ends_modify]
    refine Ends.mono (syncChange_ends _ written) ?_ ?_
    · rintro _ ⟨_, after⟩ ⟨rfl, keeps⟩
      exact ⟨⟨written, entry, keeps⟩, rfl⟩
    · rintro _ ⟨_, after⟩ ⟨rfl, keeps, troubled⟩
      refine .unsynced after ⟨⟨written, entry, keeps⟩, rfl⟩ fun untroubled => troubled ?_
      exact entry.continues.untroubled untroubled
  · rintro _ after ⟨cut, troubled⟩
    exact .unwritten after cut troubled

theorem saveChunk_ends [Codec] {region : Region} (sound : region.space.Sound) (file : Device)
    (chunk : ChunkPos) (payload : Bytes) (tag : UInt8) :
    Ends (saveChunk chunk payload tag) (region, file)
      (fun _ state => ∃ slot data, region.slot chunk = .ok slot ∧ encodeChunk payload tag = .ok data ∧
        Saved region slot data file state.1 state.2)
      fun failure state =>
        (state = (region, file) ∧ (region.slot chunk = .error failure ∨
          ∃ slot, region.slot chunk = .ok slot ∧ encodeChunk payload tag = .error failure)) ∨
        ∃ slot data, region.slot chunk = .ok slot ∧ encodeChunk payload tag = .ok data ∧
          SaveFailed region slot data file failure state.1 state.2 := by
  unfold saveChunk
  simp only [ends_bind, ends_get, ends_ofExcept]
  cases region.slot chunk with
  | error failure => exact .inl ⟨trivial, .inl rfl⟩
  | ok slot =>
    cases encodeChunk payload tag with
    | error failure => exact .inl ⟨trivial, .inr ⟨slot, rfl, rfl⟩⟩
    | ok data =>
      refine Ends.mono (saveData_ends sound file slot data) ?_ ?_
      · exact fun _ _ saved => ⟨slot, data, rfl, rfl, saved⟩
      · exact fun _ _ failed => .inr ⟨slot, data, rfl, rfl, failed⟩

theorem saveChunk_ends_untroubled [Codec] {region : Region} (sound : region.space.Sound) {file : Device}
    (untroubled : file.Untroubled) (chunk : ChunkPos) (payload : Bytes) (tag : UInt8) :
    Ends (saveChunk chunk payload tag) (region, file)
      (fun _ state => ∃ slot data, region.slot chunk = .ok slot ∧ encodeChunk payload tag = .ok data ∧
        Saved region slot data file state.1 state.2)
      fun failure state => state = (region, file) ∧ (region.slot chunk = .error failure ∨
        ∃ slot, region.slot chunk = .ok slot ∧ (encodeChunk payload tag = .error failure ∨
          ∃ data, encodeChunk payload tag = .ok data ∧
            FreeSpace.Rejected region.space (region.tables.extent? slot) (sectorsOf (record data).size)
              file.path failure)) := by
  refine Ends.mono (saveChunk_ends sound file chunk payload tag) (fun _ _ => id) ?_
  rintro failure ⟨left, after⟩ (⟨same, foreign | ⟨slot, found, unknown⟩⟩ | ⟨slot, data, found, accepted, failed⟩)
  · exact ⟨same, .inl foreign⟩
  · exact ⟨same, .inr ⟨slot, found, .inl unknown⟩⟩
  · cases failed with
    | unplaced _ unplaced =>
      cases unplaced with
      | rejected same why =>
        exact ⟨congrArg (Prod.mk _) same, .inr ⟨slot, found, .inr ⟨data, accepted, why⟩⟩⟩
      | spoiled troubled small extent next target spoiled => exact absurd untroubled troubled
    | unwritten extent next placed _ wrote cut troubled => exact absurd untroubled troubled
    | unsynced extent next written _ phases keeps troubled => exact absurd untroubled troubled

theorem deleteChunk_ends (region : Region) (file : Device) (chunk : ChunkPos) :
    Ends (deleteChunk chunk) (region, file)
      (fun _ state => ∃ slot, region.slot chunk = .ok slot ∧
        (region.tables.extent? slot = none ∧ state = (region, file) ∨
          ∃ extent, region.tables.extent? slot = some extent ∧
            Cleared region slot extent file state.1 state.2))
      fun failure state =>
        (state = (region, file) ∧ region.slot chunk = .error failure) ∨
        ∃ slot extent, region.slot chunk = .ok slot ∧ region.tables.extent? slot = some extent ∧
          ClearFailed region slot extent file state.1 state.2 := by
  unfold deleteChunk
  simp only [ends_bind, ends_get, ends_ofExcept]
  cases region.slot chunk with
  | error failure => exact .inl ⟨trivial, rfl⟩
  | ok slot =>
    cases found : region.tables.extent? slot with
    | none =>
      exact Ends.mono (clearSlot_absent found file)
        (fun _ _ same => ⟨slot, rfl, .inl ⟨found, same⟩⟩) fun _ _ => False.elim
    | some extent =>
      refine Ends.mono (clearSlot_ends found file) ?_ ?_
      · exact fun _ _ cleared => ⟨slot, rfl, .inr ⟨extent, found, cleared⟩⟩
      · exact fun _ _ failed => .inr ⟨slot, extent, rfl, found, failed⟩

theorem deleteChunk_ends_untroubled (region : Region) {file : Device} (untroubled : file.Untroubled)
    (chunk : ChunkPos) :
    Ends (deleteChunk chunk) (region, file)
      (fun _ state => ∃ slot, region.slot chunk = .ok slot ∧
        (region.tables.extent? slot = none ∧ state = (region, file) ∨
          ∃ extent, region.tables.extent? slot = some extent ∧
            Cleared region slot extent file state.1 state.2))
      fun failure state => state = (region, file) ∧ region.slot chunk = .error failure := by
  refine Ends.mono (deleteChunk_ends region file chunk) (fun _ _ => id) ?_
  rintro failure ⟨left, after⟩ (foreign | ⟨slot, extent, _, _, failed⟩)
  · exact foreign
  · cases failed with
    | unwritten _ cut troubled => exact absurd untroubled troubled
    | unsynced _ cleared troubled => exact absurd untroubled troubled

theorem flush_ends (region : Region) (file : Device) :
    Ends flush (region, file) (fun _ state => state.1 = region ∧ file.Keeps state.2)
      fun _ state => state.1 = region ∧ file.Keeps state.2 ∧ ¬ file.Untroubled := by
  rw [flush, ends_device]
  exact Ends.mono (Device.sync_ends file) (fun _ _ keeps => ⟨rfl, keeps⟩)
    fun _ _ ⟨keeps, troubled⟩ => ⟨rfl, keeps, troubled⟩

section
variable [Codec]

/-- What loading a chunk gives, from the content of the file. -/
def find (region : Region) (content : Content) (chunk : ChunkPos) : Except Failure (Option Bytes) :=
  match region.slot chunk with
  | .error failure => .error failure
  | .ok slot =>
    match region.tables.extent? slot with
    | none => .ok none
    | some extent =>
      (recordData (region.position.chunkAt slot) extent
        (content.read extent.position extent.size)).map some

theorem loadChunk_ends (region : Region) {file : Device} (isFile : file.full = false)
    (reads : file.around.Reads) (chunk : ChunkPos) :
    Ends (loadChunk chunk) (region, file)
      (fun result state => state.1 = region ∧ file.Keeps state.2 ∧
        region.find file.content chunk = .ok result)
      fun failure state => state.1 = region ∧ file.Keeps state.2 ∧
        region.find file.content chunk = .error failure := by
  have kept := Device.Keeps.refl file
  unfold loadChunk find
  simp only [ends_bind, ends_get, ends_ofExcept]
  cases region.slot chunk with
  | error failure => exact ⟨trivial, kept, rfl⟩
  | ok slot =>
    simp only
    cases region.tables.extent? slot with
    | none => exact ⟨rfl, kept, rfl⟩
    | some extent =>
      simp only [ends_bind, ends_device]
      refine Ends.mono (Device.readAt_ends extent.position extent.size file isFile) ?_ ?_
      · rintro data after ⟨keeps, _, whole⟩
        rw [← whole reads extent.position_add_size_le]
        simp only [ends_map, ends_ofExcept]
        cases recordData (region.position.chunkAt slot) extent data with
        | error failure => exact ⟨trivial, keeps, rfl⟩
        | ok result => exact ⟨trivial, keeps, rfl⟩
      · rintro _ _ ⟨_, refused⟩
        exact absurd reads (refused extent.position_add_size_le)

theorem outcome_loadChunk_of_reads (region : Region) {file : Device} (isFile : file.full = false)
    (reads : file.around.Reads) (chunk : ChunkPos) :
    outcome (loadChunk chunk) (region, file) = region.find file.content chunk :=
  ((loadChunk_ends region isFile reads chunk).mono (fun _ _ found => found.2.2)
    fun _ _ failed => failed.2.2).outcome

theorem outcome_loadChunk (region : Region) {file : Device} (untroubled : file.Untroubled)
    (chunk : ChunkPos) : outcome (loadChunk chunk) (region, file) = region.find file.content chunk :=
  outcome_loadChunk_of_reads region untroubled.full untroubled.around.schedule.reads chunk

end

theorem close_ends (region : Region) (file : Device) :
    Ends close (region, file) (fun _ state => state.1 = region ∧ file.Keeps state.2)
      fun _ _ => False := by
  have finished {flushed : Device} (keeps : file.Keeps flushed) :
      Ends (OnFile.device Device.close) (region, flushed)
        (fun _ state => state.1 = region ∧ file.Keeps state.2) fun _ _ => False := by
    rw [ends_device]
    refine Ends.mono (Device.close_ends flushed) ?_ fun _ _ => id
    exact fun _ after closed => ⟨rfl, keeps.continues.trans closed.continues,
      closed.content.trans keeps.content⟩
  unfold close
  rw [ends_bind, ends_tryCatch]
  refine Ends.mono (flush_ends region file) ?_ ?_
  · rintro _ ⟨_, flushed⟩ ⟨rfl, keeps⟩
    exact finished keeps
  · rintro failure ⟨_, flushed⟩ ⟨rfl, keeps, _⟩
    have noted := Device.keeps_notify (.fileNotFlushed flushed.path failure) flushed
    rw [ends_bind, ends_get, ends_device, Device.notify, ends_modify]
    exact finished ⟨keeps.continues.trans noted.continues, noted.content.trans keeps.content⟩

end RegionStore.Region
