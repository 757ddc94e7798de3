import RegionStore.Proofs.Compression
import RegionStore.Proofs.Disk.Reports
import RegionStore.Proofs.Region.Run

/-!
How long the file of a region gets. Free extents are few, so sectors are appended only to a file that is
still short, and in a file that was not too long at first there is always a place for a record that a
table word can tell. A save is never refused because the file is full.
-/

set_option autoImplicit false

namespace RegionStore

open Disk

/-- A table word can point to the extent, and gives it back. -/
structure Extent.Told (extent : Extent) : Prop where
  first : extent.first.toNat ≤ maxSectorIndex
  word : Extent.ofWord extent.toWord = extent

theorem Extent.Packable.told {extent : Extent} (packable : extent.Packable) : extent.Told :=
  ⟨packable.first, (Extent.ofWord_toWord_iff extent).2 packable⟩

theorem Extent.Told.toWord_ne_zero {extent : Extent} (told : extent.Told)
    (nonempty : 0 < extent.count.toNat) : extent.toWord ≠ 0 :=
  Extent.toWord_ne_zero ((Extent.ofWord_toWord_iff extent).1 told.word) nonempty

namespace FreeSpace

/-- There are sectors for every record that is not too large, and a table word can point to them. -/
def Roomy (space : FreeSpace) : Prop :=
  ∀ count, 0 < count → count ≤ maxExtentSectors → ∃ allocation next,
    space.allocate? count.toUInt32 = some (allocation, next) ∧
      allocation.extent.count.toNat = count ∧ allocation.extent.Told

theorem writeRecord_reports (extent : Extent) (record : Bytes) (sync : Bool) (file : Device) :
    Device.Reports (writeRecord extent record sync) file := by
  unfold writeRecord Device.Reports
  rw [ends_bind]
  refine Ends.mono (Device.writeAt_reports _ _ file) (fun _ written quiet => ?_) fun _ _ => id
  split
  · exact (Device.sync_reports written).onward quiet
  · exact quiet

/-- Only the operating system keeps a record from its place once sectors have been chosen for it. -/
theorem placeAnew_reports {space next : FreeSpace} {count : UInt32} {allocation : Allocation}
    (found : space.allocate? count = some (allocation, next)) (file : Device) (record : Bytes)
    (sync : Bool) :
    Ends (placeAnew record count sync) (space, file) (fun extent _ => extent = allocation.extent)
      fun failure _ => failure.IsCall := by
  rw [ends_placeAnew found]
  refine Ends.mono (writeRecord_reports allocation.extent record sync file) (fun _ _ _ => rfl) ?_
  rintro failure after ⟨isCall, _⟩
  -- Rolling back does not fail, so it does not hide why the record could not be written.
  exact Ends.mono (rollBack_ends allocation next after) (fun _ _ _ => isCall) fun _ _ => False.elim

end FreeSpace

namespace Region

theorem writeEntry_reports (slot : Slot) (offset : UInt32) (timestamp : Int32) (file : Device) :
    Device.Reports (writeEntry slot offset timestamp) file := by
  unfold writeEntry Device.Reports
  rw [ends_bind]
  refine Ends.mono (Device.writeAt_reports _ _ file) (fun _ written quiet => ?_) fun _ _ => id
  exact (Device.writeAt_reports _ _ written).onward quiet

theorem syncChange_reports (region : Region) (file : Device) :
    Ends syncChange (region, file) (fun _ after => after.1 = region) fun failure _ => failure.IsCall := by
  unfold syncChange
  simp only [ends_bind, ends_get]
  split
  · rw [ends_device]
    exact Ends.mono (Device.sync_reports file) (fun _ _ _ => rfl) fun _ _ => And.left
  · exact rfl

section
variable [Codec]

inductive Unsaved (region : Region) (chunk : ChunkPos) (payload : Bytes) (tag : UInt8)
    (failure : Failure) : Prop where
  | foreign (own : region.slot chunk = .error failure)
  | unencoded (refused : encodeChunk payload tag = .error failure)
  | large (sectors : Nat) (tooLarge : maxExtentSectors < sectors)
    (same : failure = .recordTooLarge sectors)
  | call (isCall : failure.IsCall)

theorem Unsaved.ne_regionFull {region : Region} {chunk : ChunkPos} {payload : Bytes} {tag : UInt8}
    {failure : Failure} (unsaved : Unsaved region chunk payload tag failure) (path : Bytes)
    (sector : UInt32) : failure ≠ .regionFull path sector := by
  rintro rfl
  cases unsaved with
  | foreign own =>
    unfold slot at own
    split at own <;> cases own
  | unencoded refused =>
    rcases encodeChunk_fails refused with same | same | ⟨_, same⟩
    all_goals cases same
  | large sectors tooLarge same => cases same
  | call isCall =>
    obtain ⟨code, same⟩ := isCall
    cases same

section
variable {region : Region} (roomy : region.space.Roomy)
include roomy

omit [Codec] in
/-- A record goes where a table word can point, unless it is too large or cannot be written. -/
theorem place_told (file : Device) (slot : Slot) (data : Bytes) :
    Ends (FreeSpace.place (record data) (region.tables.extent? slot) region.sync) (region.space, file)
      (fun extent _ => extent.Told ∧ 0 < extent.count.toNat)
      fun failure _ => failure.IsCall ∨
        ∃ sectors, maxExtentSectors < sectors ∧ failure = .recordTooLarge sectors := by
  have positive := record_size_pos data
  by_cases large : maxExtentSectors < sectorsOf (record data).size
  · unfold FreeSpace.place
    simp only [if_pos large, ends_bind, ends_throw]
    exact .inr ⟨_, large, rfl⟩
  have small := Nat.le_of_not_lt large
  by_cases moves : ∀ place, region.tables.extent? slot = some place →
      place.count.toNat < sectorsOf (record data).size
  · rw [FreeSpace.ends_place_of_moving small moves]
    obtain ⟨allocation, next, found, size, told⟩ := roomy _ positive small
    refine Ends.mono (FreeSpace.placeAnew_reports found file (record data) region.sync) ?_
      fun _ _ => .inl
    rintro _ _ rfl
    exact ⟨told, size ▸ positive⟩
  · push Not at moves
    obtain ⟨extent, found, fits⟩ := moves
    rw [found, FreeSpace.ends_place_of_staying small fits]
    refine Ends.mono (FreeSpace.writeRecord_reports extent (record data) region.sync file) ?_ ?_
    · exact fun _ _ _ => ⟨(Tables.packable_of_extent? found).told, Nat.lt_of_lt_of_le positive fits⟩
    · exact fun _ _ reported => .inl reported.1

theorem saveChunk_told (file : Device) (chunk : ChunkPos) (payload : Bytes) (tag : UInt8) :
    Ends (saveChunk chunk payload tag) (region, file)
      (fun _ after => ∃ slot data extent placed, region.slot chunk = .ok slot ∧
        encodeChunk payload tag = .ok data ∧
        FreeSpace.place (record data) (region.tables.extent? slot) region.sync (region.space, file) =
          .ok extent placed ∧
        extent.Told ∧ after.1.tables.extent? slot = some extent)
      fun failure _ => Unsaved region chunk payload tag failure := by
  unfold Region.saveChunk
  simp only [ends_bind, ends_get, ends_ofExcept]
  cases own : region.slot chunk with
  | error failure => exact .foreign own
  | ok slot =>
    cases accepted : encodeChunk payload tag with
    | error failure => exact .unencoded accepted
    | ok data =>
      have placing := place_told roomy file slot data
      dsimp only
      cases ran : FreeSpace.place (record data) (region.tables.extent? slot) region.sync
          (region.space, file) with
      | error failure after =>
        rw [ends_of_eq_error ran] at placing
        rw [← ends_saveChunk own accepted, ends_of_eq_error (saveChunk_of_unplaced own accepted ran)]
        rcases placing with isCall | ⟨sectors, tooLarge, same⟩
        · exact .call isCall
        · exact .large sectors tooLarge same
      | ok extent after =>
        obtain ⟨next, placed⟩ := after
        obtain ⟨told, nonempty⟩ := (ends_of_eq_ok ran).1 placing
        have wrote := writeEntry_reports slot extent.toWord placed.around.timestamp placed
        rw [ends_saveData ran]
        cases entry : writeEntry slot extent.toWord placed.around.timestamp placed with
        | error failure after => exact .call ((ends_of_eq_error entry).1 wrote).1
        | ok _ written =>
          have moved : (region.tables.set slot extent.toWord placed.around.timestamp).extent? slot =
              some extent := by
            rw [Tables.extent?_set, if_pos rfl, if_neg (told.toWord_ne_zero nonempty), told.word]
          refine Ends.mono (syncChange_reports _ written) ?_ ?_
          · rintro _ after same
            exact ⟨slot, data, extent, (next, placed), rfl, rfl, ran, told, same ▸ moved⟩
          · exact fun failure _ => .call

end

section
variable {limit : Nat} {region : Region} {file : Device} (intact : Intact limit region file)
include intact

omit [Codec] in
theorem Intact.roomy (addressable : limit ≤ maxSectorIndex + 1) : region.space.Roomy := by
  intro count positive small
  have word := FreeSpace.toNat_toUInt32 small
  have short := intact.short
  have sound := intact.partitioned.sound
  rcases sound.allocate?_cases count.toUInt32 with
    ⟨extent, next, found, size, carves⟩ | ⟨extent, next, found, size, appends⟩ | ⟨_, beyond, noRoom⟩
  · have size : extent.count.toNat = count := size ▸ word
    have within := (carves.takes sound (by omega)).inside.within
    rw [carves.sectors, Extent.behind_def] at within
    have packable : extent.Packable := ⟨by omega, by omega⟩
    exact ⟨⟨extent, false⟩, next, found, size, packable.told⟩
  · have size : extent.count.toNat = count := size ▸ word
    have first := congrArg UInt32.toNat appends.first
    have addressable := appends.addressable
    have packable : extent.Packable := ⟨by omega, by omega⟩
    exact ⟨⟨extent, true⟩, next, found, size, packable.told⟩
  · -- A file in which nothing can be appended is too long to have only short free extents.
    rw [word] at noRoom
    have few := intact.partitioned.sectors_le_of_noRoom small noRoom
    rw [Partitioned.fragmentedSectors] at few
    rw [maxSectorIndex] at beyond
    omega

end

/-- To that length files grow; one that is longer at first does not grow at all. -/
def grownSectors : Nat := headerSectors.toNat + slotCount * maxExtentSectors +
  (slotCount + 1) * (maxExtentSectors - 1) + maxExtentSectors

omit [Codec] in
theorem Loaded.sectors_le {position : RegionPos} {sync : Bool} {file after : Device} {region : Region}
    (loaded : Loaded position sync file region after) :
    region.space.sectors.toNat ≤ max (file.content.size / sectorSize) grownSectors := by
  have size := loaded.prepared.size
  have content := loaded.prepared.content
  split at content
  · next empty =>
    rw [content.size, Content.size_write, empty, Bytes.size_zeros, headerSize,
      if_neg (by decide), sectorSize] at size
    have two : region.space.sectors.toNat = 2 := by omega
    rw [two]
    exact le_max_of_le_right (by decide)
  · rw [content] at size
    rw [size, Nat.mul_div_cancel _ (by decide)]
    exact Nat.le_max_left _ _

/-- Whatever is done to a file that is not longer than table words can tell, and whatever fails, it does
not get longer than it would at worst from an empty one. So there stays room, every record goes where a
table word can point, and the word of a chunk that has been saved points there. -/
theorem sectors_le_of_run (position : RegionPos) (sync : Bool) {file opened : Device}
    {region : Region} (isFile : file.full = false)
    (short : file.content.size ≤ (maxSectorIndex + 1) * sectorSize)
    (loaded : load position sync file = .ok region opened) (steps : List (Surroundings × Change)) :
    let state := steps.foldl Change.apply (region, opened)
    state.1.space.sectors.toNat ≤ max (file.content.size / sectorSize) grownSectors ∧
      state.1.space.Roomy ∧
      (∀ around slot data, Ends (FreeSpace.place (record data) (state.1.tables.extent? slot) state.1.sync)
        (state.1.space, state.2.under around) (fun extent _ => extent.Told ∧ 0 < extent.count.toNat)
        fun failure _ => failure.IsCall ∨
          ∃ sectors, maxExtentSectors < sectors ∧ failure = .recordTooLarge sectors) ∧
      ∀ around chunk payload tag, Ends (saveChunk chunk payload tag) (state.1, state.2.under around)
        (fun _ after => ∃ slot data extent placed, state.1.slot chunk = .ok slot ∧
          encodeChunk payload tag = .ok data ∧
          FreeSpace.place (record data) (state.1.tables.extent? slot) state.1.sync
            (state.1.space, state.2.under around) = .ok extent placed ∧
          extent.Told ∧ after.1.tables.extent? slot = some extent)
        fun failure _ => ∀ path sector, failure ≠ .regionFull path sector := by
  intro state
  have found := loaded_of_load isFile loaded
  have addressable : max (file.content.size / sectorSize) grownSectors ≤ maxSectorIndex + 1 :=
    Nat.max_le.2 ⟨Nat.div_le_of_le_mul (Nat.mul_comm _ _ ▸ short), by decide⟩
  have room : Partitioned.fragmentedSectors + maxExtentSectors ≤
      max (file.content.size / sectorSize) grownSectors := le_max_of_le_right (by decide)
  have starts : Intact _ (region, opened).1 (region, opened).2 := found.intact found.sectors_le
  have intact := Intact.run room addressable starts steps
  have roomy := intact.roomy addressable
  refine ⟨intact.short, roomy, fun around => place_told roomy (state.2.under around), ?_⟩
  intro around chunk payload tag
  exact Ends.mono (saveChunk_told roomy (state.2.under around) chunk payload tag) (fun _ _ => id)
    fun _ _ unsaved => unsaved.ne_regionFull

end

/-- A new file, from which a full disk keeps a chunk at first, and from which the chunk is deleted later. -/
theorem sectors_le_of_run_new :
    let file : Device := ⟨"r.0.0.mca", Content.empty, false, Surroundings.initial⟩
    let steps := [({ Surroundings.initial with ceiling := some 9000 }, Change.save ⟨0, 0⟩ "abc" 3),
      (Surroundings.initial, Change.save ⟨0, 0⟩ "abc" 3), (Surroundings.initial, Change.delete ⟨0, 0⟩)]
    ∃ region opened, load ⟨0, 0⟩ true file = .ok region opened ∧
      (steps.foldl Change.apply (region, opened)).1.space.sectors.toNat ≤ 521727 ∧
      (steps.foldl Change.apply (region, opened)).1.space.Roomy := by
  intro file steps
  have untroubled : file.Untroubled := ⟨rfl, rfl, Schedule.calm_mild⟩
  obtain ⟨region, opened, loaded, _⟩ := exists_load ⟨0, 0⟩ true untroubled (.inl rfl)
  obtain ⟨short, roomy, _⟩ := sectors_le_of_run ⟨0, 0⟩ true rfl (by decide) loaded steps
  exact ⟨region, opened, loaded, short.trans (by decide), roomy⟩

end Region
end RegionStore
