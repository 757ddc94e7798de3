import RegionStore.Proofs.Region.Course
import RegionStore.Proofs.Region.Fragmentation
import RegionStore.Proofs.Region.Load

/-!
What holds of an open region and its file at all times, whatever calls fail: the sectors of the file are
shared between the chunks and the free space, and the file is as long as the region takes it to be.
Files do not get so long that a table word could not hold an extent.
-/

set_option autoImplicit false

namespace RegionStore

open Disk

namespace FreeSpace

variable {space next : FreeSpace} {old : Option Extent} {count : Nat} {extent : Extent}

/-- A record stays in its extent, or it gets one of its own size that was not in use. -/
theorem Target.stays_or_takes (target : Target space old count extent next) (sound : space.Sound)
    (header : headerSectors.toNat ≤ space.sectors.toNat) (positive : 0 < count)
    (small : count ≤ maxExtentSectors) :
    old = some extent ∧ next = space ∨
      old ≠ some extent ∧ extent.count.toNat = count ∧ Takes space extent next := by
  have moved (moves : ∀ place, old = some place → place.count.toNat < count)
      (size : extent.count.toNat = count) : old ≠ some extent := by
    intro same
    have := moves extent same
    omega
  cases target with
  | stays same fits kept => exact .inl ⟨same, kept⟩
  | carved moves size carves =>
    exact .inr ⟨moved moves size, size, carves.takes sound (by omega)⟩
  | appended moves size appends =>
    exact .inr ⟨moved moves size, size, appends.takes sound header (by omega) (by omega)⟩

/-- Files do not get longer than what can be opened again. -/
theorem Target.short (target : Target space old count extent next) (small : count ≤ maxExtentSectors)
    (short : space.sectors.toNat ≤ maxSectorIndex + maxExtentSectors) :
    next.sectors.toNat ≤ maxSectorIndex + maxExtentSectors := by
  cases target with
  | stays same fits kept => exact kept ▸ short
  | carved moves size carves => exact carves.sectors ▸ short
  | appended moves size appends =>
    have first := congrArg UInt32.toNat appends.first
    have addressable := appends.addressable
    rw [appends.sectors (by omega), Extent.behind_def]
    omega

end FreeSpace

namespace Partitioned

variable {region : Region} {slot : Slot} {count : Nat} {extent : Extent} {next : FreeSpace}

/-- Sectors are shared out again once a chunk has moved. -/
theorem moved (partitioned : Partitioned region.tables region.space)
    (target : FreeSpace.Target region.space (region.tables.extent? slot) count extent next)
    (positive : 0 < count) (small : count ≤ maxExtentSectors) (packable : extent.Packable)
    (timestamp : Int32) :
    Partitioned (region.moved slot extent next timestamp).tables
      (region.moved slot extent next timestamp).space := by
  unfold Region.moved
  rcases target.stays_or_takes partitioned.sound partitioned.header positive small with
    ⟨same, kept⟩ | ⟨different, _, takes⟩
  · simp only [same, ne_eq, not_true_eq_false, if_false, kept]
    refine partitioned.congr fun other => ?_
    have nonempty := (partitioned.inside slot extent same).nonempty
    rw [Tables.extent?_set_toWord _ _ _ packable nonempty]
    split
    · next here => rw [here, same]
    · rfl
  · cases found : region.tables.extent? slot with
    | none => exact partitioned.occupy found packable timestamp takes
    | some old =>
      have notSame : old ≠ extent := fun same => different (same ▸ found)
      simp only [if_pos notSame]
      exact partitioned.relocate found packable timestamp takes

theorem unmoved (partitioned : Partitioned region.tables region.space)
    (target : FreeSpace.Target region.space (region.tables.extent? slot) count extent next)
    (positive : 0 < count) (small : count ≤ maxExtentSectors) :
    Partitioned (region.unmoved slot extent next).tables (region.unmoved slot extent next).space := by
  unfold Region.unmoved
  rcases target.stays_or_takes partitioned.sound partitioned.header positive small with
    ⟨same, kept⟩ | ⟨different, _, takes⟩
  · rw [if_neg (Decidable.not_not.2 same), kept]
    exact partitioned
  · rw [if_pos different]
    exact partitioned.abandon takes

theorem removed (partitioned : Partitioned region.tables region.space)
    (found : region.tables.extent? slot = some extent) :
    Partitioned (region.removed slot extent).tables (region.removed slot extent).space :=
  partitioned.vacate found 0

end Partitioned

namespace Region

theorem record_size_pos (data : Bytes) : 0 < sectorsOf (record data).size := by
  apply sectorsOf_pos
  rw [record, ByteArray.size_append]
  exact Nat.lt_of_lt_of_le (by decide : 0 < 4) (Nat.le_add_right _ _)

/-- The region and its file, with at most `limit` sectors. -/
structure Intact (limit : Nat) (region : Region) (file : Device) : Prop where
  partitioned : Partitioned region.tables region.space
  short : region.space.sectors.toNat ≤ limit
  covered : region.space.sectors.toNat * sectorSize ≤ file.content.size

variable {limit : Nat} {region : Region} {file : Device}

theorem Intact.packable (intact : Intact limit region file) (addressable : limit ≤ maxSectorIndex + 1)
    {slot : Slot} {count : Nat} {extent : Extent} {next : FreeSpace}
    (target : FreeSpace.Target region.space (region.tables.extent? slot) count extent next)
    (positive : 0 < count) (small : count ≤ maxExtentSectors) : extent.Packable := by
  have short := intact.short
  cases target with
  | stays same fits kept => exact Tables.packable_of_extent? same
  | carved moves size carves =>
    have within := (carves.takes intact.partitioned.sound (by omega)).inside.within
    rw [carves.sectors, Extent.behind_def] at within
    exact ⟨by omega, by omega⟩
  | appended moves size appends =>
    have first := congrArg UInt32.toNat appends.first
    have := appends.addressable
    exact ⟨by omega, by omega⟩

theorem Intact.short_next (intact : Intact limit region file)
    (room : Partitioned.fragmentedSectors + maxExtentSectors ≤ limit) {slot : Slot} {count : Nat}
    {extent : Extent} {next : FreeSpace}
    (target : FreeSpace.Target region.space (region.tables.extent? slot) count extent next)
    (small : count ≤ maxExtentSectors) : next.sectors.toNat ≤ limit := by
  cases target with
  | stays same fits kept => exact kept ▸ intact.short
  | carved moves size carves => exact carves.sectors ▸ intact.short
  | appended moves size appends =>
    have first := congrArg UInt32.toNat appends.first
    have few := intact.partitioned.sectors_le_of_noRoom small (size ▸ appends.noRoom)
    rw [appends.sectors (by omega), Extent.behind_def]
    omega

theorem Intact.covered_next (intact : Intact limit region file) {slot : Slot} {data : Bytes}
    {extent : Extent} {next : FreeSpace} {placed : Device}
    (wrote : FreeSpace.Placed region.space file (region.tables.extent? slot) (record data) extent next
      placed) : next.sectors.toNat * sectorSize ≤ placed.content.size := by
  have covered := intact.covered
  have longer := wrote.wrote.size_le
  have positive := record_size_pos data
  have fits := wrote.target.fits
  rcases wrote.target.stays_or_takes intact.partitioned.sound intact.partitioned.header positive
    wrote.small with ⟨_, kept⟩ | ⟨_, _, takes⟩
  · rw [kept]
    omega
  · have size := Extent.size_padded fits
    have enough := wrote.wrote.end_le (by rw [size, Extent.size, sectorSize]; omega)
    rw [size, Extent.position_add_size] at enough
    have last := takes.length (next.sectors.toNat - 1)
    have within := takes.inside.behindHeader
    have atMost : next.sectors.toNat ≤ max region.space.sectors.toNat extent.behind := by
      have header := takes.inside.within
      have := extent.behind_def
      have one : next.sectors.toNat - 1 < next.sectors.toNat := by omega
      rcases last.1 one with old | ⟨_, new⟩ <;> omega
    have scaled := Nat.mul_le_mul_right sectorSize atMost
    rw [← Nat.mul_max_mul_right] at scaled
    omega

@[simp] theorem sectors_moved (region : Region) (slot : Slot) (extent : Extent) (next : FreeSpace)
    (timestamp : Int32) : (region.moved slot extent next timestamp).space.sectors = next.sectors := by
  unfold moved
  dsimp only
  repeat' split
  all_goals simp only [FreeSpace.sectors_release]

@[simp] theorem sectors_unmoved (region : Region) (slot : Slot) (extent : Extent)
    (next : FreeSpace) : (region.unmoved slot extent next).space.sectors = next.sectors := by
  unfold unmoved
  dsimp only
  split
  all_goals simp only [FreeSpace.sectors_release]

/-- A failed write of a record may cut off only what it has appended. -/
theorem Intact.covered_spoiled (intact : Intact limit region file) {extent : Extent} {data : Bytes}
    {after : Device} (spoiled : FreeSpace.Spoiled file region.space extent data after) :
    region.space.sectors.toNat * sectorSize ≤ after.content.size := by
  obtain ⟨_, _, between, wrote, same | ⟨_, cut⟩⟩ := spoiled.content
  · rw [same]
    exact Nat.le_trans intact.covered wrote.size_le
  · rw [cut, Content.size_resize]

/-- Wherever the record goes, a table word can tell its extent, and the file does not get too long. -/
def Fits (limit : Nat) (region : Region) (slot : Slot) (data : Bytes) : Prop :=
  sectorsOf (record data).size ≤ maxExtentSectors → ∀ extent next,
    FreeSpace.Target region.space (region.tables.extent? slot) (sectorsOf (record data).size) extent
      next → extent.Packable ∧ next.sectors.toNat ≤ limit

def Change.Fits [Codec] (limit : Nat) (region : Region) : Change → Prop
  | .save chunk payload tag => ∀ slot data, region.slot chunk = .ok slot →
      encodeChunk payload tag = .ok data → Region.Fits limit region slot data
  | _ => True

theorem Intact.fits [Codec] (intact : Intact limit region file)
    (room : Partitioned.fragmentedSectors + maxExtentSectors ≤ limit)
    (addressable : limit ≤ maxSectorIndex + 1) (change : Change) : change.Fits limit region := by
  cases change with
  | save chunk payload tag =>
    intro slot data _ _ small extent next target
    exact ⟨intact.packable addressable target (record_size_pos data) small,
      intact.short_next room target small⟩
  | delete chunk => trivial
  | flush => trivial

theorem Intact.grown (intact : Intact limit region file) {after : Device}
    (longer : file.content.size ≤ after.content.size) : Intact limit region after :=
  ⟨intact.partitioned, intact.short, Nat.le_trans intact.covered longer⟩

theorem Intact.keeps (intact : Intact limit region file) {after : Device} (keeps : file.Keeps after) :
    Intact limit region after := intact.grown (Nat.le_of_eq (congrArg Content.size keeps.content.symm))

theorem Intact.unplaced (intact : Intact limit region file) {slot : Slot} {data : Bytes}
    {failure : Failure} {space : FreeSpace} {after : Device}
    (ran : FreeSpace.place (record data) (region.tables.extent? slot) region.sync (region.space, file) =
      .error failure (space, after)) :
    { region with space := space } = region ∧
      FreeSpace.Unplaced region.space file (region.tables.extent? slot) (record data) failure after := by
  obtain ⟨same, unplaced⟩ := (ends_of_eq_error ran).1
    (FreeSpace.place_ends intact.partitioned.sound file (record data) _ region.sync)
  refine ⟨?_, unplaced⟩
  rw [show space = region.space from same]

theorem Intact.placed (intact : Intact limit region file) {slot : Slot} {data : Bytes}
    {extent : Extent} {next : FreeSpace} {placed : Device}
    (ran : FreeSpace.place (record data) (region.tables.extent? slot) region.sync (region.space, file) =
      .ok extent (next, placed)) :
    FreeSpace.Placed region.space file (region.tables.extent? slot) (record data) extent next placed :=
  (ends_of_eq_ok ran).1
    (FreeSpace.place_ends intact.partitioned.sound file (record data) _ region.sync)

section
variable [Codec]

/-- When a change has come to the words of its slot, all is well whether it succeeds or fails. -/
theorem Intact.reaches (intact : Intact limit region file) {change : Change}
    (fits : change.Fits limit region) {pending : Pending}
    (reaches : change.Reaches region file pending) :
    Intact limit pending.kept pending.file ∧ Intact limit pending.changed pending.file := by
  cases reaches with
  | @save _ _ _ slot data extent next placed own accepted ran =>
    have wrote := intact.placed ran
    have positive := record_size_pos data
    obtain ⟨packable, short⟩ := fits slot data own accepted wrote.small extent next wrote.target
    have covered := intact.covered_next wrote
    constructor
    · refine ⟨intact.partitioned.unmoved wrote.target positive wrote.small, ?_, ?_⟩
      · rwa [sectors_unmoved]
      · rwa [sectors_unmoved]
    · refine ⟨intact.partitioned.moved wrote.target positive wrote.small packable _, ?_, ?_⟩
      · rwa [sectors_moved]
      · rwa [sectors_moved]
  | delete own present =>
    refine ⟨intact, intact.partitioned.removed present, ?_, ?_⟩
    · rw [removed, FreeSpace.sectors_release]
      exact intact.short
    · rw [removed, FreeSpace.sectors_release]
      exact intact.covered

structure RecordLost (region : Region) (file after : Device) : Prop where
  placing : ∃ slot data extent next,
    FreeSpace.Target region.space (region.tables.extent? slot) (sectorsOf (record data).size) extent
        next ∧
      sectorsOf (record data).size ≤ maxExtentSectors ∧
      FreeSpace.Spoiled file region.space extent (extent.padded (record data)) after ∧
      (region.tables.extent? slot ≠ some extent → extent.first = region.space.sectors →
        file.full = false → file.around.Resizes →
          after.content.size = region.space.sectors.toNat * sectorSize)

/-- What a change can do to a region and its file, however it ends. -/
theorem Intact.change_ends (intact : Intact limit region file) (change : Change)
    (holds : Region → Device → Prop) (idle : ∀ after, file.Keeps after → holds region after)
    (lost : ∀ after, RecordLost region file after → holds region after)
    (cut : ∀ pending failure after, change.Reaches region file pending →
      pending.write = .error failure after → holds pending.kept after)
    (written : ∀ pending after synced, change.Reaches region file pending →
      EntryWritten pending.slot pending.offset pending.timestamp pending.file after →
      after.Keeps synced → holds pending.changed synced) :
    Ends change.run (region, file) (fun _ state => holds state.1 state.2)
      fun _ state => holds state.1 state.2 := by
  have same : holds region file := idle file (Device.Keeps.refl file)
  refine Change.ends_of same (fun _ => same) ?_ ?_ ?_
  · exact (Device.sync_ends file).mono (fun _ after => idle after) fun _ after kept => idle after kept.1
  · intro _ _ _ slot data _ _ after _ own accepted ran
    obtain ⟨kept, unplaced⟩ := intact.unplaced ran
    rw [kept]
    cases unplaced with
    | rejected unchanged why => exact unchanged ▸ same
    | spoiled troubled small extent next target spoiled resized =>
      exact lost after ⟨slot, data, extent, next, target, small, spoiled, resized⟩
  · intro pending reaches
    rw [reaches.ends]
    cases ran : pending.write with
    | ok _ after =>
      have entry := Pending.entryWritten ran
      refine Ends.mono (syncChange_ends pending.changed after) ?_ ?_
      · rintro _ ⟨_, synced⟩ ⟨rfl, keeps⟩
        exact written pending after synced reaches entry keeps
      · rintro _ ⟨_, synced⟩ ⟨rfl, keeps, _⟩
        exact written pending after synced reaches entry keeps
    | error failure after => exact cut pending failure after reaches ran

theorem Intact.change (intact : Intact limit region file) {change : Change}
    (fits : change.Fits limit region) :
    Ends change.run (region, file) (fun _ state => Intact limit state.1 state.2)
      fun _ state => Intact limit state.1 state.2 := by
  refine intact.change_ends change (Intact limit) ?_ ?_ ?_ ?_
  · exact fun after keeps => intact.keeps keeps
  · rintro after ⟨_, _, _, _, _, _, spoiled, _⟩
    exact ⟨intact.partitioned, intact.short, intact.covered_spoiled spoiled⟩
  · exact fun pending _ after reaches ran =>
      (intact.reaches fits reaches).1.grown (Pending.entryCut ran).size_le
  · exact fun pending after synced reaches entry keeps =>
      ((intact.reaches fits reaches).2.grown entry.size_le).keeps keeps

end

theorem Loaded.intact {position : RegionPos} {sync : Bool} {after : Device}
    (loaded : Loaded position sync file region after)
    (short : region.space.sectors.toNat ≤ limit) : Intact limit region after :=
  ⟨loaded.partitioned, short, Nat.le_of_eq loaded.prepared.size.symm⟩

end Region
end RegionStore
