import RegionStore.Proofs.Deflate.Container
import RegionStore.Proofs.Region.Lookup
import RegionStore.Proofs.Region.Recovery

/-!
Saves that need sectors of their own and fail. Such a record does not touch what is there, so the region
has its chunks as before, and its file can be opened again and has them, too. There are two exceptions.
Appended sectors are cut off again after a failed write, and if that fails too it is only reported; then
the file may end in the middle of a sector. And a sync that fails behind the words of the slot does not
take the new record back.
-/

set_option autoImplicit false

namespace RegionStore.Region

open Disk

section
variable [Codec]

/-- The change comes to the words of its slot and writes them. -/
def Change.WritesEntry (region : Region) (file : Device) (change : Change) : Prop :=
  ∃ pending result written, change.Reaches region file pending ∧ pending.write = .ok result written

section
variable {limit : Nat} {region left : Region} {file after : Device} (intact : Intact limit region file)
  {chunk : ChunkPos} {payload : Bytes} {tag : UInt8} {failure : Failure}
  (failed : saveChunk chunk payload tag (region, file) = .error failure (left, after))
include intact failed

/-- What is found after a save that has written the words of its slot, whatever has failed behind them:
only its chunk has changed. -/
theorem Intact.find_of_writesEntry [LawfulCodec]
    (fits : Change.Fits limit region (.save chunk payload tag))
    (writes : Change.WritesEntry region file (.save chunk payload tag)) :
    left.find after.content chunk = .ok (some payload) ∧
      ∀ other, other ≠ chunk → left.find after.content other = region.find file.content other := by
  obtain ⟨pending, _, written, reaches, ran⟩ := writes
  have entry := Pending.entryWritten ran
  have ends : Ends (saveChunk chunk payload tag) (region, file) (fun _ _ => True)
      fun _ state => state.1 = pending.changed ∧ written.Keeps state.2 := by
    refine reaches.ends.2 ?_
    rw [ran]
    exact (syncChange_ends pending.changed written).mono (fun _ _ _ => trivial)
      fun _ _ left => ⟨left.1, left.2.1⟩
  rw [ends_of_eq_error failed] at ends
  obtain ⟨rfl, keeps⟩ := ends
  rw [keeps.content]
  refine ⟨?_, fun other different => ?_⟩
  · cases reaches with
    | save own accepted placing =>
      have wrote := intact.placed placing
      obtain ⟨packable, _⟩ := fits _ _ own accepted wrote.small _ _ wrote.target
      exact intact.find_saved own accepted wrote packable entry
  · apply intact.find_elsewhere reaches entry
    cases reaches with
    | save own _ _ => exact slot_ne_of_ne own different

section
variable {slot : Slot} {data : Bytes} (own : region.slot chunk = .ok slot)
  (accepted : encodeChunk payload tag = .ok data)
  (moves : ∀ place, region.tables.extent? slot = some place →
    place.count.toNat < sectorsOf (record data).size)
include own accepted moves

/-- The record has been placed, but its slot keeps the old extent. -/
theorem Intact.find_of_entryFails
    (fails : Change.EntryFails region file (.save chunk payload tag)) (other : ChunkPos) :
    left.find after.content other = region.find file.content other := by
  obtain ⟨pending, reason, stopped, reaches, cut⟩ := fails
  have ran : saveChunk chunk payload tag (region, file) = _ := reaches.run_of_error cut
  rw [failed] at ran
  obtain ⟨_, state⟩ := EStateM.Result.error.inj ran
  obtain ⟨rfl, rfl⟩ := Prod.mk.inj state
  have framed := intact.framed reaches
  have longer : file.content.size ≤ pending.file.content.size := by
    rw [framed.size]
    exact Nat.le_max_left ..
  have confined := ((Pending.entryCut cut).confined (Nat.le_trans intact.header_present longer)).2
  refine find_congr framed.positions.1 fun place _ => ⟨by rw [framed.tables], fun extent found => ?_⟩
  have inside := intact.partitioned.inside place extent found
  have present := Nat.le_trans inside.end_le (Nat.le_trans intact.covered longer)
  rw [confined _ _ present (.inr inside.position_ge)]
  cases reaches with
  | @save _ _ _ slot' data' target next placed own' accepted' placing =>
    cases own.symm.trans own'
    cases accepted.symm.trans accepted'
    have wrote := intact.placed placing
    apply intact.read_of_spares wrote.target wrote.small (intact.placed_spares wrote) found
    by_cases here : place = slot
    · -- The record does not fit where the old one is, so it has gone elsewhere.
      right
      rintro rfl
      exact absurd wrote.target.fits (Nat.not_le_of_lt (moves _ (here ▸ found)))
    · exact .inl here

/-- The record has not been placed. -/
theorem Intact.find_of_not_reaches
    (stopped : ¬ ∃ pending, Change.Reaches region file (.save chunk payload tag) pending)
    (other : ChunkPos) : left.find after.content other = region.find file.content other := by
  cases placing : FreeSpace.place (record data) (region.tables.extent? slot) region.sync
      (region.space, file) with
  | ok extent state => exact absurd ⟨_, .save own accepted placing⟩ stopped
  | error reason state =>
    obtain ⟨space, spoiled⟩ := state
    obtain ⟨same, cause⟩ := intact.unplaced placing
    have ran := saveChunk_of_unplaced own accepted placing
    rw [same, failed] at ran
    obtain ⟨_, state⟩ := EStateM.Result.error.inj ran
    obtain ⟨rfl, rfl⟩ := Prod.mk.inj state
    exact intact.find_unplaced cause moves other

theorem Intact.find_of_not_writesEntry
    (stopped : ¬ Change.WritesEntry region file (.save chunk payload tag)) (other : ChunkPos) :
    left.find after.content other = region.find file.content other := by
  by_cases comes : ∃ pending, Change.Reaches region file (.save chunk payload tag) pending
  · obtain ⟨pending, reaches⟩ := comes
    cases ran : pending.write with
    | ok result written => exact absurd ⟨pending, result, written, reaches, ran⟩ stopped
    | error reason cut =>
      exact intact.find_of_entryFails failed own accepted moves ⟨pending, reason, cut, reaches, ran⟩ other
  · exact intact.find_of_not_reaches failed own accepted moves comes other

end
end

/-- After a failed save of a record that needs sectors of its own, every chunk is loaded as before; only
the saved chunk is loaded as it was to be saved if the words of its slot have been written. The file can
be opened again exactly if it ends with a whole sector; it does so if the calls that change its size have
got through. Then it has the same chunks, exactly if the words on disk bring them back; they do so unless
words of a slot could not be written. -/
theorem reopening_after_failed_append [LawfulCodec] {position : RegionPos} {live : Region × Device}
    (reached : Reached position (fun _ _ => True) live) (around : Surroundings) {chunk : ChunkPos}
    {slot : Slot} (own : live.1.slot chunk = .ok slot) {payload data : Bytes} {tag : UInt8}
    (accepted : encodeChunk payload tag = .ok data)
    (moves : ∀ place, live.1.tables.extent? slot = some place →
      place.count.toNat < sectorsOf (record data).size)
    {failure : Failure} {left : Region} {after : Device}
    (failed : saveChunk chunk payload tag (live.1, live.2.under around) = .error failure (left, after))
    {later : Surroundings} (calm : later.Untroubled) (sync : Bool) :
    (∀ other, other ≠ chunk → outcome (loadChunk other) (left, after.under later) =
      outcome (loadChunk other) (live.1, live.2.under later)) ∧
    (Change.WritesEntry live.1 (live.2.under around) (.save chunk payload tag) →
      outcome (loadChunk chunk) (left, after.under later) = .ok (some payload)) ∧
    (¬ Change.WritesEntry live.1 (live.2.under around) (.save chunk payload tag) →
      outcome (loadChunk chunk) (left, after.under later) =
        outcome (loadChunk chunk) (live.1, live.2.under later)) ∧
    ∃ closed, close (left, after.under later) = .ok () (left, closed) ∧
      ((∃ again opened, load position sync closed = .ok again opened) ↔
        after.content.size % sectorSize = 0) ∧
      (Reached position Resizes live → around.Resizes → after.content.size % sectorSize = 0) ∧
      ∀ again opened, load position sync closed = .ok again opened →
        (SameChunks (again, opened) (left, after.under later) ↔
          (stored after.content).Recovers left.tables again.space.sectors.toNat) ∧
        (Reached position EntryWrites live → EntryWrites live (around, .save chunk payload tag) →
          SameChunks (again, opened) (left, after.under later)) := by
  have compact := reached.compact.under around
  have intact := compact.intact
  have change := (ends_of_eq_error failed).1 (compact.change (.save chunk payload tag))
  obtain ⟨closed, closes, opens, same⟩ := change.recovery calm sync
  have untroubled : (after.under later).Untroubled := ⟨change.isFile, calm⟩
  have untroubledBefore : (live.2.under later).Untroubled := ⟨reached.compact.isFile, calm⟩
  have before := intact.find_of_not_writesEntry failed own accepted moves
  have written := intact.find_of_writesEntry failed (compact.fits _)
  simp only [outcome_loadChunk left untroubled, outcome_loadChunk live.1 untroubledBefore,
    Device.content_under] at before written ⊢
  refine ⟨fun other different => ?_, fun writes => (written writes).1, fun stopped => before stopped chunk,
    closed, closes, opens, fun history resizes => ?_, fun again opened ran => ?_⟩
  · by_cases writes : Change.WritesEntry live.1 (live.2.under around) (.save chunk payload tag)
    · exact (written writes).2 other different
    · exact before writes other
  · have exact : Exact live.1 (live.2.under around) := history.exact
    have ending := (ends_of_eq_error failed).1
      (exact.change intact compact.isFile resizes (.save chunk payload tag))
    rw [show after.content.size = _ from ending]
    exact Nat.mul_mod_left _ _
  · refine ⟨same again opened ran, fun history writes => (same again opened ran).2 ?_⟩
    have mirrored : Mirrored live.1 (live.2.under around) := history.mirrored.congr rfl
    have ending : Mirrored left after := (ends_of_eq_error failed).1 (mirrored.change intact writes)
    exact ending.recovers _

theorem Fresh.save_of_cut {position : RegionPos} {sync : Bool} {file opened : Device} {region : Region}
    (fresh : Fresh region opened) (loaded : Loaded position sync file region opened)
    (isFile : file.full = false) {around : Surroundings} (unlimited : around.ceiling = none) {count : Nat}
    (cut : (around.turns .writing).Cut count) {chunk : ChunkPos} (own : chunk.regionOf = position)
    {payload data : Bytes} {tag : UInt8} (accepted : encodeChunk payload tag = .ok data)
    (small : sectorsOf (record data).size ≤ maxExtentSectors)
    (part : count < sectorsOf (record data).size * sectorSize) :
    ∃ failure left after written result,
      saveChunk chunk payload tag (region, opened.under around) = .error failure (left, after) ∧
      (¬ ∃ pending, Change.Reaches region (opened.under around) (.save chunk payload tag) pending) ∧
      (opened.under around).Wrote headerSize
        (((region.space.tail (sectorsOf (record data).size)).padded (record data)).extract 0 count)
        written ∧
      (∃ ahead, (opened.under around).Leaves .writing ahead written) ∧
      FreeSpace.rollBack ⟨region.space.tail (sectorsOf (record data).size), true⟩
        (region.space.grown (sectorsOf (record data).size), written) =
          .ok result (left.space, after) := by
  have sound := loaded.partitioned.sound
  have inRegion : region.slot chunk = .ok chunk.slotOf :=
    slot_eq_ok_iff.2 ⟨own.trans loaded.position.symm, rfl⟩
  have absent : region.tables.extent? chunk.slotOf = none :=
    Tables.extent?_eq_none_iff.2 (fresh.absent _)
  have moves : ∀ place, region.tables.extent? chunk.slotOf = some place →
      place.count.toNat < sectorsOf (record data).size := FreeSpace.moves_of_absent absent
  have short : region.space.sectors.toNat ≤ maxSectorIndex := by
    rw [fresh.sectors]
    decide
  have isFileOpened : (opened.under around).full = false :=
    loaded.prepared.continues.full.trans isFile
  have place : (region.space.tail (sectorsOf (record data).size)).position = headerSize := by
    rw [FreeSpace.tail, Extent.position, fresh.sectors]
    rfl
  obtain ⟨failure, ⟨space, after⟩, unplaced, written, result, wrote, left, undone⟩ :=
    (FreeSpace.place_of_cut sound (fresh.noFree sound) short small moves isFileOpened unlimited cut part
      region.sync).exists_error
  rw [place] at wrote
  refine ⟨failure, _, after, written, result, saveChunk_of_unplaced inRegion accepted unplaced, ?_, wrote,
    left, undone⟩
  rintro ⟨_, reaches⟩
  cases reaches with
  | save own' accepted' placed =>
    cases inRegion.symm.trans own'
    cases accepted.symm.trans accepted'
    cases unplaced.symm.trans placed

end

/-- The first save of a new file, on a disk that has become full. -/
theorem reopening_after_failed_append_new :
    let crowded : Surroundings := { Surroundings.initial with schedule :=
      { Schedule.calm with writing := [⟨.short 100, 1⟩, ⟨.refused .noSpace, 1⟩] } }
    ∃ region opened failure left after closed again reopened,
      load ⟨0, 0⟩ true newFile = .ok region opened ∧
      saveChunk ⟨0, 0⟩ ⟨#[97, 98, 99]⟩ 3 (region, opened.under crowded) =
        .error failure (left, after) ∧
      close (left, after.under Surroundings.initial) = .ok () (left, closed) ∧
      load ⟨0, 0⟩ true closed = .ok again reopened ∧
      outcome (loadChunk ⟨0, 0⟩) (again, reopened) = .ok none := by
  intro crowded
  obtain ⟨region, opened, ran, loaded, fresh⟩ :=
    blank_newFile.exists_load ⟨rfl, untroubled_initial⟩ ⟨0, 0⟩ true
  have inRegion : ChunkPos.regionOf ⟨0, 0⟩ = ⟨0, 0⟩ := by decide
  have encoded : encodeChunk ⟨#[97, 98, 99]⟩ 3 = .ok ⟨#[3, 97, 98, 99]⟩ := rfl
  have cut : (crowded.turns .writing).Cut 100 := ⟨by decide, _, _, _, rfl, rfl, by decide⟩
  obtain ⟨failure, left, after, _, _, failed, stopped, _⟩ :=
    fresh.save_of_cut loaded rfl rfl cut inRegion encoded (by decide) (by decide)
  have own : region.slot ⟨0, 0⟩ = .ok ⟨0, by decide⟩ := by
    rw [slot, loaded.position]
    rfl
  have absent : region.tables.extent? ⟨0, by decide⟩ = none :=
    Tables.extent?_eq_none_iff.2 (fresh.absent _)
  have untroubled : (opened.under Surroundings.initial).Untroubled :=
    ⟨loaded.prepared.continues.full, untroubled_initial⟩
  obtain ⟨_, _, loads, closed, closes, opens, resized, reloads⟩ := reopening_after_failed_append
    (.opened blank_newFile ran) crowded own encoded (FreeSpace.moves_of_absent absent) failed
    untroubled_initial true
  have resizes : crowded.Resizes := List.forall_mem_nil _
  obtain ⟨again, reopened, ranAgain⟩ := opens.2 (resized (.opened blank_newFile ran) resizes)
  refine ⟨region, opened, failure, left, after, closed, again, reopened, ran, failed, closes, ranAgain, ?_⟩
  have writes : EntryWrites (region, opened) (crowded, .save ⟨0, 0⟩ ⟨#[97, 98, 99]⟩ 3) := by
    rintro ⟨pending, _, _, reaches, _⟩
    exact stopped ⟨pending, reaches⟩
  have unwritten : ¬ Change.WritesEntry region (opened.under crowded) (.save ⟨0, 0⟩ ⟨#[97, 98, 99]⟩ 3) := by
    rintro ⟨pending, _, _, reaches, _⟩
    exact stopped ⟨pending, reaches⟩
  have sameChunks := (reloads again reopened ranAgain).2 (.opened blank_newFile ran) writes
  rw [sameChunks.loads, loads unwritten, outcome_loadChunk region untroubled, find, own]
  simp only [absent]

theorem Fresh.size_of_uncut [Codec] {position : RegionPos} {sync : Bool} {file opened : Device}
    {region : Region} (fresh : Fresh region opened) (loaded : Loaded position sync file region opened)
    (isFile : file.full = false) {around : Surroundings} (unlimited : around.ceiling = none) {count : Nat}
    (cut : (around.turns .writing).Cut count) {reason : Errno}
    (refused : (around.turns .resizing).settle.refusal = some reason) {chunk : ChunkPos}
    (own : chunk.regionOf = position) {payload data : Bytes} {tag : UInt8}
    (accepted : encodeChunk payload tag = .ok data)
    (small : sectorsOf (record data).size ≤ maxExtentSectors)
    (part : count < sectorsOf (record data).size * sectorSize) :
    ∃ failure left after,
      saveChunk chunk payload tag (region, opened.under around) = .error failure (left, after) ∧
      after.content.size = headerSize + count := by
  obtain ⟨failure, left, after, written, result, failed, _, wrote, ⟨_, leaves⟩, undone⟩ :=
    fresh.save_of_cut loaded isFile unlimited cut own accepted small part
  have stuck : (written.turns .resizing).settle.refusal = some reason := by
    rw [leaves.others .resizing nofun]
    exact refused
  have keeps : written.Keeps after :=
    (ends_of_eq_ok undone).1 (FreeSpace.rollBack_of_refused _ stuck)
  have same : (region.space.tail (sectorsOf (record data).size)).count.toNat =
      sectorsOf (record data).size := FreeSpace.toNat_toUInt32 small
  have positive := cut.1
  refine ⟨failure, left, after, failed, ?_⟩
  rw [keeps.content, wrote.content.size, Content.size_write, ByteArray.size_extract,
    Extent.size_padded (Nat.le_of_eq same.symm), Extent.size, same, Device.content_under, fresh.size,
    if_neg (by omega)]
  omega

/-- A record that is appended, with a refusal of the last sync: the save fails, and the chunk is loaded as
it was to be saved once the file is opened again. -/
theorem Compact.reload_of_unsynced [Codec] [LawfulCodec] {position : RegionPos} {region : Region}
    {file : Device} (compact : Compact position region file) (mirrored : Mirrored region file)
    (exact : Exact region file) (sync : region.sync = true) (noFree : region.space.byStart = [])
    {chunk : ChunkPos} {slot : Slot} (own : region.slot chunk = .ok slot) {payload data : Bytes}
    {tag : UInt8} (accepted : encodeChunk payload tag = .ok data)
    (small : sectorsOf (record data).size ≤ maxExtentSectors)
    (moves : ∀ place, region.tables.extent? slot = some place →
      place.count.toNat < sectorsOf (record data).size)
    (unlimited : file.around.ceiling = none)
    (writing : (file.turns .writing).next = (.undisturbed, [])) (resizes : file.around.Resizes)
    (synced : (file.turns .syncing).settle.refusal = none) {reason : Errno}
    (refused : (file.turns .syncing).settle.ahead.settle.refusal = some reason) {later : Surroundings}
    (calm : later.Untroubled) (again : Bool) :
    ∃ failure left after closed reloaded reopened,
      saveChunk chunk payload tag (region, file) = .error failure (left, after) ∧
      close (left, after.under later) = .ok () (left, closed) ∧
      load position again closed = .ok reloaded reopened ∧
      outcome (loadChunk chunk) (reloaded, reopened) = .ok (some payload) := by
  have intact := compact.intact
  have short : region.space.sectors.toNat ≤ maxSectorIndex := Nat.le_trans intact.short (by decide)
  have nonempty : 0 < (record data).size := by
    rw [size_record]
    omega
  have placing := FreeSpace.place_of_undisturbed intact.partitioned.sound noFree short nonempty small
    moves compact.isFile unlimited writing synced rfl
  rw [← sync] at placing
  obtain ⟨extent, ⟨next, placed⟩, ran, continues, writingPlaced, syncingPlaced⟩ := placing.exists_ok
  have reaches := Change.Reaches.save own accepted ran
  have first : (placed.turns .writing).next = (.undisturbed, []) := by
    rw [writingPlaced]
    rfl
  have entry := writeEntry_of_undisturbed (continues.full.trans compact.isFile)
    (continues.ceiling.trans unlimited) slot extent.toWord placed.around.timestamp first rfl
  obtain ⟨_, written, wrote, _, leaves⟩ := entry.exists_ok
  rw [← syncingPlaced, ← leaves.others .syncing nofun] at refused
  have ends : Ends (saveChunk chunk payload tag) (region, file) (fun _ _ => False) fun _ _ => True := by
    refine reaches.ends.2 ?_
    rw [Pending.write, wrote]
    exact syncChange_of_refused sync refused
  obtain ⟨failure, ⟨left, after⟩, failed, _⟩ := ends.exists_error
  have writes : ¬ Change.EntryFails region file (.save chunk payload tag) := by
    rintro ⟨other, reason, stopped, reachesOther, cut⟩
    cases reaches.unique reachesOther
    cases wrote.symm.trans cut
  have compactLeft : Compact position left after :=
    (ends_of_eq_error failed).1 (compact.change (.save chunk payload tag))
  have mirroredLeft : Mirrored left after := (ends_of_eq_error failed).1 (mirrored.change intact writes)
  have exactLeft := (ends_of_eq_error failed).1
    (exact.change intact compact.isFile resizes (.save chunk payload tag))
  obtain ⟨closed, closes, opens, same⟩ := compactLeft.recovery calm again
  obtain ⟨reloaded, reopened, ranAgain⟩ := opens.2 (by
    rw [show after.content.size = _ from exactLeft]
    exact Nat.mul_mod_left _ _)
  refine ⟨failure, left, after, closed, reloaded, reopened, failed, closes, ranAgain, ?_⟩
  have sameChunks := (same reloaded reopened ranAgain).2 (mirroredLeft.recovers _)
  have untroubled : (after.under later).Untroubled := ⟨compactLeft.isFile, calm⟩
  rw [sameChunks.loads, outcome_loadChunk left untroubled, Device.content_under]
  exact (intact.find_of_writesEntry failed (compact.fits _) ⟨_, _, _, reaches, wrote⟩).1

/-- Two failed saves that are not undone. The first record of a new file is cut, and its sectors cannot be
cut off again: the file cannot be opened any more. A chunk of three bytes moves to two appended sectors,
and the last sync fails: the chunk is loaded as it was to be saved. -/
theorem failed_append_not_undone :
    let stuck : Surroundings := { Surroundings.initial with schedule :=
      { Schedule.calm with
        writing := [⟨.short 100, 1⟩, ⟨.refused .noSpace, 1⟩], resizing := [⟨.refused ⟨5⟩, 1⟩] } }
    let unsynced : Surroundings := { Surroundings.initial with schedule :=
      { Schedule.calm with syncing := [⟨.undisturbed, 1⟩, ⟨.refused ⟨5⟩, 1⟩] } }
    (∃ region opened failure left after closed, load ⟨0, 0⟩ true newFile = .ok region opened ∧
      region.space.byStart = [] ∧
      saveChunk ⟨0, 0⟩ ⟨#[97, 98, 99]⟩ 3 (region, opened.under stuck) = .error failure (left, after) ∧
      after.content.size = 8292 ∧
      close (left, after.under Surroundings.initial) = .ok () (left, closed) ∧
      ¬ ∃ again reopened, load ⟨0, 0⟩ true closed = .ok again reopened) ∧
    ∃ region opened live now failure left after closed again reopened,
      load ⟨0, 0⟩ true newFile = .ok region opened ∧
      Change.apply (region, opened) (Surroundings.initial, .save ⟨0, 0⟩ ⟨#[97, 98, 99]⟩ 3) = (live, now) ∧
      live.space.byStart = [] ∧
      outcome (loadChunk ⟨0, 0⟩) (live, now.under Surroundings.initial) = .ok (some ⟨#[97, 98, 99]⟩) ∧
      saveChunk ⟨0, 0⟩ (Bytes.zeros 5000) 3 (live, now.under unsynced) = .error failure (left, after) ∧
      close (left, after.under Surroundings.initial) = .ok () (left, closed) ∧
      load ⟨0, 0⟩ true closed = .ok again reopened ∧
      outcome (loadChunk ⟨0, 0⟩) (again, reopened) = .ok (some (Bytes.zeros 5000)) := by
  intro stuck unsynced
  constructor
  · obtain ⟨region, opened, ran, loaded, fresh⟩ :=
      blank_newFile.exists_load ⟨rfl, untroubled_initial⟩ ⟨0, 0⟩ true
    have inRegion : ChunkPos.regionOf ⟨0, 0⟩ = ⟨0, 0⟩ := by decide
    have encoded : encodeChunk ⟨#[97, 98, 99]⟩ 3 = .ok ⟨#[3, 97, 98, 99]⟩ := rfl
    have cut : (stuck.turns .writing).Cut 100 := ⟨by decide, _, _, _, rfl, rfl, by decide⟩
    obtain ⟨failure, left, after, failed, size⟩ :=
      fresh.size_of_uncut loaded rfl rfl cut rfl inRegion encoded (by decide) (by decide)
    have reached : Reached ⟨0, 0⟩ (fun _ _ => True) (region, opened) := .opened blank_newFile ran
    have compact := (ends_of_eq_error failed).1
      ((reached.compact.under stuck).change (.save ⟨0, 0⟩ ⟨#[97, 98, 99]⟩ 3))
    obtain ⟨closed, closes, opens, _⟩ := compact.recovery untroubled_initial true
    refine ⟨region, opened, failure, left, after, closed, ran, fresh.noFree loaded.partitioned.sound, failed,
      size, closes, fun again => ?_⟩
    have whole := opens.1 again
    rw [size] at whole
    cases whole
  · obtain ⟨region, opened, saved, written, ran, made, reached, syncs, own, loads, appended⟩ :=
      exists_save_newFile
    have mirrored : Mirrored saved (written.under unsynced) := reached.mirrored.congr rfl
    have found : saved.tables.extent? ⟨0, by decide⟩ = some ⟨2, 1⟩ := appended.extents _
    have size : sectorsOf (record (Method.plain.tagged (Bytes.zeros 5000))).size = 2 := by
      rw [size_record, Method.size_tagged, Bytes.size_zeros]
      rfl
    have moves : ∀ place, saved.tables.extent? ⟨0, by decide⟩ = some place →
        place.count.toNat < sectorsOf (record (Method.plain.tagged (Bytes.zeros 5000))).size := by
      intro place same
      rw [size, ← Option.some.inj (found.symm.trans same)]
      decide
    obtain ⟨failure, left, after, closed, again, reopened, failed, closes, ranAgain, reloads⟩ :=
      (reached.compact.under unsynced).reload_of_unsynced mirrored appended.faithful.size
        syncs appended.noFree own (encodeChunk_plain (Bytes.zeros 5000)) (by rw [size]; decide) moves
        rfl rfl (List.forall_mem_nil _) rfl rfl untroubled_initial true
    exact ⟨region, opened, saved, written, failure, left, after, closed, again, reopened, ran, made,
      appended.noFree, loads, failed, closes, ranAgain, reloads⟩

end RegionStore.Region
