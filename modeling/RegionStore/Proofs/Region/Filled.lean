import RegionStore.Proofs.Disk.Turns
import RegionStore.Proofs.Region.Faithful

/-!
Regions without free sectors, as the one of a new file. A record that needs sectors of its own is appended
there, so it is known where it goes, and how its save ends if the turns of the calls are known.
-/

set_option autoImplicit false

namespace RegionStore

open Disk

namespace FreeSpace

/-- The sectors that a record gets where nothing is free. -/
def tail (space : FreeSpace) (count : Nat) : Extent := ⟨space.sectors, count.toUInt32⟩

def grown (space : FreeSpace) (count : Nat) : FreeSpace :=
  { space with sectors := space.sectors + count.toUInt32 }

variable {space : FreeSpace}

theorem packable_tail (short : space.sectors.toNat ≤ maxSectorIndex) {count : Nat}
    (small : count ≤ maxExtentSectors) : (space.tail count).Packable :=
  ⟨short, Nat.le_trans (Nat.le_of_eq (toNat_toUInt32 small)) small⟩

theorem byStart_grown (count : Nat) : (space.grown count).byStart = space.byStart := rfl

theorem sectors_grown (short : space.sectors.toNat ≤ maxSectorIndex) {count : Nat}
    (small : count ≤ maxExtentSectors) :
    (space.grown count).sectors.toNat = (space.tail count).behind := by
  have word := toNat_toUInt32 small
  rw [maxSectorIndex] at short
  rw [maxExtentSectors] at small
  rw [grown, tail, Extent.behind_mk, UInt32.toNat_add, word]
  exact Nat.mod_eq_of_lt (by omega)

theorem Target.eq_of_noFree {next : FreeSpace} {old : Option Extent} {count : Nat} {extent : Extent}
    (target : Target space old count extent next) (noFree : space.byStart = [])
    (moves : ∀ place, old = some place → place.count.toNat < count) :
    extent = space.tail count ∧ next = space.grown count := by
  cases target with
  | stays same fits kept => exact absurd fits (Nat.not_le_of_lt (moves extent same))
  | carved moves size carves =>
    obtain ⟨_, member, _⟩ := carves.fits
    rw [noFree] at member
    cases member
  | appended moves size appends =>
    obtain ⟨first, last⟩ := extent
    obtain rfl : first = space.sectors := appends.first
    obtain rfl : last = count.toUInt32 := by
      rw [← size]
      exact (UInt32.ofNat_toNat).symm
    exact ⟨rfl, appends.next⟩

theorem ends_place_of_noFree (sound : space.Sound) (noFree : space.byStart = [])
    (short : space.sectors.toNat ≤ maxSectorIndex) {record : Bytes} {old : Option Extent} {sync : Bool}
    {file : Device} {done : Extent → FreeSpace × Device → Prop}
    {failed : Failure → FreeSpace × Device → Prop}
    (small : sectorsOf record.size ≤ maxExtentSectors)
    (moves : ∀ place, old = some place → place.count.toNat < sectorsOf record.size) :
    Ends (place record old sync) (space, file) done failed ↔
      Ends (writeRecord (space.tail (sectorsOf record.size)) record sync) file
        (fun _ after => done (space.tail (sectorsOf record.size))
          (space.grown (sectorsOf record.size), after))
        fun failure after => Ends (rollBack ⟨space.tail (sectorsOf record.size), true⟩)
          (space.grown (sectorsOf record.size), after) (fun _ state => failed failure state) failed := by
  have found (count : Nat) : space.allocate? count.toUInt32 =
      some (⟨space.tail count, true⟩, space.grown count) :=
    sound.allocate?_of_noRoom (by rw [noFree]; exact List.forall_mem_nil _) short
  rw [ends_place_of_moving small moves, ends_placeAnew (found _)]

section
variable {file : Device} (isFile : file.full = false) (unlimited : file.around.ceiling = none)
  {extent : Extent} {record : Bytes} (fits : sectorsOf record.size ≤ extent.count.toNat)
include isFile unlimited fits

theorem writeRecord_of_cut {count : Nat} (cut : (file.turns .writing).Cut count)
    (short : count < extent.size) (sync : Bool) :
    Ends (writeRecord extent record sync) file (fun _ _ => False) fun _ after =>
      file.Wrote extent.position ((extent.padded record).extract 0 count) after ∧
        ∃ ahead, file.Leaves .writing ahead after := by
  unfold writeRecord
  rw [ends_bind]
  refine Ends.mono ?_ (fun _ _ => False.elim) fun _ _ => id
  apply Device.writeAt_of_cut isFile unlimited (extent.bounded_padded fits) cut
  exact (Extent.size_padded fits).symm ▸ short

theorem writeRecord_of_undisturbed (nonempty : 0 < extent.size) {writing syncing : Turns}
    (first : (file.turns .writing).next = (.undisturbed, writing))
    (accepted : (file.turns .syncing).settle.refusal = none)
    (second : (file.turns .syncing).settle.ahead = syncing) :
    Ends (writeRecord extent record true) file
      (fun _ after => file.Wrote extent.position (extent.padded record) after ∧
        after.turns .writing = writing ∧ after.turns .syncing = syncing)
      fun _ _ => False := by
  unfold writeRecord
  rw [ends_bind, if_pos rfl]
  refine Ends.mono (Device.writeAt_of_undisturbed isFile unlimited (extent.bounded_padded fits)
    first (by rwa [Extent.size_padded fits])) ?_ fun _ _ => id
  rintro _ written ⟨wrote, left, _⟩
  rw [← left.others .syncing nofun] at accepted second
  refine Ends.mono (Device.sync_of_settled (wrote.continues.full.trans isFile) accepted second) ?_
    fun _ _ => id
  rintro _ after ⟨keeps, later⟩
  refine ⟨⟨wrote.continues.trans keeps.continues, keeps.content ▸ wrote.content⟩, ?_, later.own⟩
  rw [later.others .writing nofun, left.own]

end

theorem rollBack_of_refused (extent : Extent) {file : Device} {reason : Errno}
    (refused : (file.turns .resizing).settle.refusal = some reason) :
    Ends (rollBack ⟨extent, true⟩) (space, file) (fun _ state => file.Keeps state.2)
      fun _ _ => False := by
  obtain ⟨failure, after, ran, keeps⟩ :=
    (Device.resize_of_refused (extent.first.toNat * sectorSize) refused).exists_error
  have noted := Device.keeps_notify (.tailNotCut failure) after
  unfold rollBack
  simp only [if_true, ends_bind, ends_modify]
  refine (ends_device _ _ file _ _).2 ?_
  unfold Ends
  dsimp only
  rw [ran]
  exact ⟨keeps.continues.trans noted.continues, noted.content.trans keeps.content⟩

theorem place_of_cut (sound : space.Sound) (noFree : space.byStart = [])
    (short : space.sectors.toNat ≤ maxSectorIndex) {record : Bytes} {old : Option Extent}
    {file : Device} (small : sectorsOf record.size ≤ maxExtentSectors)
    (moves : ∀ place, old = some place → place.count.toNat < sectorsOf record.size)
    (isFile : file.full = false) (unlimited : file.around.ceiling = none) {count : Nat}
    (cut : (file.turns .writing).Cut count) (part : count < sectorsOf record.size * sectorSize)
    (sync : Bool) :
    Ends (place record old sync) (space, file) (fun _ _ => False) fun _ state => ∃ written result,
      file.Wrote (space.tail (sectorsOf record.size)).position
        (((space.tail (sectorsOf record.size)).padded record).extract 0 count) written ∧
      (∃ ahead, file.Leaves .writing ahead written) ∧
      rollBack ⟨space.tail (sectorsOf record.size), true⟩
        (space.grown (sectorsOf record.size), written) = .ok result state := by
  have same : (space.tail (sectorsOf record.size)).count.toNat = sectorsOf record.size :=
    toNat_toUInt32 small
  rw [← same, ← Extent.size] at part
  rw [ends_place_of_noFree sound noFree short small moves]
  refine (writeRecord_of_cut isFile unlimited (Nat.le_of_eq same.symm) cut part sync).mono
    (fun _ _ => False.elim) ?_
  rintro _ written ⟨wrote, left⟩
  obtain ⟨result, state, ran, _⟩ := (rollBack_ends _ _ written).exists_ok
  rw [ends_of_eq_ok ran]
  exact ⟨written, result, wrote, left, ran⟩

theorem place_of_undisturbed (sound : space.Sound) (noFree : space.byStart = [])
    (short : space.sectors.toNat ≤ maxSectorIndex) {record : Bytes} {old : Option Extent}
    {file : Device} (nonempty : 0 < record.size) (small : sectorsOf record.size ≤ maxExtentSectors)
    (moves : ∀ place, old = some place → place.count.toNat < sectorsOf record.size)
    (isFile : file.full = false) (unlimited : file.around.ceiling = none) {writing syncing : Turns}
    (first : (file.turns .writing).next = (.undisturbed, writing))
    (accepted : (file.turns .syncing).settle.refusal = none)
    (second : (file.turns .syncing).settle.ahead = syncing) :
    Ends (place record old true) (space, file)
      (fun _ state => file.Continues state.2 ∧ state.2.turns .writing = writing ∧
        state.2.turns .syncing = syncing) fun _ _ => False := by
  have same : (space.tail (sectorsOf record.size)).count.toNat = sectorsOf record.size :=
    toNat_toUInt32 small
  have positive : 0 < (space.tail (sectorsOf record.size)).size := by
    rw [Extent.size, same]
    exact Nat.mul_pos (sectorsOf_pos nonempty) (by decide)
  rw [ends_place_of_noFree sound noFree short small moves]
  refine (writeRecord_of_undisturbed isFile unlimited (Nat.le_of_eq same.symm) positive first accepted
    second).mono ?_ fun _ _ => False.elim
  rintro _ after ⟨wrote, turns⟩
  exact ⟨wrote.continues, turns⟩

end FreeSpace

namespace Region

theorem syncChange_of_refused {region : Region} {file : Device} (sync : region.sync = true)
    {reason : Errno} (refused : (file.turns .syncing).settle.refusal = some reason) :
    Ends syncChange (region, file) (fun _ _ => False) fun _ _ => True := by
  unfold syncChange
  simp only [ends_bind, ends_get, sync, if_true, ends_device]
  exact (Device.sync_of_refused refused).mono (fun _ _ => id) fun _ _ _ => trivial

section
variable {file : Device} (isFile : file.full = false) (unlimited : file.around.ceiling = none)
  (slot : Slot) (offset : UInt32) (timestamp : Int32)
include isFile unlimited

theorem writeEntry_of_undisturbed {middle ahead : Turns}
    (first : (file.turns .writing).next = (.undisturbed, middle))
    (second : middle.next = (.undisturbed, ahead)) :
    Ends (writeEntry slot offset timestamp) file
      (fun _ after => EntryWritten slot offset timestamp file after ∧ file.Leaves .writing ahead after)
      fun _ _ => False := by
  unfold writeEntry
  rw [ends_bind]
  have bounded := timestampPosition_within slot timestamp.toUInt32
  refine Ends.mono (Device.writeAt_of_undisturbed isFile unlimited (Nat.le_trans bounded (by decide))
    first (Bytes.ofWord_nonempty _)) ?_ fun _ _ => id
  rintro _ between ⟨whole, left, _⟩
  rw [← left.own] at second
  refine Ends.mono (Device.writeAt_of_undisturbed (whole.continues.full.trans isFile)
    (whole.continues.ceiling.trans unlimited) (Nat.le_trans (offsetPosition_within slot offset) (by decide))
    second (Bytes.ofWord_nonempty _)) ?_ fun _ _ => id
  rintro _ after ⟨wrote, later, _⟩
  exact ⟨⟨between, whole, wrote⟩, left.trans later⟩

/-- The words of a slot of which the timestamp is written and so many bytes of the offset. -/
theorem writeEntry_of_cut {count : Nat} {middle : Turns}
    (first : (file.turns .writing).next = (.undisturbed, middle)) (second : middle.Cut count)
    (short : count < 4) :
    Ends (writeEntry slot offset timestamp) file (fun _ _ => False) fun _ after =>
      ∃ between, file.Wrote (Tables.timestampPosition slot) (Bytes.ofWord timestamp.toUInt32) between ∧
        between.Wrote (Tables.offsetPosition slot) ((Bytes.ofWord offset).extract 0 count) after := by
  unfold writeEntry
  rw [ends_bind]
  have bounded := timestampPosition_within slot timestamp.toUInt32
  refine Ends.mono (Device.writeAt_of_undisturbed isFile unlimited (Nat.le_trans bounded (by decide))
    first (Bytes.ofWord_nonempty _)) ?_ fun _ _ => False.elim
  rintro _ between ⟨whole, left, _⟩
  rw [← left.own] at second
  refine Ends.mono (Device.writeAt_of_cut (whole.continues.full.trans isFile)
    (whole.continues.ceiling.trans unlimited) (Nat.le_trans (offsetPosition_within slot offset) (by decide))
    second short) (fun _ _ => id) ?_
  exact fun _ after ⟨wrote, _⟩ => ⟨between, whole, wrote⟩

end

structure Appended (region : Region) (slot : Slot) (data : Bytes) (file : Device) (extent : Extent)
    (saved : Region) (after : Device) : Prop where
  continues : file.Continues after
  faithful : Faithful saved after
  position : saved.position = region.position
  sync : saved.sync = region.sync
  noFree : saved.space.byStart = []
  sectors : saved.space.sectors.toNat = extent.behind
  extents : ∀ other, saved.tables.extent? other =
    if other = slot then some extent else region.tables.extent? other
  timestamp : saved.tables.timestamps.get slot = file.around.timestamp
  onDisk : ∀ other, (stored after.content).extent? other =
    if other = slot then some extent else (stored file.content).extent? other
  own : after.content.read extent.position extent.size = extent.padded (record data)

theorem Faithful.exists_append [Codec] {region : Region} {file : Device} (faithful : Faithful region file)
    (untroubled : file.Untroubled) (noFree : region.space.byStart = [])
    (short : region.space.sectors.toNat ≤ maxSectorIndex) {chunk : ChunkPos} {slot : Slot}
    (own : region.slot chunk = .ok slot) (absent : region.tables.extent? slot = none)
    {payload data : Bytes} {tag : UInt8} (accepted : encodeChunk payload tag = .ok data)
    (small : sectorsOf (record data).size ≤ maxExtentSectors) :
    ∃ saved after, saveChunk chunk payload tag (region, file) = .ok () (saved, after) ∧
      Appended region slot data file (region.space.tail (sectorsOf (record data).size)) saved after := by
  obtain ⟨_, ⟨saved, after⟩, ran, appended⟩ : ∃ result state,
      saveChunk chunk payload tag (region, file) = .ok result state ∧
      ∃ other encoded, region.slot chunk = .ok other ∧ encodeChunk payload tag = .ok encoded ∧
        Saved region other encoded file state.1 state.2 := by
    apply Ends.exists_ok
    refine Ends.mono (saveChunk_ends_untroubled faithful.partitioned.sound untroubled _ _ _)
      (fun _ _ => id) ?_
    rintro failure _ ⟨_, foreign | ⟨other, _, unknown | ⟨encoded, isData, rejected⟩⟩⟩
    · cases own.symm.trans foreign
    · cases accepted.symm.trans unknown
    · cases accepted.symm.trans isData
      cases rejected with
      | large tooLarge => exact absurd small (Nat.not_le_of_lt tooLarge)
      | full _ _ beyond _ => exact absurd short (Nat.not_le_of_lt beyond)
  refine ⟨saved, after, ran, ?_⟩
  obtain ⟨other, encoded, isSlot, isData, ends⟩ := appended
  cases own.symm.trans isSlot
  cases accepted.symm.trans isData
  obtain ⟨extent, next, written, phases, keeps, rfl⟩ := ends.phases
  obtain ⟨placed, wrote, _⟩ := phases.phases
  have moves : ∀ place, region.tables.extent? slot = some place →
      place.count.toNat < sectorsOf (record data).size := by
    intro place found
    rw [absent] at found
    cases found
  obtain ⟨rfl, rfl⟩ := wrote.target.eq_of_noFree noFree moves
  have packable := FreeSpace.packable_tail short small
  have effect := phases.effect faithful packable
  have inside := (faithful.intact.target_inside wrote.target wrote.small).1
  refine ⟨effect.continues.trans keeps.continues, effect.faithful.congr keeps.content, rfl, rfl, ?_, ?_,
    ?_, ?_, ?_, ?_⟩
  · unfold moved
    rw [absent]
    dsimp only
    rw [FreeSpace.byStart_grown, noFree]
  · rw [sectors_moved, FreeSpace.sectors_grown short small]
  · intro other
    rw [moved, Tables.extent?_set_toWord _ _ _ packable inside.nonempty]
  · rw [moved, Tables.timestamps_set, if_pos rfl]
  · intro other
    rw [keeps.content, effect.stored, Tables.extent?_set_toWord _ _ _ packable inside.nonempty]
  · rw [keeps.content, effect.own]

end Region
end RegionStore
