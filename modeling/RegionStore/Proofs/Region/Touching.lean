import RegionStore.Proofs.Disk.Log
import RegionStore.Proofs.Region.Lookup

/-!
Where a change of a region touches its file: in the sectors chosen for its record and in the two words of
its slot. This holds of every event that the change adds to the log, whether it succeeds or fails, and
also of cutting off again what was appended.
-/

set_option autoImplicit false

namespace RegionStore

open Disk

namespace FreeSpace

/-- In front of the end of the file, the event changes nothing but the sectors that a record of so many
sectors goes to. -/
def Touches (space : FreeSpace) (old : Option Extent) (count : Nat) (event : Event) : Prop :=
  ∃ extent next, count ≤ maxExtentSectors ∧ Target space old count extent next ∧
    event.Confined (space.sectors.toNat * sectorSize) extent.position (extent.position + extent.size)

theorem writeRecord_logs (limit : Nat) (extent : Extent) (record : Bytes) (sync : Bool) (file : Device)
    (fits : sectorsOf record.size ≤ extent.count.toNat) :
    Ends (writeRecord extent record sync) file
      (fun _ after => file.Logs
        (Event.Confined limit extent.position (extent.position + extent.size)) after)
      fun _ after => file.Logs
        (Event.Confined limit extent.position (extent.position + extent.size)) after := by
  have writes := Device.writeAt_logs limit extent.position (extent.padded record) file
  rw [Extent.size_padded fits] at writes
  simp only [writeRecord, ends_bind]
  refine writes.mono (fun _ written logs => ?_) fun _ _ => id
  split
  · have synced : Ends Device.sync written
        (fun _ next => written.Logs
          (Event.Confined limit extent.position (extent.position + extent.size)) next)
        fun _ next => written.Logs
          (Event.Confined limit extent.position (extent.position + extent.size)) next :=
      Device.sync_logs written fun _ => trivial
    exact synced.mono (fun _ _ => logs.trans) fun _ _ => logs.trans
  · exact logs

theorem rollBack_logs {kind : Event → Prop} (allocation : Allocation)
    (cuts : allocation.appended = true →
      ∀ refusal, kind (.resized (allocation.extent.first.toNat * sectorSize) refusal))
    (space : FreeSpace) (file : Device) :
    Ends (rollBack allocation) (space, file) (fun _ state => file.Logs kind state.2)
      fun _ _ => False := by
  unfold rollBack
  split
  · next appended =>
    simp only [ends_bind, ends_modify]
    refine (ends_device _ _ file _ _).2 ?_
    have cut := Device.resize_logs (allocation.extent.first.toNat * sectorSize) file (cuts appended)
    unfold Ends at cut ⊢
    dsimp only
    cases ran : Device.resize (allocation.extent.first.toNat * sectorSize) file with
    | ok result after =>
      rw [ran] at cut
      exact cut
    | error failure after =>
      rw [ran] at cut
      exact cut.trans ((Device.silent_notify (.tailNotCut failure) after).logs _)
  · rw [ends_modify]
    exact Device.Logs.refl _ file

variable {space : FreeSpace}

theorem placeAnew_logs (sound : space.Sound) (file : Device) {record : Bytes} {old : Option Extent}
    (small : sectorsOf record.size ≤ maxExtentSectors)
    (moves : ∀ place, old = some place → place.count.toNat < sectorsOf record.size) (sync : Bool) :
    Ends (placeAnew record (sectorsOf record.size).toUInt32 sync) (space, file)
      (fun _ state => file.Logs (Touches space old (sectorsOf record.size)) state.2)
      fun _ state => file.Logs (Touches space old (sectorsOf record.size)) state.2 := by
  have word := toNat_toUInt32 small
  have chosen {extent : Extent} {appended : Bool} {next : FreeSpace}
      (found : space.allocate? (sectorsOf record.size).toUInt32 = some (⟨extent, appended⟩, next))
      (target : Target space old (sectorsOf record.size) extent next)
      (behind : appended = true → extent.first = space.sectors) :
      Ends (placeAnew record (sectorsOf record.size).toUInt32 sync) (space, file)
        (fun _ state => file.Logs (Touches space old (sectorsOf record.size)) state.2)
        fun _ state => file.Logs (Touches space old (sectorsOf record.size)) state.2 := by
    have touches (event : Event) (confined : event.Confined (space.sectors.toNat * sectorSize)
        extent.position (extent.position + extent.size)) :
        Touches space old (sectorsOf record.size) event := ⟨extent, next, small, target, confined⟩
    rw [ends_placeAnew found]
    refine Ends.mono (writeRecord_logs (space.sectors.toNat * sectorSize) extent record sync file
      target.fits) ?_ ?_
    · exact fun _ after logs => logs.mono touches
    · intro _ after logs
      refine Ends.mono (rollBack_logs ⟨extent, appended⟩ (fun isAppended refusal => ?_) next after)
        (fun _ _ => (logs.mono touches).trans) fun _ _ => False.elim
      apply touches
      cases refusal with
      | none =>
        simp only [behind isAppended]
        exact Nat.le_refl _
      | some reason => trivial
  rcases sound.allocate?_cases (sectorsOf record.size).toUInt32 with
    ⟨extent, next, found, size, carves⟩ | ⟨extent, next, found, size, appends⟩ | ⟨found, _, _⟩
  · exact chosen found (.carved moves ((congrArg UInt32.toNat size).trans word) carves) nofun
  · exact chosen found (.appended moves ((congrArg UInt32.toNat size).trans word) appends)
      fun _ => appends.first
  · unfold placeAnew
    simp only [ends_bind, ends_get, found, ends_throw]
    exact Device.Logs.refl _ file

theorem place_logs (sound : space.Sound) (file : Device) (record : Bytes) (old : Option Extent)
    (sync : Bool) :
    Ends (place record old sync) (space, file)
      (fun _ state => file.Logs (Touches space old (sectorsOf record.size)) state.2)
      fun _ state => file.Logs (Touches space old (sectorsOf record.size)) state.2 := by
  by_cases large : maxExtentSectors < sectorsOf record.size
  · unfold place
    simp only [if_pos large, ends_bind, ends_throw]
    exact Device.Logs.refl _ file
  · have small := Nat.le_of_not_lt large
    by_cases moves : ∀ place, old = some place → place.count.toNat < sectorsOf record.size
    · rw [ends_place_of_moving small moves]
      exact placeAnew_logs sound file small moves sync
    · cases old with
      | none => exact absurd (moves_of_absent rfl) moves
      | some extent =>
        have fits : sectorsOf record.size ≤ extent.count.toNat := by
          apply Nat.le_of_not_lt
          exact fun short => moves fun place same => Option.some.inj same ▸ short
        have touches (event : Event) (confined : event.Confined (space.sectors.toNat * sectorSize)
            extent.position (extent.position + extent.size)) :
            Touches space (some extent) (sectorsOf record.size) event :=
          ⟨extent, space, small, .stays rfl fits rfl, confined⟩
        rw [ends_place_of_staying small fits]
        refine Ends.mono (writeRecord_logs (space.sectors.toNat * sectorSize) extent record sync file
          fits) ?_ ?_
        · exact fun _ _ logs => logs.mono touches
        · exact fun _ _ logs => logs.mono touches

end FreeSpace

namespace Region

def Change.chunk? : Change → Option ChunkPos
  | .save chunk _ _ | .delete chunk => some chunk
  | .flush => none

inductive Change.Touches (region : Region) : Change → Event → Prop where
  | record {chunk : ChunkPos} {payload : Bytes} {tag : UInt8} {slot : Slot} {data : Bytes} {event : Event}
    (own : region.slot chunk = .ok slot)
    (touches : region.space.Touches (region.tables.extent? slot) (sectorsOf (record data).size) event) :
    Touches region (.save chunk payload tag) event
  | timestamp {change : Change} {chunk : ChunkPos} {slot : Slot} {event : Event}
    (about : change.chunk? = some chunk) (own : region.slot chunk = .ok slot)
    (confined : event.Confined (region.space.sectors.toNat * sectorSize) (Tables.timestampPosition slot)
      (Tables.timestampPosition slot + 4)) : Touches region change event
  | offset {change : Change} {chunk : ChunkPos} {slot : Slot} {event : Event}
    (about : change.chunk? = some chunk) (own : region.slot chunk = .ok slot)
    (confined : event.Confined (region.space.sectors.toNat * sectorSize) (Tables.offsetPosition slot)
      (Tables.offsetPosition slot + 4)) : Touches region change event
  | synced {change : Change} (refusal : Option Errno) : Touches region change (.synced refusal)

section
variable {region : Region} {file : Device}

/-- A change that comes to the words of its slot has touched only the sectors of its record. -/
theorem Change.Reaches.logs [Codec] {change : Change} {pending : Pending}
    (reaches : change.Reaches region file pending) (sound : region.space.Sound) :
    file.Logs (change.Touches region) pending.file ∧
      ∃ chunk, change.chunk? = some chunk ∧ region.slot chunk = .ok pending.slot := by
  cases reaches with
  | @save chunk _ _ slot data _ _ placed own accepted ran =>
    have logs : file.Logs _ placed := (ends_of_eq_ok ran).1 (FreeSpace.place_logs sound file _ _ _)
    exact ⟨logs.mono fun _ touches => .record own touches, chunk, rfl, own⟩
  | @delete chunk slot extent own present => exact ⟨Device.Logs.refl _ file, chunk, rfl, own⟩

theorem writeEntry_logs {change : Change} {chunk : ChunkPos} {slot : Slot}
    (about : change.chunk? = some chunk) (own : region.slot chunk = .ok slot) (offset : UInt32)
    (timestamp : Int32) (file : Device) :
    Ends (writeEntry slot offset timestamp) file
      (fun _ after => file.Logs (change.Touches region) after)
      fun _ after => file.Logs (change.Touches region) after := by
  have first := Device.writeAt_logs (region.space.sectors.toNat * sectorSize)
    (Tables.timestampPosition slot) (Bytes.ofWord timestamp.toUInt32) file
  rw [Bytes.size_ofWord] at first
  simp only [writeEntry, ends_bind]
  refine Ends.mono first (fun _ between logs => ?_) fun _ _ logs =>
    logs.mono fun _ => .timestamp about own
  have second := Device.writeAt_logs (region.space.sectors.toNat * sectorSize)
    (Tables.offsetPosition slot) (Bytes.ofWord offset) between
  rw [Bytes.size_ofWord] at second
  have earlier : file.Logs (change.Touches region) between := logs.mono fun _ => .timestamp about own
  exact second.mono (fun _ _ later => earlier.trans (later.mono fun _ => .offset about own))
    fun _ _ later => earlier.trans (later.mono fun _ => .offset about own)

theorem syncChange_logs {kind : Event → Prop} (live : Region) (file : Device)
    (holds : ∀ refusal, kind (.synced refusal)) :
    Ends syncChange (live, file) (fun _ state => file.Logs kind state.2)
      fun _ state => file.Logs kind state.2 := by
  simp only [syncChange, ends_bind, ends_get]
  split
  · rw [ends_device]
    exact Device.sync_logs file holds
  · exact Device.Logs.refl _ file

theorem Change.run_logs [Codec] (sound : region.space.Sound) (file : Device) (change : Change) :
    Ends change.run (region, file) (fun _ state => file.Logs (change.Touches region) state.2)
      fun _ state => file.Logs (change.Touches region) state.2 := by
  have refused := Device.Logs.refl (change.Touches region) file
  refine Change.ends_of refused (fun _ => refused) ?_ ?_ ?_
  · exact Device.sync_logs file fun refusal => .synced refusal
  · rintro chunk payload tag slot data failure space after rfl own accepted ran
    have logs : file.Logs _ after := (ends_of_eq_error ran).1 (FreeSpace.place_logs sound file _ _ _)
    exact logs.mono fun _ touches => .record own touches
  · intro pending reaches
    obtain ⟨earlier, chunk, about, own⟩ := reaches.logs sound
    have words := writeEntry_logs about own pending.offset pending.timestamp pending.file
    rw [reaches.ends]
    cases ran : pending.write with
    | ok _ written =>
      have logs := earlier.trans ((ends_of_eq_ok ran).1 words)
      exact Ends.mono (syncChange_logs pending.changed written fun refusal => .synced refusal)
        (fun _ _ => logs.trans) fun _ _ => logs.trans
    | error failure after => exact earlier.trans ((ends_of_eq_error ran).1 words)

end

end Region
end RegionStore
