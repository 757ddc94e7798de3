import RegionStore.Proofs.Region.Phases

/-!
The order in which a file is written, over every run of a region that was opened on a new file. The words
of a slot come after the record they stand for, and the old place of a record is neither written to nor
given away while the offset on disk may still point to it.
-/

set_option autoImplicit false

namespace RegionStore.Region

open Disk

/-- The event has put down a byte of the words of a slot. -/
def EntersWords (slot : Slot) (event : Event) : Prop :=
  event.Enters (Tables.timestampPosition slot) (Tables.timestampPosition slot + 4) ∨
    event.Enters (Tables.offsetPosition slot) (Tables.offsetPosition slot + 4)

section
variable [Codec]

/-- The events of a change keep to the order. The words of a save come after its record, the offset comes
after the timestamp, and the old place of the chunk is left alone unless the record stays there. -/
structure Ordered (region : Region) (start : Content) (slot : Slot) (change : Change)
    (events : List Event) : Prop where
  record : ∀ chunk payload tag, change = .save chunk payload tag →
    OnlyAfter (RecordLaid region start slot payload tag) (EntersWords slot) events
  timestamp : OnlyAfter
    (fun part => Covers part (Tables.timestampPosition slot) (Tables.timestampPosition slot + 4))
    (Event.Enters (Tables.offsetPosition slot) (Tables.offsetPosition slot + 4)) events
  old : ∀ place, region.tables.extent? slot = some place → ¬ change.Stays region slot place →
    ∀ event ∈ events, event.Leaves place.position (place.position + place.size)

/-- The region and its file after changes none of which has written the whole offset of the slot. -/
inductive Unreplaced (slot : Slot) (start : Region × Device) : Region × Device → Prop where
  | start : Unreplaced slot start start
  | changed {state : Region × Device} {step : Surroundings × Change} {events : List Event}
    (before : Unreplaced slot start state)
    (log : (Change.apply state step).2.around.events = events ++ step.1.events)
    (partly : ¬ Covers events (Tables.offsetPosition slot) (Tables.offsetPosition slot + 4)) :
    Unreplaced slot start (Change.apply state step)

section
variable {limit : Nat} {region : Region} {file : Device} {change : Change} {slot : Slot}

omit [Codec] in
theorem not_entersWords_of_behind {event : Event}
    (behind : ∀ start stop, stop ≤ headerSize → ¬ event.Enters start stop) : ¬ EntersWords slot event := by
  rintro (timestamp | offset)
  · exact behind _ _ (timestampPosition_facts slot).2 timestamp
  · exact behind _ _ (offsetPosition_facts slot).2 offset

omit [Codec] in
theorem not_enters_of_synced {event : Event} (synced : ∃ refusal, event = .synced refusal)
    (start stop : Nat) : ¬ event.Enters start stop := by
  obtain ⟨refusal, rfl⟩ := synced
  rintro ⟨_, _, _, impossible⟩
  exact impossible

theorem Intact.places_behind (intact : Intact limit region file) {event : Event}
    (places : change.Places region slot event) (start stop : Nat) (inHeader : stop ≤ headerSize) :
    ¬ event.Enters start stop := by
  obtain ⟨_, _, _, _, extent, next, _, _, _, small, target, confined⟩ := places
  exact confined.not_enters
    (.inl (Nat.le_trans inHeader (intact.target_inside target small).1.position_ge))

theorem Intact.places_leaves (intact : Intact limit region file) {event : Event}
    (places : change.Places region slot event) {place : Extent}
    (found : region.tables.extent? slot = some place) (moves : ¬ change.Stays region slot place) :
    event.Leaves place.position (place.position + place.size) := by
  obtain ⟨chunk, payload, tag, data, extent, next, same, own, accepted, small, target, confined⟩ := places
  have different : place ≠ extent := by
    rintro rfl
    exact moves ⟨chunk, payload, tag, data, same, own, accepted, target.fits⟩
  have inside := intact.partitioned.inside slot place found
  exact confined.leaves inside.end_le ((intact.target_apart target small found (.inr different)).bytes
    inside.nonempty (intact.target_inside target small).1.nonempty)

variable {written : Nat} {placing words syncs : List Event}

theorem Phases.ordered (intact : Intact limit region file)
    (phases : Phases region file.content slot change written placing words syncs) :
    Ordered region file.content slot change (syncs ++ (words ++ placing)) := by
  have behind (event : Event) (member : event ∈ placing) :=
    intact.places_behind (phases.places event member)
  have synced (event : Event) (member : event ∈ syncs) :=
    not_enters_of_synced (phases.synced event member)
  refine ⟨fun chunk payload tag same => ?_, ?_, fun place found moves event member => ?_⟩
  · refine OnlyAfter.append (OnlyAfter.append ?_ ?_) ?_
    · exact .of_none fun event member => not_entersWords_of_behind (behind event member)
    · exact (phases.laid chunk payload tag same).mono (fun _ => id) fun _ _ _ => trivial
    · exact .of_none fun event member =>
        not_entersWords_of_behind fun start stop _ => synced event member start stop
  · refine OnlyAfter.append (OnlyAfter.append ?_ ?_) ?_
    · exact .of_none fun event member => behind event member _ _ (offsetPosition_facts slot).2
    · exact phases.writes.timestamp_first.mono
        (fun part covers => covers.mono (List.subset_append_left part placing)) fun _ _ => id
    · exact .of_none fun event member => synced event member _ _
  · rcases List.mem_append.1 member with sync | earlier
    · obtain ⟨refusal, rfl⟩ := phases.synced event sync
      trivial
    · rcases List.mem_append.1 earlier with word | placed
      · exact phases.writes.leaves phases.short
          (intact.partitioned.inside slot place found).position_ge word
      · exact intact.places_leaves (phases.places event placed) found moves

/-- The offset is covered exactly by a write that gets through; any other one leaves out its last byte. -/
theorem Phases.covers_iff (intact : Intact limit region file)
    (phases : Phases region file.content slot change written placing words syncs) :
    Covers (syncs ++ (words ++ placing)) (Tables.offsetPosition slot) (Tables.offsetPosition slot + 4) ↔
      ¬ written < 4 := by
  constructor
  · intro covers short
    obtain ⟨event, member, writes⟩ := covers (Tables.offsetPosition slot + 3) (by omega) (by omega)
    have enters : event.Enters (Tables.offsetPosition slot) (Tables.offsetPosition slot + 4) :=
      ⟨_, by omega, by omega, writes⟩
    rcases List.mem_append.1 member with sync | earlier
    · exact not_enters_of_synced (phases.synced event sync) _ _ enters
    · rcases List.mem_append.1 earlier with word | placed
      · have within := phases.writes.offset_lt word writes (by omega)
        omega
      · exact intact.places_behind (phases.places event placed) _ _ (offsetPosition_facts slot).2 enters
  · intro whole
    obtain rfl : written = 4 := by
      have short := phases.short
      omega
    obtain ⟨first, second, rfl, _, fills, _⟩ := phases.writes
    apply fills.covers.mono
    intro event member
    exact List.mem_append_right _ (List.mem_append_left _ (List.mem_append_left _ member))

end

section
variable {position : RegionPos} {region : Region} {file : Device} (compact : Compact position region file)
  (around : Surroundings) {change : Change} {slot : Slot}
include compact

theorem Compact.phased {chunk : ChunkPos} (about : change.chunk? = some chunk)
    (own : region.slot chunk = .ok slot) :
    Phased region (file.under around) slot change (Change.apply (region, file) (around, change)) :=
  Ends.final (fun state => Phased region (file.under around) slot change state)
    ((compact.under around).intact.phased about own)

/-- A slot keeps its extent in a change that does not write its whole offset. -/
theorem Compact.extent?_of_partly {events : List Event}
    (log : (Change.apply (region, file) (around, change)).2.around.events = events ++ around.events)
    (partly : ¬ Covers events (Tables.offsetPosition slot) (Tables.offsetPosition slot + 4)) :
    (Change.apply (region, file) (around, change)).1.tables.extent? slot =
      region.tables.extent? slot := by
  have intact := (compact.under around).intact
  by_cases elsewhere : change.Elsewhere region slot
  · exact (Ends.final (fun state : Region × Device => state.1.position = region.position ∧
      state.1.tables.extent? slot = region.tables.extent? slot ∧
      state.1.tables.timestamp? slot = region.tables.timestamp? slot)
      (intact.tables_elsewhere elsewhere)).2.1
  · simp only [Change.Elsewhere, not_forall, not_not] at elsewhere
    obtain ⟨chunk, about, own⟩ := elsewhere
    obtain ⟨written, placing, words, syncs, adds, phases, tables, _⟩ := compact.phased around about own
    obtain rfl : events = syncs ++ (words ++ placing) :=
      List.append_cancel_right (log.symm.trans adds.log)
    rw [tables (Decidable.not_not.1 fun whole => partly ((phases.covers_iff intact).2 whole))]

theorem Compact.leaves_old {place : Extent} (found : region.tables.extent? slot = some place)
    (moves : ¬ change.Stays region slot place) :
    ∃ events, (Change.apply (region, file) (around, change)).2.around.events = events ++ around.events ∧
      ∀ event ∈ events, event.Leaves place.position (place.position + place.size) := by
  have intact := (compact.under around).intact
  by_cases elsewhere : change.Elsewhere region slot
  · obtain ⟨events, log, _, touch⟩ := Ends.final
      (fun state : Region × Device => (file.under around).Logs (change.Touches region) state.2)
      (Change.run_logs intact.partitioned.sound (file.under around) change)
    exact ⟨events, log, fun event member => intact.leaves_extent elsewhere found (touch event member)⟩
  · simp only [Change.Elsewhere, not_forall, not_not] at elsewhere
    obtain ⟨chunk, about, own⟩ := elsewhere
    obtain ⟨written, placing, words, syncs, adds, phases, _⟩ := compact.phased around about own
    exact ⟨_, adds.log, (phases.ordered intact).old place found moves⟩

end

theorem Unreplaced.kept {position : RegionPos} {slot : Slot} {start state : Region × Device}
    (unreplaced : Unreplaced slot start state) (reached : Reached position (fun _ _ => True) start) :
    Reached position (fun _ _ => True) state ∧
      state.1.tables.extent? slot = start.1.tables.extent? slot := by
  induction unreplaced with
  | start => exact ⟨reached, rfl⟩
  | @changed state step events before log partly ih =>
    obtain ⟨now, same⟩ := ih
    exact ⟨.changed now trivial, (now.compact.extent?_of_partly step.1 log partly).trans same⟩

/-- For every region opened on a file that was new once, whatever has failed since, and every slot. A change
of the slot writes its words after the record, whole and synced if the region syncs, and the offset after the
whole timestamp; if the words cannot be written, the offset is never written as a whole. As long as that has
not happened, whatever is changed and whatever fails, an extent that the slot has stays with it: none of
its sectors is free, and no change touches it but a save of the slot's chunk that fits in it. -/
theorem words_after_record {position : RegionPos} {live : Region} {now : Device}
    (reached : Reached position (fun _ _ => True) (live, now)) {chunk : ChunkPos} {slot : Slot}
    (own : live.slot chunk = .ok slot) :
    (∀ (around : Surroundings) (change : Change), change.chunk? = some chunk →
      ∃ events, (Change.apply (live, now) (around, change)).2.around.events = events ++ around.events ∧
        Ordered live now.content slot change events ∧
        (change.EntryFails live (now.under around) →
          ¬ Covers events (Tables.offsetPosition slot) (Tables.offsetPosition slot + 4))) ∧
      ∀ old, live.tables.extent? slot = some old → ∀ later file,
        Unreplaced slot (live, now) (later, file) →
          later.tables.extent? slot = some old ∧
            (∀ sector, old.Holds sector → ¬ later.space.Free sector) ∧
            ∀ (around : Surroundings) (change : Change), ¬ change.Stays later slot old →
              ∃ events,
                (Change.apply (later, file) (around, change)).2.around.events = events ++ around.events ∧
                ∀ event ∈ events, event.Leaves old.position (old.position + old.size) := by
  refine ⟨fun around change about => ?_, fun old found later file unreplaced => ?_⟩
  · have compact : Compact position live now := reached.compact
    have intact := (compact.under around).intact
    obtain ⟨written, placing, words, syncs, adds, phases, _, fails⟩ := compact.phased around about own
    have ordered := phases.ordered intact
    exact ⟨_, adds.log, ordered,
      fun failing covers => (phases.covers_iff intact).1 covers (fails failing)⟩
  · obtain ⟨anyhow, same⟩ := unreplaced.kept reached
    have compact : Compact position later file := anyhow.compact
    have there : later.tables.extent? slot = some old := same.trans found
    exact ⟨there, fun sector => compact.intact.partitioned.occupied there,
      fun around change moves => compact.leaves_old around there moves⟩

end

/-- A save that moves the only chunk and whose offset is cut behind three bytes: the old sector is still in
use after it. -/
theorem words_after_record_torn :
    let torn : Surroundings := { Surroundings.initial with schedule :=
      { Schedule.calm with writing := [⟨.undisturbed, 2⟩, ⟨.short 3, 1⟩, ⟨.refused ⟨5⟩, 1⟩] } }
    ∃ live now, Reached ⟨0, 0⟩ (fun _ _ => True) (live, now) ∧
      live.tables.extent? ⟨0, by decide⟩ = some ⟨2, 1⟩ ∧
      ∃ left after events,
        Change.apply (live, now) (torn, .save ⟨0, 0⟩ (Bytes.zeros 5000) 3) = (left, after) ∧
        after.around.events = events ++ torn.events ∧
        Ordered live now.content ⟨0, by decide⟩ (.save ⟨0, 0⟩ (Bytes.zeros 5000) 3) events ∧
        ¬ Covers events 0 4 ∧
        left.tables.extent? ⟨0, by decide⟩ = some ⟨2, 1⟩ ∧ ¬ left.space.Free 2 := by
  intro torn
  obtain ⟨_, _, saved, written, _, _, reached, syncs, own, _, appended⟩ := exists_save_newFile
  have anyhow : Reached ⟨0, 0⟩ (fun _ _ => True) (saved, written) := reached.mono fun _ _ _ => trivial
  have compact : Compact ⟨0, 0⟩ saved (written.under torn) := anyhow.compact.under torn
  have found : saved.tables.extent? ⟨0, by decide⟩ = some ⟨2, 1⟩ := appended.extents _
  obtain ⟨data, accepted, two⟩ : ∃ data, encodeChunk (Bytes.zeros 5000) 3 = .ok data ∧
      sectorsOf (record data).size = 2 := by
    refine ⟨_, encodeChunk_plain (Bytes.zeros 5000), ?_⟩
    rw [size_record, Method.size_tagged, Bytes.size_zeros]
    rfl
  have moves : ∀ place, saved.tables.extent? ⟨0, by decide⟩ = some place →
      place.count.toNat < sectorsOf (record data).size := by
    intro place same
    rw [two, ← Option.some.inj (found.symm.trans same)]
    decide
  have nonempty : 0 < (record data).size := by
    rw [size_record]
    omega
  have short : saved.space.sectors.toNat ≤ maxSectorIndex := Nat.le_trans compact.intact.short (by decide)
  have placing := FreeSpace.place_of_undisturbed compact.intact.partitioned.sound appended.noFree short
    nonempty (by rw [two]; decide) moves compact.isFile rfl rfl rfl rfl
  obtain ⟨extent, ⟨next, placed⟩, synced, continues, writingPlaced, _⟩ := placing.exists_ok
  have ran : FreeSpace.place (record data) (saved.tables.extent? ⟨0, by decide⟩) saved.sync
      (saved.space, written.under torn) = .ok extent (next, placed) := by
    rw [syncs]
    exact synced
  have reaches := Change.Reaches.save own accepted ran
  have first : (placed.turns .writing).next =
      (.undisturbed, [⟨.undisturbed, 0⟩, ⟨.short 3, 1⟩, ⟨.refused ⟨5⟩, 1⟩]) := by
    rw [writingPlaced]
    rfl
  have cut : Turns.Cut [⟨.undisturbed, 0⟩, ⟨.short 3, 1⟩, ⟨.refused ⟨5⟩, 1⟩] 3 :=
    ⟨by decide, _, _, _, rfl, rfl, by decide⟩
  obtain ⟨failure, stopped, failed, _⟩ := (writeEntry_of_cut (continues.full.trans compact.isFile)
    (continues.ceiling.trans rfl) ⟨0, by decide⟩ extent.toWord placed.around.timestamp first cut
    (by decide)).exists_error
  obtain ⟨changes, kept⟩ := words_after_record anyhow own
  obtain ⟨events, log, ordered, cannot⟩ := changes torn (.save ⟨0, 0⟩ (Bytes.zeros 5000) 3) rfl
  have partly := cannot ⟨_, failure, stopped, reaches, failed⟩
  obtain ⟨there, taken, _⟩ := kept ⟨2, 1⟩ found _ _ (.changed .start log partly)
  exact ⟨saved, written, anyhow, found, _, _, events, rfl, log, ordered, partly, there, taken 2 (by decide)⟩

end RegionStore.Region
