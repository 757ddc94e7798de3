import RegionStore.Proofs.Disk.Order
import RegionStore.Proofs.Region.Durability
import RegionStore.Proofs.Region.Isolation

/-!
The phases of a change in the log of its file: first the record is written to its sectors, then the words
of the slot, the timestamp before the offset, and at last everything is synced. A failure ends the change
in one of the phases, and the next ones are missing then.
-/

set_option autoImplicit false

namespace RegionStore

open Disk

/-- All bytes of the extent have been put down, and synced after that if they are to be. -/
def Extent.Laid (extent : Extent) (sync : Bool) (events : List Event) : Prop :=
  ∃ later earlier, events = later ++ earlier ∧
    Covers earlier extent.position (extent.position + extent.size) ∧
    (sync = true → Event.synced none ∈ later)

theorem Extent.Laid.append {extent : Extent} {sync : Bool} {events : List Event}
    (laid : extent.Laid sync events) (more : List Event) : extent.Laid sync (more ++ events) := by
  obtain ⟨later, earlier, rfl, covers, synced⟩ := laid
  exact ⟨more ++ later, earlier, (List.append_assoc ..).symm, covers,
    fun isSync => List.mem_append_right _ (synced isSync)⟩

namespace FreeSpace

theorem writeRecord_laid {extent : Extent} {record : Bytes} (sync : Bool) (file : Device)
    (fits : sectorsOf record.size ≤ extent.count.toNat) :
    Ends (writeRecord extent record sync) file
      (fun _ after => ∃ events, file.Adds events after ∧ extent.Laid sync events) fun _ _ => True := by
  have writes := Device.writeAt_fills extent.position (extent.padded record) file
  rw [Extent.size_padded fits] at writes
  simp only [writeRecord, ends_bind]
  refine writes.mono ?_ fun _ _ _ => trivial
  rintro _ written ⟨events, adds, fills⟩
  cases sync with
  | false => exact ⟨events, adds, [], events, rfl, fills.covers, Bool.false_ne_true.elim⟩
  | true =>
    refine (Device.sync_newest written).mono ?_ fun _ _ _ => trivial
    rintro _ after ⟨refusals, added, _⟩
    exact ⟨_, adds.trans added, _, events, rfl, fills.covers, fun _ => List.mem_cons_self⟩

theorem place_laid {record : Bytes} {old : Option Extent} {sync : Bool} {space next : FreeSpace}
    {file placed : Device} {extent : Extent}
    (ran : place record old sync (space, file) = .ok extent (next, placed)) :
    ∃ events, file.Adds events placed ∧ extent.Laid sync events := by
  have goes := ((ends_of_eq_ok ran).1 (place_goes space file record old sync)).goes
  exact (ends_of_eq_ok (writeRecord_of_place ran)).1 (writeRecord_laid sync file goes.fits)

end FreeSpace

namespace Region

/-- The events that write the words of a slot. The timestamp comes first, and the offset, of which so many
bytes have got through, only after the whole timestamp. -/
def WordsLog (slot : Slot) (written : Nat) (events : List Event) : Prop :=
  ∃ first second, events = second ++ first ∧
    (∀ limit, ∀ event ∈ first, event.Confined limit (Tables.timestampPosition slot)
      (Tables.timestampPosition slot + 4)) ∧
    Fills second (Tables.offsetPosition slot) (Tables.offsetPosition slot + written) ∧
    (second = [] ∨ Covers first (Tables.timestampPosition slot) (Tables.timestampPosition slot + 4))

theorem writeEntry_words (slot : Slot) (offset : UInt32) (timestamp : Int32) (file : Device) :
    Ends (writeEntry slot offset timestamp) file
      (fun _ after => ∃ events, file.Adds events after ∧ WordsLog slot 4 events)
      fun _ after => ∃ events, file.Adds events after ∧ ∃ written < 4, WordsLog slot written events := by
  have writes := Device.writeAt_fills (Tables.timestampPosition slot)
    (Bytes.ofWord timestamp.toUInt32) file
  rw [Bytes.size_ofWord] at writes
  simp only [writeEntry, ends_bind]
  refine writes.mono ?_ ?_
  · rintro _ between ⟨first, adds, fills⟩
    have more := Device.writeAt_fills (Tables.offsetPosition slot) (Bytes.ofWord offset) between
    rw [Bytes.size_ofWord] at more
    refine more.mono ?_ ?_
    · rintro _ after ⟨second, added, filled⟩
      exact ⟨_, adds.trans added, first, second, rfl, fills.confined, filled, .inr fills.covers⟩
    · rintro _ after ⟨second, added, stop, short, filled⟩
      exact ⟨_, adds.trans added, stop, short, first, second, rfl, fills.confined, filled,
        .inr fills.covers⟩
  · rintro _ after ⟨first, adds, stop, short, fills⟩
    refine ⟨first, adds, 0, by omega, first, [], rfl, fun limit event member => ?_, Fills.nil _, .inl rfl⟩
    exact (fills.confined limit event member).wider (Nat.le_refl _) (by omega)

theorem WordsLog.nil (slot : Slot) : WordsLog slot 0 [] :=
  ⟨[], [], rfl, fun _ => List.forall_mem_nil _, Fills.nil _, .inl rfl⟩

theorem offsetPosition_add_le (slot : Slot) :
    Tables.offsetPosition slot + 4 ≤ Tables.timestampPosition slot := by
  have bounded := offsetPosition_bounded slot
  rw [Tables.timestampPosition]
  omega

section
variable {slot : Slot} {written : Nat} {events : List Event} (words : WordsLog slot written events)
include words

theorem WordsLog.confined (limit : Nat) {event : Event} (member : event ∈ events) :
    event.Confined limit (Tables.timestampPosition slot) (Tables.timestampPosition slot + 4) ∨
      event.Confined limit (Tables.offsetPosition slot) (Tables.offsetPosition slot + written) := by
  obtain ⟨first, second, rfl, inFirst, fills, _⟩ := words
  rcases List.mem_append.1 member with later | earlier
  · exact .inr (fills.confined limit event later)
  · exact .inl (inFirst limit event earlier)

theorem WordsLog.leaves (short : written ≤ 4) {first last : Nat} (behind : headerSize ≤ first)
    {event : Event} (member : event ∈ events) : event.Leaves first last := by
  have timestamp := (timestampPosition_facts slot).2
  have offset := (offsetPosition_facts slot).2
  rcases words.confined last member with confined | confined
  · exact confined.leaves (Nat.le_refl _) (.inr (by omega))
  · exact confined.leaves (Nat.le_refl _) (.inr (by omega))

theorem WordsLog.offset_lt {event : Event} (member : event ∈ events) {position : Nat}
    (writes : event.Writes position) (inOffset : position < Tables.offsetPosition slot + 4) :
    position < Tables.offsetPosition slot + written := by
  have apart := offsetPosition_add_le slot
  rcases words.confined 0 member with confined | confined
  · have inside := confined.inside writes
    omega
  · exact (confined.inside writes).2

theorem WordsLog.timestamp_first :
    OnlyAfter (fun part => Covers part (Tables.timestampPosition slot) (Tables.timestampPosition slot + 4))
      (Event.Enters (Tables.offsetPosition slot) (Tables.offsetPosition slot + 4)) events := by
  obtain ⟨first, second, rfl, inFirst, fills, missing | covers⟩ := words
  all_goals have apart := offsetPosition_add_le slot
  · rw [missing]
    exact .of_none fun event member => (inFirst 0 event member).not_enters (.inl apart)
  · refine OnlyAfter.append ?_ (.of_suffix fun part _ => covers.mono (List.subset_append_right part first))
    exact .of_none fun event member => (inFirst 0 event member).not_enters (.inl apart)

end

variable [Codec]

/-- A save whose record is written over the one that its chunk has. -/
def Change.Stays (region : Region) (slot : Slot) (old : Extent) (change : Change) : Prop :=
  ∃ chunk payload tag data, change = .save chunk payload tag ∧ region.slot chunk = .ok slot ∧
    encodeChunk payload tag = .ok data ∧ sectorsOf (record data).size ≤ old.count.toNat

def Change.Places (region : Region) (slot : Slot) (change : Change) (event : Event) : Prop :=
  ∃ chunk payload tag data extent next, change = .save chunk payload tag ∧
    region.slot chunk = .ok slot ∧ encodeChunk payload tag = .ok data ∧
    sectorsOf (record data).size ≤ maxExtentSectors ∧
    FreeSpace.Target region.space (region.tables.extent? slot) (sectorsOf (record data).size) extent next ∧
    event.Confined (region.space.sectors.toNat * sectorSize) extent.position
      (extent.position + extent.size)

/-- The record of a chunk is in the file, in the extent that was chosen for it; every byte of that has
been put down, and synced if the region syncs. -/
def RecordLaid (region : Region) (start : Content) (slot : Slot) (payload : Bytes) (tag : UInt8)
    (events : List Event) : Prop :=
  ∃ data extent next, encodeChunk payload tag = .ok data ∧
    FreeSpace.Target region.space (region.tables.extent? slot) (sectorsOf (record data).size) extent next ∧
    extent.Laid region.sync events ∧
    (replay start events).read extent.position extent.size = extent.padded (record data)

structure Phases (region : Region) (start : Content) (slot : Slot) (change : Change) (written : Nat)
    (placing words syncs : List Event) : Prop where
  places : ∀ event ∈ placing, change.Places region slot event
  short : written ≤ 4
  writes : WordsLog slot written words
  synced : ∀ event ∈ syncs, ∃ refusal, event = .synced refusal
  laid : ∀ chunk payload tag, change = .save chunk payload tag →
    OnlyAfter (fun part => RecordLaid region start slot payload tag (part ++ placing)) (fun _ => True) words

/-- A change of a slot has come to an end in one of its phases. The live tables are as before unless the
offset has been written as a whole. -/
def Phased (region : Region) (file : Device) (slot : Slot) (change : Change) (state : Region × Device) :
    Prop :=
  ∃ written placing words syncs, file.Adds (syncs ++ (words ++ placing)) state.2 ∧
    Phases region file.content slot change written placing words syncs ∧
    (written < 4 → state.1.tables = region.tables) ∧ (change.EntryFails region file → written < 4)

section
variable {limit : Nat} {region : Region} {file : Device} {change : Change} {slot : Slot}

theorem phased_of_placing {state : Region × Device} (placing syncs : List Event)
    (adds : file.Adds (syncs ++ placing) state.2)
    (places : ∀ event ∈ placing, change.Places region slot event)
    (synced : ∀ event ∈ syncs, ∃ refusal, event = .synced refusal)
    (tables : state.1.tables = region.tables) : Phased region file slot change state :=
  ⟨0, placing, [], syncs, adds,
    ⟨places, Nat.zero_le 4, .nil slot, synced, fun _ _ _ _ => .of_none (List.forall_mem_nil _)⟩,
    fun _ => tables, fun _ => by omega⟩

/-- What a change has done when it comes to the words of its slot. -/
theorem Intact.reaches_phases (intact : Intact limit region file) {pending : Pending}
    (reaches : change.Reaches region file pending) :
    ∃ placing, file.Adds placing pending.file ∧
      (∀ event ∈ placing, change.Places region pending.slot event) ∧
      ∀ written words, written ≤ 4 → WordsLog pending.slot written words →
        ∀ chunk payload tag, change = .save chunk payload tag →
          OnlyAfter (fun part => RecordLaid region file.content pending.slot payload tag (part ++ placing))
            (fun _ => True) words := by
  cases reaches with
  | @save chunk payload tag slot data extent next placed own accepted ran =>
    have wrote := intact.placed ran
    have inside := (intact.target_inside wrote.target wrote.small).1
    obtain ⟨placing, adds, laid⟩ := FreeSpace.place_laid ran
    obtain ⟨events, log, content, touch⟩ : file.Logs _ placed :=
      (ends_of_eq_ok ran).1 (FreeSpace.place_logs intact.partitioned.sound file _ _ _)
    obtain rfl : events = placing := Device.Adds.unique ⟨log, content⟩ adds
    refine ⟨events, adds, fun event member => ?_, ?_⟩
    · obtain ⟨other, after, small, target, confined⟩ := touch event member
      exact ⟨chunk, payload, tag, data, other, after, rfl, own, accepted, small, target, confined⟩
    · rintro written words short log _ _ _ ⟨⟩
      refine .of_suffix fun part isPart =>
        ⟨data, extent, next, accepted, wrote.target, laid.append part, ?_⟩
      have present : extent.position + extent.size ≤ placed.content.size := by
        rw [intact.placed_size wrote]
        exact Nat.le_max_right ..
      rw [replay_append, ← adds.content]
      refine ((replay_of_leaves (fun event member => ?_) present).2 _ _ (Nat.le_refl _)
        (Nat.le_refl _)).trans wrote.read_own
      exact log.leaves short inside.position_ge (isPart.subset member)
  | delete own present =>
    refine ⟨[], (Device.Silent.refl file).adds, List.forall_mem_nil _, ?_⟩
    rintro _ _ _ _ _ _ _ ⟨⟩

/-- Every change of a slot goes through its phases, whatever fails. -/
theorem Intact.phased (intact : Intact limit region file) {chunk : ChunkPos}
    (about : change.chunk? = some chunk) (own : region.slot chunk = .ok slot) :
    Ends change.run (region, file) (fun _ state => Phased region file slot change state)
      fun _ state => Phased region file slot change state := by
  have nothing : Phased region file slot change (region, file) :=
    phased_of_placing [] [] (Device.Silent.refl file).adds
      (List.forall_mem_nil _) (List.forall_mem_nil _) rfl
  refine Change.ends_of nothing (fun _ => nothing) ?_ ?_ ?_
  · have flushed {after : Device}
        (logs : file.Logs (fun event => ∃ refusal, event = .synced refusal) after) :
        Phased region file slot change (region, after) := by
      obtain ⟨events, log, content, synced⟩ := logs
      have adds : file.Adds (events ++ []) after := by
        rw [List.append_nil]
        exact ⟨log, content⟩
      exact phased_of_placing [] events adds (List.forall_mem_nil _) synced rfl
    exact (Device.sync_logs file fun refusal => ⟨refusal, rfl⟩).mono (fun _ _ => flushed)
      fun _ _ => flushed
  · rintro other payload tag ownSlot data failure space after rfl ownSame accepted ran
    cases about
    cases own.symm.trans ownSame
    obtain ⟨events, log, content, touch⟩ : file.Logs _ after :=
      (ends_of_eq_error ran).1 (FreeSpace.place_logs intact.partitioned.sound file _ _ _)
    refine phased_of_placing events [] ⟨log, content⟩ (fun event member => ?_)
      (List.forall_mem_nil _) rfl
    obtain ⟨extent, next, small, target, confined⟩ := touch event member
    exact ⟨chunk, payload, tag, data, extent, next, rfl, own, accepted, small, target, confined⟩
  · intro pending reaches
    obtain ⟨placing, adds, places, laid⟩ := intact.reaches_phases reaches
    obtain ⟨_, other, aboutSame, ownSame⟩ := reaches.logs intact.partitioned.sound
    cases about.symm.trans aboutSame
    cases own.symm.trans ownSame
    have log := writeEntry_words pending.slot pending.offset pending.timestamp pending.file
    rw [reaches.ends]
    cases ran : pending.write with
    | ok _ written =>
      obtain ⟨words, added, writes⟩ := (ends_of_eq_ok ran).1 log
      have accepted : ¬ change.EntryFails region file := by
        rintro ⟨again, failure, after, reachesAgain, failed⟩
        cases reaches.unique reachesAgain
        cases ran.symm.trans failed
      have ends {state : Region × Device}
          (logs : written.Logs (fun event => ∃ refusal, event = .synced refusal) state.2) :
          Phased region file pending.slot change state := by
        obtain ⟨syncs, log, content, synced⟩ := logs
        have all : file.Adds (syncs ++ (words ++ placing)) state.2 := (adds.trans added).trans ⟨log, content⟩
        exact ⟨4, placing, words, syncs, all,
          ⟨places, Nat.le_refl 4, writes, synced, laid 4 words (Nat.le_refl 4) writes⟩,
          fun less => absurd less (Nat.lt_irrefl 4), fun fails => absurd fails accepted⟩
      exact (syncChange_logs pending.changed written fun refusal => ⟨refusal, rfl⟩).mono
        (fun _ _ => ends) fun _ _ => ends
    | error failure after =>
      obtain ⟨words, added, count, few, writes⟩ := (ends_of_eq_error ran).1 log
      exact ⟨count, placing, words, [], adds.trans added,
        ⟨places, Nat.le_of_lt few, writes, List.forall_mem_nil _,
          laid count words (Nat.le_of_lt few) writes⟩,
        fun _ => (intact.framed reaches).tables, fun _ => few⟩

end

end Region
end RegionStore
