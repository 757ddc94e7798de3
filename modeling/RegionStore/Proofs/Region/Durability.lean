import RegionStore.Proofs.Region.Surviving
import RegionStore.Proofs.Region.Touching

/-!
A region that syncs its changes, when everything stops at some moment. All of a file is on disk between
two requests. During a request its record comes to the disk before the words of its slot are written, and
these come there before the request is answered; so what is left stands for the chunks as they were
before the request or as they are after it.
-/

set_option autoImplicit false

namespace RegionStore

open Disk

variable {start : Content}

namespace FreeSpace

theorem writeRecord_of_place {record : Bytes} {old : Option Extent} {sync : Bool} {space next : FreeSpace}
    {file placed : Device} {extent : Extent}
    (ran : place record old sync (space, file) = .ok extent (next, placed)) :
    writeRecord extent record sync file = .ok () placed := by
  have written (extent : Extent) : Ends (writeRecord extent record sync) file
      (fun _ after => writeRecord extent record sync file = .ok () after) fun _ _ => True := by
    unfold Ends
    cases writeRecord extent record sync file with
    | ok result after => rfl
    | error failure after => trivial
  suffices Ends (place record old sync) (space, file)
      (fun extent state => writeRecord extent record sync file = .ok () state.2) fun _ _ => True from
    (ends_of_eq_ok ran).1 this
  by_cases large : maxExtentSectors < sectorsOf record.size
  · unfold place
    simp only [if_pos large, ends_bind, ends_throw]
  · have small := Nat.le_of_not_lt large
    by_cases moves : ∀ place, old = some place → place.count.toNat < sectorsOf record.size
    · rw [ends_place_of_moving small moves]
      cases found : space.allocate? (sectorsOf record.size).toUInt32 with
      | none =>
        unfold placeAnew
        simp only [ends_bind, ends_get, found, ends_throw]
      | some chosen =>
        rw [ends_placeAnew found]
        exact (written chosen.1.extent).mono (fun _ _ => id) fun _ _ _ => ends_somehow _ _
    · cases old with
      | none => exact absurd (moves_of_absent rfl) moves
      | some place =>
        have fits : sectorsOf record.size ≤ place.count.toNat := by
          apply Nat.le_of_not_lt
          exact fun short => moves fun other same => Option.some.inj same ▸ short
        rw [ends_place_of_staying small fits]
        exact written place

/-- While a record is written that is synced, it is there or not; afterwards it is on disk. -/
theorem writeRecord_guards {file : Device} (settled : file.Settled start) (extent : Extent)
    (record : Bytes) :
    Ends (writeRecord extent record true) file
      (fun _ placed => file.Guards start (fun content => content = file.content ∨
          ∃ written, written.content = content ∧
            file.Wrote extent.position (extent.padded record) written) placed ∧
        placed.Settled start)
      fun _ _ => True := by
  simp only [writeRecord, if_true, ends_bind]
  refine Ends.mono (settled.writeAt extent.position (extent.padded record)) ?_ fun _ _ => id
  rintro _ written ⟨guards, traced, wrote⟩
  have first : file.Guards start (fun content => content = file.content ∨ ∃ written : Device,
      written.content = content ∧ file.Wrote extent.position (extent.padded record) written) written := by
    refine guards.mono fun content either => either.imp_right fun same => ?_
    exact ⟨{ file with content := content }, rfl, ⟨rfl, rfl, rfl, rfl, fun _ _ _ => id⟩,
      same ▸ Content.Same.refl _⟩
  refine Ends.mono traced.sync ?_ fun _ _ => id
  rintro _ placed ⟨synced, settled⟩
  refine ⟨first.trans (synced.mono ?_), settled⟩
  rintro content (survives | rfl)
  · exact first.at_end survives
  · exact .inr ⟨written, rfl, wrote⟩

end FreeSpace

namespace Region

/-- What can be left while the words of a slot are written. -/
def EntryLeft (slot : Slot) (offset : UInt32) (file : Device) (content : Content) : Prop :=
  ∃ after put second, after.content = content ∧
    (put = (stored file.content).offsets.get slot ∨ put = offset) ∧ EntryWritten slot put second file after

theorem wrote_or_not {file : Device} {position : Nat} {old word : UInt32} {content : Content}
    (again : file.Wrote position (Bytes.ofWord old) file)
    (either : content = file.content ∨ content = file.content.write position (Bytes.ofWord word)) :
    ∃ put, (put = old ∨ put = word) ∧
      file.Wrote position (Bytes.ofWord put) { file with content := content } := by
  rcases either with rfl | rfl
  · exact ⟨old, .inl rfl, again⟩
  · exact ⟨word, .inr rfl, ⟨rfl, rfl, rfl, rfl, fun _ _ _ => id⟩, Content.Same.refl _⟩

theorem writeEntry_guards {file : Device} (settled : file.Settled start)
    (header : headerSize ≤ file.content.size) (slot : Slot) (offset : UInt32) (timestamp : Int32) :
    Ends (writeEntry slot offset timestamp) file
      (fun _ written => file.Guards start (EntryLeft slot offset file) written ∧ written.Traced start)
      fun _ _ => True := by
  simp only [writeEntry, ends_bind]
  refine Ends.mono (settled.writeAt _ _) ?_ fun _ _ => id
  rintro _ between ⟨first, traced, _⟩
  -- with the timestamp written or not, the offset can be written or not
  have left {old content : Content}
      (earlier : old = file.content ∨
        old = file.content.write (Tables.timestampPosition slot) (Bytes.ofWord timestamp.toUInt32))
      (later : content = old ∨
        content = old.write (Tables.offsetPosition slot) (Bytes.ofWord offset)) :
      EntryLeft slot offset file content := by
    obtain ⟨second, _, wrote⟩ := wrote_or_not (@wrote_timestamp_again slot _ header) earlier
    have enough := Nat.le_trans header wrote.size_le
    obtain ⟨put, either, wrote'⟩ := wrote_or_not (@wrote_offset_again slot _ enough) later
    refine ⟨_, put, second.toInt32, rfl, ?_, _, ?_, wrote'⟩
    · rw [← ByteArray.extract_zero_size (b := Bytes.ofWord second),
        ← UInt32.toUInt32_toInt32 second] at wrote
      have same := congrArg (fun tables => tables.offsets.get slot) (stored_of_wrote_timestamp wrote)
      simp only [Tables.offsets_set, if_true] at same
      rwa [same] at either
    · rwa [UInt32.toUInt32_toInt32]
  have guarded := @Device.writeAt_guards start between (Tables.offsetPosition slot) (Bytes.ofWord offset)
  refine Ends.mono (guarded.and (Device.writeAt_logs 0 _ _ between)) ?_ fun _ _ _ => trivial
  rintro _ written ⟨second, logs⟩
  refine ⟨(first.mono fun content either => left either (.inl rfl)).trans (second.mono ?_),
    logs.traced traced⟩
  rintro content ⟨old, survives, either⟩
  exact left (first.at_end survives) either

section
variable {region : Region} {file : Device} {holds : Content → Prop}

/-- A change of a region that syncs goes through moments of which the condition holds, if it does for all
that can be left while the record and the words are written, and ends with everything on disk. -/
theorem Change.run_guards [Codec] (settled : file.Settled start) (syncs : region.sync = true)
    (change : Change) (here : holds file.content)
    (placing : ∀ pending, change.Reaches region file pending → headerSize ≤ pending.file.content.size ∧
      file.Guards start holds pending.file ∧ pending.file.Settled start ∧
        ∀ content, EntryLeft pending.slot pending.offset pending.file content → holds content) :
    Ends change.run (region, file)
      (fun _ state => file.Guards start holds state.2 ∧ state.2.Settled start) fun _ _ => True := by
  have unchanged : file.Guards start holds file :=
    (Device.Silent.refl file).guards fun content survives => settled.only content survives ▸ here
  have synced {device : Device} (guards : file.Guards start holds device) (traced : device.Traced start)
      (last : holds device.content) :
      Ends Device.sync device (fun _ next => file.Guards start holds next ∧ next.Settled start)
        fun _ _ => True := by
    refine Ends.mono traced.sync ?_ fun _ _ => id
    rintro _ next ⟨later, settledNext⟩
    refine ⟨guards.trans (later.mono ?_), settledNext⟩
    rintro content (survives | rfl)
    · exact guards.at_end survives
    · exact last
  refine Change.ends_of ⟨unchanged, settled⟩ (fun _ => trivial) (synced unchanged settled.traced here)
    (fun _ _ _ _ _ _ _ _ _ _ _ _ => trivial) ?_
  intro pending reaches
  obtain ⟨header, placed, settledPlaced, left⟩ := placing pending reaches
  have syncsNow : pending.changed.sync = true := by
    cases reaches with
    | save own accepted ran => exact syncs
    | delete own present => exact syncs
  rw [reaches.ends]
  cases ran : pending.write with
  | ok _ written =>
    obtain ⟨guards, traced⟩ := (ends_of_eq_ok ran).1 (writeEntry_guards settledPlaced header
      pending.slot pending.offset pending.timestamp)
    have last : holds written.content :=
      left _ ⟨written, pending.offset, _, rfl, .inr rfl, Pending.entryWritten ran⟩
    simp only [syncChange, ends_bind, ends_get, syncsNow, if_true, ends_device]
    exact synced (placed.trans (guards.mono left)) traced last
  | error failure after => trivial

end

end Region

def Request.change? : Request → Option Region.Change
  | .save chunk payload tag => some (.save chunk payload tag)
  | .delete chunk => some (.delete chunk)
  | .flush => some .flush
  | .load _ | .has _ | .timestamp _ | .count | .list => none

def Request.chunk? (request : Request) : Option ChunkPos := request.change?.bind Region.Change.chunk?

variable [Codec]

theorem Chunks.after_of_ne (chunks : Chunks) (position : RegionPos) (second : Int32) {request : Request}
    {chunk : ChunkPos} (different : request.chunk? ≠ some chunk) :
    chunks.after position second request chunk = chunks chunk := by
  have elsewhere {saved : ChunkPos} (about : request.chunk? = some saved) : chunk ≠ saved := by
    rintro rfl
    exact different about
  cases request with
  | save saved payload tag =>
    simp only [after]
    split
    · exact if_neg (elsewhere rfl)
    · rfl
  | delete saved => exact if_neg (elsewhere rfl)
  | load _ | has _ | timestamp _ | count | list | flush => rfl

namespace Region

theorem ends_request {request : Request} {change : Change} (makes : request.change? = some change)
    {state : Region × Device} {done : Answer → Region × Device → Prop}
    {failed : Failure → Region × Device → Prop} : Ends request.run state done failed ↔
      Ends change.run state (fun _ => done .done) failed := by
  cases request with
  | save _ _ _ | delete _ | flush =>
    cases makes
    exact ends_map _ _ _ _ _
  | load _ | has _ | timestamp _ | count | list => cases makes

theorem loadChunk_silent (region : Region) (file : Device) (chunk : ChunkPos) :
    Ends (loadChunk chunk) (region, file) (fun _ state => state.1 = region ∧ file.Silent state.2)
      fun _ state => state.1 = region ∧ file.Silent state.2 := by
  have silent := Device.Silent.refl file
  unfold loadChunk
  simp only [ends_bind, ends_get, ends_ofExcept]
  cases region.slot chunk with
  | error failure => exact ⟨trivial, silent⟩
  | ok slot =>
    simp only
    cases region.tables.extent? slot with
    | none => exact ⟨rfl, silent⟩
    | some extent =>
      simp only [ends_bind, ends_device]
      refine Ends.mono (Device.readAt_silent extent.position extent.size file) ?_
        fun _ _ read => ⟨trivial, read⟩
      intro data after read
      simp only [ends_map, ends_ofExcept]
      cases recordData (region.position.chunkAt slot) extent data with
      | error failure => exact ⟨trivial, read⟩
      | ok payload => exact ⟨trivial, read⟩

omit [Codec] in
theorem ask_silent {Result : Type} (question : Region → Except Failure Result) (region : Region)
    (file : Device) :
    Ends (ask question) (region, file) (fun _ state => state.1 = region ∧ file.Silent state.2)
      fun _ state => state.1 = region ∧ file.Silent state.2 := by
  have silent := Device.Silent.refl file
  unfold ask
  simp only [ends_bind, ends_get, ends_ofExcept]
  cases question region with
  | error failure => exact ⟨trivial, silent⟩
  | ok result => exact ⟨trivial, silent⟩

theorem Request.run_silent {request : Request} (question : request.change? = none) (region : Region)
    (file : Device) :
    Ends request.run (region, file) (fun _ state => state.1 = region ∧ file.Silent state.2)
      fun _ state => state.1 = region ∧ file.Silent state.2 := by
  cases request with
  | save _ _ _ | delete _ | flush => cases question
  | load chunk => exact (ends_map _ _ _ _ _).2 (loadChunk_silent region file chunk)
  | has _ | timestamp _ | count | list => exact (ends_map _ _ _ _ _).2 (ask_silent _ region file)

/-- Everything that a request does to the file is in the log. -/
theorem Request.run_logs {region : Region} (sound : region.space.Sound) (file : Device)
    (request : Request) :
    Ends request.run (region, file)
      (fun _ state => state.1.sync = region.sync ∧ file.Logs (fun _ => True) state.2)
      fun _ state => state.1.sync = region.sync ∧ file.Logs (fun _ => True) state.2 := by
  cases makes : request.change? with
  | none =>
    refine Ends.mono (Request.run_silent makes region file) ?_ ?_
    · exact fun _ _ same => ⟨congrArg Region.sync same.1, same.2.logs _⟩
    · exact fun _ _ same => ⟨congrArg Region.sync same.1, same.2.logs _⟩
  | some change =>
    rw [ends_request makes]
    refine Ends.mono ((Change.run_sync region file change).and (Change.run_logs sound file change)) ?_ ?_
    · exact fun _ _ left => ⟨left.1, left.2.mono fun _ _ => trivial⟩
    · exact fun _ _ left => ⟨left.1, left.2.mono fun _ _ => trivial⟩

section
variable {chunks : Chunks} {region : Region} {file : Device} (represents : Represents chunks region file)
include represents

theorem Represents.between_placed [LawfulCodec] {chunk : ChunkPos} {slot : Slot}
    (found : region.slot chunk = .ok slot)
    {payload data : Bytes} {tag : UInt8} (accepted : encodeChunk payload tag = .ok data) {extent : Extent}
    {next : FreeSpace} {placed : Device}
    (wrote : FreeSpace.Placed region.space file (region.tables.extent? slot) (record data) extent next
      placed) (second : Int32) :
    Between region.position chunks (chunks.put chunk (some ⟨payload, second⟩)) placed.content := by
  have header := Nat.le_trans represents.faithful.header_le wrote.wrote.size_le
  refine represents.between_saved found accepted wrote (.inl ?_) (entry_again header) second
  rw [represents.faithful.intact.placed_stored wrote, represents.word]

theorem Represents.save_guards [LawfulCodec] (settled : file.Settled start) (syncs : region.sync = true)
    (chunk : ChunkPos) (payload : Bytes) (tag : UInt8) (second : Int32) :
    Ends (saveChunk chunk payload tag) (region, file)
      (fun _ state => file.Guards start (Between region.position chunks
          (chunks.put chunk (some ⟨payload, second⟩))) state.2 ∧ state.2.Settled start)
      fun _ _ => True := by
  have intact := represents.faithful.intact
  refine Change.run_guards settled syncs (.save chunk payload tag) (represents.between _) ?_
  intro pending reaches
  cases reaches with
  | @save _ _ _ slot data extent next placed own accepted ran =>
    have wrote := intact.placed ran
    have through := FreeSpace.writeRecord_of_place ran
    rw [syncs] at through
    obtain ⟨guards, settledPlaced⟩ :=
      (ends_of_eq_ok through).1 (FreeSpace.writeRecord_guards settled extent _)
    refine ⟨Nat.le_trans represents.faithful.header_le wrote.wrote.size_le, guards.mono ?_, settledPlaced,
      ?_⟩
    · rintro content (rfl | ⟨written, rfl, there⟩)
      · exact represents.between _
      · exact represents.between_placed own accepted ⟨wrote.small, wrote.target, there⟩ second
    · rintro content ⟨after, put, _, rfl, either, entry⟩
      rw [intact.placed_stored wrote, represents.word] at either
      exact represents.between_saved own accepted wrote either entry second

theorem Represents.delete_guards (settled : file.Settled start) (syncs : region.sync = true)
    (chunk : ChunkPos) :
    Ends (deleteChunk chunk) (region, file)
      (fun _ state => file.Guards start (Between region.position chunks (chunks.put chunk none)) state.2 ∧
        state.2.Settled start)
      fun _ _ => True := by
  refine Change.run_guards settled syncs (.delete chunk) (represents.between _) ?_
  intro pending reaches
  cases reaches with
  | delete own present =>
    refine ⟨represents.faithful.header_le, (Device.Silent.refl file).guards ?_, settled, ?_⟩
    · exact fun content survives => settled.only content survives ▸ represents.between _
    · rintro content ⟨after, put, _, rfl, either, entry⟩
      rw [represents.word] at either
      exact represents.between_cleared own present either entry

/-- At every moment of a request, what is left if everything stops stands for the chunks from before the
request or for those after it, and when it is answered everything is on disk. -/
theorem Represents.request_guards [LawfulCodec] (settled : file.Settled start) (syncs : region.sync = true)
    (untroubled : file.Untroubled) (request : Request) :
    Ends request.run (region, file)
      (fun _ state => file.Guards start (Between region.position chunks
          (chunks.after region.position file.around.timestamp request)) state.2 ∧ state.2.Settled start)
      fun _ state => file.Guards start (Between region.position chunks
          (chunks.after region.position file.around.timestamp request)) state.2 ∧
        state.2.Settled start := by
  have idle {after : Device} (silent : file.Silent after) :
      file.Guards start (Between region.position chunks
        (chunks.after region.position file.around.timestamp request)) after ∧ after.Settled start :=
    ⟨silent.guards fun content survives => settled.only content survives ▸ represents.between _,
      settled.silent silent⟩
  have unchanged := idle (Device.Silent.refl file)
  cases request with
  | save chunk payload tag =>
    have sound := represents.faithful.partitioned.sound
    rw [ends_request rfl]
    refine Ends.mono ((represents.save_guards settled syncs chunk payload tag file.around.timestamp).and
      (saveChunk_ends_untroubled sound untroubled chunk payload tag)) ?_ ?_
    · rintro _ ⟨saved, after⟩ ⟨left, slot, data, found, accepted, ends⟩
      obtain ⟨extent, next, written, phases, _, _⟩ := ends.phases
      obtain ⟨placed, wrote, _⟩ := phases.phases
      simp only [Chunks.after]
      rwa [if_pos ⟨(slot_eq_ok_iff.1 found).1, saveRefusal?_of_small accepted wrote.small⟩]
    · rintro failure ⟨_, _⟩ ⟨_, same, _⟩
      cases same
      exact unchanged
  | delete chunk =>
    rw [ends_request rfl]
    refine Ends.mono ((represents.delete_guards settled syncs chunk).and
      (deleteChunk_ends_untroubled region untroubled chunk)) (fun _ _ left => left.1) ?_
    rintro failure ⟨_, _⟩ ⟨_, same, _⟩
    cases same
    exact unchanged
  | flush =>
    rw [ends_request rfl]
    have flushes := Change.run_guards settled syncs .flush
      (represents.between (chunks.after region.position file.around.timestamp .flush))
      fun _ reaches => by cases reaches
    refine Ends.mono (flushes.and (flush_ends region file)) (fun _ _ left => left.1) ?_
    rintro _ _ ⟨_, _, _, troubled⟩
    exact absurd untroubled troubled
  | load _ | has _ | timestamp _ | count | list =>
    exact Ends.mono (Request.run_silent rfl region file) (fun _ _ same => idle same.2)
      fun _ _ same => idle same.2

end

end Region
end RegionStore
