import RegionStore.Proofs.Deflate.Container
import RegionStore.Proofs.Region.Durability
import RegionStore.Proofs.Region.Filled
import RegionStore.Proofs.Region.History

/-!
What is found in a region file after everything has stopped at some moment of a request. The history of
the file is recorded from its creation on, in a log that goes on when the file is closed and opened
again. A region that syncs its changes loses nothing that has been answered, and a request that was
interrupted has been carried out or not.
-/

set_option autoImplicit false

namespace RegionStore

open Disk

def Disk.Device.onward (file : Device) (around : Surroundings) : Device :=
  file.under { around with events := file.around.events }

namespace Region

variable {position : RegionPos} {start : Content}

/-- An open region and its file, which was empty at the start, with all events since then in the log of
the file, and the chunks that have been saved to it. -/
inductive Recorded [Codec] (position : RegionPos) (start : Content) : Chunks → Region × Device → Prop where
  | created {file opened : Device} {sync : Bool} {region : Region} (isStart : file.content = start)
    (empty : start.size = 0) (new : file.around.events = []) (untroubled : file.Untroubled)
    (ran : load position sync file = .ok region opened) :
    Recorded position start Chunks.empty (region, opened)
  | served {chunks : Chunks} {state : Region × Device} {around : Surroundings}
    (before : Recorded position start chunks state) (calm : around.Untroubled) (request : Request) :
    Recorded position start (chunks.after position around.timestamp request)
      (final request.run (state.1, state.2.onward around))
  | reopened {chunks : Chunks} {state : Region × Device} {left again : Region} {closed opened : Device}
    {around later : Surroundings} {sync : Bool} (before : Recorded position start chunks state)
    (calm : around.Untroubled) (calmLater : later.Untroubled)
    (closes : close (state.1, state.2.onward around) = .ok () (left, closed))
    (ran : load position sync (closed.onward later) = .ok again opened) :
    Recorded position start chunks (again, opened)

structure Durable [Codec] (position : RegionPos) (start : Content) (chunks : Chunks) (region : Region)
    (file : Device) : Prop where
  isFile : file.full = false
  position : region.position = position
  represents : Represents chunks region file
  traced : file.Traced start
  settled : region.sync = true → file.Settled start

theorem silent_onward (file : Device) (around : Surroundings) : file.Silent (file.onward around) :=
  ⟨rfl, rfl⟩

/-- A file of which all is on disk, or that is empty, is opened with everything on disk. -/
theorem prepare_settled {file : Device} (traced : file.Traced start)
    (ready : file.content.size ≠ 0 → file.Settled start) :
    Ends prepare file (fun _ opened => opened.Settled start) fun _ _ => True := by
  simp only [prepare, ends_bind, ends_get]
  refine Ends.mono ((Device.measure_silent file).and (Device.measure_ends file)) ?_ fun _ _ _ => trivial
  rintro size measured ⟨silent, _, rfl⟩
  by_cases empty : file.content.size = 0
  · simp only [if_pos empty, ends_bind, ends_pure]
    refine Ends.mono (Device.writeAt_logs 0 0 (Bytes.zeros headerSize) measured) ?_ fun _ _ _ => trivial
    intro _ written logs
    refine Ends.mono (logs.traced (traced.silent silent)).sync ?_ fun _ _ => id
    exact fun _ synced settled => settled.2.silent (Device.silent_notify _ synced)
  · have settled := (ready empty).silent silent
    rw [if_neg empty]
    repeat' rw [ends_ite]; split
    all_goals first | exact settled | trivial

theorem load_settled (position : RegionPos) (sync : Bool) {file : Device} (traced : file.Traced start)
    (ready : file.content.size ≠ 0 → file.Settled start) :
    Ends (load position sync) file (fun _ opened => opened.Settled start) fun _ _ => True := by
  simp only [load, readTables, ends_bind, ends_get, ends_pure]
  refine Ends.mono (prepare_settled traced ready) ?_ fun _ _ => id
  intro sectors prepared settled
  refine Ends.mono (Device.readAt_silent 0 headerSize prepared) ?_ fun _ _ _ => trivial
  intro header read silent
  have settledRead := settled.silent silent
  rw [ends_ite]
  split
  · trivial
  · rw [ends_pure]
    generalize (Tables.ofHeader header).survey sectors = survey
    refine Ends.mono (Ends.forM (fun _ noted => noted.Settled start) ?_ settledRead) ?_ fun _ _ => id
    · exact fun entry rest state before => before.silent (Device.silent_notify _ state)
    · exact fun _ noted last => last.silent (Device.silent_notify _ noted)

theorem close_settled {file : Device} (region : Region) (traced : file.Traced start)
    (untroubled : file.Untroubled) :
    Ends close (region, file) (fun _ state => state.2.Settled start) fun _ _ => False := by
  unfold close flush
  rw [ends_bind, ends_tryCatch, ends_device]
  refine Ends.mono (traced.sync.and (Device.sync_ends file)) ?_ ?_
  · rintro _ synced ⟨⟨_, settled⟩, _⟩
    rw [ends_device]
    refine Ends.mono ((Device.close_silent synced).and (Device.close_ends synced)) ?_ fun _ _ both => both.2
    exact fun _ _ both => settled.silent both.1
  · rintro _ _ ⟨_, _, troubled⟩
    exact absurd untroubled troubled

section
variable [Codec] {chunks : Chunks} {region : Region} {file : Device}

theorem Durable.served [LawfulCodec] (durable : Durable position start chunks region file)
    {around : Surroundings} (calm : around.Untroubled) (request : Request) :
    let state := final request.run (region, file.onward around)
    Durable position start (chunks.after position around.timestamp request) state.1 state.2 := by
  have untroubled : (file.onward around).Untroubled := ⟨durable.isFile, calm.ceiling, calm.schedule⟩
  have represents : Represents chunks region (file.onward around) := durable.represents.congr rfl
  have traced := durable.traced.silent (silent_onward file around)
  have sound := represents.faithful.partitioned.sound
  have guarded : Ends request.run (region, file.onward around)
      (fun _ state => region.sync = true → state.2.Settled start)
      fun _ state => region.sync = true → state.2.Settled start := by
    by_cases syncs : region.sync = true
    · have settled := (durable.settled syncs).silent (silent_onward file around)
      exact Ends.mono (represents.request_guards settled syncs untroubled request)
        (fun _ _ left _ => left.2) fun _ _ left _ => left.2
    · exact Ends.mono (ends_somehow _ _) (fun _ _ _ impossible => absurd impossible syncs)
        fun _ _ _ impossible => absurd impossible syncs
  have kept {answer : Answer} {state : Region × Device}
      (served : Served chunks request region (file.onward around) answer state)
      (sync : state.1.sync = region.sync)
      (logs : (file.onward around).Logs (fun _ => True) state.2)
      (settled : region.sync = true → state.2.Settled start) : Durable position start
        (chunks.after position around.timestamp request) state.1 state.2 := by
    have representsAfter := served.represents
    rw [durable.position] at representsAfter
    exact ⟨served.continues.full.trans durable.isFile, served.position.trans durable.position,
      representsAfter, logs.traced traced, sync ▸ settled⟩
  have ends := (represents.serve untroubled request).and ((Request.run_logs sound _ request).and guarded)
  refine Ends.final (fun state : Region × Device => Durable position start
    (chunks.after position around.timestamp request) state.1 state.2) (ends.mono ?_ ?_)
  · exact fun _ _ ⟨served, ⟨sync, logs⟩, settled⟩ => kept served sync logs settled
  · exact fun _ _ ⟨served, ⟨sync, logs⟩, settled⟩ => kept served sync logs settled

theorem Durable.reopened (durable : Durable position start chunks region file) {left again : Region}
    {closed opened : Device} {around later : Surroundings} {sync : Bool} (calm : around.Untroubled)
    (calmLater : later.Untroubled)
    (closes : close (region, file.onward around) = .ok () (left, closed))
    (ran : load position sync (closed.onward later) = .ok again opened) :
    Durable position start chunks again opened := by
  have untroubled : (file.onward around).Untroubled := ⟨durable.isFile, calm.ceiling, calm.schedule⟩
  obtain ⟨_, keeps⟩ := (ends_of_eq_ok closes).1 (close_ends region (file.onward around))
  have settled : closed.Settled start := (ends_of_eq_ok closes).1
    (close_settled region (durable.traced.silent (silent_onward file around)) untroubled)
  have settledNow := settled.silent (silent_onward closed later)
  have isFile : closed.full = false := keeps.continues.full.trans durable.isFile
  have loaded : Loaded position sync (closed.onward later) again opened := loaded_of_load isFile ran
  have represents : Represents chunks region (closed.onward later) :=
    durable.represents.congr keeps.content
  have settledOpened := (ends_of_eq_ok ran).1
    (load_settled position sync settledNow.traced fun _ => settledNow)
  refine ⟨loaded.prepared.continues.full.trans isFile, loaded.position, ?_, settledOpened.traced,
    fun _ => settledOpened⟩
  exact represents.reopened ⟨isFile, calmLater.ceiling, calmLater.schedule⟩ (durable.position ▸ loaded)

theorem Recorded.durable [LawfulCodec] {state : Region × Device}
    (recorded : Recorded position start chunks state) :
    Durable position start chunks state.1 state.2 := by
  induction recorded with
  | @created file opened sync region isStart empty new untroubled ran =>
    have loaded := loaded_of_load untroubled.full ran
    have none : file.content.size = 0 := isStart ▸ empty
    have traced : file.Traced start := by
      rw [Device.Traced, new, isStart]
      rfl
    have settled := (ends_of_eq_ok ran).1
      (load_settled position sync traced fun nonempty => absurd none nonempty)
    exact ⟨loaded.prepared.continues.full.trans untroubled.full, loaded.position,
      represents_of_loaded loaded none, settled.traced, fun _ => settled⟩
  | served before calm request ih => exact ih.served calm request
  | reopened before calm calmLater closes ran ih => exact ih.reopened calm calmLater closes ran

theorem Between.exists_load {before after : Chunks} {content : Content}
    (between : Between position before after content) (path : Bytes) {later : Surroundings}
    (calm : later.Untroubled) (sync : Bool) :
    ∃ again opened, load position sync ⟨path, content, false, later⟩ = .ok again opened ∧
      ∀ chunk, chunk.regionOf = position → ∃ payload : Option Bytes,
        outcome (loadChunk chunk) (again, opened) = .ok payload ∧
        again.hasChunk chunk = .ok payload.isSome ∧
        (payload = (before chunk).map SavedChunk.payload ∨
          payload = (after chunk).map SavedChunk.payload) := by
  obtain ⟨found, region, file, rfl, rfl, represents, either⟩ := between
  have here : Represents found region ⟨path, file.content, false, later⟩ := represents.congr rfl
  have untroubled : Device.Untroubled ⟨path, file.content, false, later⟩ := ⟨rfl, calm⟩
  have short := here.short
  rw [Partitioned.fragmentedSectors, maxExtentSectors] at short
  have admissible := here.faithful.admissible (by rw [maxSectorIndex, maxExtentSectors]; omega)
  obtain ⟨again, opened, ran, loaded⟩ := Region.exists_load region.position sync untroubled admissible
  have reopened := here.reopened untroubled loaded
  have untroubledOpened := loaded.prepared.continues.untroubled untroubled
  refine ⟨again, opened, ran, fun chunk own => ⟨(found chunk).map SavedChunk.payload, ?_, ?_, either chunk⟩⟩
  · have slot : again.slot chunk = .ok chunk.slotOf :=
      slot_eq_ok_iff.2 ⟨own.trans loaded.position.symm, rfl⟩
    rw [outcome_loadChunk again untroubledOpened, reopened.find_eq slot]
  · have slot : again.slot chunk = .ok chunk.slotOf :=
      slot_eq_ok_iff.2 ⟨own.trans loaded.position.symm, rfl⟩
    rw [reopened.hasChunk_eq slot, Option.isSome_map]

/-- For every region that syncs its changes, on a file that was empty once, after any requests and
openings; for every further request, every moment of it and every part of what was not synced at that
moment that may be lost: the file that is left can be opened, every chunk that the request does not change
is there with its last payload or is still missing, and the chunk of the request is as it was before or as
it is to be after it. -/
theorem crash_consistent [LawfulCodec] {chunks : Chunks} {region : Region} {file : Device}
    (recorded : Recorded position start chunks (region, file)) (syncs : region.sync = true)
    {around : Surroundings} (calm : around.Untroubled) (request : Request) {log : List Event}
    (since : file.around.events <:+ log)
    (upTo : log <:+ (final request.run (region, file.onward around)).2.around.events)
    {content : Content} (left : Survives start log content) (path : Bytes) {later : Surroundings}
    (calmLater : later.Untroubled) (sync : Bool) :
    ∃ again opened, load position sync ⟨path, content, false, later⟩ = .ok again opened ∧
      ∀ chunk, chunk.regionOf = position → ∃ payload : Option Bytes,
        outcome (loadChunk chunk) (again, opened) = .ok payload ∧
        again.hasChunk chunk = .ok payload.isSome ∧
        (payload = (chunks chunk).map SavedChunk.payload ∨ request.chunk? = some chunk ∧
          payload = (chunks.after position around.timestamp request chunk).map SavedChunk.payload) := by
  have durable := recorded.durable
  have untroubled : (file.onward around).Untroubled := ⟨durable.isFile, calm.ceiling, calm.schedule⟩
  have represents : Represents chunks region (file.onward around) := durable.represents.congr rfl
  have settled := (durable.settled syncs).silent (silent_onward file around)
  have guards := Ends.final (fun state : Region × Device => (file.onward around).Guards start
      (Between region.position chunks
        (chunks.after region.position (file.onward around).around.timestamp request)) state.2)
    ((represents.request_guards settled syncs untroubled request).mono (fun _ _ left => left.1)
      fun _ _ left => left.1)
  have between := guards.holds log since upTo content left
  rw [show region.position = position from durable.position] at between
  obtain ⟨again, opened, ran, found⟩ := between.exists_load path calmLater sync
  refine ⟨again, opened, ran, fun chunk own => ?_⟩
  obtain ⟨payload, loads, has, either⟩ := found chunk own
  refine ⟨payload, loads, has, ?_⟩
  by_cases concerned : request.chunk? = some chunk
  · exact either.imp_right fun same => ⟨concerned, same⟩
  · rw [Chunks.after_of_ne _ _ _ concerned, or_self] at either
    exact .inl either

end

/-- Until the next sync, the offset of a slot can be lost although the timestamp is not. -/
theorem writeEntry_survives {start : Content} {file : Device} (settled : file.Settled start)
    (isFile : file.full = false) (unlimited : file.around.ceiling = none) (slot : Slot) (offset : UInt32)
    (timestamp : Int32) {middle ahead : Turns} (first : (file.turns .writing).next = (.undisturbed, middle))
    (second : middle.next = (.undisturbed, ahead)) :
    Ends (writeEntry slot offset timestamp) file
      (fun _ after => EntryWritten slot offset timestamp file after ∧ ∃ between,
        file.Wrote (Tables.timestampPosition slot) (Bytes.ofWord timestamp.toUInt32) between ∧
        Survives start after.around.events between.content)
      fun _ _ => False := by
  unfold writeEntry
  rw [ends_bind]
  have bounded := timestampPosition_within slot timestamp.toUInt32
  have writes := Device.writeAt_of_undisturbed isFile unlimited (Nat.le_trans bounded (by decide)) first
    (Bytes.ofWord_nonempty _)
  refine Ends.mono (writes.and (settled.writeAt _ _)) ?_ fun _ _ => And.left
  rintro _ between ⟨⟨whole, left, log⟩, guards, traced, _⟩
  rw [← left.own] at second
  refine Ends.mono (Device.writeAt_of_undisturbed (whole.continues.full.trans isFile)
    (whole.continues.ceiling.trans unlimited) (Nat.le_trans (offsetPosition_within slot offset) (by decide))
    second (Bytes.ofWord_nonempty _)) ?_ fun _ _ => id
  rintro _ after ⟨wrote, _, later⟩
  refine ⟨⟨between, whole, wrote⟩, between, whole, ?_⟩
  refine later ▸ (survives_cons_iff rfl).2 ⟨rfl, between.content, log ▸ ?_, .inl rfl⟩
  refine (survives_cons_iff rfl).2 ⟨rfl, file.content, settled.left, .inr ?_⟩
  rw [Device.Traced, log] at traced
  rw [traced, settled.traced]
  rfl

theorem Change.Reaches.offset_lost [Codec] {region : Region} {file : Device} {change : Change}
    {pending : Pending} (reaches : change.Reaches region file pending) (sound : region.space.Sound)
    (settled : pending.file.Settled start) (isFile : pending.file.full = false)
    (unlimited : pending.file.around.ceiling = none) {middle ahead : Turns}
    (first : (pending.file.turns .writing).next = (.undisturbed, middle))
    (second : middle.next = (.undisturbed, ahead)) :
    ∃ log left, file.around.events <:+ log ∧
      log <:+ (final change.run (region, file)).2.around.events ∧
      (stored (replay start log)).offsets.get pending.slot = pending.offset ∧
      Survives start log left ∧ pending.file.content.size ≤ left.size ∧
      (stored left).offsets.get pending.slot = (stored pending.file.content).offsets.get pending.slot := by
  obtain ⟨placing, chunk, about, own⟩ := reaches.logs sound
  obtain ⟨_, written, ran, entry, between, wrote, survives⟩ := (writeEntry_survives settled isFile unlimited
    pending.slot pending.offset pending.timestamp first second).exists_ok
  have words : pending.file.Logs (change.Touches region) written :=
    (ends_of_eq_ok ran).1 (writeEntry_logs about own pending.offset pending.timestamp pending.file)
  have traced := words.traced settled.traced
  have syncs := Ends.final (fun state : Region × Device => written.Logs (fun _ => True) state.2)
    (reaches.ends.2 (by
      rw [show pending.write = _ from ran]
      exact syncChange_logs pending.changed written fun _ => trivial))
  obtain ⟨earlier, since, _⟩ := placing.trans words
  obtain ⟨later, upTo, _⟩ := syncs
  refine ⟨_, _, since ▸ List.suffix_append earlier _, upTo ▸ List.suffix_append later _, ?_, survives,
    wrote.size_le, ?_⟩
  · rw [← traced, stored_of_entryWritten entry, Tables.offsets_set, if_pos rfl]
  · rw [← ByteArray.extract_zero_size (b := Bytes.ofWord pending.timestamp.toUInt32)] at wrote
    rw [stored_of_wrote_timestamp wrote, Tables.offsets_set, if_pos rfl]

/-- The first record of a new file is on disk before its save comes to the words of its slot. -/
theorem Fresh.reaches_words [Codec] {file opened : Device} {region : Region} (fresh : Fresh region opened)
    (loaded : Loaded position true file region opened) (settled : opened.Settled start)
    (isFile : opened.full = false) {chunk : ChunkPos} {slot : Slot} (own : region.slot chunk = .ok slot)
    {payload data : Bytes} {tag : UInt8} (accepted : encodeChunk payload tag = .ok data)
    (small : sectorsOf (record data).size ≤ maxExtentSectors) :
    ∃ pending, Change.Reaches region (opened.onward Surroundings.initial) (.save chunk payload tag) pending ∧
      pending.slot = slot ∧
      pending.offset = Extent.toWord ⟨headerSectors, (sectorsOf (record data).size).toUInt32⟩ ∧
      pending.file.Settled start ∧ pending.file.full = false ∧ pending.file.around.ceiling = none ∧
      pending.file.turns .writing = [] ∧ headerSize ≤ pending.file.content.size ∧
      (Region.stored pending.file.content).offsets.get slot = 0 := by
  have isFileNow : (opened.onward Surroundings.initial).full = false := isFile
  have faithful : Faithful region (opened.onward Surroundings.initial) := loaded.faithful.congr rfl
  have noFree := fresh.noFree faithful.partitioned.sound
  have moves : ∀ place, region.tables.extent? slot = some place →
      place.count.toNat < sectorsOf (record data).size :=
    FreeSpace.moves_of_absent (Tables.extent?_eq_none_iff.2 (fresh.absent _))
  have first : region.space.sectors = headerSectors := UInt32.toNat_inj.1 fresh.sectors
  have short : region.space.sectors.toNat ≤ maxSectorIndex := by
    rw [first]
    decide
  have nonempty : 0 < (record data).size := by
    rw [size_record]
    omega
  obtain ⟨extent, ⟨next, placed⟩, ran, continues, turns, _⟩ :=
    (FreeSpace.place_of_undisturbed faithful.partitioned.sound noFree short nonempty small moves
      isFileNow rfl rfl rfl rfl).exists_ok
  have settledNow := settled.silent (silent_onward opened Surroundings.initial)
  have settledPlaced := ((ends_of_eq_ok (FreeSpace.writeRecord_of_place ran)).1
    (FreeSpace.writeRecord_guards settledNow _ _)).2
  rw [← loaded.sync] at ran
  have wrote := faithful.intact.placed ran
  obtain ⟨rfl, rfl⟩ := wrote.target.eq_of_noFree noFree moves
  refine ⟨_, .save own accepted ran, rfl, ?_, settledPlaced, continues.full.trans isFileNow,
    continues.ceiling, turns, Nat.le_trans faithful.header_le wrote.wrote.size_le, ?_⟩
  · rw [FreeSpace.tail, first]
  · rw [faithful.intact.placed_stored wrote]
    exact fresh.stored slot

theorem hasChunk_of_zero {file opened : Device} {region : Region} {sync : Bool} {chunk : ChunkPos}
    (ran : load position sync file = .ok region opened) (isFile : file.full = false)
    (header : headerSize ≤ file.content.size) (own : chunk.regionOf = position) {slot : Slot}
    (isSlot : slot = chunk.slotOf) (zero : (stored file.content).offsets.get slot = 0) :
    region.hasChunk chunk = .ok false := by
  have loaded := loaded_of_load isFile ran
  have nonempty : file.content.size ≠ 0 := Nat.ne_of_gt (Nat.lt_of_lt_of_le (by decide) header)
  rw [← loaded.content_eq nonempty] at zero
  rw [hasChunk_of_slot (slot_eq_ok_iff.2 ⟨own.trans loaded.position.symm, isSlot⟩),
    loaded.faithful.absent zero]
  rfl

/-- A chunk is saved to a new file, and everything stops before the last sync. Of the words of its slot, the
offset is lost and the timestamp is not: the chunk is still missing. -/
theorem crash_consistent_new :
    let request : Request := .save ⟨0, 0⟩ ⟨#[97, 98, 99]⟩ Method.plain.tag
    ∃ region opened log left again reopened,
      Recorded ⟨0, 0⟩ Content.empty Chunks.empty (region, opened) ∧ region.sync = true ∧
      opened.around.events <:+ log ∧
      log <:+ (final request.run (region, opened.onward Surroundings.initial)).2.around.events ∧
      (stored (replay Content.empty log)).offsets.get ⟨0, by decide⟩ = 513 ∧
      Survives Content.empty log left ∧ (stored left).offsets.get ⟨0, by decide⟩ = 0 ∧
      load ⟨0, 0⟩ true ⟨ByteArray.empty, left, false, Surroundings.initial⟩ = .ok again reopened ∧
      outcome (loadChunk ⟨0, 0⟩) (again, reopened) = .ok none ∧ again.hasChunk ⟨0, 0⟩ = .ok false := by
  intro request
  have untroubled : newFile.Untroubled := ⟨rfl, untroubled_initial⟩
  obtain ⟨region, opened, ran, loaded, fresh⟩ := blank_newFile.exists_load untroubled ⟨0, 0⟩ true
  have recorded : Recorded ⟨0, 0⟩ Content.empty Chunks.empty (region, opened) :=
    .created rfl rfl rfl untroubled ran
  have own : region.slot ⟨0, 0⟩ = .ok ⟨0, by decide⟩ := by
    rw [slot, loaded.position]
    rfl
  have accepted : encodeChunk ⟨#[97, 98, 99]⟩ Method.plain.tag = .ok ⟨#[3, 97, 98, 99]⟩ := rfl
  obtain ⟨pending, reaches, isSlot, isOffset, settled, isFile, unlimited, turns, header, before⟩ :=
    fresh.reaches_words loaded (recorded.durable.settled loaded.sync) recorded.durable.isFile own accepted
      (by decide)
  obtain ⟨log, left, since, upTo, put, survives, longer, lost⟩ := reaches.offset_lost
    loaded.faithful.partitioned.sound settled isFile unlimited (by rw [turns]; rfl) rfl
  rw [isSlot] at put lost
  have zero := lost.trans before
  have upToAnswer :
      log <:+ (final request.run (region, opened.onward Surroundings.initial)).2.around.events := by
    rw [Request.run, final_map]
    exact upTo
  obtain ⟨again, reopened, ranAgain, found⟩ := crash_consistent recorded loaded.sync untroubled_initial
    request since upToAnswer survives ByteArray.empty untroubled_initial true
  obtain ⟨payload, loads, has, _⟩ := found ⟨0, 0⟩ (by decide)
  have missing : again.hasChunk ⟨0, 0⟩ = .ok false :=
    hasChunk_of_zero ranAgain rfl (Nat.le_trans header longer) (by decide) (by decide) zero
  rw [missing, Except.ok.injEq, eq_comm, Option.isSome_eq_false_iff, Option.isNone_iff_eq_none] at has
  rw [has] at loads
  exact ⟨region, opened, log, left, again, reopened, recorded, loaded.sync, since, upToAnswer,
    put.trans isOffset, survives, zero, ranAgain, loads, missing⟩

end Region
end RegionStore
