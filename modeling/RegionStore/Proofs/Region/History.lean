import RegionStore.Proofs.Region.Chunks

/-!
The history of a file that was new once: a region is opened on it, changed, closed and opened again, and
any call may fail. `Compact` says what holds of it at all times. Two more facts hold as long as certain
calls get through: the words on disk are the live ones unless the words of a slot could not be written,
and the file ends with its last sector unless it could not be cut.
-/

set_option autoImplicit false

namespace RegionStore.Region

open Disk

/-- A file without a byte, or with a header of zeros, which a creation may leave that fails at its end. -/
structure Blank (file : Device) : Prop where
  isFile : file.full = false
  size : file.content.size = 0 ∨ file.content.size = headerSize
  zero : ∀ position, file.content.byteAt position = 0

/-- An open region and its file since the file was new, with a condition on the changes that were made. An
attempt to open the file again that fails leaves its content alone, so only the last one counts. -/
inductive Reached [Codec] (position : RegionPos) (Allowed : Region × Device → Surroundings × Change → Prop) :
    Region × Device → Prop where
  | opened {file opened : Device} {sync : Bool} {region : Region} (blank : Blank file)
    (ran : load position sync file = .ok region opened) : Reached position Allowed (region, opened)
  | changed {state : Region × Device} {step : Surroundings × Change}
    (before : Reached position Allowed state) (allowed : Allowed state step) :
    Reached position Allowed (Change.apply state step)
  | reopened {state : Region × Device} {around later : Surroundings} {left again : Region}
    {closed opened : Device} {sync : Bool} (before : Reached position Allowed state)
    (closes : close (state.1, state.2.under around) = .ok () (left, closed))
    (ran : load position sync (closed.under later) = .ok again opened) :
    Reached position Allowed (again, opened)

theorem Reached.mono [Codec] {position : RegionPos}
    {Allowed Allowed' : Region × Device → Surroundings × Change → Prop} {state : Region × Device}
    (reached : Reached position Allowed state)
    (weaker : ∀ state step, Allowed state step → Allowed' state step) :
    Reached position Allowed' state := by
  induction reached with
  | opened blank ran => exact .opened blank ran
  | changed before allowed ih => exact .changed ih (weaker _ _ allowed)
  | reopened before closes ran ih => exact .reopened ih closes ran

/-- The region in a blank file has no chunks, on disk or in memory, and no sectors behind the header. -/
structure Fresh (region : Region) (file : Device) : Prop where
  size : file.content.size = headerSize
  sectors : region.space.sectors.toNat = headerSectors.toNat
  stored : ∀ slot, (stored file.content).offsets.get slot = 0
  absent : ∀ slot, region.tables.offsets.get slot = 0

theorem Loaded.zeros {position : RegionPos} {sync : Bool} {file after : Device} {region : Region}
    (loaded : Loaded position sync file region after) (blank : Blank file) :
    after.content.Zeros headerSize := by
  have content := loaded.prepared.content
  split at content
  · next empty =>
    constructor
    · rw [content.size, Content.size_write, empty, Bytes.size_zeros, headerSize]
      rfl
    · intro index
      rw [content.byte, Content.byteAt_write, Bytes.get_zeros, blank.zero, ite_self]
  · next nonempty =>
    rw [content]
    exact ⟨blank.size.resolve_left nonempty, blank.zero⟩

theorem Loaded.fresh {position : RegionPos} {sync : Bool} {file after : Device} {region : Region}
    (loaded : Loaded position sync file region after) (blank : Blank file) : Fresh region after := by
  have zeros := loaded.zeros blank
  have zero := offsets_stored_of_zero fun index _ => zeros.zero index
  refine ⟨zeros.size, ?_, zero, fun slot => Tables.extent?_eq_none_iff.1 (loaded.faithful.absent (zero slot))⟩
  have size := loaded.prepared.size
  rw [zeros.size, headerSize, sectorSize] at size
  rw [Extent.headerSectors_toNat]
  omega

theorem Fresh.noFree {region : Region} {file : Device} (fresh : Fresh region file)
    (sound : region.space.Sound) : region.space.byStart = [] :=
  sound.noFree_of_header (Nat.le_of_eq fresh.sectors)

theorem Blank.exists_load {file : Device} (blank : Blank file) (untroubled : file.Untroubled)
    (position : RegionPos) (sync : Bool) :
    ∃ region opened, load position sync file = .ok region opened ∧
      Loaded position sync file region opened ∧ Fresh region opened := by
  have admissible : Admissible file.content.size := by
    rcases blank.size with empty | header
    · exact .inl empty
    · rw [header]
      decide
  obtain ⟨region, opened, ran, loaded⟩ := Region.exists_load position sync untroubled admissible
  exact ⟨region, opened, ran, loaded, loaded.fresh blank⟩

section
variable [Codec]

theorem Fresh.exists_save {position : RegionPos} {sync : Bool} {file opened : Device} {region : Region}
    (fresh : Fresh region opened) (loaded : Loaded position sync file region opened)
    (isFile : file.full = false) {around : Surroundings} (calm : around.Untroubled) {chunk : ChunkPos}
    (own : chunk.regionOf = position) {payload data : Bytes} {tag : UInt8}
    (accepted : encodeChunk payload tag = .ok data)
    (small : sectorsOf (record data).size ≤ maxExtentSectors) :
    ∃ saved after, Change.apply (region, opened) (around, .save chunk payload tag) = (saved, after) ∧
      Appended region chunk.slotOf data (opened.under around)
        ⟨headerSectors, (sectorsOf (record data).size).toUInt32⟩ saved after := by
  have untroubled : (opened.under around).Untroubled :=
    ⟨loaded.prepared.continues.full.trans isFile, calm⟩
  have faithful : Faithful region (opened.under around) := loaded.faithful.congr rfl
  have inRegion : region.slot chunk = .ok chunk.slotOf :=
    slot_eq_ok_iff.2 ⟨own.trans loaded.position.symm, rfl⟩
  have absent : region.tables.extent? chunk.slotOf = none :=
    Tables.extent?_eq_none_iff.2 (fresh.absent _)
  have short : region.space.sectors.toNat ≤ maxSectorIndex := by
    rw [fresh.sectors]
    decide
  obtain ⟨saved, after, ran, appended⟩ := faithful.exists_append untroubled
    (fresh.noFree faithful.partitioned.sound) short inRegion absent accepted small
  refine ⟨saved, after, ?_, ?_⟩
  · change final (saveChunk chunk payload tag) (region, opened.under around) = _
    rw [final, ran]
  · have first : region.space.sectors = headerSectors := UInt32.toNat_inj.1 fresh.sectors
    rwa [FreeSpace.tail, first] at appended

def newFile : Device := ⟨"r.0.0.mca", Content.empty, false, Surroundings.initial⟩

omit [Codec] in
theorem blank_newFile : Blank newFile :=
  ⟨rfl, .inl rfl, fun _ => Content.byteAt_of_size_le (Nat.zero_le _)⟩

omit [Codec] in
theorem untroubled_initial : Surroundings.initial.Untroubled := ⟨rfl, Schedule.calm_mild⟩

structure Pending.Framed (region : Region) (file : Device) (pending : Pending) : Prop where
  continues : file.Continues pending.file
  stored : stored pending.file.content = stored file.content
  positions : pending.kept.position = region.position ∧ pending.changed.position = region.position
  tables : pending.kept.tables = region.tables
  changes : pending.changed.tables = region.tables.set pending.slot pending.offset pending.timestamp
  sectors : pending.kept.space.sectors = pending.changed.space.sectors
  longer : region.space.sectors.toNat ≤ pending.changed.space.sectors.toNat
  size : pending.file.content.size =
    max file.content.size (pending.changed.space.sectors.toNat * sectorSize)
  others : ∀ other place, other ≠ pending.slot → region.tables.extent? other = some place →
    pending.file.content.read place.position place.size =
      file.content.read place.position place.size

theorem Intact.framed {limit : Nat} {region : Region} {file : Device}
    (intact : Intact limit region file) {change : Change} {pending : Pending}
    (reaches : change.Reaches region file pending) : pending.Framed region file := by
  cases reaches with
  | @save _ _ _ slot data extent next placed own accepted ran =>
    have wrote := intact.placed ran
    obtain ⟨inside, longer⟩ := intact.target_inside wrote.target wrote.small
    refine ⟨wrote.wrote.continues, intact.placed_stored wrote, ⟨rfl, rfl⟩, rfl, rfl, ?_, ?_, ?_, ?_⟩
    · rw [sectors_unmoved, sectors_moved]
    · rwa [sectors_moved]
    · have size := intact.placed_size wrote
      have covered := intact.covered_next wrote
      have last := inside.end_le
      rw [sectors_moved]
      dsimp only
      omega
    · intro other place different found
      exact intact.read_of_spares wrote.target wrote.small (intact.placed_spares wrote) found
        (.inl different)
  | @delete _ slot extent own present =>
    have same : (region.removed slot extent).space.sectors = region.space.sectors :=
      FreeSpace.sectors_release ..
    refine ⟨Device.Continues.refl file, rfl, ⟨rfl, rfl⟩, rfl, rfl, same.symm, ?_, ?_, fun _ _ _ _ => rfl⟩
    · exact Nat.le_of_eq (congrArg UInt32.toNat same.symm)
    · have covered := intact.covered
      simp only [same]
      omega

structure Compact (position : RegionPos) (region : Region) (file : Device) : Prop where
  position : region.position = position
  isFile : file.full = false
  intact : Intact (Partitioned.fragmentedSectors + maxExtentSectors) region file
  short : file.content.size ≤ (Partitioned.fragmentedSectors + maxExtentSectors) * sectorSize

/-- The words on disk are the live ones. Without a chunk the timestamp does not matter. -/
structure Mirrored (region : Region) (file : Device) : Prop where
  offsets : ∀ slot : Slot, (stored file.content).offsets.get slot = region.tables.offsets.get slot
  timestamps : ∀ slot : Slot, region.tables.offsets.get slot ≠ 0 →
    (stored file.content).timestamps.get slot = region.tables.timestamps.get slot

def Exact (region : Region) (file : Device) : Prop :=
  file.content.size = region.space.sectors.toNat * sectorSize

def Change.EntryFails (region : Region) (file : Device) (change : Change) : Prop :=
  ∃ pending failure after, change.Reaches region file pending ∧ pending.write = .error failure after

/-- The words of a slot are written, if the step comes to them. -/
def EntryWrites (state : Region × Device) (step : Surroundings × Change) : Prop :=
  ¬ step.2.EntryFails state.1 (state.2.under step.1)

theorem entryWrites_of_untroubled {limit : Nat} {state : Region × Device} {step : Surroundings × Change}
    (intact : Intact limit state.1 state.2) (isFile : state.2.full = false)
    (calm : step.1.Untroubled) : EntryWrites state step := by
  rintro ⟨pending, failure, after, reaches, ran⟩
  have start : Intact limit state.1 (state.2.under step.1) := intact.grown (Nat.le_refl _)
  have untroubled : (state.2.under step.1).Untroubled := ⟨isFile, calm⟩
  refine ((ends_of_eq_error ran).1 (writeEntry_ends ..)).2 ?_
  exact (start.framed reaches).continues.untroubled untroubled

def Resizes (_ : Region × Device) (step : Surroundings × Change) : Prop := step.1.Resizes

omit [Codec] in
theorem Compact.keeps {position : RegionPos} {region : Region} {file after : Device}
    (compact : Compact position region file) (keeps : file.Keeps after) :
    Compact position region after := by
  refine ⟨compact.position, keeps.continues.full.trans compact.isFile, compact.intact.keeps keeps, ?_⟩
  rw [keeps.content]
  exact compact.short

omit [Codec] in
theorem Compact.under {position : RegionPos} {region : Region} {file : Device}
    (compact : Compact position region file) (around : Surroundings) :
    Compact position region (file.under around) :=
  ⟨compact.position, compact.isFile, compact.intact.grown (Nat.le_refl _), compact.short⟩

theorem Compact.fits {position : RegionPos} {region : Region} {file : Device}
    (compact : Compact position region file) (change : Change) :
    change.Fits (Partitioned.fragmentedSectors + maxExtentSectors) region :=
  compact.intact.fits (Nat.le_refl _) (by decide) change

theorem Compact.reaches {position : RegionPos} {region : Region} {file : Device}
    (compact : Compact position region file) {change : Change} {pending : Pending}
    (reaches : change.Reaches region file pending) :
    Compact position pending.kept pending.file ∧ Compact position pending.changed pending.file := by
  obtain ⟨kept, changed⟩ := compact.intact.reaches (compact.fits change) reaches
  have framed := compact.intact.framed reaches
  have isFile := framed.continues.full.trans compact.isFile
  have short : pending.file.content.size ≤
      (Partitioned.fragmentedSectors + maxExtentSectors) * sectorSize := by
    rw [framed.size]
    exact Nat.max_le.2 ⟨compact.short, Nat.mul_le_mul_right _ changed.short⟩
  exact ⟨⟨framed.positions.1.trans compact.position, isFile, kept, short⟩,
    ⟨framed.positions.2.trans compact.position, isFile, changed, short⟩⟩

omit [Codec] in
theorem Compact.confined {position : RegionPos} {region : Region} {file after : Device}
    (compact : Compact position region file) (continues : file.Continues after)
    (size : after.content.size = file.content.size) : Compact position region after := by
  refine ⟨compact.position, continues.full.trans compact.isFile,
    compact.intact.grown (Nat.le_of_eq size.symm), ?_⟩
  rw [size]
  exact compact.short

omit [Codec] in
/-- A record that has not got through does not make the file longer than its sectors would. -/
theorem Compact.lost {position : RegionPos} {region : Region} {file after : Device}
    (compact : Compact position region file) (lost : RecordLost region file after) :
    Compact position region after := by
  have intact := compact.intact
  obtain ⟨slot, data, extent, next, target, small, spoiled, _⟩ := lost
  obtain ⟨count, _, between, wrote, ending⟩ := spoiled.content
  refine ⟨compact.position, spoiled.continues.full.trans compact.isFile,
    ⟨intact.partitioned, intact.short, intact.covered_spoiled spoiled⟩, ?_⟩
  have nextShort := intact.short_next (Nat.le_refl _) target small
  have last := (intact.target_inside target small).1.end_le
  have scaled := Nat.mul_le_mul_right sectorSize nextShort
  have size : (extent.padded (record data)).size = extent.size := Extent.size_padded target.fits
  have atMost : between.content.size ≤
      (Partitioned.fragmentedSectors + maxExtentSectors) * sectorSize := by
    have := compact.short
    rw [wrote.content.size, Content.size_write, ByteArray.size_extract]
    split <;> omega
  rcases ending with same | ⟨_, cut⟩
  · rw [same]
    exact atMost
  · rw [cut, Content.size_resize]
    exact Nat.mul_le_mul_right _ intact.short

theorem Compact.change {position : RegionPos} {region : Region} {file : Device}
    (compact : Compact position region file) (change : Change) :
    Ends change.run (region, file) (fun _ state => Compact position state.1 state.2)
      fun _ state => Compact position state.1 state.2 := by
  refine compact.intact.change_ends change (Compact position) ?_ ?_ ?_ ?_
  · exact fun after keeps => compact.keeps keeps
  · exact fun after lost => compact.lost lost
  · intro pending failure after reaches ran
    have kept := (compact.reaches reaches).1
    have cut := Pending.entryCut ran
    exact kept.confined cut.continues (cut.confined kept.intact.header_present).1
  · intro pending after synced reaches entry keeps
    have changed := (compact.reaches reaches).2
    exact (changed.confined entry.continues (entry.confined changed.intact.header_present).1).keeps keeps

omit [Codec] in
/-- The end of the file is where it was if a part of a record that was appended can be cut off again. -/
theorem Exact.lost {limit : Nat} {region : Region} {file after : Device} (exact : Exact region file)
    (intact : Intact limit region file) (isFile : file.full = false) (resizes : file.around.Resizes)
    (lost : RecordLost region file after) : Exact region after := by
  obtain ⟨slot, data, extent, next, target, small, spoiled, cut⟩ := lost
  have inside := (intact.target_inside target small).1
  by_cases behind : extent.first = region.space.sectors
  · refine cut (fun same => ?_) behind isFile resizes
    have here := intact.partitioned.inside slot extent same
    have within := here.within
    have nonempty := here.nonempty
    rw [Extent.behind_def, behind] at within
    omega
  · have within : extent.Inside region.space.sectors.toNat := by
      cases target with
      | stays same fits kept => exact kept ▸ inside
      | carved moves size carves => exact carves.sectors ▸ inside
      | appended moves size appends => exact absurd appends.first behind
    obtain ⟨count, _, between, wrote, same | ⟨first, _⟩⟩ := spoiled.content
    · have last := within.end_le
      rw [← Extent.size_padded target.fits, ← show file.content.size = _ from exact] at last
      rw [Exact, same, wrote.size (extract_within last count)]
      exact exact
    · exact absurd first behind

theorem Exact.change {limit : Nat} {region : Region} {file : Device} (exact : Exact region file)
    (intact : Intact limit region file) (isFile : file.full = false) (resizes : file.around.Resizes)
    (change : Change) : Ends change.run (region, file) (fun _ state => Exact state.1 state.2)
      fun _ state => Exact state.1 state.2 := by
  have placed {pending : Pending} (reaches : change.Reaches region file pending) :
      pending.file.content.size = pending.changed.space.sectors.toNat * sectorSize ∧
        headerSize ≤ pending.file.content.size := by
    have framed := intact.framed reaches
    have scaled := Nat.mul_le_mul_right sectorSize framed.longer
    have header := intact.header_le
    have size := framed.size
    rw [show file.content.size = _ from exact] at size
    omega
  refine intact.change_ends change Exact ?_ ?_ ?_ ?_
  · intro after keeps
    rw [Exact, keeps.content]
    exact exact
  · exact fun after lost => exact.lost intact isFile resizes lost
  · intro pending failure after reaches ran
    obtain ⟨size, header⟩ := placed reaches
    rw [Exact, ((Pending.entryCut ran).confined header).1, size, (intact.framed reaches).sectors]
  · intro pending after synced reaches entry keeps
    obtain ⟨size, header⟩ := placed reaches
    rw [Exact, keeps.content, (entry.confined header).1, size]

end

theorem Mirrored.congr {region : Region} {file after : Device} (mirrored : Mirrored region file)
    (same : stored after.content = stored file.content) : Mirrored region after := by
  refine ⟨fun slot => ?_, fun slot present => ?_⟩
  · rw [same]
    exact mirrored.offsets slot
  · rw [same]
    exact mirrored.timestamps slot present

theorem Mirrored.set {region changed : Region} {file after : Device} (mirrored : Mirrored region file)
    {slot : Slot} {offset : UInt32} {timestamp : Int32}
    (tables : changed.tables = region.tables.set slot offset timestamp)
    (onDisk : stored after.content = (stored file.content).set slot offset timestamp) :
    Mirrored changed after := by
  refine ⟨fun other => ?_, fun other present => ?_⟩
  · rw [tables, onDisk, Tables.offsets_set, Tables.offsets_set, mirrored.offsets]
  · rw [tables, Tables.offsets_set] at present
    rw [tables, onDisk, Tables.timestamps_set, Tables.timestamps_set]
    split
    · rfl
    · next different =>
      rw [if_neg different] at present
      exact mirrored.timestamps other present

theorem RecordLost.stored {limit : Nat} {region : Region} {file after : Device}
    (lost : RecordLost region file after) (intact : Intact limit region file) :
    stored after.content = stored file.content := by
  obtain ⟨slot, data, extent, next, target, small, spoiled, _⟩ := lost
  exact stored_of_spares (spoiled.spares intact.covered) intact.header_le
    (intact.target_inside target small).1.position_ge

theorem Mirrored.change [Codec] {limit : Nat} {region : Region} {file : Device}
    (mirrored : Mirrored region file) (intact : Intact limit region file) {change : Change}
    (writes : ¬ change.EntryFails region file) :
    Ends change.run (region, file) (fun _ state => Mirrored state.1 state.2)
      fun _ state => Mirrored state.1 state.2 := by
  refine intact.change_ends change Mirrored ?_ ?_ ?_ ?_
  · exact fun after keeps => mirrored.congr (congrArg Region.stored keeps.content)
  · exact fun after lost => mirrored.congr (lost.stored intact)
  · exact fun pending failure after reaches ran =>
      absurd ⟨pending, failure, after, reaches, ran⟩ writes
  · intro pending after synced reaches entry keeps
    have framed := intact.framed reaches
    refine mirrored.set framed.changes ?_
    rw [keeps.content, stored_of_entryWritten entry, framed.stored]

/-- Chunks that are mirrored come back when the file is opened again. -/
theorem Mirrored.recovers {region : Region} {file : Device} (mirrored : Mirrored region file)
    (sectors : Nat) : (stored file.content).Recovers region.tables sectors := by
  refine ⟨fun slot present => ⟨mirrored.offsets slot, mirrored.timestamps slot present⟩, ?_⟩
  intro slot extent absent found _
  have gone := Tables.extent?_eq_none_iff.1 absent
  rw [← mirrored.offsets slot] at gone
  exact absurd gone (Tables.extent?_eq_some_iff.1 found).1

theorem Mirrored.reopened {limit : Nat} {position : RegionPos} {sync : Bool} {region again : Region}
    {file after : Device} (mirrored : Mirrored region file) (intact : Intact limit region file)
    (loaded : Loaded position sync file again after) : Mirrored again after := by
  have content := loaded.content_eq (intact.nonempty)
  have same := (loaded.recovers_iff intact).2 (mirrored.recovers _)
  refine ⟨fun slot => ?_, fun slot present => loaded.faithful.timestamps slot present⟩
  rw [content, mirrored.offsets]
  exact (Tables.extent?_eq_iff.1 (same slot).1).symm

theorem Fresh.mirrored {region : Region} {file : Device} (fresh : Fresh region file) :
    Mirrored region file :=
  ⟨fun slot => (fresh.stored slot).trans (fresh.absent slot).symm,
    fun slot present => absurd (fresh.absent slot) present⟩

theorem Loaded.compact {position : RegionPos} {sync : Bool} {file after : Device} {region : Region}
    (loaded : Loaded position sync file region after) (isFile : file.full = false)
    (short : after.content.size ≤ (Partitioned.fragmentedSectors + maxExtentSectors) * sectorSize) :
    Compact position region after := by
  refine ⟨loaded.position, loaded.prepared.continues.full.trans isFile, loaded.intact ?_, short⟩
  rw [loaded.prepared.size] at short
  exact Nat.le_of_mul_le_mul_right short (by decide)

theorem Compact.content_eq {position : RegionPos} {sync : Bool} {region again : Region}
    {file after : Device} (compact : Compact position region file)
    (loaded : Loaded position sync file again after) : after.content = file.content :=
  loaded.content_eq compact.intact.nonempty

theorem Compact.reopened {position : RegionPos} {sync : Bool} {region again : Region}
    {file after : Device} (compact : Compact position region file)
    (loaded : Loaded position sync file again after) : Compact position again after := by
  refine loaded.compact compact.isFile ?_
  rw [compact.content_eq loaded]
  exact compact.short

theorem Compact.loaded {position : RegionPos} {sync : Bool} {region left again : Region}
    {file closed opened : Device} (compact : Compact position region file) {around later : Surroundings}
    (closes : close (region, file.under around) = .ok () (left, closed))
    (ran : load position sync (closed.under later) = .ok again opened) :
    (file.under around).Keeps closed ∧ Compact position region (closed.under later) ∧
      Loaded position sync (closed.under later) again opened := by
  obtain ⟨_, keeps⟩ := (ends_of_eq_ok closes).1 (close_ends region (file.under around))
  have shut := ((compact.under around).keeps keeps).under later
  exact ⟨keeps, shut, loaded_of_load shut.isFile ran⟩

section
variable [Codec] {position : RegionPos} {Allowed : Region × Device → Surroundings × Change → Prop}
  {state : Region × Device}

theorem Reached.compact (reached : Reached position Allowed state) :
    Compact position state.1 state.2 := by
  induction reached with
  | opened blank ran =>
    have loaded := loaded_of_load blank.isFile ran
    refine loaded.compact blank.isFile ?_
    rw [(loaded.fresh blank).size]
    decide
  | @changed state step _ _ ih =>
    exact Ends.final (fun state : Region × Device => Compact position state.1 state.2)
      ((ih.under step.1).change step.2)
  | reopened _ closes ran ih =>
    obtain ⟨_, shut, loaded⟩ := ih.loaded closes ran
    exact shut.reopened loaded

theorem Reached.exact (reached : Reached position Resizes state) : Exact state.1 state.2 := by
  induction reached with
  | opened blank ran => exact (loaded_of_load blank.isFile ran).prepared.size
  | @changed state step before resizes ih =>
    have start := before.compact.under step.1
    have exact : Exact state.1 (state.2.under step.1) := ih
    exact Ends.final (fun state : Region × Device => Exact state.1 state.2)
      (exact.change start.intact start.isFile resizes step.2)
  | reopened before closes ran ih =>
    exact (before.compact.loaded closes ran).2.2.prepared.size

theorem Reached.mirrored (reached : Reached position EntryWrites state) :
    Mirrored state.1 state.2 := by
  induction reached with
  | opened blank ran => exact ((loaded_of_load blank.isFile ran).fresh blank).mirrored
  | @changed state step before writes ih =>
    have start := before.compact.under step.1
    have mirrored : Mirrored state.1 (state.2.under step.1) := ih.congr rfl
    exact Ends.final (fun state : Region × Device => Mirrored state.1 state.2)
      (mirrored.change start.intact writes)
  | @reopened state _ later _ _ closed _ _ before closes ran ih =>
    obtain ⟨keeps, shut, loaded⟩ := before.compact.loaded closes ran
    have mirrored : Mirrored state.1 (closed.under later) :=
      ih.congr (congrArg Region.stored keeps.content)
    exact mirrored.reopened shut.intact loaded

end

end RegionStore.Region
