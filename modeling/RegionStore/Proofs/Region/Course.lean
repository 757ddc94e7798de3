import RegionStore.Proofs.Region.Changes

/-!
How far a change of an open region gets. Either nothing is written, or the record of a save cannot be
placed, or the change comes to the words of its slot. From there on it is decided by the two writes of
these words; a sync that fails afterwards does not take the change back.
-/

set_option autoImplicit false

namespace RegionStore

open Disk

def Disk.Device.under (file : Device) (around : Surroundings) : Device := { file with around := around }

@[simp] theorem Disk.Device.content_under (file : Device) (around : Surroundings) :
    (file.under around).content = file.content := rfl

namespace Region

inductive Change where
  | save (chunk : ChunkPos) (payload : Bytes) (tag : UInt8)
  | delete (chunk : ChunkPos)
  | flush

variable [Codec]

def Change.run : Change → OnRegion Unit
  | .save chunk payload tag => saveChunk chunk payload tag
  | .delete chunk => deleteChunk chunk
  | .flush => Region.flush

/-- What is about to happen when a change comes to the words of its slot. -/
structure Pending where
  slot : Slot
  offset : UInt32
  timestamp : Int32
  /-- The region if the words cannot be written. -/
  kept : Region
  /-- The region once they have been written. -/
  changed : Region
  file : Device

def Pending.write (pending : Pending) : EStateM.Result Failure Device Unit :=
  writeEntry pending.slot pending.offset pending.timestamp pending.file

omit [Codec] in
theorem Pending.entryWritten {pending : Pending} {result : Unit} {after : Device}
    (ran : pending.write = .ok result after) :
    EntryWritten pending.slot pending.offset pending.timestamp pending.file after :=
  (ends_of_eq_ok ran).1 (writeEntry_ends ..)

omit [Codec] in
theorem Pending.entryCut {pending : Pending} {failure : Failure} {after : Device}
    (ran : pending.write = .error failure after) :
    EntryCut pending.slot pending.offset pending.timestamp pending.file after :=
  ((ends_of_eq_error ran).1 (writeEntry_ends ..)).1

inductive Change.Reaches (region : Region) (file : Device) : Change → Pending → Prop where
  | save {chunk : ChunkPos} {payload : Bytes} {tag : UInt8} {slot : Slot} {data : Bytes}
    {extent : Extent} {next : FreeSpace} {placed : Device} (own : region.slot chunk = .ok slot)
    (accepted : encodeChunk payload tag = .ok data)
    (ran : FreeSpace.place (record data) (region.tables.extent? slot) region.sync
      (region.space, file) = .ok extent (next, placed)) :
    Reaches region file (.save chunk payload tag)
      ⟨slot, extent.toWord, placed.around.timestamp, region.unmoved slot extent next,
        region.moved slot extent next placed.around.timestamp, placed⟩
  | delete {chunk : ChunkPos} {slot : Slot} {extent : Extent} (own : region.slot chunk = .ok slot)
    (present : region.tables.extent? slot = some extent) :
    Reaches region file (.delete chunk) ⟨slot, 0, 0, region, region.removed slot extent, file⟩

theorem Change.Reaches.unique {region : Region} {file : Device} {change : Change} {a b : Pending}
    (first : change.Reaches region file a) (second : change.Reaches region file b) : a = b := by
  cases first with
  | save own accepted ran =>
    cases second with
    | save own' accepted' ran' =>
      cases own.symm.trans own'
      cases accepted.symm.trans accepted'
      cases ran.symm.trans ran'
      rfl
  | delete own present =>
    cases second with
    | delete own' present' =>
      cases own.symm.trans own'
      cases present.symm.trans present'
      rfl

section
variable {region : Region} {file : Device} {done : Unit → Region × Device → Prop}
  {failed : Failure → Region × Device → Prop}

theorem ends_saveChunk {chunk : ChunkPos} {payload : Bytes} {tag : UInt8} {slot : Slot} {data : Bytes}
    (own : region.slot chunk = .ok slot) (accepted : encodeChunk payload tag = .ok data) :
    Ends (saveChunk chunk payload tag) (region, file) done failed ↔
      Ends (saveData slot data) (region, file) done failed := by
  unfold saveChunk
  simp only [ends_bind, ends_get, ends_ofExcept, own, accepted]

theorem saveChunk_of_unplaced {chunk : ChunkPos} {payload : Bytes} {tag : UInt8} {slot : Slot}
    {data : Bytes} {failure : Failure} {space : FreeSpace} {after : Device}
    (own : region.slot chunk = .ok slot) (accepted : encodeChunk payload tag = .ok data)
    (ran : FreeSpace.place (record data) (region.tables.extent? slot) region.sync
      (region.space, file) = .error failure (space, after)) :
    saveChunk chunk payload tag (region, file) = .error failure ({ region with space := space }, after) := by
  apply Ends.eq_error
  rw [ends_saveChunk own accepted]
  unfold saveData
  simp only [ends_bind, ends_get, ends_onSpace]
  rw [ends_of_eq_error ran]
  exact ⟨rfl, rfl⟩

omit [Codec] in
/-- Once the record is placed, a save comes down to the words of its slot. -/
theorem ends_saveData {slot : Slot} {data : Bytes} {extent : Extent} {next : FreeSpace}
    {placed : Device} (ran : FreeSpace.place (record data) (region.tables.extent? slot) region.sync
      (region.space, file) = .ok extent (next, placed)) :
    Ends (saveData slot data) (region, file) done failed ↔
      match writeEntry slot extent.toWord placed.around.timestamp placed with
      | .ok _ written => Ends syncChange
          (region.moved slot extent next placed.around.timestamp, written) done failed
      | .error failure after => failed failure (region.unmoved slot extent next, after) := by
  unfold saveData
  simp only [ends_bind, ends_get, ends_onSpace]
  rw [ends_of_eq_ok ran, ends_tryCatch, ends_device, Ends]
  unfold moved unmoved
  cases writeEntry slot extent.toWord placed.around.timestamp placed with
  | ok _ written =>
    simp only [setEntry, ends_modify]
    cases region.tables.extent? slot with
    | none => exact Iff.rfl
    | some old =>
      by_cases different : old ≠ extent
      · simp only [if_pos different, ends_bind, release, ends_modify]
      · simp only [if_neg different]
  | error failure after =>
    by_cases different : region.tables.extent? slot ≠ some extent
    · simp only [if_pos different, ends_bind, release, ends_modify, ends_throw]
    · simp only [if_neg different, ends_throw]

theorem Change.Reaches.ends {change : Change} {pending : Pending}
    (reaches : change.Reaches region file pending) : Ends change.run (region, file) done failed ↔
      match pending.write with
      | .ok _ written => Ends syncChange (pending.changed, written) done failed
      | .error failure after => failed failure (pending.kept, after) := by
  cases reaches with
  | save own accepted ran =>
    rw [Change.run, ends_saveChunk own accepted]
    exact ends_saveData ran
  | delete own present =>
    unfold Change.run deleteChunk clearSlot
    simp only [ends_bind, ends_get, ends_ofExcept, own, present, ends_device]
    rw [Ends]
    unfold Pending.write
    dsimp only
    cases writeEntry _ 0 0 file with
    | ok _ written => simp only [setEntry, release, ends_modify]; rfl
    | error failure after => exact Iff.rfl

theorem Change.Reaches.run_of_error {change : Change} {pending : Pending}
    (reaches : change.Reaches region file pending) {failure : Failure} {after : Device}
    (failed : pending.write = .error failure after) :
    change.run (region, file) = .error failure (pending.kept, after) := by
  apply Ends.eq_error
  rw [reaches.ends, failed]
  exact ⟨rfl, rfl⟩

theorem Change.ends_of {change : Change} (idle : done () (region, file))
    (refused : ∀ failure, failed failure (region, file))
    (flushed : Ends Device.sync file (fun _ after => done () (region, after))
      fun failure after => failed failure (region, after))
    (unplaced : ∀ chunk payload tag slot data failure space after, change = .save chunk payload tag →
      region.slot chunk = .ok slot → encodeChunk payload tag = .ok data →
        FreeSpace.place (record data) (region.tables.extent? slot) region.sync (region.space, file) =
          .error failure (space, after) →
        failed failure ({ region with space := space }, after))
    (reached : ∀ pending, change.Reaches region file pending →
      Ends change.run (region, file) done failed) :
    Ends change.run (region, file) done failed := by
  cases change with
  | save chunk payload tag =>
    cases own : region.slot chunk with
    | error failure =>
      unfold Change.run saveChunk
      simpa only [ends_bind, ends_get, ends_ofExcept, own] using refused failure
    | ok slot =>
      cases accepted : encodeChunk payload tag with
      | error failure =>
        unfold Change.run saveChunk
        simpa only [ends_bind, ends_get, ends_ofExcept, own, accepted] using refused failure
      | ok data =>
        cases ran : FreeSpace.place (record data) (region.tables.extent? slot) region.sync
            (region.space, file) with
        | ok extent state => exact reached _ (.save own accepted ran)
        | error failure state =>
          rw [Change.run, ends_of_eq_error (saveChunk_of_unplaced own accepted ran)]
          exact unplaced chunk payload tag slot data failure _ _ rfl own accepted ran
  | delete chunk =>
    cases own : region.slot chunk with
    | error failure =>
      unfold Change.run deleteChunk
      simpa only [ends_bind, ends_get, ends_ofExcept, own] using refused failure
    | ok slot =>
      cases present : region.tables.extent? slot with
      | none =>
        unfold Change.run deleteChunk
        simp only [ends_bind, ends_get, ends_ofExcept, own]
        refine Ends.mono (clearSlot_absent present file) ?_ fun _ _ => False.elim
        rintro _ _ rfl
        exact idle
      | some extent => exact reached _ (.delete own present)
  | flush => rwa [Change.run, Region.flush, ends_device]

end

theorem Change.run_continues (region : Region) (file : Device) (change : Change) :
    Ends change.run (region, file) (fun _ state => file.Continues state.2)
      fun _ state => file.Continues state.2 := by
  have same := Device.Continues.refl file
  refine Change.ends_of same (fun _ => same) ?_ ?_ ?_
  · exact (Device.sync_ends file).mono (fun _ _ keeps => keeps.continues) fun _ _ kept => kept.1.continues
  · intro _ _ _ slot data _ _ _ _ own accepted ran
    exact ((ends_of_eq_error ran).1 (FreeSpace.place_goes region.space file (record data) _ _)).continues
  · intro pending reaches
    have placed : file.Continues pending.file := by
      cases reaches with
      | save own accepted ran =>
        exact ((ends_of_eq_ok ran).1 (FreeSpace.place_goes region.space file _ _ _)).wrote.continues
      | delete own present => exact Device.Continues.refl file
    rw [reaches.ends]
    cases ran : pending.write with
    | ok _ written =>
      have continues := placed.trans (Pending.entryWritten ran).continues
      exact (syncChange_ends pending.changed written).mono
        (fun _ _ kept => continues.trans kept.2.continues)
        fun _ _ kept => continues.trans kept.2.1.continues
    | error failure after => exact placed.trans (Pending.entryCut ran).continues

/-- Whether changes are synced does not change. -/
theorem Change.run_sync (region : Region) (file : Device) (change : Change) :
    Ends change.run (region, file) (fun _ state => state.1.sync = region.sync)
      fun _ state => state.1.sync = region.sync := by
  refine Change.ends_of rfl (fun _ => rfl) ?_ (fun _ _ _ _ _ _ _ _ _ _ _ _ => rfl) ?_
  · exact (ends_somehow _ _).mono (fun _ _ _ => rfl) fun _ _ _ => rfl
  · intro pending reaches
    have same : pending.kept.sync = region.sync ∧ pending.changed.sync = region.sync := by
      cases reaches with
      | save own accepted ran => exact ⟨rfl, rfl⟩
      | delete own present => exact ⟨rfl, rfl⟩
    rw [reaches.ends]
    cases pending.write with
    | ok _ written =>
      refine Ends.mono (syncChange_ends pending.changed written) ?_ ?_
      · exact fun _ _ kept => (congrArg Region.sync kept.1).trans same.2
      · exact fun _ _ kept => (congrArg Region.sync kept.1).trans same.2
    | error failure after => exact same.1

end Region
end RegionStore
