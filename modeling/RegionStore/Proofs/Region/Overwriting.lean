import RegionStore.Proofs.Deflate.Container
import RegionStore.Proofs.Region.Lookup

/-!
Saves whose record cannot be written. A record that needs more sectors than its chunk has goes elsewhere,
and then the old one is still read. One that fits is written over the old one, and what has got through
of it stays in front of the rest of the old bytes.
-/

set_option autoImplicit false

namespace RegionStore

open Disk

/-- A write that got through in part leaves a beginning of the new bytes in front of the old ones. -/
theorem Disk.Device.Wrote.read_spliced {before after : Device} {position count : Nat} {data : Bytes}
    (wrote : before.Wrote position (data.extract 0 count) after) (atMost : count ≤ data.size)
    (present : position + data.size ≤ before.content.size) :
    after.content.read position data.size =
      Bytes.spliced (before.content.read position data.size) data count := by
  have longer := wrote.size_le
  have sizeOld : (before.content.read position data.size).size = data.size := by
    rw [Content.size_read]
    omega
  apply Bytes.ext_get
  · rw [Bytes.size_spliced sizeOld.symm, sizeOld, Content.size_read]
    omega
  · intro index inside
    rw [Content.size_read] at inside
    rw [Content.get_read inside, Bytes.get_spliced count sizeOld.symm (by omega), wrote.content.byte,
      Content.byteAt_write, ByteArray.size_extract, Bytes.get_extract, Content.get_read (by omega)]
    by_cases new : index < count
    · rw [if_pos (by omega), if_pos (by omega), if_pos new]
      congr 1
      omega
    · rw [if_neg (by omega), if_neg new]

namespace Region

section
variable [Codec]

theorem outcome_loadChunk_of_extent {region : Region} {file : Device} (untroubled : file.Untroubled)
    {chunk : ChunkPos} {slot : Slot} {extent : Extent} (own : region.slot chunk = .ok slot)
    (found : region.tables.extent? slot = some extent) :
    outcome (loadChunk chunk) (region, file) =
      (recordData (region.position.chunkAt slot) extent
        (file.content.read extent.position extent.size)).map some := by
  rw [outcome_loadChunk region untroubled, find, own]
  simp only [found]

theorem exists_extent_of_loads {region : Region} {file : Device} (untroubled : file.Untroubled)
    {chunk : ChunkPos} {slot : Slot} (own : region.slot chunk = .ok slot) {payload : Bytes}
    (loads : outcome (loadChunk chunk) (region, file) = .ok (some payload)) :
    ∃ extent, region.tables.extent? slot = some extent := by
  rw [outcome_loadChunk region untroubled, find, own] at loads
  cases found : region.tables.extent? slot with
  | none => simp only [found, Except.ok.injEq, reduceCtorEq] at loads
  | some extent => exact ⟨extent, rfl⟩

section
variable {limit : Nat} {live : Region} {file after : Device} (intact : Intact limit live file)
  {slot : Slot} {data : Bytes} {failure : Failure}
  (cause : FreeSpace.Unplaced live.space file (live.tables.extent? slot) (record data) failure after)
  {extent : Extent} (found : live.tables.extent? slot = some extent)
include intact cause found

omit [Codec] in
/-- The record of a chunk that was to stay has been overwritten in part. -/
theorem Intact.wrote_of_staying (stays : sectorsOf (record data).size ≤ extent.count.toNat) :
    ∃ written ≤ extent.size,
      file.Wrote extent.position ((extent.padded (record data)).extract 0 written) after := by
  have noMove {count : Nat} (moves : ∀ place, live.tables.extent? slot = some place →
      place.count.toNat < count) (fits : count ≤ extent.count.toNat) : False := by
    have := moves extent found
    omega
  cases cause with
  | rejected same why =>
    cases why with
    | large tooLarge =>
      have small := (Tables.packable_of_extent? found).count
      omega
    | full small moves beyond noRoom => exact (noMove moves stays).elim
  | spoiled troubled small target next isTarget spoiled cut =>
    cases isTarget with
    | carved moves size carves => exact (noMove moves stays).elim
    | appended moves size appends => exact (noMove moves stays).elim
    | stays same fits kept =>
      obtain rfl : extent = target := Option.some.inj (found.symm.trans same)
      obtain ⟨written, atMost, between, wrote, ending⟩ := spoiled.content
      rw [Extent.size_padded stays] at atMost
      refine ⟨written, atMost, spoiled.continues, ?_⟩
      rcases ending with kept | ⟨behind, _⟩
      · rw [kept]
        exact wrote.content
      · have inside := intact.partitioned.inside slot extent found
        have within := inside.within
        have nonempty := inside.nonempty
        rw [Extent.behind_def, behind] at within
        omega

end

/-- A save whose record cannot be written fails, and the live region stays as it was. The chunk is
loaded as before if its record was to move. Otherwise some beginning of the new record has been written
over the old one, and the chunk is loaded from what is there then. -/
theorem reload_of_unplaced (position : RegionPos) (sync : Bool) {file opened : Device} {region : Region}
    (isFile : file.full = false) (ran : load position sync file = .ok region opened)
    (steps : List (Surroundings × Change))
    (told : file.content.size ≤ (maxSectorIndex + 1) * sectorSize ∨ Addressed (region, opened) steps)
    {live : Region} {now : Device} (made : steps.foldl Change.apply (region, opened) = (live, now))
    (around : Surroundings) {later : Surroundings} (calm : later.Untroubled) {chunk : ChunkPos}
    {slot : Slot} (own : live.slot chunk = .ok slot) {old : Bytes}
    (loads : outcome (loadChunk chunk) (live, now.under later) = .ok (some old)) {payload data : Bytes}
    {tag : UInt8} (accepted : encodeChunk payload tag = .ok data) {failure : Failure}
    {space : FreeSpace} {after : Device}
    (unplaced : FreeSpace.place (record data) (live.tables.extent? slot) live.sync
      (live.space, now.under around) = .error failure (space, after)) :
    saveChunk chunk payload tag (live, now.under around) = .error failure (live, after) ∧
      ∃ extent, live.tables.extent? slot = some extent ∧
        (extent.count.toNat < sectorsOf (record data).size →
          outcome (loadChunk chunk) (live, after.under later) = .ok (some old)) ∧
        (sectorsOf (record data).size ≤ extent.count.toNat →
          (∃ written ≤ extent.size, (now.under around).Wrote extent.position
            ((extent.padded (record data)).extract 0 written) after) ∧
          ∀ written ≤ extent.size, (now.under around).Wrote extent.position
              ((extent.padded (record data)).extract 0 written) after →
            outcome (loadChunk chunk) (live, after.under later) =
              (recordData (live.position.chunkAt slot) extent
                (Bytes.spliced (now.content.read extent.position extent.size)
                  (extent.padded (record data)) written)).map some) := by
  have loaded := loaded_of_load isFile ran
  have addressed : Addressed (region, opened) steps := by
    rcases told with short | addressed
    · exact Intact.addressed (loaded.intact (loaded.short short)) steps
    · exact addressed
  have intact := (loaded.intact loaded.prepared.short).run_of_addressed addressed
  have full := full_run (region, opened) steps
  rw [made] at intact full
  have isFileNow : now.full = false := full.trans (loaded.prepared.continues.full.trans isFile)
  have start : Intact _ live (now.under around) := intact.grown (Nat.le_refl _)
  obtain ⟨same, cause⟩ := start.unplaced unplaced
  have untroubled {device : Device} (isFile : device.full = false) :
      (device.under later).Untroubled := ⟨isFile, calm⟩
  obtain ⟨extent, found⟩ := exists_extent_of_loads (untroubled isFileNow) own loads
  have present := Nat.le_trans (intact.partitioned.inside slot extent found).end_le intact.covered
  rw [outcome_loadChunk_of_extent (untroubled isFileNow) own found] at loads
  have ran := saveChunk_of_unplaced own accepted unplaced
  have continues : (now.under around).Continues after := by
    have ends := Change.run_continues live (now.under around) (.save chunk payload tag)
    rwa [Change.run, ends_of_eq_error ran] at ends
  have isFileAfter : after.full = false := continues.full.trans isFileNow
  have reload := outcome_loadChunk_of_extent (untroubled isFileAfter) own found
  refine ⟨?_, extent, found, fun moves => ?_, fun stays => ?_⟩
  · rw [ran, same]
  · rw [reload, ← loads]
    simp only [Device.content_under]
    rw [start.read_of_unplaced cause found (.inr moves), Device.content_under]
  · have size : (extent.padded (record data)).size = extent.size := Extent.size_padded stays
    refine ⟨start.wrote_of_staying cause found stays, fun written atMost wrote => ?_⟩
    rw [reload]
    have mixed := wrote.read_spliced (by rwa [size]) (by rwa [size])
    rw [size, Device.content_under] at mixed
    rw [Device.content_under, mixed]

end

theorem spliced_padded (extent : Extent) {old new : Bytes} {count : Nat} (same : new.size = old.size)
    (atMost : count ≤ old.size) : Bytes.spliced (extent.padded old) (extent.padded new) count =
      extent.padded (Bytes.spliced old new count) := by
  have size : (Bytes.spliced old new count).size = old.size := Bytes.size_spliced same
  have sizes : (extent.padded new).size = (extent.padded old).size := by
    rw [Extent.padded, Extent.padded, ByteArray.size_append, ByteArray.size_append, same]
  apply Bytes.ext_get
  · rw [Bytes.size_spliced sizes, Extent.padded, Extent.padded, ByteArray.size_append,
      ByteArray.size_append, size]
  · intro index inside
    rw [Bytes.size_spliced sizes] at inside
    rw [Bytes.get_spliced count sizes inside, Extent.padded, Extent.padded, Extent.padded,
      Bytes.get_append, Bytes.get_append, Bytes.get_append, size, same, Bytes.get_zeros]
    by_cases front : index < old.size
    · rw [if_pos front, if_pos front, if_pos front, Bytes.get_spliced count same front]
    · rw [if_neg front, if_neg front, if_neg front, if_neg (by omega)]

/-- A chunk that is overwritten by a record of the same size, of which six bytes get through. -/
theorem reload_of_overwritten :
    let broken : Surroundings := { Surroundings.initial with schedule :=
      { Schedule.calm with writing := [⟨.short 6, 1⟩, ⟨.refused ⟨5⟩, 1⟩] } }
    ∃ region opened live now failure after, load ⟨0, 0⟩ true newFile = .ok region opened ∧
      [(Surroundings.initial, Change.save ⟨0, 0⟩ ⟨#[97, 98, 99]⟩ 3)].foldl Change.apply
        (region, opened) = (live, now) ∧
      outcome (loadChunk ⟨0, 0⟩) (live, now.under Surroundings.initial) =
        .ok (some ⟨#[97, 98, 99]⟩) ∧
      saveChunk ⟨0, 0⟩ ⟨#[120, 121, 122]⟩ 3 (live, now.under broken) = .error failure (live, after) ∧
      outcome (loadChunk ⟨0, 0⟩) (live, after.under Surroundings.initial) =
        .ok (some ⟨#[120, 98, 99]⟩) := by
  intro broken
  obtain ⟨region, opened, saved, written, ran, made, reached, _, own, loads, appended⟩ :=
    exists_save_newFile
  have isFile : (written.under broken).full = false := reached.compact.isFile
  have found : saved.tables.extent? ⟨0, by decide⟩ = some ⟨2, 1⟩ := appended.extents _
  have accepted : encodeChunk ⟨#[120, 121, 122]⟩ 3 = .ok ⟨#[3, 120, 121, 122]⟩ := rfl
  obtain ⟨failure, ⟨space, after⟩, unplaced, wrote⟩ : ∃ failure state,
      FreeSpace.place (record ⟨#[3, 120, 121, 122]⟩) (saved.tables.extent? ⟨0, by decide⟩) saved.sync
        (saved.space, written.under broken) = .error failure state ∧
      (written.under broken).Wrote (Extent.position ⟨2, 1⟩)
        ((Extent.padded ⟨2, 1⟩ (record ⟨#[3, 120, 121, 122]⟩)).extract 0 6) state.2 := by
    apply Ends.exists_error
    rw [found, FreeSpace.ends_place_of_staying (by decide) (by decide)]
    have cut : ((written.under broken).turns .writing).Cut 6 :=
      ⟨by decide, _, _, _, rfl, rfl, by decide⟩
    exact (FreeSpace.writeRecord_of_cut isFile rfl (by decide) cut (by decide) _).mono
      (fun _ _ => id) fun _ _ => And.left
  obtain ⟨failed, extent, isExtent, _, stays⟩ := reload_of_unplaced ⟨0, 0⟩ true rfl ran
    [(Surroundings.initial, Change.save ⟨0, 0⟩ ⟨#[97, 98, 99]⟩ 3)] (.inl (by decide)) made broken
    untroubled_initial own loads accepted unplaced
  obtain rfl : ⟨2, 1⟩ = extent := Option.some.inj (found.symm.trans isExtent)
  refine ⟨region, opened, saved, written, failure, after, ran, made, loads, failed, ?_⟩
  have sameSize : (record ⟨#[3, 120, 121, 122]⟩).size = (record ⟨#[3, 97, 98, 99]⟩).size := rfl
  have mixture : Bytes.spliced (record ⟨#[3, 97, 98, 99]⟩) (record ⟨#[3, 120, 121, 122]⟩) 6 =
      record ⟨#[3, 120, 98, 99]⟩ := by decide
  rw [(stays (by decide)).2 6 (by decide) wrote, appended.own, spliced_padded _ sameSize (by decide),
    mixture, recordData_padded _ (by decide) (by decide) (by decide)]
  rfl

end Region
end RegionStore
