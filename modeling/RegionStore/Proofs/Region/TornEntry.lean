import RegionStore.Proofs.Deflate.Container
import RegionStore.Proofs.Region.Lookup
import RegionStore.Proofs.Region.Recovery

/-!
Changes that fail while the words of their slot are written. The live region keeps the old extent, but
nothing puts the words on disk back: the timestamp is written first, and the offset may be torn. So the
region is not the same any more when its file is opened again, unless the words happen to be as before
or the slot had no chunk.
-/

set_option autoImplicit false

namespace RegionStore.Region

open Disk

theorem count_torn_zero {word : UInt32} {count : Nat} (short : count < 4) :
    (Extent.ofWord (Bytes.torn 0 word count)).count.toNat = 0 := by
  have last : (Bytes.torn 0 word count).toUInt8 = 0 := Bytes.toUInt8_torn short
  have low := congrArg UInt8.toNat last
  rw [UInt32.toNat_toUInt8] at low
  rw [Extent.count_ofWord]
  exact low

/-- Words that told the live chunks still do after those of one slot were torn, exactly if they are as
before or the slot has no chunk. -/
theorem Mirrored.recovers_torn_iff {live : Region} {file after : Device}
    (mirrored : Mirrored live file) {slot : Slot} {offset : UInt32} {timestamp : Int32}
    {second : Nat} (short : second < 4)
    (onDisk : stored after.content = (stored file.content).set slot
      (Bytes.torn ((stored file.content).offsets.get slot) offset second) timestamp) (sectors : Nat) :
    (stored after.content).Recovers live.tables sectors ↔
      live.tables.extent? slot = none ∨
        (stored after.content).offsets.get slot = (stored file.content).offsets.get slot ∧
          (stored after.content).timestamps.get slot = (stored file.content).timestamps.get slot := by
  constructor
  · intro recovers
    by_cases absent : live.tables.offsets.get slot = 0
    · exact .inl (Tables.extent?_eq_none_iff.2 absent)
    · obtain ⟨sameOffset, sameTimestamp⟩ := recovers.words slot absent
      right
      rw [mirrored.offsets, mirrored.timestamps slot absent]
      exact ⟨sameOffset, sameTimestamp⟩
  · intro harmless
    have elsewhere {other : Slot} (different : other ≠ slot) :
        (stored after.content).offsets.get other = live.tables.offsets.get other ∧
          (stored after.content).timestamps.get other = (stored file.content).timestamps.get other := by
      rw [onDisk, Tables.offsets_set, Tables.timestamps_set, if_neg different, if_neg different]
      exact ⟨mirrored.offsets other, rfl⟩
    constructor
    · intro other present
      by_cases here : other = slot
      · subst here
        obtain ⟨sameOffset, sameTimestamp⟩ := harmless.resolve_left fun absent =>
          present (Tables.extent?_eq_none_iff.1 absent)
        rw [sameOffset, sameTimestamp]
        exact ⟨mirrored.offsets other, mirrored.timestamps other present⟩
      · obtain ⟨sameOffset, sameTimestamp⟩ := elsewhere here
        exact ⟨sameOffset, sameTimestamp.trans (mirrored.timestamps other present)⟩
    · intro other extent gone found inside
      obtain ⟨present, isExtent⟩ := Tables.extent?_eq_some_iff.1 found
      have absent := Tables.extent?_eq_none_iff.1 gone
      by_cases here : other = slot
      · -- What is torn off a word without an extent has no sectors.
        subst here
        rw [onDisk, Tables.offsets_set, if_pos rfl, mirrored.offsets, absent] at isExtent
        have nonempty := inside.nonempty
        rw [← isExtent, count_torn_zero short] at nonempty
        exact absurd nonempty (Nat.lt_irrefl 0)
      · exact absurd ((elsewhere here).1.trans absent) present

/-- What is left when the words of a slot cannot be written, and when the chunks come back all the same. -/
theorem torn_entry_recovers_iff [Codec] {position : RegionPos} {live : Region × Device}
    (reached : Reached position (fun _ _ => True) live) (around : Surroundings) {change : Change}
    {pending : Pending} (reaches : change.Reaches live.1 (live.2.under around) pending)
    {failure : Failure} {after : Device} (failed : pending.write = .error failure after) :
    change.run (live.1, live.2.under around) = .error failure (pending.kept, after) ∧
      pending.kept.tables = live.1.tables ∧
      (∃ first second, (first < 4 ∧ second = 0 ∨ first = 4 ∧ second < 4) ∧
        stored after.content = (stored live.2.content).set pending.slot
          (Bytes.torn ((stored live.2.content).offsets.get pending.slot) pending.offset second)
          (Bytes.torn ((stored live.2.content).timestamps.get pending.slot).toUInt32
            pending.timestamp.toUInt32 first).toInt32) ∧
      ∀ later : Surroundings, later.Untroubled → ∀ sync, ∃ closed,
        close (pending.kept, after.under later) = .ok () (pending.kept, closed) ∧
        ((∃ again opened, load position sync closed = .ok again opened) ↔
          after.content.size % sectorSize = 0) ∧
        ∀ again opened, load position sync closed = .ok again opened →
          (SameChunks (again, opened) (pending.kept, after.under later) ↔
            (stored after.content).Recovers live.1.tables again.space.sectors.toNat) ∧
          (Reached position EntryWrites live →
            (SameChunks (again, opened) (pending.kept, after.under later) ↔
              live.1.tables.extent? pending.slot = none ∨
                (stored after.content).offsets.get pending.slot =
                    (stored live.2.content).offsets.get pending.slot ∧
                  (stored after.content).timestamps.get pending.slot =
                    (stored live.2.content).timestamps.get pending.slot)) := by
  have compact := reached.compact.under around
  have framed := compact.intact.framed reaches
  have cut := Pending.entryCut failed
  obtain ⟨kept, _⟩ := compact.reaches reaches
  have left : Compact position pending.kept after :=
    kept.confined cut.continues (cut.confined kept.intact.header_present).1
  obtain ⟨first, second, order, onDisk⟩ := stored_of_entryCut cut
  rw [framed.stored, Device.content_under] at onDisk
  refine ⟨?_, framed.tables, ⟨first, second, order, onDisk⟩, fun later calm sync => ?_⟩
  · exact reaches.run_of_error failed
  · obtain ⟨closed, closes, opens, same⟩ := left.recovery calm sync
    rw [framed.tables] at same
    refine ⟨closed, closes, opens, fun again opened ran => ⟨same again opened ran, fun written => ?_⟩⟩
    have short : second < 4 := by omega
    rw [same again opened ran, written.mirrored.recovers_torn_iff short onDisk]

/-- A deletion whose offset word is cut behind three bytes. The live region still has the chunk, but it
does not come back as it was when the file is opened again. -/
theorem torn_entry_of_delete :
    let broken : Surroundings := { Surroundings.initial with schedule :=
      { Schedule.calm with writing := [⟨.undisturbed, 1⟩, ⟨.short 3, 1⟩, ⟨.refused ⟨5⟩, 1⟩] } }
    ∃ live pending failure after closed again opened, Reached ⟨0, 0⟩ EntryWrites live ∧
      Change.Reaches live.1 (live.2.under broken) (.delete ⟨0, 0⟩) pending ∧
      pending.write = .error failure after ∧
      close (pending.kept, after.under Surroundings.initial) = .ok () (pending.kept, closed) ∧
      load ⟨0, 0⟩ true closed = .ok again opened ∧
      ¬ SameChunks (again, opened) (pending.kept, after.under Surroundings.initial) := by
  intro broken
  obtain ⟨region, opened, saved, written, _, _, reached, _, own, _, appended⟩ := exists_save_newFile
  have isFile : (written.under broken).full = false := reached.compact.isFile
  have present : saved.tables.extent? ⟨0, by decide⟩ = some ⟨2, 1⟩ := appended.extents _
  let pending : Pending :=
    ⟨⟨0, by decide⟩, 0, 0, saved, saved.removed ⟨0, by decide⟩ ⟨2, 1⟩, written.under broken⟩
  have reaches : Change.Reaches saved (written.under broken) (.delete ⟨0, 0⟩) pending :=
    .delete own present
  have unlimited : (written.under broken).around.ceiling = none := rfl
  have cutTurns : Turns.Cut [⟨.undisturbed, 0⟩, ⟨.short 3, 1⟩, ⟨.refused ⟨5⟩, 1⟩] 3 :=
    ⟨by decide, _, _, _, rfl, rfl, by decide⟩
  obtain ⟨failure, after, stopped, between, whole, cut⟩ :=
    (writeEntry_of_cut isFile unlimited ⟨0, by decide⟩ 0 0 rfl cutTurns (by decide)).exists_error
  have failed : pending.write = .error failure after := stopped
  obtain ⟨_, _, _, recovery⟩ := torn_entry_recovers_iff (reached.mono fun _ _ _ => trivial) broken reaches failed
  obtain ⟨closed, closes, opens, same⟩ := recovery Surroundings.initial untroubled_initial true
  have size : after.content.size = written.content.size :=
    ((Pending.entryCut failed).confined (reached.compact.under broken).intact.header_present).1
  obtain ⟨again, reopened, ranAgain⟩ := opens.2 (by
    rw [size, appended.faithful.size]
    exact Nat.mul_mod_left _ _)
  refine ⟨(saved, written), pending, failure, after, closed, again, reopened, reached, reaches, failed, closes,
    ranAgain, fun sameChunks => ?_⟩
  rcases ((same again reopened ranAgain).2 reached).1 sameChunks with absent | ⟨_, timestamps⟩
  · cases present.symm.trans absent
  · have before : (stored written.content).timestamps.get ⟨0, by decide⟩ = 1700000000 := by
      rw [appended.faithful.timestamps _ (Tables.extent?_eq_some_iff.1 present).1, appended.timestamp]
      rfl
    have cleared : (stored after.content).timestamps.get ⟨0, by decide⟩ = 0 := by
      rw [← ByteArray.extract_zero_size (b := Bytes.ofWord (Int32.toUInt32 0))] at whole
      rw [stored_of_wrote_offset cut, Tables.timestamps_set, if_pos rfl, stored_of_wrote_timestamp whole,
        Tables.timestamps_set, if_pos rfl, Bytes.torn_size]
      rfl
    cases (before.symm.trans timestamps.symm).trans cleared

end RegionStore.Region
