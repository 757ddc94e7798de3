import RegionStore.Proofs.Coordinates
import RegionStore.Proofs.Region.Listing
import RegionStore.Proofs.Region.Lookup
import RegionStore.Proofs.Region.Rejection
import RegionStore.Proofs.Region.Run
import RegionStore.Proofs.Region.Steady

/-!
Passes over a listing of the chunks of a region, which may be changed while a pass is under way. Each
pass meets the chunks that were present when the listing was made. They are the chunks of the region, and
the region takes requests about them, exactly if its chunks have coordinates of 32 bits; nothing checks
that when a region is opened. Where they do not, adding up a coordinate overflows, and nothing is said
about what comes of it.
-/

set_option autoImplicit false

namespace RegionStore

open Disk

namespace Listing

variable {listing : Listing}

theorem seek_le {index : Nat} (inside : index ≤ slotCount) : listing.seek index ≤ slotCount := by
  fun_induction listing.seek index with
  | case1 index _ _ => exact inside
  | case2 index small _ ih => exact ih small
  | case3 index _ => exact inside

theorem last_eq : listing.last = ⟨some listing.number, slotCount⟩ := by
  rw [last, seek, if_neg (Nat.lt_irrefl slotCount)]

theorem ne_last {cursor : Cursor} (ahead : cursor.index < slotCount) : cursor ≠ listing.last := by
  rintro rfl
  rw [last_eq] at ahead
  exact Nat.lt_irrefl slotCount ahead

theorem eq_last {cursor : Cursor} (own : cursor.listing = some listing.number)
    (inside : cursor.index ≤ slotCount) (done : ¬ cursor.index < slotCount) : cursor = listing.last := by
  obtain ⟨_, index⟩ := cursor
  cases own
  obtain rfl : index = slotCount := Nat.le_antisymm inside (Nat.le_of_not_lt done)
  exact last_eq.symm

end Listing

namespace Region

section
variable [Codec]

/-- A pass over a listing from a cursor on, and the chunks it meets until the cursor is the last one.
Each turn begins with changes of the region. -/
inductive Pass (listing : Listing) : List (List (Surroundings × Change)) → Region × Device → Cursor →
    List ChunkPos → Region × Device → Prop where
  | done {changes : List (Surroundings × Change)} {state : Region × Device} :
    Pass listing [changes] state listing.last [] (changes.foldl Change.apply state)
  | meet {changes : List (Surroundings × Change)} {turns : List (List (Surroundings × Change))}
    {state after : Region × Device} {cursor : Cursor} {chunk : ChunkPos} {chunks : List ChunkPos}
    (ahead : cursor ≠ listing.last) (here : listing.chunk? cursor = some chunk)
    (rest : Pass listing turns (changes.foldl Change.apply state) (listing.next cursor) chunks after) :
    Pass listing (changes :: turns) state cursor (chunk :: chunks) after

section
variable {listing : Listing}

/-- From every cursor there is one pass, whatever is changed meanwhile, and it meets the chunks of the
slots from there on. -/
theorem pass_iff {turns : List (List (Surroundings × Change))} {state after : Region × Device}
    {cursor : Cursor} {met : List ChunkPos} (own : cursor.listing = some listing.number)
    (inside : cursor.index ≤ slotCount) :
    Pass listing turns state cursor met after ↔
      turns.length = (listing.chunksFrom cursor).length + 1 ∧ met = listing.chunksFrom cursor ∧
        after = turns.flatten.foldl Change.apply state := by
  fun_induction listing.chunksFrom cursor generalizing turns state after met with
  | case1 cursor small ih =>
    have here : listing.chunk? cursor = some (listing.region.chunkAt ⟨cursor.index, small⟩) := dif_pos small
    have later {turns : List (List (Surroundings × Change))} {state after : Region × Device}
        {met : List ChunkPos} := @ih turns state after met own (Listing.seek_le small)
    constructor
    · intro pass
      cases pass with
      | done => exact absurd rfl (Listing.ne_last small)
      | meet _ found rest =>
        cases here.symm.trans found
        obtain ⟨length, rfl, rfl⟩ := later.1 rest
        exact ⟨congrArg (· + 1) length, rfl, (List.foldl_append ..).symm⟩
    · rintro ⟨length, rfl, rfl⟩
      cases turns with
      | nil => cases length
      | cons changes turns =>
        rw [List.flatten_cons, List.foldl_append]
        exact .meet (Listing.ne_last small) here (later.2 ⟨Nat.succ.inj length, rfl, rfl⟩)
  | case2 cursor large =>
    obtain rfl := Listing.eq_last own inside large
    constructor
    · intro pass
      cases pass with
      | done => exact ⟨rfl, rfl, by rw [List.flatten_singleton]⟩
      | meet ahead _ _ => exact absurd rfl ahead
    · rintro ⟨length, rfl, rfl⟩
      obtain ⟨changes, rfl⟩ := List.length_eq_one_iff.1 length
      rw [List.flatten_singleton]
      exact .done

end

theorem steady_run (change : Change) : Steady change.run := by
  cases change with
  | save chunk payload tag => exact steady_saveChunk chunk payload tag
  | delete chunk => exact steady_deleteChunk chunk
  | flush => exact steady_flush

theorem position_apply (state : Region × Device) (step : Surroundings × Change) :
    (Change.apply state step).1.position = state.1.position :=
  Ends.final (fun next : Region × Device => next.1.position = state.1.position)
    (steady_run step.2 (state.1, state.2.under step.1))

theorem position_run (state : Region × Device) (steps : List (Surroundings × Change)) :
    (steps.foldl Change.apply state).1.position = state.1.position := by
  induction steps generalizing state with
  | nil => rfl
  | cons step rest ih => exact (ih (Change.apply state step)).trans (position_apply state step)

end

section
variable (region : Region) (number : Nat)

theorem chunks_listing : (region.listing number).chunks =
    ((List.finRange slotCount).filter fun slot => region.tables.offsets.get slot ≠ 0).map
      region.position.chunkAt := (region.listing number).chunks_eq

theorem chunks_listing_eq : (region.listing number).chunks =
    ((List.finRange slotCount).filter fun slot => (region.tables.extent? slot).isSome).map
      region.position.chunkAt := by
  rw [chunks_listing]
  refine congrArg (List.map _) (List.filter_congr fun slot _ => ?_)
  rw [Bool.eq_iff_iff, decide_eq_true_iff, Option.isSome_iff_ne_none, ne_eq, ne_eq,
    Tables.extent?_eq_none_iff]

theorem length_chunks_listing : (region.listing number).chunks.length = region.count := by
  rw [chunks_listing, List.length_map, ← List.countP_eq_length_filter, count, Tables.count_eq]

theorem ascending_chunks_listing :
    (region.listing number).chunks.Pairwise fun a b => a.slotOf < b.slotOf := by
  rw [chunks_listing, List.pairwise_map]
  simp only [RegionPos.slotOf_chunkAt]
  exact (List.pairwise_lt_finRange slotCount).filter _

variable {region number}

theorem mem_chunks_listing {chunk : ChunkPos} : chunk ∈ (region.listing number).chunks ↔
    (region.tables.extent? chunk.slotOf).isSome ∧ region.position.chunkAt chunk.slotOf = chunk := by
  rw [chunks_listing, List.mem_map, Option.isSome_iff_ne_none, ne_eq, Tables.extent?_eq_none_iff]
  simp only [List.mem_filter, List.mem_finRange, true_and, decide_eq_true_eq]
  constructor
  · rintro ⟨slot, present, rfl⟩
    rw [RegionPos.slotOf_chunkAt]
    exact ⟨present, rfl⟩
  · rintro ⟨present, same⟩
    exact ⟨_, present, same⟩

theorem chunks_listing_of_single {slot : Slot}
    (only : ∀ other, (region.tables.extent? other).isSome ↔ other = slot) :
    (region.listing number).chunks = [region.position.chunkAt slot] := by
  have single : ((List.finRange slotCount).filter fun other => region.tables.offsets.get other ≠ 0) = [slot] := by
    have present (other : Slot) : region.tables.offsets.get other ≠ 0 ↔ other = slot := by
      rw [← only, Option.isSome_iff_ne_none, ne_eq, ne_eq, Tables.extent?_eq_none_iff]
    simp only [present]
    rw [List.filter_eq, List.count_eq_one_of_mem (List.nodup_finRange slotCount) (List.mem_finRange slot),
      List.replicate_one]
  rw [chunks_listing, single, List.map_singleton]

theorem hasChunk_eq_ok_true_iff {chunk : ChunkPos} : region.hasChunk chunk = .ok true ↔
    chunk.regionOf = region.position ∧ (region.tables.extent? chunk.slotOf).isSome := by
  cases own : region.slot chunk with
  | error failure =>
    have foreign : chunk.regionOf ≠ region.position := fun same => by
      cases own.symm.trans (slot_eq_ok_iff.2 ⟨same, rfl⟩)
    rw [hasChunk, own]
    simp [Except.map, foreign]
  | ok slot =>
    obtain ⟨same, rfl⟩ := slot_eq_ok_iff.1 own
    rw [hasChunk_of_slot own]
    simp [same]

/-- If all chunks of the region have coordinates, the listing has exactly those that are present. -/
theorem mem_chunks_listing_iff_hasChunk (fits : region.position.Fits) {chunk : ChunkPos} :
    chunk ∈ (region.listing number).chunks ↔ region.hasChunk chunk = .ok true := by
  rw [mem_chunks_listing, hasChunk_eq_ok_true_iff, and_comm]
  refine and_congr_left fun _ => ⟨fun same => ?_, fun same => ?_⟩
  · rw [← same, RegionPos.regionOf_chunkAt fits]
  · rw [← same, RegionPos.chunkAt_slotOf]

end

section
variable [Codec]

theorem loadChunk_accepts {region : Region} {chunk : ChunkPos} (own : chunk.regionOf = region.position)
    (file : Device) :
    Ends (loadChunk chunk) (region, file) (fun _ _ => True) fun failure _ =>
      failure.kind ≠ .invalidArgument := by
  refine (loadChunk_fails region file chunk).mono (fun _ _ => id) ?_
  rintro failure _ (refused | other)
  · cases (slot_eq_ok_iff.2 ⟨own, rfl⟩).symm.trans refused
  · exact other

theorem loadChunk_of_foreign {region : Region} {chunk : ChunkPos}
    (foreign : chunk.regionOf ≠ region.position) (file : Device) :
    loadChunk chunk (region, file) = .error (.foreignChunk chunk region.position) (region, file) := by
  have refused : region.slot chunk = .error (.foreignChunk chunk region.position) := if_neg foreign
  apply Ends.eq_error
  simp only [loadChunk, ends_bind, ends_get, ends_ofExcept, refused, and_self]

/-- Every pass over a listing ends after as many chunks as the region had when the listing was made, and
meets one for each of their slots, in ascending order, also in later passes and whatever is changed before
or meanwhile. If all chunks of the region have coordinates of 32 bits, these are the chunks that the region
had, each once, and it takes requests to load them, now and later. Otherwise no chunk is of the region, so
requests to load what a pass meets are refused, whatever coordinates have come out. -/
theorem listing_exact (region : Region) (file : Device) (number : Nat) :
    let chunks := ((List.finRange slotCount).filter fun slot => (region.tables.extent? slot).isSome).map
      region.position.chunkAt
    (∀ earlier turns met after,
      Pass (region.listing number) turns (earlier.foldl Change.apply (region, file))
          (region.listing number).first met after ↔
        turns.length = region.count + 1 ∧ met = chunks ∧
          after = (earlier ++ turns.flatten).foldl Change.apply (region, file)) ∧
    chunks.length = region.count ∧
    (region.position.Fits →
      chunks.Nodup ∧
      (chunks.Pairwise fun a b => a.slotOf < b.slotOf) ∧
      (∀ chunk, chunk ∈ chunks ↔ region.hasChunk chunk = .ok true) ∧
      ∀ chunk ∈ chunks, ∀ (steps : List (Surroundings × Change)) (live : Region) (now : Device),
        steps.foldl Change.apply (region, file) = (live, now) →
          ∀ around, Ends (loadChunk chunk) (live, now.under around) (fun _ _ => True)
            fun failure _ => failure.kind ≠ .invalidArgument) ∧
    (¬ region.position.Fits →
      ∀ (chunk : ChunkPos) (steps : List (Surroundings × Change)) (live : Region) (now : Device),
        steps.foldl Change.apply (region, file) = (live, now) →
          ∀ around, loadChunk chunk (live, now.under around) =
            .error (.foreignChunk chunk region.position) (live, now.under around)) := by
  have stays {steps : List (Surroundings × Change)} {live : Region} {now : Device}
      (made : steps.foldl Change.apply (region, file) = (live, now)) : live.position = region.position := by
    have same := position_run (region, file) steps
    rwa [made] at same
  have length := region.length_chunks_listing number
  have ascending := region.ascending_chunks_listing number
  rw [← chunks_listing_eq region number]
  refine ⟨fun earlier turns met after => ?_, length, fun fits => ⟨?_, ascending, ?_, ?_⟩, ?_⟩
  · rw [List.foldl_append, ← length]
    exact pass_iff rfl (Listing.seek_le (Nat.zero_le slotCount))
  · exact ascending.imp fun {a b} less same => (Fin.ne_of_lt less) (congrArg ChunkPos.slotOf same)
  · exact fun chunk => mem_chunks_listing_iff_hasChunk fits
  · intro chunk listed steps live now made around
    have own := (hasChunk_eq_ok_true_iff.1 ((mem_chunks_listing_iff_hasChunk fits).1 listed)).1
    exact loadChunk_accepts (own.trans (stays made).symm) _
  · intro beyond chunk steps live now made around
    rw [← stays made]
    refine loadChunk_of_foreign (fun own => beyond ?_) _
    rw [← stays made, ← own]
    exact RegionPos.fits_regionOf chunk

end

theorem isSome_extent?_newFile {region live : Region} {opened file now : Device} {slot : Slot} {data : Bytes}
    {extent : Extent} (ran : load ⟨0, 0⟩ true newFile = .ok region opened)
    (appended : Appended region slot data file extent live now) (other : Slot) :
    (live.tables.extent? other).isSome ↔ other = slot := by
  have fresh := (loaded_of_load rfl ran).fresh blank_newFile
  rw [appended.extents]
  split
  · next here => simp [here]
  · next elsewhere => simp [elsewhere, Tables.extent?_eq_none_iff.2 (fresh.absent other)]

/-- A listing whose only chunk is deleted before the first look at it. -/
theorem listing_exact_deleted :
    let deletion := (Surroundings.initial, Change.delete ⟨0, 0⟩)
    ∃ region opened live now, load ⟨0, 0⟩ true newFile = .ok region opened ∧
      Change.apply (region, opened) (Surroundings.initial, .save ⟨0, 0⟩ ⟨#[97, 98, 99]⟩ 3) = (live, now) ∧
      Pass (live.listing 0) [[deletion], []] (live, now) (live.listing 0).first [⟨0, 0⟩]
        (Change.apply (live, now) deletion) ∧
      ∀ around, Ends (loadChunk ⟨0, 0⟩)
        ((Change.apply (live, now) deletion).1, (Change.apply (live, now) deletion).2.under around)
        (fun _ _ => True) fun failure _ => failure.kind ≠ .invalidArgument := by
  intro deletion
  obtain ⟨region, opened, live, now, ran, made, reached, _, own, _, appended⟩ := exists_save_newFile
  have only := isSome_extent?_newFile ran appended
  obtain ⟨passes, length, good, _⟩ := listing_exact live now 0
  have position : live.position = ⟨0, 0⟩ := reached.compact.position
  have fits : live.position.Fits := by
    rw [position, RegionPos.fits_iff]
    decide
  obtain ⟨_, _, all, loads⟩ := good fits
  generalize List.map live.position.chunkAt _ = chunks at *
  have count : live.count = 1 := by
    rw [← live.length_chunks_listing 0, chunks_listing_of_single only]
    rfl
  have listed : (⟨0, 0⟩ : ChunkPos) ∈ chunks := by
    rw [all, hasChunk_of_slot own, (only _).2 rfl]
  obtain rfl : chunks = [⟨0, 0⟩] := by
    obtain ⟨chunk, rfl⟩ := List.length_eq_one_iff.1 (length.trans count)
    rw [List.mem_singleton.1 listed]
  exact ⟨region, opened, live, now, ran, made, (passes [] _ _ _).2 ⟨by rw [count]; rfl, rfl, rfl⟩,
    loads _ listed [deletion] _ _ rfl⟩

/-- The same file, opened for a region far out. There is a chunk in its listing, but the region refuses to
load any chunk. -/
theorem listing_refused :
    ∃ region opened live now again reopened, load ⟨0, 0⟩ true newFile = .ok region opened ∧
      Change.apply (region, opened) (Surroundings.initial, .save ⟨0, 0⟩ ⟨#[97, 98, 99]⟩ 3) = (live, now) ∧
      load ⟨67108864, 0⟩ true (now.under Surroundings.initial) = .ok again reopened ∧
      (again.listing 0).chunks.length = 1 ∧
      ∀ chunk, loadChunk chunk (again, reopened) =
          .error (.foreignChunk chunk ⟨67108864, 0⟩) (again, reopened) ∧
        (Failure.foreignChunk chunk ⟨67108864, 0⟩).kind = .invalidArgument := by
  obtain ⟨region, opened, live, now, ran, made, reached, _, _, _, appended⟩ := exists_save_newFile
  have intact := (reached.compact.under Surroundings.initial).intact
  have untroubled : (now.under Surroundings.initial).Untroubled :=
    ⟨reached.compact.isFile, untroubled_initial⟩
  have sectors : live.space.sectors.toNat = 3 := appended.sectors
  obtain ⟨again, reopened, ranAgain, loaded⟩ := exists_load ⟨67108864, 0⟩ true untroubled
    (appended.faithful.admissible (by rw [sectors]; decide))
  have mirrored : Mirrored live (now.under Surroundings.initial) := reached.mirrored.congr rfl
  have same := (loaded.recovers_iff intact).2 (mirrored.recovers _)
  have only (other : Slot) : (again.tables.extent? other).isSome ↔ other = ⟨0, by decide⟩ := by
    rw [(same other).1]
    exact isSome_extent?_newFile ran appended other
  refine ⟨region, opened, live, now, again, reopened, ran, made, ranAgain, ?_, fun chunk => ⟨?_, rfl⟩⟩
  · rw [chunks_listing_of_single only]
    rfl
  · rw [← loaded.position]
    refine loadChunk_of_foreign (fun own => ?_) reopened
    have fits := RegionPos.fits_regionOf chunk
    rw [own, loaded.position, RegionPos.fits_iff] at fits
    exact absurd fits (by decide)

end Region
end RegionStore
