import RegionStore.Proofs.Deflate.Container
import RegionStore.Proofs.Region.Touching

/-!
Chunks are isolated from each other under failures. A change touches nothing on disk that belongs to a
chunk it is not about, at no moment of it and whether it succeeds or fails, and what the live region
tells about such a chunk is the same before and after it.
-/

set_option autoImplicit false

namespace RegionStore.Region

open Disk

/-- All that belongs to a slot is in a content as in an earlier one: its two words and, if it has a chunk,
every sector of that. -/
structure Untouched (region : Region) (slot : Slot) (before after : Content) : Prop where
  offset : after.read (Tables.offsetPosition slot) 4 = before.read (Tables.offsetPosition slot) 4
  timestamp : after.read (Tables.timestampPosition slot) 4 =
    before.read (Tables.timestampPosition slot) 4
  present : ∀ extent, region.tables.extent? slot = some extent →
    extent.position + extent.size ≤ after.size
  record : ∀ extent, region.tables.extent? slot = some extent →
    after.read extent.position extent.size = before.read extent.position extent.size

def Change.Elsewhere (region : Region) (change : Change) (slot : Slot) : Prop :=
  ∀ chunk, change.chunk? = some chunk → region.slot chunk ≠ .ok slot

section
variable {region : Region} {change : Change} {slot : Slot} (elsewhere : change.Elsewhere region slot)
include elsewhere

/-- The event leaves a range alone that is apart from the words of all other slots and from where records
of them go. -/
theorem Change.Touches.leaves {event : Event} (touches : change.Touches region event) {first last : Nat}
    (inside : last ≤ region.space.sectors.toNat * sectorSize)
    (words : ∀ other ≠ slot,
      (last ≤ Tables.offsetPosition other ∨ Tables.offsetPosition other + 4 ≤ first) ∧
        (last ≤ Tables.timestampPosition other ∨ Tables.timestampPosition other + 4 ≤ first))
    (records : ∀ other ≠ slot, ∀ data extent next,
      sectorsOf (Region.record data).size ≤ maxExtentSectors →
        FreeSpace.Target region.space (region.tables.extent? other)
          (sectorsOf (Region.record data).size) extent next →
        last ≤ extent.position ∨ extent.position + extent.size ≤ first) :
    event.Leaves first last := by
  have different {chunk : ChunkPos} {other : Slot} (about : change.chunk? = some chunk)
      (own : region.slot chunk = .ok other) : other ≠ slot := by
    rintro rfl
    exact elsewhere chunk about own
  cases touches with
  | record own touches =>
    obtain ⟨extent, next, small, target, confined⟩ := touches
    exact confined.leaves inside (records _ (different rfl own) _ extent next small target)
  | timestamp about own confined => exact confined.leaves inside (words _ (different about own)).2
  | offset about own confined => exact confined.leaves inside (words _ (different about own)).1
  | synced refusal => trivial

variable {limit : Nat} {file : Device} (intact : Intact limit region file)
include intact

theorem Intact.leaves_word {position : Nat}
    (isWord : position = Tables.offsetPosition slot ∨ position = Tables.timestampPosition slot)
    {event : Event} (touches : change.Touches region event) : event.Leaves position (position + 4) := by
  have within : position + 4 ≤ headerSize := by
    rcases isWord with rfl | rfl
    · exact (offsetPosition_facts slot).2
    · exact (timestampPosition_facts slot).2
  refine touches.leaves elsewhere (Nat.le_trans within intact.header_le) (fun other different => ?_)
    fun other _ data extent next small target =>
      .inl (Nat.le_trans within (intact.target_inside target small).1.position_ge)
  have apartOffsets := mt offsetPosition_inj.1 different
  have apartTimestamps := mt timestampPosition_inj.1 different
  have apart := offsetPosition_ne_timestampPosition slot other
  have apart' := offsetPosition_ne_timestampPosition other slot
  -- words are aligned, so two of them are the same or have no common byte
  have aligned := (offsetPosition_facts slot).1
  have aligned' := (timestampPosition_facts slot).1
  have alignedOther := (offsetPosition_facts other).1
  have alignedOther' := (timestampPosition_facts other).1
  rcases isWord with rfl | rfl
  · omega
  · omega

theorem Intact.leaves_extent {place : Extent} (found : region.tables.extent? slot = some place)
    {event : Event} (touches : change.Touches region event) :
    event.Leaves place.position (place.position + place.size) := by
  have inside := intact.partitioned.inside slot place found
  refine touches.leaves elsewhere inside.end_le (fun other _ => ?_)
    fun other different data extent next small target => ?_
  · have behind := inside.position_ge
    have offset := (offsetPosition_facts other).2
    have timestamp := (timestampPosition_facts other).2
    omega
  · exact (intact.target_apart target small found (.inl different.symm)).bytes inside.nonempty
      (intact.target_inside target small).1.nonempty

/-- Whatever a change has done so far, all that belongs to another slot is as before. -/
theorem Intact.untouched {events : List Event}
    (touch : ∀ event ∈ events, change.Touches region event) :
    region.Untouched slot file.content (replay file.content events) := by
  have word {position : Nat}
      (isWord : position = Tables.offsetPosition slot ∨ position = Tables.timestampPosition slot)
      (within : position + 4 ≤ headerSize) :
      (replay file.content events).read position 4 = file.content.read position 4 :=
    (replay_of_leaves (fun event member => intact.leaves_word elsewhere isWord (touch event member))
      (Nat.le_trans within intact.header_present)).2 position 4 (Nat.le_refl _) (Nat.le_refl _)
  have extents {extent : Extent} (found : region.tables.extent? slot = some extent) :=
    replay_of_leaves (fun event member => intact.leaves_extent elsewhere found (touch event member))
      (Nat.le_trans (intact.partitioned.inside slot extent found).end_le intact.covered)
  exact ⟨word (.inl rfl) (offsetPosition_facts slot).2, word (.inr rfl) (timestampPosition_facts slot).2,
    fun extent found => (extents found).1,
    fun extent found => (extents found).2 _ _ (Nat.le_refl _) (Nat.le_refl _)⟩

theorem Intact.tables_elsewhere [Codec] : Ends change.run (region, file)
    (fun _ state => state.1.position = region.position ∧
      state.1.tables.extent? slot = region.tables.extent? slot ∧
      state.1.tables.timestamp? slot = region.tables.timestamp? slot)
    fun _ state => state.1.position = region.position ∧
      state.1.tables.extent? slot = region.tables.extent? slot ∧
      state.1.tables.timestamp? slot = region.tables.timestamp? slot := by
  refine intact.change_ends change (fun again _ => again.position = region.position ∧
    again.tables.extent? slot = region.tables.extent? slot ∧
    again.tables.timestamp? slot = region.tables.timestamp? slot) ?_ ?_ ?_ ?_
  · exact fun _ _ => ⟨rfl, rfl, rfl⟩
  · exact fun _ _ => ⟨rfl, rfl, rfl⟩
  · intro pending _ after reaches _
    have framed := intact.framed reaches
    rw [framed.tables]
    exact ⟨framed.positions.1, rfl, rfl⟩
  · intro pending after synced reaches _ _
    have framed := intact.framed reaches
    obtain ⟨_, chunk, about, own⟩ := reaches.logs intact.partitioned.sound
    have different : slot ≠ pending.slot := by
      rintro rfl
      exact elsewhere chunk about own
    rw [framed.changes, Tables.extent?_set, Tables.timestamp?_set, if_neg different, if_neg different]
    exact ⟨framed.positions.2, rfl, rfl⟩

end

/-- For every open region on a file that was new once, whatever has failed since, every change of it in any
surroundings and every chunk of the region that the change is not about: at every moment of the change,
what belongs to the chunk is on disk as before, and the file reaches behind it. What the live region
tells about the chunk is the same before and after the change. -/
theorem change_isolated [Codec] {position : RegionPos} {live changed : Region} {now after : Device}
    (reached : Reached position (fun _ _ => True) (live, now)) (around : Surroundings) (change : Change)
    (made : Change.apply (live, now) (around, change) = (changed, after)) {other : ChunkPos}
    (inRegion : other.regionOf = position) (different : change.chunk? ≠ some other) :
    (∃ events, after.around.events = events ++ around.events ∧
      after.content = replay now.content events ∧ ∀ moment, moment <:+ events →
        live.Untouched other.slotOf now.content (replay now.content moment)) ∧
      changed.hasChunk other = live.hasChunk other ∧
      changed.timestamp? other = live.timestamp? other ∧
      ∀ later : Surroundings, later.Untroubled →
        outcome (loadChunk other) (changed, after.under later) =
          outcome (loadChunk other) (live, now.under later) := by
  have compact := reached.compact
  have start := (compact.under around).intact
  have position_eq : live.position = position := compact.position
  have own : live.slot other = .ok other.slotOf := slot_eq_ok_iff.2 ⟨inRegion.trans position_eq.symm, rfl⟩
  have elsewhere : change.Elsewhere live other.slotOf := by
    intro chunk about same
    refine slot_ne_of_ne same (fun equal => different ?_) own
    rw [equal, about]
  have made' : final change.run (live, now.under around) = (changed, after) := made
  have logs := Ends.final (fun state : Region × Device =>
    (now.under around).Logs (change.Touches live) state.2)
    (Change.run_logs start.partitioned.sound (now.under around) change)
  have tables := Ends.final (fun state : Region × Device => state.1.position = live.position ∧
    state.1.tables.extent? other.slotOf = live.tables.extent? other.slotOf ∧
    state.1.tables.timestamp? other.slotOf = live.tables.timestamp? other.slotOf)
    (start.tables_elsewhere elsewhere)
  have isFile := Change.full_apply (live, now) (around, change)
  rw [made] at isFile
  rw [made'] at logs tables
  obtain ⟨events, log, content, touch⟩ := logs
  obtain ⟨samePosition, sameExtent, sameTimestamp⟩ := tables
  have own' : changed.slot other = .ok other.slotOf :=
    slot_eq_ok_iff.2 ⟨inRegion.trans (samePosition.trans position_eq).symm, rfl⟩
  have untouched {moment : List Event} (part : moment <:+ events) :
      live.Untouched other.slotOf now.content (replay now.content moment) :=
    start.untouched elsewhere fun event member => touch event (part.subset member)
  refine ⟨⟨events, log, content, fun moment part => untouched part⟩, ?_, ?_, fun later calm => ?_⟩
  · rw [hasChunk, hasChunk, own, own']
    exact congrArg (fun found => Except.ok found.isSome) sameExtent
  · rw [timestamp?, timestamp?, own, own']
    exact congrArg Except.ok sameTimestamp
  · have isFileNow : now.full = false := compact.isFile
    have untroubled : (now.under later).Untroubled := ⟨isFileNow, calm⟩
    have untroubledAfter : (after.under later).Untroubled := ⟨isFile.trans isFileNow, calm⟩
    rw [outcome_loadChunk live untroubled, outcome_loadChunk changed untroubledAfter]
    refine find_congr samePosition fun slot found => ?_
    obtain rfl : other.slotOf = slot := Except.ok.inj (own.symm.trans found)
    refine ⟨sameExtent, fun extent present => ?_⟩
    change after.content.read _ _ = now.content.read _ _
    rw [content]
    exact (untouched (List.suffix_refl events)).record extent present

/-- A save to a second chunk that stops behind six bytes of its record. -/
theorem change_isolated_short :
    let broken : Surroundings := { Surroundings.initial with schedule :=
      { Schedule.calm with writing := [⟨.short 6, 1⟩, ⟨.refused ⟨5⟩, 1⟩] } }
    ∃ live now changed after, Reached ⟨0, 0⟩ (fun _ _ => True) (live, now) ∧
      Change.apply (live, now) (broken, .save ⟨1, 0⟩ ⟨#[120]⟩ 3) = (changed, after) ∧
      (∃ events, after.around.events = events ++ broken.events ∧
        after.content = replay now.content events ∧ ∀ moment, moment <:+ events →
          live.Untouched (ChunkPos.slotOf ⟨0, 0⟩) now.content (replay now.content moment)) ∧
      outcome (loadChunk ⟨0, 0⟩) (changed, after.under Surroundings.initial) =
        .ok (some ⟨#[97, 98, 99]⟩) := by
  intro broken
  obtain ⟨_, _, live, now, _, _, reached, _, _, loads, _⟩ := exists_save_newFile
  have anyhow : Reached ⟨0, 0⟩ (fun _ _ => True) (live, now) := reached.mono fun _ _ _ => trivial
  have here : (⟨0, 0⟩ : ChunkPos).regionOf = ⟨0, 0⟩ := by decide
  obtain ⟨moments, _, _, same⟩ := change_isolated anyhow broken (.save ⟨1, 0⟩ ⟨#[120]⟩ 3) rfl here
    (by decide)
  exact ⟨live, now, _, _, anyhow, rfl, moments, (same _ untroubled_initial).trans loads⟩

end RegionStore.Region
