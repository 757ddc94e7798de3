import RegionStore.Proofs.Region.Filled
import RegionStore.Proofs.Region.Run

/-!
Closing a region and opening its file again. Entries that were dropped when the file was opened are
forgotten in memory only, so they are examined again at the next opening, with another length of the
file and other chunks in the slots below. The region comes back as it was exactly if each of them is
still to be dropped.
-/

set_option autoImplicit false

namespace RegionStore.Region

open Disk

/-- Two open regions that no caller can tell apart. -/
structure Reproduces [Codec] (again live : Region × Device) : Prop where
  extents : ∀ slot, again.1.tables.extent? slot = live.1.tables.extent? slot
  timestamps : ∀ slot, again.1.tables.timestamp? slot = live.1.tables.timestamp? slot
  free : again.1.space.byStart = live.1.space.byStart
  loads : ∀ chunk, outcome (loadChunk chunk) again = outcome (loadChunk chunk) live

/-- No entry on disk whose chunk is not there could be used: its extent overlaps the header, is empty,
ends behind the file or overlaps the chunk in a lower slot. -/
def Settled (region : Region) (content : Content) : Prop :=
  ∀ slot extent, region.tables.extent? slot = none → (stored content).extent? slot = some extent →
    extent.Inside region.space.sectors.toNat →
      ∃ lower < slot, ∃ other, region.tables.extent? lower = some other ∧ ¬ other.Apart extent

theorem Reproduces.congr [Codec] {again : Region × Device} {live : Region} {file other : Device}
    (reproduces : Reproduces again (live, file)) (untroubled : file.Untroubled)
    (untroubled' : other.Untroubled) (content : other.content = file.content) :
    Reproduces again (live, other) := by
  refine ⟨reproduces.extents, reproduces.timestamps, reproduces.free, fun chunk => ?_⟩
  rw [reproduces.loads, outcome_loadChunk live untroubled, outcome_loadChunk live untroubled', content]

theorem Loaded.content_eq {position : RegionPos} {sync : Bool} {file after : Device} {region : Region}
    (loaded : Loaded position sync file region after) (nonempty : file.content.size ≠ 0) :
    after.content = file.content := by
  have content := loaded.prepared.content
  rwa [if_neg nonempty] at content

theorem Loaded.recovers_iff {position : RegionPos} {sync : Bool} {limit : Nat} {region again : Region}
    {file after : Device} (loaded : Loaded position sync file again after)
    (intact : Intact limit region file) :
    (∀ slot, again.tables.extent? slot = region.tables.extent? slot ∧
        again.tables.timestamp? slot = region.tables.timestamp? slot) ↔
      (stored file.content).Recovers region.tables again.space.sectors.toNat := by
  have content := loaded.content_eq intact.nonempty
  have keeps := (Tables.surveyed_survey (stored after.content) again.space.sectors).keeps
  rw [← loaded.tables, content] at keeps
  have found (slot : Slot) (present : again.tables.offsets.get slot ≠ 0) :
      (stored file.content).timestamps.get slot = again.tables.timestamps.get slot := by
    rw [← content]
    exact loaded.faithful.timestamps slot present
  constructor
  · intro same
    have offsets (slot : Slot) : again.tables.offsets.get slot = region.tables.offsets.get slot :=
      Tables.extent?_eq_iff.1 (same slot).1
    have keepsLive := keeps.congr fun slot _ => (same slot).1.symm
    refine ⟨fun slot present => ⟨?_, ?_⟩, keepsLive.settled⟩
    · have live : region.tables.extent? slot = some (Extent.ofWord (region.tables.offsets.get slot)) :=
        Tables.extent?_eq_some_iff.2 ⟨present, rfl⟩
      exact Tables.extent?_eq_iff.1 ((((keepsLive slot slot.isLt _).1 live).1).trans live.symm)
    · have timestamps := (same slot).2
      rw [Tables.timestamp?_eq, Tables.timestamp?_eq, offsets, if_neg present, if_neg present] at timestamps
      rw [found slot (offsets slot ▸ present)]
      exact Option.some.inj timestamps
  · intro recovers
    have longer : region.space.sectors.toNat ≤ again.space.sectors.toNat := by
      have covered := intact.covered
      rw [← content, loaded.prepared.size] at covered
      exact Nat.le_of_mul_le_mul_right covered (by decide)
    have keepsLive : (stored file.content).Keeps again.space.sectors.toNat slotCount region.tables := by
      refine recovers.settled.keeps ?_ ?_ intact.partitioned.apart
      · intro slot extent live
        have present := (Tables.extent?_eq_some_iff.1 live).1
        exact (Tables.extent?_eq_iff.2 (recovers.words slot present).1).trans live
      · intro slot extent live
        have inside := intact.partitioned.inside slot extent live
        exact ⟨inside.behindHeader, inside.nonempty, Nat.le_trans inside.within longer⟩
    intro slot
    have extents := keeps.unique keepsLive slot slot.isLt
    have offsets : again.tables.offsets.get slot = region.tables.offsets.get slot :=
      Tables.extent?_eq_iff.1 extents
    refine ⟨extents, ?_⟩
    rw [Tables.timestamp?_eq, Tables.timestamp?_eq, offsets]
    split
    · rfl
    · next present =>
      rw [← found slot (offsets ▸ present), (recovers.words slot present).2]

/-- A file of exactly the sectors of its region brings the chunks back if nothing else could be used. -/
theorem Faithful.recovers_iff {region : Region} {file : Device} (faithful : Faithful region file) :
    (stored file.content).Recovers region.tables region.space.sectors.toNat ↔
      Settled region file.content :=
  ⟨fun recovers => recovers.settled, fun settled =>
    ⟨fun slot present => ⟨faithful.offsets slot present, faithful.timestamps slot present⟩, settled⟩⟩

theorem Faithful.reopened {region again : Region} {file after : Device} {position : RegionPos}
    {sync : Bool} (faithful : Faithful region file) (loaded : Loaded position sync file again after) :
    after.content = file.content ∧ again.space.sectors = region.space.sectors ∧
      (stored file.content).Keeps region.space.sectors.toNat slotCount again.tables := by
  have content := loaded.content_eq faithful.intact.nonempty
  have sectors : again.space.sectors = region.space.sectors := by
    have size := loaded.prepared.size
    rw [content, faithful.size] at size
    exact UInt32.toNat_inj.1 (Nat.eq_of_mul_eq_mul_right (by decide) size).symm
  have keeps := (Tables.surveyed_survey (stored after.content) again.space.sectors).keeps
  rw [← loaded.tables, content, sectors] at keeps
  exact ⟨content, sectors, keeps⟩

section
variable [Codec]

/-- A chunk with the same extent and the same bytes in it is found the same. -/
theorem find_congr {again live : Region} {content content' : Content} {chunk : ChunkPos}
    (position : again.position = live.position)
    (same : ∀ slot, live.slot chunk = .ok slot →
      again.tables.extent? slot = live.tables.extent? slot ∧
        ∀ place, live.tables.extent? slot = some place →
          content'.read place.position place.size = content.read place.position place.size) :
    again.find content' chunk = live.find content chunk := by
  have slots : again.slot chunk = live.slot chunk := by
    unfold slot
    rw [position]
  unfold find
  rw [slots]
  cases own : live.slot chunk with
  | error failure => rfl
  | ok slot =>
    obtain ⟨extents, bytes⟩ := same slot own
    simp only [extents, position]
    cases found : live.tables.extent? slot with
    | none => rfl
    | some place => simp only [bytes place found]

theorem Faithful.reproduces_iff {region again : Region} {file after : Device} {sync : Bool}
    (faithful : Faithful region file) (untroubled : file.Untroubled)
    (loaded : Loaded region.position sync file again after) :
    Reproduces (again, after) (region, file) ↔ Settled region file.content := by
  obtain ⟨content, sectors, _⟩ := faithful.reopened loaded
  rw [← faithful.recovers_iff, ← sectors, ← loaded.recovers_iff faithful.intact]
  constructor
  · exact fun reproduces slot => ⟨reproduces.extents slot, reproduces.timestamps slot⟩
  · intro same
    have extents := fun slot => (same slot).1
    refine ⟨extents, fun slot => (same slot).2, ?_, fun chunk => ?_⟩
    · have partitioned := loaded.partitioned.congr fun slot => (extents slot).symm
      have space : again.space = region.space := by
        refine partitioned.sound.eq_of_free_iff faithful.partitioned.sound sectors fun sector => ?_
        rw [partitioned.free, faithful.partitioned.free, sectors]
      exact congrArg FreeSpace.byStart space
    · rw [outcome_loadChunk again (loaded.prepared.continues.untroubled untroubled),
        outcome_loadChunk region untroubled, content]
      exact find_congr loaded.position fun slot _ => ⟨extents slot, fun _ _ => rfl⟩

/-- Wherever the record of a save goes, a table word can tell its extent. -/
def Change.Addressed (region : Region) : Change → Prop
  | .save chunk payload tag => ∀ slot data, region.slot chunk = .ok slot →
      encodeChunk payload tag = .ok data → sectorsOf (record data).size ≤ maxExtentSectors →
      ∀ extent next, FreeSpace.Target region.space (region.tables.extent? slot)
        (sectorsOf (record data).size) extent next → extent.Packable
  | _ => True

def Addressed : Region × Device → List (Surroundings × Change) → Prop
  | _, [] => True
  | state, step :: rest => step.2.Addressed state.1 ∧ Addressed (Change.apply state step) rest

/-- A change whose record can be told by a table word keeps the file short enough to be opened again. -/
theorem Intact.fits_of_addressed {region : Region} {file : Device}
    (intact : Intact (maxSectorIndex + maxExtentSectors) region file) {change : Change}
    (addressed : change.Addressed region) :
    change.Fits (maxSectorIndex + maxExtentSectors) region := by
  cases change with
  | save chunk payload tag =>
    intro slot data own accepted small extent next target
    exact ⟨addressed slot data own accepted small extent next target, target.short small intact.short⟩
  | delete chunk => trivial
  | flush => trivial

theorem Intact.run_of_addressed {state : Region × Device}
    (intact : Intact (maxSectorIndex + maxExtentSectors) state.1 state.2)
    {steps : List (Surroundings × Change)} (addressed : Addressed state steps) :
    Intact (maxSectorIndex + maxExtentSectors) (steps.foldl Change.apply state).1
      (steps.foldl Change.apply state).2 := by
  induction steps generalizing state with
  | nil => exact intact
  | cons step rest ih =>
    obtain ⟨first, later⟩ := addressed
    have start : Intact _ state.1 (state.2.under step.1) := intact.grown (Nat.le_refl _)
    exact ih (intact.apply_of_fits step (start.fits_of_addressed first)) later

theorem Intact.addressed {state : Region × Device}
    (intact : Intact (maxSectorIndex + 1) state.1 state.2) (steps : List (Surroundings × Change)) :
    Addressed state steps := by
  induction steps generalizing state with
  | nil => trivial
  | cons step rest ih =>
    refine ⟨?_, ih (intact.apply (by decide) (Nat.le_refl _) step)⟩
    cases step.2 with
    | save chunk payload tag =>
      intro slot data _ _ small extent next target
      exact intact.packable (Nat.le_refl _) target (record_size_pos data) small
    | delete chunk => trivial
    | flush => trivial

end

/-- What holds after a run without failures, since the region was opened. An entry on disk whose chunk is
not there has been dropped at the opening and has been left alone. -/
structure Follows (opened : Region) (origin : Content) (state : Region × Device) : Prop where
  position : state.1.position = opened.position
  untroubled : state.2.Untroubled
  faithful : Faithful state.1 state.2
  short : state.1.space.sectors.toNat ≤ maxSectorIndex + maxExtentSectors
  stale : ∀ slot : Slot, state.1.tables.offsets.get slot = 0 →
    (stored state.2.content).offsets.get slot = 0 ∨ opened.tables.offsets.get slot = 0 ∧
      (stored state.2.content).offsets.get slot = (stored origin).offsets.get slot

theorem Loaded.follows {position : RegionPos} {sync : Bool} {file after : Device} {region : Region}
    (loaded : Loaded position sync file region after) (untroubled : file.Untroubled) :
    Follows region after.content (region, after) :=
  ⟨rfl, loaded.prepared.continues.untroubled untroubled, loaded.faithful, loaded.prepared.short,
    fun _ absent => .inr ⟨absent, rfl⟩⟩

section
variable {opened : Region} {origin : Content} {region : Region} {file : Device}

theorem Follows.saved (follows : Follows opened origin (region, file)) {slot : Slot} {data : Bytes}
    {saved : Region} {after : Device} (ends : Saved region slot data file saved after)
    (packable : ∀ extent next, FreeSpace.Target region.space (region.tables.extent? slot)
      (sectorsOf (record data).size) extent next → extent.Packable) :
    Follows opened origin (saved, after) := by
  obtain ⟨extent, next, written, phases, keeps, rfl⟩ := ends.phases
  obtain ⟨placed, wrote, _⟩ := phases.phases
  have packed := packable extent next wrote.target
  have effect := phases.effect follows.faithful packed
  have nonempty := Nat.lt_of_lt_of_le (record_size_pos data) wrote.target.fits
  refine ⟨follows.position, (effect.continues.trans keeps.continues).untroubled follows.untroubled,
    effect.faithful.congr keeps.content, ?_, fun other absent => ?_⟩
  · rw [sectors_moved]
    exact wrote.target.short wrote.small follows.short
  rw [keeps.content, effect.stored]
  rcases Tables.absent_set absent with ⟨zero, _⟩ | ⟨before, same⟩
  · exact absurd zero (Extent.toWord_ne_zero packed nonempty)
  · rw [same]
    exact follows.stale other before

theorem Follows.cleared (follows : Follows opened origin (region, file)) {slot : Slot}
    {extent : Extent} (found : region.tables.extent? slot = some extent) {cleared : Region}
    {after : Device} (ends : Cleared region slot extent file cleared after) :
    Follows opened origin (cleared, after) := by
  have effect := ends.effect found follows.faithful
  rw [ends.region]
  refine ⟨follows.position, effect.continues.untroubled follows.untroubled, effect.faithful, ?_,
    fun other absent => ?_⟩
  · rw [removed, FreeSpace.sectors_release]
    exact follows.short
  rw [effect.stored]
  rcases Tables.absent_set absent with ⟨_, zero⟩ | ⟨before, same⟩
  · exact .inl zero
  · rw [same]
    exact follows.stale other before

end

section
variable [Codec]

theorem Follows.apply {opened : Region} {origin : Content} {state : Region × Device}
    (follows : Follows opened origin state) {step : Surroundings × Change}
    (untroubled : step.1.Untroubled) (addressed : step.2.Addressed state.1) :
    Follows opened origin (Change.apply state step) := by
  obtain ⟨region, file⟩ := state
  obtain ⟨around, change⟩ := step
  have faithful : Faithful region { file with around := around } := follows.faithful.congr rfl
  have ready : Device.Untroubled { file with around := around } :=
    ⟨follows.untroubled.full, untroubled⟩
  have start : Follows opened origin (region, { file with around := around }) :=
    ⟨follows.position, ready, faithful, follows.short, follows.stale⟩
  apply Ends.final (Follows opened origin)
  cases change with
  | save chunk payload tag =>
    refine Ends.mono (saveChunk_ends_untroubled faithful.partitioned.sound ready chunk payload tag) ?_ ?_
    · rintro _ ⟨saved, after⟩ ⟨slot, data, found, accepted, ends⟩
      obtain ⟨_, _, _, phases, _, _⟩ := ends.phases
      obtain ⟨_, wrote, _⟩ := phases.phases
      exact start.saved ends (addressed slot data found accepted wrote.small)
    · rintro _ _ ⟨rfl, _⟩
      exact start
  | delete chunk =>
    refine Ends.mono (deleteChunk_ends_untroubled region ready chunk) ?_ ?_
    · rintro _ ⟨cleared, after⟩ ⟨slot, _, ⟨_, same⟩ | ⟨extent, found, ends⟩⟩
      · cases same
        exact start
      · exact start.cleared found ends
    · rintro _ _ ⟨rfl, _⟩
      exact start
  | flush =>
    refine Ends.mono (flush_ends region _) ?_ ?_
    · rintro _ ⟨_, after⟩ ⟨rfl, keeps⟩
      exact ⟨start.position, keeps.continues.untroubled ready, faithful.congr keeps.content,
        start.short, keeps.content ▸ start.stale⟩
    · rintro _ _ ⟨_, _, troubled⟩
      exact absurd ready troubled

theorem Follows.run {opened : Region} {origin : Content} {state : Region × Device}
    (follows : Follows opened origin state) (steps : List (Surroundings × Change))
    (untroubled : ∀ step ∈ steps, step.1.Untroubled) (addressed : Addressed state steps) :
    Follows opened origin (steps.foldl Change.apply state) := by
  induction steps generalizing state with
  | nil => exact follows
  | cons step rest ih =>
    exact ih (follows.apply (untroubled step List.mem_cons_self) addressed.1)
      (fun later member => untroubled later (List.mem_cons_of_mem _ member)) addressed.2

/-- Without failures, closing a region and opening its file again succeeds. It brings the region back
exactly if no entry that was dropped before, and whose chunk is still not there, could be used now. -/
theorem reopening_reproduces_iff (position : RegionPos) (sync : Bool) {file : Device}
    (untroubled : file.Untroubled) (admissible : Admissible file.content.size) :
    ∃ region opened, load position sync file = .ok region opened ∧
      (file.content.size ≤ (maxSectorIndex + 1) * sectorSize →
        ∀ steps, Addressed (region, opened) steps) ∧
      ∀ steps : List (Surroundings × Change), (∀ step ∈ steps, step.1.Untroubled) →
        Addressed (region, opened) steps → ∀ live, live = steps.foldl Change.apply (region, opened) →
        ∃ closed again reopened, close live = .ok () (live.1, closed) ∧
          load position sync closed = .ok again reopened ∧
          (Reproduces (again, reopened) live ↔ Settled live.1 live.2.content) ∧
          ∀ slot extent, live.1.tables.extent? slot = none →
            (stored live.2.content).extent? slot = some extent →
              region.tables.extent? slot = none ∧ (stored opened.content).extent? slot = some extent := by
  obtain ⟨region, opened, ran, loaded⟩ := exists_load position sync untroubled admissible
  have positionRegion := loaded.position
  subst positionRegion
  refine ⟨region, opened, ran, fun short steps => ?_, fun steps calm addressed live made => ?_⟩
  · exact Intact.addressed (loaded.intact (loaded.short short)) steps
  · obtain ⟨samePosition, untroubledLive, faithful, shortLive, stale⟩ :=
      made ▸ (loaded.follows untroubled).run steps calm addressed
    obtain ⟨_, ⟨_, closed⟩, ranClose, rfl, keeps⟩ := (close_ends live.1 live.2).exists_ok
    have untroubledClosed := keeps.continues.untroubled untroubledLive
    have faithfulClosed := faithful.congr keeps.content
    obtain ⟨again, reopened, ranAgain, loadedAgain⟩ :=
      exists_load region.position sync untroubledClosed (faithfulClosed.admissible shortLive)
    rw [← samePosition] at loadedAgain
    refine ⟨closed, again, reopened, ranClose, ranAgain, ?_, fun slot extent absent found => ?_⟩
    · rw [← keeps.content, ← faithfulClosed.reproduces_iff untroubledClosed loadedAgain]
      constructor
      · exact fun same => same.congr untroubledLive untroubledClosed keeps.content
      · exact fun same => same.congr untroubledClosed untroubledLive keeps.content.symm
    · obtain ⟨present, isExtent⟩ := Tables.extent?_eq_some_iff.1 found
      rcases stale slot (Tables.extent?_eq_none_iff.1 absent) with gone | ⟨dropped, same⟩
      · exact absurd gone present
      · rw [same] at present isExtent
        exact ⟨Tables.extent?_eq_none_iff.2 dropped, Tables.extent?_eq_some_iff.2 ⟨present, isExtent⟩⟩

end

/-- A new file with one chunk comes back as it was. -/
theorem reopening_reproduces_new :
    let file : Device := ⟨"r.0.0.mca", Content.empty, false, Surroundings.initial⟩
    let steps := [(Surroundings.initial, Change.save ⟨1, 0⟩ ⟨#[97, 98, 99]⟩ 3)]
    ∃ region opened closed again reopened, load ⟨0, 0⟩ true file = .ok region opened ∧
      close (steps.foldl Change.apply (region, opened)) =
        .ok () ((steps.foldl Change.apply (region, opened)).1, closed) ∧
      load ⟨0, 0⟩ true closed = .ok again reopened ∧
      Reproduces (again, reopened) (steps.foldl Change.apply (region, opened)) := by
  intro file steps
  have calm : Surroundings.initial.Untroubled := ⟨rfl, Schedule.calm_mild⟩
  have untroubled : file.Untroubled := ⟨rfl, calm⟩
  obtain ⟨region, opened, ran, addressed, reopening⟩ :=
    reopening_reproduces_iff ⟨0, 0⟩ true untroubled (.inl rfl)
  have quiet : ∀ step ∈ steps, step.1.Untroubled := by
    intro step member
    rw [List.mem_singleton.1 member]
    exact calm
  obtain ⟨closed, again, reopened, ranClose, ranAgain, same, stale⟩ :=
    reopening steps quiet (addressed (by decide) steps) _ rfl
  refine ⟨region, opened, closed, again, reopened, ran, ranClose, ranAgain, same.2 ?_⟩
  intro slot extent absent found _
  have onDisk := (stale slot extent absent found).2
  have content := (loaded_of_load rfl ran).prepared.content
  rw [if_pos (show file.content.size = 0 from rfl)] at content
  have zero : (stored opened.content).offsets.get slot = 0 := by
    apply offsets_stored_of_zero
    intro position _
    rw [content.byte, Content.byteAt_write, Bytes.get_zeros,
      Content.byteAt_of_size_le (Nat.zero_le _), ite_self]
  exact absurd zero (Tables.extent?_eq_some_iff.1 onDisk).1

/-- A file of the two header sectors, with an entry for its first slot that ends behind the file. -/
def fileWithEntryBehind : Device :=
  ⟨"r.0.0.mca", (Content.empty.resize headerSize).write 0 (Bytes.ofWord 513), false, Surroundings.initial⟩

theorem fileWithEntryBehind_size : fileWithEntryBehind.content.size = headerSize := by
  rw [fileWithEntryBehind, Content.size_write, Content.size_resize]
  rfl

theorem stored_fileWithEntryBehind (slot : Slot) :
    (stored fileWithEntryBehind.content).extent? slot = if slot.val = 0 then some ⟨2, 1⟩ else none := by
  have word : (stored fileWithEntryBehind.content).offsets.get slot =
      if slot.val = 0 then 513 else 0 := offsets_stored_front headerSize 513 slot
  rw [Tables.extent?_eq, word]
  split
  · rfl
  · rfl

theorem hasChunk_of_slot {region : Region} {chunk : ChunkPos} {slot : Slot}
    (found : region.slot chunk = .ok slot) :
    region.hasChunk chunk = .ok (region.tables.extent? slot).isSome := by
  rw [hasChunk, found]
  rfl

theorem load_fileWithEntryBehind :
    ∃ region opened, load ⟨0, 0⟩ true fileWithEntryBehind = .ok region opened ∧
      region.position = ⟨0, 0⟩ ∧ opened.Untroubled ∧ Faithful region opened ∧
      opened.content = fileWithEntryBehind.content ∧ region.space.sectors.toNat = 2 ∧
      (∀ slot, region.tables.extent? slot = none) ∧ region.space.byStart = [] := by
  have untroubled : fileWithEntryBehind.Untroubled := ⟨rfl, rfl, Schedule.calm_mild⟩
  have size := fileWithEntryBehind_size
  obtain ⟨region, opened, ran, loaded⟩ :=
    exists_load ⟨0, 0⟩ true untroubled (by rw [size]; decide)
  have content := loaded.prepared.content
  rw [size, headerSize, if_neg (by decide)] at content
  have sectors : region.space.sectors.toNat = 2 := by
    have sizeOpened := loaded.prepared.size
    rw [content, size, headerSize, sectorSize] at sizeOpened
    omega
  refine ⟨region, opened, ran, loaded.position, loaded.prepared.continues.untroubled untroubled,
    loaded.faithful, content, sectors, fun slot => ?_, ?_⟩
  · have keeps := (Tables.surveyed_survey (stored opened.content) region.space.sectors).keeps
    rw [← loaded.tables, content, sectors] at keeps
    cases found : region.tables.extent? slot with
    | none => rfl
    | some extent =>
      obtain ⟨onDisk, inside, _⟩ := (keeps slot slot.isLt extent).1 found
      rw [stored_fileWithEntryBehind] at onDisk
      split at onDisk
      · cases onDisk
        exact absurd inside (by decide)
      · cases onDisk
  · exact loaded.partitioned.sound.noFree_of_header (Nat.le_of_eq sectors)

theorem save_fileWithEntryBehind [Codec] {region : Region} {opened : Device}
    (position : region.position = ⟨0, 0⟩) (untroubled : opened.Untroubled)
    (faithful : Faithful region opened) (sectors : region.space.sectors.toNat = 2)
    (nothing : ∀ slot, region.tables.extent? slot = none) (noFree : region.space.byStart = []) :
    ∃ saved written, saveChunk ⟨1, 0⟩ ⟨#[97, 98, 99]⟩ 3 (region, opened) = .ok () (saved, written) ∧
      Appended region ⟨1, by decide⟩ ⟨#[3, 97, 98, 99]⟩ opened ⟨2, 1⟩ saved written := by
  have own : region.slot ⟨1, 0⟩ = .ok ⟨1, by decide⟩ := by
    rw [Region.slot, position]
    rfl
  have place : region.space.tail (sectorsOf (record ⟨#[3, 97, 98, 99]⟩).size) = ⟨2, 1⟩ := by
    rw [FreeSpace.tail, show region.space.sectors = 2 from UInt32.toNat_inj.1 sectors]
    rfl
  have encoded : encodeChunk ⟨#[97, 98, 99]⟩ 3 = .ok ⟨#[3, 97, 98, 99]⟩ := rfl
  have short : region.space.sectors.toNat ≤ maxSectorIndex := by
    rw [sectors]
    decide
  obtain ⟨saved, written, ran, appended⟩ :=
    faithful.exists_append untroubled noFree short own (nothing _) encoded (by decide)
  exact ⟨saved, written, ran, place ▸ appended⟩

/-- An entry that was dropped comes back, in place of the chunk that was saved since. -/
theorem reopening_brings_back :
    ∃ region opened saved written closed again reopened,
      load ⟨0, 0⟩ true fileWithEntryBehind = .ok region opened ∧
      saveChunk ⟨1, 0⟩ ⟨#[97, 98, 99]⟩ 3 (region, opened) = .ok () (saved, written) ∧
      close (saved, written) = .ok () (saved, closed) ∧
      load ⟨0, 0⟩ true closed = .ok again reopened ∧
      saved.hasChunk ⟨0, 0⟩ = .ok false ∧ saved.hasChunk ⟨1, 0⟩ = .ok true ∧
      again.hasChunk ⟨0, 0⟩ = .ok true ∧ again.hasChunk ⟨1, 0⟩ = .ok false := by
  obtain ⟨region, opened, ran, position, untroubled, faithful, content, sectors, nothing, noFree⟩ :=
    load_fileWithEntryBehind
  obtain ⟨saved, written, ranSave, appended⟩ :=
    save_fileWithEntryBehind position untroubled faithful sectors nothing noFree
  have positionSaved := appended.position.trans position
  have untroubledSaved := appended.continues.untroubled untroubled
  have faithfulSaved := appended.faithful
  have sectorsSaved : saved.space.sectors.toNat = 3 := appended.sectors
  obtain ⟨_, ⟨left, closed⟩, ranClose, same, keeps⟩ := (close_ends saved written).exists_ok
  obtain rfl : saved = left := same.symm
  obtain ⟨again, reopened, ranAgain, loaded⟩ :=
    exists_load ⟨0, 0⟩ true (keeps.continues.untroubled untroubledSaved)
      ((faithfulSaved.congr keeps.content).admissible (by rw [sectorsSaved]; decide))
  obtain ⟨_, _, keepsAgain⟩ := (faithfulSaved.congr keeps.content).reopened loaded
  rw [keeps.content, sectorsSaved] at keepsAgain
  have entry : ∀ slot : Slot, slot.val < 2 →
      (stored written.content).extent? slot = some ⟨2, 1⟩ := by
    intro slot small
    rw [appended.onDisk, content, stored_fileWithEntryBehind]
    split
    · rfl
    · next elsewhere =>
      have below : slot.val ≠ 1 := fun same => elsewhere (Fin.ext same)
      exact if_pos (by omega)
  have first : again.tables.extent? ⟨0, by decide⟩ = some ⟨2, 1⟩ := by
    refine (keepsAgain ⟨0, by decide⟩ (by decide) _).2 ⟨entry _ (by decide), by decide, ?_⟩
    exact fun lower below => absurd below (Nat.not_lt_zero _)
  have second : again.tables.extent? ⟨1, by decide⟩ = none := by
    cases found : again.tables.extent? ⟨1, by decide⟩ with
    | none => rfl
    | some extent =>
      obtain ⟨same, _, apart⟩ := (keepsAgain ⟨1, by decide⟩ (by decide) extent).1 found
      cases (entry _ (by decide)).symm.trans same
      have apart := apart ⟨0, by decide⟩ (by decide) _ first
      exact absurd (Extent.holds_first (by decide)) (apart 2 (by decide))
  have slots {some : Region} (position : some.position = ⟨0, 0⟩) :
      some.slot ⟨0, 0⟩ = .ok ⟨0, by decide⟩ ∧ some.slot ⟨1, 0⟩ = .ok ⟨1, by decide⟩ := by
    rw [Region.slot, Region.slot, position]
    exact ⟨rfl, rfl⟩
  refine ⟨region, opened, saved, written, closed, again, reopened, ran, ranSave, ranClose, ranAgain,
    ?_, ?_, ?_, ?_⟩
  · rw [hasChunk_of_slot (slots positionSaved).1, appended.extents, nothing]
    rfl
  · rw [hasChunk_of_slot (slots positionSaved).2, appended.extents]
    rfl
  · rw [hasChunk_of_slot (slots loaded.position).1, first]
    rfl
  · rw [hasChunk_of_slot (slots loaded.position).2, second]
    rfl

end RegionStore.Region
