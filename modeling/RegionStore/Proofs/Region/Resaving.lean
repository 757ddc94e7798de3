import RegionStore.Proofs.Region.Overwriting
import RegionStore.Proofs.Region.Rejection

/-!
Saving a chunk over itself. A record that fits the extent of its chunk stays there, so no chunk moves, no
sectors are taken or given back, and the file keeps its length, whether the save succeeds or fails. The
first save of a payload may place the record anywhere; the second one finds all of its bytes written.
-/

set_option autoImplicit false

namespace RegionStore

open Disk

theorem Tables.set_set (tables : Tables) (slot : Slot) (offset : UInt32) (timestamp : Int32) :
    (tables.set slot offset timestamp).set slot offset timestamp = tables.set slot offset timestamp := by
  apply Tables.ext_get
  · intro other
    simp only [Tables.offsets_set]
    split <;> rfl
  · intro other
    simp only [Tables.timestamps_set]
    split <;> rfl

theorem FreeSpace.Target.stays_of_fits {space next : FreeSpace} {count : Nat} {old extent : Extent}
    (target : Target space (some old) count extent next) (fits : count ≤ old.count.toNat) :
    extent = old ∧ next = space := by
  cases target with
  | stays same fits kept => exact ⟨(Option.some.inj same).symm, kept⟩
  | carved moves size carves => exact absurd fits (Nat.not_le_of_lt (moves old rfl))
  | appended moves size appends => exact absurd fits (Nat.not_le_of_lt (moves old rfl))

namespace Region

/-- The chunks are where they were, the same sectors are free, and the file has the same length. -/
structure SameLayout (region : Region) (file : Device) (left : Region) (after : Device) : Prop where
  extents : ∀ slot, left.tables.extent? slot = region.tables.extent? slot
  space : left.space = region.space
  size : after.content.size = file.content.size

section
variable {limit : Nat} {region : Region} {file : Device} (intact : Intact limit region file)
  {slot : Slot} {data : Bytes} {extent : Extent} (found : region.tables.extent? slot = some extent)
  (fits : sectorsOf (record data).size ≤ extent.count.toNat)
include intact found fits

theorem Intact.placed_staying {place : Extent} {next : FreeSpace} {placed : Device}
    (wrote : FreeSpace.Placed region.space file (region.tables.extent? slot) (record data) place next
      placed) :
    place = extent ∧ next = region.space ∧ placed.content.size = file.content.size := by
  have target := wrote.target
  rw [found] at target
  obtain ⟨rfl, rfl⟩ := target.stays_of_fits fits
  refine ⟨rfl, rfl, wrote.wrote.size ?_⟩
  rw [Extent.size_padded fits]
  exact Nat.le_trans (intact.partitioned.inside slot place found).end_le intact.covered

/-- The words that are written tell the extent that was told before. -/
theorem Intact.sameLayout_of_written {place : Extent} {next : FreeSpace} {written after : Device}
    (saved : SaveWritten region slot data file place next written) (keeps : written.Keeps after)
    (timestamp : Int32) : SameLayout region file (region.moved slot place next timestamp) after := by
  obtain ⟨placed, wrote, entry⟩ := saved.phases
  obtain ⟨rfl, rfl, size⟩ := intact.placed_staying found fits wrote
  have inside := intact.partitioned.inside slot place found
  have packable := Tables.packable_of_extent? found
  refine ⟨fun other => ?_, ?_, ?_⟩
  · rw [moved, Tables.extent?_set_toWord _ _ _ packable inside.nonempty]
    split
    · next here => rw [here, found]
    · rfl
  · simp [moved, found]
  · rw [keeps.content, (entry.confined (size ▸ intact.header_present)).1, size]

theorem Intact.save_sameLayout [Codec] {chunk : ChunkPos} {payload : Bytes} {tag : UInt8}
    (own : region.slot chunk = .ok slot) (accepted : encodeChunk payload tag = .ok data) :
    Ends (saveChunk chunk payload tag) (region, file)
      (fun _ state => SameLayout region file state.1 state.2)
      fun _ state => SameLayout region file state.1 state.2 := by
  refine Ends.mono (saveChunk_ends intact.partitioned.sound file chunk payload tag) ?_ ?_
  · rintro _ ⟨saved, after⟩ ⟨_, _, own', accepted', ends⟩
    cases own.symm.trans own'
    cases accepted.symm.trans accepted'
    obtain ⟨place, next, written, phases, keeps, rfl⟩ := ends.phases
    exact intact.sameLayout_of_written found fits phases keeps _
  · rintro failure ⟨left, after⟩ (⟨same, _⟩ | ⟨_, _, own', accepted', failed⟩)
    · cases same
      exact ⟨fun _ => rfl, rfl, rfl⟩
    · cases own.symm.trans own'
      cases accepted.symm.trans accepted'
      have present := Nat.le_trans (intact.partitioned.inside slot extent found).end_le intact.covered
      cases failed with
      | unplaced _ cause =>
        obtain ⟨count, _, wrote⟩ := intact.wrote_of_staying cause found fits
        refine ⟨fun _ => rfl, rfl, wrote.size (extract_within ?_ count)⟩
        rwa [Extent.size_padded fits]
      | unwritten place next placed _ wrote cut troubled =>
        obtain ⟨rfl, rfl, size⟩ := intact.placed_staying found fits wrote
        refine ⟨fun _ => rfl, ?_, ?_⟩
        · simp [found]
        · rw [(cut.confined (size ▸ intact.header_present)).1, size]
      | unsynced place next written _ phases keeps troubled =>
        exact intact.sameLayout_of_written found fits phases keeps _

end

/-- Words that are in the file already may be written once more. -/
theorem EntryWritten.again {slot : Slot} {offset : UInt32} {timestamp : Int32}
    {file written placed after : Device} (entry : EntryWritten slot offset timestamp file written)
    (header : headerSize ≤ file.content.size) (same : placed.content.Same written.content)
    (second : EntryWritten slot offset timestamp placed after) :
    after.content.Same written.content := by
  have told := stored_of_entryWritten entry
  have enough : headerSize ≤ written.content.size := Nat.le_trans header entry.size_le
  have timestampThere : written.Wrote (Tables.timestampPosition slot) _ written :=
    wrote_timestamp_again enough
  have offsetThere : written.Wrote (Tables.offsetPosition slot) _ written := wrote_offset_again enough
  rw [told, Tables.timestamps_set, if_pos rfl] at timestampThere
  rw [told, Tables.offsets_set, if_pos rfl] at offsetThere
  obtain ⟨between, first, last⟩ := second.words
  have halfway : between.content.Same written.content :=
    (first.content.trans (same.write _ _)).trans timestampThere.content.symm
  exact (last.content.trans (halfway.write _ _)).trans offsetThere.content.symm

theorem moved_again {region : Region} {slot : Slot} {extent : Extent} {timestamp : Int32}
    (found : region.tables.extent? slot = some extent)
    (told : region.tables.set slot extent.toWord timestamp = region.tables) :
    region.moved slot extent region.space timestamp = region := by
  simp [moved, found, told]

/-- A second save in the same second leaves what the first one has left. -/
theorem Intact.saved_again {limit : Nat} {region : Region} {file : Device}
    (intact : Intact limit region file) (addressable : limit ≤ maxSectorIndex + 1) {slot : Slot}
    {data : Bytes} {saved : Region} {after : Device} (first : Saved region slot data file saved after)
    {again : Device} (content : again.content = after.content)
    (second : again.around.timestamp = file.around.timestamp) {twice : Region} {left : Device}
    (ends : Saved saved slot data again twice left) :
    twice = saved ∧ left.content.Same after.content := by
  obtain ⟨extent, next, written, ⟨placed, wrote, entry⟩, keeps, rfl⟩ := first.phases
  obtain ⟨place, space, written', ⟨placed', wrote', entry'⟩, keeps', rfl⟩ := ends.phases
  have packable := intact.packable addressable wrote.target (record_size_pos data) wrote.small
  obtain ⟨inside, _⟩ := intact.target_inside wrote.target wrote.small
  have found := intact.extent?_moved wrote packable file.around.timestamp
  have target := wrote'.target
  rw [found] at target
  obtain ⟨rfl, rfl⟩ := target.stays_of_fits wrote.target.fits
  have header := Nat.le_trans intact.header_present wrote.wrote.size_le
  obtain ⟨size, confined⟩ := entry.confined header
  have present := Nat.le_trans inside.end_le (intact.covered_next wrote)
  -- The whole extent is written as it was: the record and the zeros behind it.
  have there : again.content.read place.position (place.padded (record data)).size =
      place.padded (record data) := by
    rw [Extent.size_padded wrote.target.fits, content, keeps.content,
      confined _ _ present (.inr inside.position_ge), wrote.read_own]
  have same : placed'.content.Same written.content := by
    rw [← keeps.content, ← content]
    refine wrote'.wrote.content.trans (Content.write_of_read ?_ there)
    rwa [Extent.size_padded wrote.target.fits, content, keeps.content, size]
  rw [second] at entry' ⊢
  constructor
  · exact moved_again found (Tables.set_set ..)
  · rw [keeps'.content, keeps.content]
    exact entry.again header same entry'

theorem Intact.fits_of_saved {limit : Nat} {region : Region} {file : Device}
    (intact : Intact limit region file) (addressable : limit ≤ maxSectorIndex + 1) {slot : Slot}
    {data : Bytes} {saved : Region} {after : Device} (ends : Saved region slot data file saved after) :
    sectorsOf (record data).size ≤ maxExtentSectors ∧
      ∃ extent, saved.tables.extent? slot = some extent ∧
        sectorsOf (record data).size ≤ extent.count.toNat := by
  obtain ⟨extent, next, written, ⟨placed, wrote, _⟩, _, rfl⟩ := ends.phases
  have packable := intact.packable addressable wrote.target (record_size_pos data) wrote.small
  exact ⟨wrote.small, extent, intact.extent?_moved wrote packable _, wrote.target.fits⟩

theorem Compact.saves_again [Codec] {position : RegionPos} {region : Region} {file : Device}
    (compact : Compact position region file) (untroubled : file.Untroubled) {chunk : ChunkPos}
    {payload data : Bytes} {tag : UInt8} {slot : Slot} (own : region.slot chunk = .ok slot)
    (accepted : encodeChunk payload tag = .ok data)
    (small : sectorsOf (record data).size ≤ maxExtentSectors) {extent : Extent}
    (found : region.tables.extent? slot = some extent)
    (fits : sectorsOf (record data).size ≤ extent.count.toNat) :
    ∃ twice left, saveChunk chunk payload tag (region, file) = .ok () (twice, left) ∧
      Saved region slot data file twice left := by
  have ends : Ends (saveChunk chunk payload tag) (region, file)
      (fun _ state => Saved region slot data file state.1 state.2) fun _ _ => False := by
    refine Ends.mono (saveChunk_ends_untroubled compact.intact.partitioned.sound untroubled chunk payload
      tag) ?_ ?_
    · rintro _ _ ⟨_, _, own', accepted', saved⟩
      cases own.symm.trans own'
      cases accepted.symm.trans accepted'
      exact saved
    · rintro failure _ ⟨_, foreign | ⟨_, own', unknown | ⟨_, accepted', why⟩⟩⟩
      · cases own.symm.trans foreign
      · cases accepted.symm.trans unknown
      · cases own.symm.trans own'
        cases accepted.symm.trans accepted'
        cases why with
        | large tooLarge => omega
        | full _ moves _ _ =>
          have short := moves extent found
          omega
  obtain ⟨_, ⟨twice, left⟩, ran, saved⟩ := ends.exists_ok
  exact ⟨twice, left, ran, saved⟩

/-- Saving a payload twice in the same second comes to the same as saving it once, and a save whose record
fits the extent of its chunk keeps the layout of the file, whatever fails. -/
theorem save_twice [Codec] {position : RegionPos} {Allowed : Region × Device → Surroundings × Change → Prop}
    {region : Region} {file : Device} (reached : Reached position Allowed (region, file))
    (chunk : ChunkPos) (payload : Bytes) (tag : UInt8) :
    (∀ around again : Surroundings, around.Untroubled → again.Untroubled → again.clock = around.clock →
      ∀ once, Change.apply (region, file) (around, .save chunk payload tag) = once →
        outcome (saveChunk chunk payload tag) (once.1, once.2.under again) =
            outcome (saveChunk chunk payload tag) (region, file.under around) ∧
          (Change.apply once (again, .save chunk payload tag)).1 = once.1 ∧
          (Change.apply once (again, .save chunk payload tag)).2.content.Same once.2.content) ∧
    ∀ slot extent data, region.slot chunk = .ok slot → region.tables.extent? slot = some extent →
      encodeChunk payload tag = .ok data → sectorsOf (record data).size ≤ extent.count.toNat →
      ∀ around, SameLayout region file (Change.apply (region, file) (around, .save chunk payload tag)).1
        (Change.apply (region, file) (around, .save chunk payload tag)).2 := by
  have compact : Compact position region file := reached.compact
  refine ⟨?_, ?_⟩
  · rintro around again calm calm' clock once made
    have start := compact.under around
    have untroubled : (file.under around).Untroubled := ⟨compact.isFile, calm⟩
    change final (saveChunk chunk payload tag) (region, file.under around) = once at made
    change _ ∧ (final (saveChunk chunk payload tag) (once.1, once.2.under again)).1 = once.1 ∧
      (final (saveChunk chunk payload tag) (once.1, once.2.under again)).2.content.Same once.2.content
    unfold final at made ⊢
    cases ran : saveChunk chunk payload tag (region, file.under around) with
    | error failure state =>
      obtain ⟨rfl, flawed⟩ := flawed_of_saveChunk untroubled ran
      have ran' : saveChunk chunk payload tag (region, (file.under around).under again) =
        .error failure (region, (file.under around).under again) := saveChunk_of_flawed flawed
      rw [ran] at made
      subst made
      simp only [outcome, ran, ran']
      exact ⟨trivial, trivial, Content.Same.refl _⟩
    | ok result state =>
      rw [ran] at made
      subst made
      obtain ⟨slot, data, own, accepted, saved⟩ := (ends_of_eq_ok ran).1
        (saveChunk_ends_untroubled compact.intact.partitioned.sound untroubled chunk payload tag)
      obtain ⟨small, extent, found, fits⟩ := start.intact.fits_of_saved (by decide) saved
      have live : Compact position state.1 state.2 :=
        (ends_of_eq_ok ran).1 (start.change (.save chunk payload tag))
      have own' : state.1.slot chunk = .ok slot := by
        obtain ⟨_, _, _, _, _, same⟩ := saved.phases
        rw [same]
        exact own
      obtain ⟨twice, left, ran', ends⟩ :=
        (live.under again).saves_again ⟨live.isFile, calm'⟩ own' accepted small found fits
      have second : (state.2.under again).around.timestamp = (file.under around).around.timestamp :=
        congrArg (fun time => Int32.ofInt (Int.tdiv time 1000)) clock
      obtain ⟨same, bytes⟩ :=
        start.intact.saved_again (by decide) saved (Device.content_under state.2 again) second ends
      simp only [outcome, ran, ran']
      exact ⟨trivial, same, bytes⟩
  · intro slot extent data own found accepted fits around
    have ends := (compact.under around).intact.save_sameLayout found fits own accepted
    refine Ends.final (fun state : Region × Device => SameLayout region file state.1 state.2) (ends.mono ?_ ?_)
    · exact fun _ _ same => ⟨same.extents, same.space, same.size⟩
    · exact fun _ _ same => ⟨same.extents, same.space, same.size⟩

/-- The first save appends the only record of a new file, the second one stays there, and so does a shorter
payload. -/
theorem save_twice_new :
    ∃ region opened live now, load ⟨0, 0⟩ true newFile = .ok region opened ∧
      Change.apply (region, opened) (Surroundings.initial, .save ⟨0, 0⟩ ⟨#[97, 98, 99]⟩ 3) =
        (live, now) ∧
      live.tables.extent? ⟨0, by decide⟩ = some ⟨2, 1⟩ ∧
      (Change.apply (live, now) (Surroundings.initial, .save ⟨0, 0⟩ ⟨#[97, 98, 99]⟩ 3)).1 = live ∧
      (Change.apply (live, now) (Surroundings.initial, .save ⟨0, 0⟩ ⟨#[97, 98, 99]⟩ 3)).2.content.Same
        now.content ∧
      SameLayout live now
        (Change.apply (live, now) (Surroundings.initial, .save ⟨0, 0⟩ ⟨#[98]⟩ 3)).1
        (Change.apply (live, now) (Surroundings.initial, .save ⟨0, 0⟩ ⟨#[98]⟩ 3)).2 := by
  obtain ⟨region, opened, live, now, ran, made, reached, _, own, _, appended⟩ := exists_save_newFile
  have found : live.tables.extent? ⟨0, by decide⟩ = some ⟨2, 1⟩ := appended.extents _
  have start : Reached ⟨0, 0⟩ EntryWrites (region, opened) := .opened blank_newFile ran
  obtain ⟨_, same, bytes⟩ := (save_twice start ⟨0, 0⟩ ⟨#[97, 98, 99]⟩ 3).1 Surroundings.initial
    Surroundings.initial untroubled_initial untroubled_initial rfl (live, now) made
  have shorter := (save_twice reached ⟨0, 0⟩ ⟨#[98]⟩ 3).2 _ _ ⟨#[3, 98]⟩ own found rfl (by decide)
    Surroundings.initial
  exact ⟨region, opened, live, now, ran, made, found, same, bytes, shorter⟩

end Region
end RegionStore
