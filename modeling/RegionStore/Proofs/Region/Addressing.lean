import RegionStore.Proofs.Deflate.Container
import RegionStore.Proofs.Region.Lookup

/-!
Whether the table word of a saved chunk tells where its record is. Sectors are appended only where a word
can tell, but a free extent is taken wherever it begins. So the word tells the place exactly if the
smallest free extent that is large enough does not begin behind the last sector that a word can tell;
only files with more sectors than that have such extents.
-/

set_option autoImplicit false

namespace RegionStore

open Disk

namespace FreeSpace

variable {space : FreeSpace} {old : Option Extent} {count : Nat} {extent : Extent}

/-- A record of so many sectors has to move, and the smallest free extent that is large enough begins
where no table word can tell. -/
def Strays (space : FreeSpace) (old : Option Extent) (count : Nat) : Prop :=
  (∀ place, old = some place → place.count.toNat < count) ∧
    ∃ whole, space.bySize.find? (fun free => count.toUInt32 ≤ free.count) = some whole ∧
      maxSectorIndex < whole.first.toNat

theorem Goes.eq_of_found (goes : Goes space old count extent) (small : count ≤ maxExtentSectors)
    (moves : ∀ place, old = some place → place.count.toNat < count) {whole : Extent}
    (found : space.bySize.find? (fun free => count.toUInt32 ≤ free.count) = some whole) :
    extent = ⟨whole.first, count.toUInt32⟩ := by
  have word (size : extent.count.toNat = count) : count.toUInt32 = extent.count :=
    UInt32.toNat_inj.1 ((toNat_toUInt32 small).trans size.symm)
  cases goes with
  | stays same fits => exact absurd fits (Nat.not_le_of_lt (moves extent same))
  | front _ size other here first =>
    rw [word size, here] at found
    rw [word size, ← Option.some.inj found, ← first]
  | behind _ size noRoom first addressable =>
    rw [word size, noRoom] at found
    cases found

section
variable (goes : Goes space old count extent) (small : count ≤ maxExtentSectors)
  (told : ∀ place, old = some place → place.Packable)
include goes small told

theorem Goes.count_le : extent.count.toNat ≤ maxExtentSectors := by
  cases goes with
  | stays same fits => exact (told extent same).count
  | front moves size whole found first => exact size ▸ small
  | behind moves size noRoom first addressable => exact size ▸ small

theorem Goes.packable_iff : extent.Packable ↔ ¬ space.Strays old count := by
  have bounded := goes.count_le small told
  constructor
  · rintro packable ⟨moves, whole, found, beyond⟩
    rw [goes.eq_of_found small moves found] at packable
    exact Nat.not_le_of_lt beyond packable.first
  · intro near
    refine ⟨Nat.le_of_not_lt fun beyond => ?_, bounded⟩
    cases goes with
    | stays same fits => exact Nat.not_le_of_lt beyond (told extent same).first
    | front moves size whole found first =>
      have word : count.toUInt32 = extent.count :=
        UInt32.toNat_inj.1 ((toNat_toUInt32 small).trans size.symm)
      exact near ⟨moves, whole, word ▸ found, first ▸ beyond⟩
    | behind moves size noRoom first addressable =>
      exact Nat.not_le_of_lt beyond (first ▸ addressable)

end

end FreeSpace

namespace Region

/-- How a save ends whose record went to the extent, also in a free space that is not in order. -/
structure SavedTo (region : Region) (file : Device) (slot : Slot) (data : Bytes) (extent : Extent)
    (saved : Region) (after : Device) : Prop where
  phases : ∃ next placed written,
    FreeSpace.place (record data) (region.tables.extent? slot) region.sync (region.space, file) =
        .ok extent (next, placed) ∧
      FreeSpace.Written region.space file (region.tables.extent? slot) (record data) extent placed ∧
      EntryWritten slot extent.toWord placed.around.timestamp placed written ∧
      written.Keeps after ∧ saved = region.moved slot extent next placed.around.timestamp

inductive Refused [Codec] (region : Region) (path : Bytes) (chunk : ChunkPos) (payload : Bytes) (tag : UInt8)
    (failure : Failure) : Prop where
  | foreign (own : region.slot chunk = .error failure)
  | unknown (refused : encodeChunk payload tag = .error failure)
  | declined (slot : Slot) (data : Bytes) (own : region.slot chunk = .ok slot)
    (accepted : encodeChunk payload tag = .ok data)
    (why : FreeSpace.Declined region.space (region.tables.extent? slot)
      (sectorsOf (record data).size) path failure)

/-- On an untroubled file a save fails only before it writes anything. -/
theorem saveChunk_goes [Codec] (region : Region) {file : Device} (untroubled : file.Untroubled)
    (chunk : ChunkPos) (payload : Bytes) (tag : UInt8) :
    Ends (saveChunk chunk payload tag) (region, file)
      (fun _ state => ∃ slot data extent, region.slot chunk = .ok slot ∧
        encodeChunk payload tag = .ok data ∧ SavedTo region file slot data extent state.1 state.2)
      fun failure state => state = (region, file) ∧
        Refused region file.path chunk payload tag failure := by
  cases own : region.slot chunk with
  | error failure =>
    unfold saveChunk
    simp only [ends_bind, ends_get, ends_ofExcept, own]
    exact ⟨trivial, .foreign own⟩
  | ok slot =>
    cases accepted : encodeChunk payload tag with
    | error failure =>
      unfold saveChunk
      simp only [ends_bind, ends_get, ends_ofExcept, own, accepted]
      exact ⟨trivial, .unknown accepted⟩
    | ok data =>
      have placing := FreeSpace.place_goes region.space file (record data)
        (region.tables.extent? slot) region.sync
      cases ran : FreeSpace.place (record data) (region.tables.extent? slot) region.sync
          (region.space, file) with
      | error failure state =>
        rw [ends_of_eq_error ran] at placing
        obtain ⟨rfl, declined⟩ := placing.why untroubled
        rw [ends_of_eq_error (saveChunk_of_unplaced own accepted ran)]
        exact ⟨rfl, .declined slot data own accepted declined⟩
      | ok extent state =>
        obtain ⟨next, placed⟩ := state
        rw [ends_of_eq_ok ran] at placing
        have entry := writeEntry_ends slot extent.toWord placed.around.timestamp placed
        have calm := placing.wrote.continues.untroubled untroubled
        rw [ends_saveChunk own accepted, ends_saveData ran]
        cases wrote : writeEntry slot extent.toWord placed.around.timestamp placed with
        | error failure after =>
          rw [ends_of_eq_error wrote] at entry
          exact absurd calm entry.2
        | ok _ written =>
          rw [ends_of_eq_ok wrote] at entry
          refine (syncChange_ends _ written).mono ?_ ?_
          · rintro _ ⟨_, after⟩ ⟨rfl, keeps⟩
            exact ⟨slot, data, extent, rfl, rfl, next, placed, written, ran, placing, entry, keeps, rfl⟩
          · rintro _ _ ⟨_, _, troubled⟩
            exact absurd (entry.continues.untroubled calm) troubled

section
variable {region saved : Region} {file after : Device} {slot : Slot} {data : Bytes} {extent : Extent}
  (ends : SavedTo region file slot data extent saved after)
include ends

theorem SavedTo.count : 0 < extent.count.toNat ∧ extent.count.toNat ≤ maxExtentSectors := by
  obtain ⟨_, _, _, _, written, _⟩ := ends.phases
  exact ⟨Nat.lt_of_lt_of_le (record_size_pos data) written.goes.fits,
    written.goes.count_le written.small fun _ => Tables.packable_of_extent?⟩

theorem SavedTo.continues : file.Continues after := by
  obtain ⟨_, _, _, _, written, entry, keeps, _⟩ := ends.phases
  exact (written.wrote.continues.trans entry.continues).trans keeps.continues

theorem SavedTo.position : saved.position = region.position := by
  obtain ⟨_, _, _, _, _, _, _, rfl⟩ := ends.phases
  rfl

theorem SavedTo.extent? :
    saved.tables.extent? slot = some (Extent.ofWord extent.toWord) := by
  obtain ⟨nonempty, small⟩ := ends.count
  obtain ⟨_, _, _, _, _, _, _, rfl⟩ := ends.phases
  rw [moved, Tables.extent?_set, if_pos rfl, if_neg (Extent.toWord_ne_zero_of_small small nonempty)]

theorem SavedTo.told_iff : Extent.ofWord extent.toWord = extent ↔
    ¬ region.space.Strays (region.tables.extent? slot) (sectorsOf (record data).size) := by
  obtain ⟨_, _, _, _, written, _⟩ := ends.phases
  rw [Extent.ofWord_toWord_iff]
  exact written.goes.packable_iff written.small fun _ => Tables.packable_of_extent?

/-- The record is found if its word tells its place, and if that is not in the header. -/
theorem SavedTo.find [Codec] [LawfulCodec] (told : Extent.ofWord extent.toWord = extent)
    (behind : headerSectors.toNat ≤ extent.first.toNat) {chunk : ChunkPos} {payload : Bytes}
    {tag : UInt8} (own : region.slot chunk = .ok slot) (accepted : encodeChunk payload tag = .ok data) :
    saved.find after.content chunk = .ok (some payload) := by
  have found := ends.extent?
  rw [told] at found
  have inside : extent.Inside extent.behind := ⟨behind, ends.count.1, Nat.le_refl _⟩
  obtain ⟨next, placed, written, _, wrote, entry, keeps, rfl⟩ := ends.phases
  have size := Extent.size_padded wrote.goes.fits
  have present : extent.position + extent.size ≤ placed.content.size := by
    rw [← size]
    apply wrote.wrote.end_le
    rw [size, Extent.size, sectorSize]
    exact Nat.mul_pos inside.nonempty (by decide)
  have header : headerSize ≤ placed.content.size :=
    Nat.le_trans inside.position_ge (Nat.le_trans (Nat.le_add_right _ _) present)
  have here : (region.moved slot extent next placed.around.timestamp).slot chunk = .ok slot := own
  apply find_of_padded here found accepted wrote.goes.fits wrote.small
  rw [keeps.content, (entry.confined header).2 _ _ present (.inr inside.position_ge), ← size]
  exact wrote.wrote.read_self

/-- On disk only the words of the slot change if the place of the record is not in the header. -/
theorem SavedTo.stored (behind : headerSectors.toNat ≤ extent.first.toNat)
    (present : headerSize ≤ file.content.size) :
    headerSize ≤ after.content.size ∧ stored after.content =
      (stored file.content).set slot extent.toWord file.around.timestamp := by
  have inside : extent.Inside extent.behind := ⟨behind, ends.count.1, Nat.le_refl _⟩
  obtain ⟨_, _, written, _, wrote, entry, keeps, _⟩ := ends.phases
  have longer := Nat.le_trans wrote.wrote.size_le entry.size_le
  have spares := wrote.wrote.spares (Nat.le_refl _) (Nat.le_refl _) (Nat.le_refl _)
  rw [keeps.content, stored_of_entryWritten entry, wrote.wrote.continues.timestamp,
    stored_of_spares spares present inside.position_ge]
  exact ⟨Nat.le_trans present longer, rfl⟩

end

section
variable [Codec]

/-- A chunk in the first sector of the header has the first word of the tables for its length. -/
theorem find_of_header {region : Region} {content : Content} {chunk : ChunkPos} {slot : Slot}
    (own : region.slot chunk = .ok slot) (found : region.tables.extent? slot = some ⟨0, 1⟩)
    (present : headerSize ≤ content.size)
    (sign : (stored content).offsets.get (⟨0, by decide⟩ : Slot) &&& 0x80000000 ≠ 0) :
    region.find content chunk = .error (.lengthNegative (region.position.chunkAt slot)) := by
  rw [headerSize] at present
  have size : (content.read 0 sectorSize).size = sectorSize := by
    rw [Content.size_read, sectorSize]
    omega
  have word : (content.read 0 sectorSize).toWord 0 =
      (stored content).offsets.get (⟨0, by decide⟩ : Slot) := by
    rw [offsets_stored]
    apply Bytes.toWord_congr
    intro index four
    rw [show Tables.offsetPosition (⟨0, by decide⟩ : Slot) = 0 from rfl, Content.get_read,
      Content.get_read]
    · rw [headerSize]
      omega
    · rw [sectorSize]
      omega
  have nonzero : (stored content).offsets.get (⟨0, by decide⟩ : Slot) ≠ 0 := by
    intro zero
    rw [zero] at sign
    exact sign rfl
  unfold find
  simp only [own, found]
  rw [show Extent.position ⟨0, 1⟩ = 0 from rfl, show Extent.size ⟨0, 1⟩ = sectorSize from rfl, recordData,
    if_neg (by rw [size]; decide)]
  simp only [word, if_neg nonzero, if_pos sign]
  rfl

theorem SavedTo.find_header {region saved : Region} {file after : Device} {slot : Slot} {data : Bytes}
    {extent : Extent} (ends : SavedTo region file slot data extent saved after) {chunk : ChunkPos}
    (own : region.slot chunk = .ok slot) (wraps : Extent.ofWord extent.toWord = ⟨0, 1⟩)
    (behind : headerSectors.toNat ≤ extent.first.toNat) (present : headerSize ≤ file.content.size)
    (later : slot.val ≠ 0)
    (sign : (Region.stored file.content).offsets.get (⟨0, by decide⟩ : Slot) &&& 0x80000000 ≠ 0) :
    saved.find after.content chunk = .error (.lengthNegative (region.position.chunkAt slot)) := by
  obtain ⟨presentAfter, onDisk⟩ := ends.stored behind present
  have position := ends.position
  have here : saved.slot chunk = .ok slot := by
    rwa [Region.slot, position]
  rw [find_of_header here (wraps ▸ ends.extent?) presentAfter, position]
  rw [onDisk, Tables.offsets_set, if_neg (fun same => later (congrArg Fin.val same).symm)]
  exact sign

/-- A save without failures, after any run, puts the record where it goes or changes nothing. The chunk
then has the extent that its table word tells. This is the place of the record exactly if that is not a
free extent too far behind, and the record is loaded then, at least if the words of all earlier saves
tell their places too. In a file that has no more sectors than words can tell they all do. -/
theorem told_iff_not_strays [LawfulCodec] (position : RegionPos) (sync : Bool) {file opened : Device}
    {region : Region} (isFile : file.full = false) (ran : load position sync file = .ok region opened)
    (steps : List (Surroundings × Change)) {live : Region} {now : Device}
    (made : steps.foldl Change.apply (region, opened) = (live, now)) {around later : Surroundings}
    (calm : around.Untroubled) (calmLater : later.Untroubled) (chunk : ChunkPos) (payload : Bytes)
    (tag : UInt8) :
    Ends (saveChunk chunk payload tag) (live, now.under around)
      (fun _ state => ∃ slot data extent next placed, live.slot chunk = .ok slot ∧
        encodeChunk payload tag = .ok data ∧
        FreeSpace.place (record data) (live.tables.extent? slot) live.sync
          (live.space, now.under around) = .ok extent (next, placed) ∧
        live.space.Goes (live.tables.extent? slot) (sectorsOf (record data).size) extent ∧
        extent.count.toNat ≤ maxExtentSectors ∧
        state.1.findExtent slot.val = .ok (some (Extent.ofWord extent.toWord)) ∧
        (Extent.ofWord extent.toWord = extent ↔
          ¬ live.space.Strays (live.tables.extent? slot) (sectorsOf (record data).size)) ∧
        (Addressed (region, opened) steps → Extent.ofWord extent.toWord = extent →
          outcome (loadChunk chunk) (state.1, state.2.under later) = .ok (some payload)) ∧
        (file.content.size ≤ (maxSectorIndex + 1) * sectorSize →
          Addressed (region, opened) steps ∧ Extent.ofWord extent.toWord = extent))
      fun failure state => state = (live, now.under around) ∧
        Refused live now.path chunk payload tag failure := by
  have loaded := loaded_of_load isFile ran
  have full := full_run (region, opened) steps
  rw [made] at full
  have isFileNow : now.full = false := full.trans (loaded.prepared.continues.full.trans isFile)
  have ready : (now.under around).Untroubled := ⟨isFileNow, calm⟩
  refine (saveChunk_goes live ready chunk payload tag).mono ?_ fun _ _ => id
  rintro _ ⟨saved, after⟩ ⟨slot, data, extent, own, accepted, ends⟩
  obtain ⟨next, placed, written, placing, wrote, _⟩ := ends.phases
  refine ⟨slot, data, extent, next, placed, own, accepted, placing, wrote.goes, ends.count.2, ?_,
    ends.told_iff, fun addressed told => ?_, fun short => ?_⟩
  · rw [findExtent, dif_pos slot.isLt]
    exact congrArg _ ends.extent?
  · have intact := (loaded.intact loaded.prepared.short).run_of_addressed addressed
    rw [made] at intact
    have start : Intact _ live (now.under around) := intact.grown (Nat.le_refl _)
    have target := (start.placed placing).target
    have untroubled : (after.under later).Untroubled :=
      ⟨ends.continues.full.trans isFileNow, calmLater⟩
    rw [outcome_loadChunk saved untroubled]
    exact ends.find told (start.target_inside target wrote.small).1.behindHeader own accepted
  · have start := loaded.intact (loaded.short short)
    have intact : Intact (maxSectorIndex + 1) (steps.foldl Change.apply (region, opened)).1
        (steps.foldl Change.apply (region, opened)).2 := Intact.run (by decide) (Nat.le_refl _) start steps
    rw [made] at intact
    have target := ((intact.grown (Nat.le_refl _) : Intact _ live (now.under around)).placed placing).target
    refine ⟨Intact.addressed start steps, (Extent.ofWord_toWord_iff extent).2 ?_⟩
    exact intact.packable (Nat.le_refl _) target (record_size_pos data) wrote.small

end

/-- A file of one sector more than a table word can tell, where a chunk has the last sector that it can. -/
def longFile : Device :=
  ⟨"r.0.0.mca", (Content.empty.resize 68719480832).write 0 (Bytes.ofWord 4294967041), false,
    Surroundings.initial⟩

theorem longFile_size : longFile.content.size = 68719480832 := by
  rw [longFile, Content.size_write, Content.size_resize]
  rfl

section
variable {region : Region} {opened : Device} (loaded : Loaded ⟨0, 0⟩ true longFile region opened)
include loaded

theorem content_longFile : opened.content = longFile.content :=
  loaded.content_eq (by rw [longFile_size]; decide)

theorem sectors_longFile : region.space.sectors.toNat = 16777217 := by
  have size := loaded.prepared.size
  rw [content_longFile loaded, longFile_size, sectorSize] at size
  omega

theorem extent?_longFile (slot : Slot) :
    region.tables.extent? slot = if slot.val = 0 then some ⟨16777215, 1⟩ else none := by
  have onDisk : (stored opened.content).extent? slot =
      if slot.val = 0 then some ⟨16777215, 1⟩ else none := by
    rw [content_longFile loaded, Tables.extent?_eq, longFile, offsets_stored_front]
    split <;> rfl
  have keeps := (Tables.surveyed_survey (stored opened.content) region.space.sectors).keeps
  rw [← loaded.tables, sectors_longFile loaded] at keeps
  apply Option.ext
  intro extent
  rw [keeps slot slot.isLt extent, onDisk]
  split
  · next isFirst =>
    refine ⟨And.left, fun same => ⟨same, ?_, fun lower below => ?_⟩⟩
    · cases same
      decide
    · rw [Fin.lt_def, isFirst] at below
      exact absurd below (Nat.not_lt_zero _)
  · simp only [reduceCtorEq, false_and]

theorem free_longFile (sector : Nat) :
    region.space.Free sector ↔ 2 ≤ sector ∧ sector < 16777217 ∧ sector ≠ 16777215 := by
  have used : region.tables.Used sector ↔ sector = 16777215 := by
    constructor
    · rintro ⟨slot, extent, found, fromFirst, toLast⟩
      rw [extent?_longFile loaded] at found
      split at found
      · cases found
        exact Nat.le_antisymm (Nat.le_of_lt_succ toLast) fromFirst
      · cases found
    · rintro rfl
      exact ⟨⟨0, by decide⟩, ⟨16777215, 1⟩, extent?_longFile loaded _, Extent.holds_first (by decide)⟩
  rw [loaded.partitioned.free, sectors_longFile loaded, used, Extent.headerSectors_toNat]

theorem smallest_longFile :
    region.space.bySize.find? (fun free => 1 ≤ free.count) = some ⟨16777216, 1⟩ := by
  have sound := loaded.partitioned.sound
  have free := free_longFile loaded
  apply sound.find?_of_smallest
  · rw [sound.mem_iff_isRun]
    refine ⟨by decide, fun sector holds => ?_, fun sector front => ?_, ?_⟩
    · have last : sector < 16777217 := holds.2
      have first : 16777216 ≤ sector := holds.1
      rw [free]
      omega
    · have last : sector + 1 = 16777216 := front
      rw [free]
      omega
    · rw [free]
      decide
  · decide
  · intro other member large
    have run := sound.isRun member
    by_cases single : other.count.toNat = 1
    · -- The other free sectors lie in a row of more than one.
      have here := (free _).1 (run.all _ (Extent.holds_first run.nonempty))
      have back := run.back
      have front := run.front (other.first.toNat - 1)
      rw [free, Extent.behind_def, single] at back
      rw [free] at front
      exact .inl (Extent.ext_toNat (b := ⟨16777216, 1⟩) (show _ = 16777216 by omega) single)
    · refine .inr (.inl (UInt32.lt_iff_toNat_lt.2 ?_))
      exact Nat.lt_of_le_of_ne large (Ne.symm single)

end

/-- The record of the second chunk goes to that extent, and its word tells the first sector of the header
instead, where the first word of the tables is taken for a length. -/
theorem told_iff_not_strays_long :
    ∃ region opened saved after next placed, load ⟨0, 0⟩ true longFile = .ok region opened ∧
      saveChunk ⟨1, 0⟩ ⟨#[97, 98, 99]⟩ 3 (region, opened.under Surroundings.initial) =
        .ok () (saved, after) ∧
      FreeSpace.place (record ⟨#[3, 97, 98, 99]⟩) none true
        (region.space, opened.under Surroundings.initial) = .ok ⟨16777216, 1⟩ (next, placed) ∧
      saved.findExtent 1 = .ok (some ⟨0, 1⟩) ∧
      outcome (loadChunk ⟨1, 0⟩) (saved, after.under Surroundings.initial) =
        .error (.lengthNegative ⟨1, 0⟩) := by
  have untroubled : longFile.Untroubled := ⟨rfl, untroubled_initial⟩
  obtain ⟨region, opened, ran, loaded⟩ :=
    exists_load ⟨0, 0⟩ true untroubled (by rw [longFile_size]; decide)
  have content := content_longFile loaded
  have smallest := smallest_longFile loaded
  have absent : region.tables.extent? ⟨1, by decide⟩ = none := extent?_longFile loaded _
  have isFile : opened.full = false := loaded.prepared.continues.full
  have ends := told_iff_not_strays ⟨0, 0⟩ true rfl ran [] rfl untroubled_initial untroubled_initial
    ⟨1, 0⟩ ⟨#[97, 98, 99]⟩ 3
  have ready : (opened.under Surroundings.initial).Untroubled := ⟨isFile, untroubled_initial⟩
  have phases := saveChunk_goes region ready ⟨1, 0⟩ ⟨#[97, 98, 99]⟩ 3
  have own : region.slot ⟨1, 0⟩ = .ok ⟨1, by decide⟩ := by
    rw [slot, loaded.position]
    rfl
  have encoded : encodeChunk ⟨#[97, 98, 99]⟩ 3 = .ok ⟨#[3, 97, 98, 99]⟩ := rfl
  have one : sectorsOf (record ⟨#[3, 97, 98, 99]⟩).size = 1 := by decide
  cases result : saveChunk ⟨1, 0⟩ ⟨#[97, 98, 99]⟩ 3 (region, opened.under Surroundings.initial) with
  | error failure state =>
    rw [ends_of_eq_error result] at ends
    obtain ⟨_, foreign | unknown | ⟨slot, data, here, accepted, why⟩⟩ := ends
    · cases own.symm.trans foreign
    · cases encoded.symm.trans unknown
    · cases encoded.symm.trans accepted
      rw [one] at why
      cases why with
      | large tooLarge => exact absurd tooLarge (by decide)
      | full small moves noRoom beyond => cases smallest.symm.trans noRoom
  | ok _ state =>
    obtain ⟨saved, after⟩ := state
    rw [ends_of_eq_ok result] at ends phases
    obtain ⟨slot, data, extent, next, placed, here, accepted, placing, goes, _, found, _⟩ := ends
    obtain ⟨_, _, _, here', accepted', put⟩ := phases
    cases own.symm.trans here
    cases own.symm.trans here'
    cases encoded.symm.trans accepted
    cases encoded.symm.trans accepted'
    obtain ⟨_, _, _, same, _⟩ := put.phases
    cases placing.symm.trans same
    rw [absent, loaded.sync] at placing
    rw [absent, one] at goes
    obtain rfl := goes.eq_of_found (by decide) (FreeSpace.moves_of_absent rfl) smallest
    refine ⟨region, opened, saved, after, next, placed, ran, result, placing, found, ?_⟩
    have calm : (after.under Surroundings.initial).Untroubled :=
      ⟨put.continues.full.trans isFile, untroubled_initial⟩
    rw [outcome_loadChunk saved calm]
    refine (put.find_header own rfl (by decide) ?_ (by decide) ?_).trans ?_
    · rw [Device.content_under, content, longFile_size]
      decide
    · rw [Device.content_under, content, longFile, offsets_stored_front]
      decide
    · rw [loaded.position]
      rfl

end Region
end RegionStore
