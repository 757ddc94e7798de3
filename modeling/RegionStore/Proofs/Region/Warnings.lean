import Mathlib.Data.List.Basic
import RegionStore.Proofs.Disk.Log
import RegionStore.Proofs.Disk.Reports
import RegionStore.Proofs.Region.Load

/-!
What opening a region tells about the entries that it drops. Every entry on disk that is not kept is told
once, in the order of the slots and with what is wrong with it, and a file that is not empty is only read.
-/

set_option autoImplicit false

namespace RegionStore

open Disk

def Extent.problem (extent : Extent) (sectors : UInt32) : EntryProblem :=
  if extent.first < headerSectors then .overlapsHeader
  else if extent.count = 0 then .noSectors
  else if sectors < extent.stop then .pastEnd
  else .overlapsChunk

/-- An entry is only told to overlap a chunk if nothing else is wrong with it. -/
theorem Extent.problem_eq_overlapsChunk_iff {extent : Extent} (bounded : extent.behind < 2 ^ 32)
    (sectors : UInt32) : extent.problem sectors = .overlapsChunk ↔ extent.Inside sectors.toNat := by
  have stop := Extent.stop_toNat bounded
  unfold problem
  split
  · next header =>
    simp only [reduceCtorEq, false_iff]
    exact fun inside => Nat.not_lt_of_le inside.behindHeader header
  · next header =>
    split
    · next empty =>
      simp only [reduceCtorEq, false_iff]
      exact fun inside => Nat.ne_of_gt inside.nonempty (congrArg UInt32.toNat empty)
    · next nonempty =>
      split
      · next pastEnd =>
        simp only [reduceCtorEq, false_iff]
        exact fun inside => Nat.not_lt_of_le inside.within (stop ▸ UInt32.lt_iff_toNat_lt.1 pastEnd)
      · next within =>
        simp only [true_iff]
        refine ⟨Nat.le_of_not_lt header, ?_, stop ▸ Nat.le_of_not_lt within⟩
        exact Nat.pos_of_ne_zero fun zero => nonempty (UInt32.toNat_inj.1 zero)

theorem FreeSpace.sectors_claim? {space next : FreeSpace} {extent : Extent}
    (claimed : space.claim? extent = some next) : next.sectors = space.sectors := by
  obtain ⟨other, _, rfl⟩ := Option.map_eq_some_iff.1 claimed
  simp only
  repeat' split
  all_goals rfl

namespace Tables

theorem examine_problem {space : FreeSpace} {extent : Extent} {problem : EntryProblem}
    (examined : examine space extent = .error problem) : extent.problem space.sectors = problem := by
  unfold examine at examined
  unfold Extent.problem
  split at examined
  · next header => rw [if_pos header, Except.error.inj examined]
  · next header =>
    rw [if_neg header]
    split at examined
    · next empty => rw [if_pos empty, Except.error.inj examined]
    · next nonempty =>
      rw [if_neg nonempty]
      split at examined
      · next pastEnd => rw [if_pos pastEnd, Except.error.inj examined]
      · next within =>
        rw [if_neg within]
        split at examined
        · cases examined
        · exact Except.error.inj examined

/-- The entry of a slot that is on disk and not kept, with what is wrong with it. -/
def loss? (onDisk kept : Tables) (sectors : UInt32) (slot : Slot) : Option Dropped :=
  if onDisk.offsets.get slot ≠ 0 ∧ kept.offsets.get slot = 0 then
    let extent := Extent.ofWord (onDisk.offsets.get slot)
    some ⟨slot, extent, extent.problem sectors⟩
  else none

theorem loss?_congr {onDisk onDisk' kept kept' : Tables} {slot : Slot}
    (before : onDisk.offsets.get slot = onDisk'.offsets.get slot)
    (after : kept.offsets.get slot = kept'.offsets.get slot) (sectors : UInt32) :
    onDisk.loss? kept sectors slot = onDisk'.loss? kept' sectors slot := by
  simp only [loss?, before, after]

theorem Keeps.overlaps {onDisk kept : Tables} {sectors : UInt32} {slot : Slot} {entry : Dropped}
    (keeps : onDisk.Keeps sectors.toNat slotCount kept)
    (lost : onDisk.loss? kept sectors slot = some entry) (problem : entry.problem = .overlapsChunk) :
    ∃ lower < slot, ∃ other, kept.extent? lower = some other ∧ ¬ other.Apart entry.extent := by
  unfold loss? at lost
  split at lost
  · next dropped =>
    cases lost
    have found : onDisk.extent? slot = some _ := extent?_eq_some_iff.2 ⟨dropped.1, rfl⟩
    have inside := (Extent.problem_eq_overlapsChunk_iff (Extent.packable_ofWord _).bounded sectors).1 problem
    exact keeps.settled slot _ (extent?_eq_none_iff.2 dropped.2) found inside
  · cases lost

structure Survey.Steps (survey : Survey) (slot : Slot) (next : Survey) : Prop where
  sectors : next.space.sectors = survey.space.sectors
  others : ∀ other ≠ slot, next.tables.offsets.get other = survey.tables.offsets.get other
  dropped : next.dropped = survey.dropped ++
    [slot].filterMap (survey.tables.loss? next.tables survey.space.sectors)

theorem Survey.steps (survey : Survey) (slot : Slot) : survey.Steps slot (survey.step slot) := by
  unfold Survey.step
  cases found : survey.tables.extent? slot with
  | none => exact ⟨rfl, fun _ _ => rfl, by simp [loss?]⟩
  | some extent =>
    obtain ⟨present, rfl⟩ := extent?_eq_some_iff.1 found
    dsimp only
    cases examined : examine survey.space (Extent.ofWord (survey.tables.offsets.get slot)) with
    | ok next =>
      have claimed := (examine_eq_ok_iff _ _ _).1 examined
      exact ⟨FreeSpace.sectors_claim? claimed, fun _ _ => rfl, by simp [loss?]⟩
    | error problem =>
      obtain rfl := examine_problem examined
      refine ⟨rfl, fun other different => ?_, ?_⟩
      · simp [clear, different]
      · simp [loss?, clear, present]

/-- Examining slots one after the other drops what is on disk there and not kept in the end. -/
theorem Survey.dropped_foldl {slots : List Slot} (distinct : slots.Nodup) (survey : Survey) :
    let last := slots.foldl Survey.step survey
    (∀ other ∉ slots, last.tables.offsets.get other = survey.tables.offsets.get other) ∧
      last.dropped = survey.dropped ++
        slots.filterMap (survey.tables.loss? last.tables survey.space.sectors) := by
  induction slots generalizing survey with
  | nil => exact ⟨fun _ _ => rfl, by simp⟩
  | cons slot rest ih =>
    obtain ⟨fresh, distinct⟩ := List.nodup_cons.1 distinct
    have steps := survey.steps slot
    obtain ⟨others, dropped⟩ := ih distinct (survey.step slot)
    rw [List.foldl_cons]
    refine ⟨fun other outside => ?_, ?_⟩
    · rw [List.mem_cons, not_or] at outside
      exact (others other outside.2).trans (steps.others other outside.1)
    -- What has become of this slot, no later step changes, and so it is with the slots behind it.
    generalize rest.foldl Survey.step (survey.step slot) = last at others dropped ⊢
    have here : [slot].filterMap (survey.tables.loss? (survey.step slot).tables survey.space.sectors) =
        [slot].filterMap (survey.tables.loss? last.tables survey.space.sectors) := by
      refine List.filterMap_congr fun other member => ?_
      obtain rfl := List.mem_singleton.1 member
      exact loss?_congr rfl (others other fresh).symm _
    have later : rest.filterMap ((survey.step slot).tables.loss? last.tables
          (survey.step slot).space.sectors) =
        rest.filterMap (survey.tables.loss? last.tables survey.space.sectors) := by
      refine List.filterMap_congr fun other member => ?_
      rw [steps.sectors]
      exact loss?_congr (steps.others other fun same => fresh (same ▸ member)) rfl _
    rw [dropped, steps.dropped, here, later, List.append_assoc, ← List.filterMap_append]
    rfl

theorem dropped_survey (tables : Tables) (sectors : UInt32) :
    (tables.survey sectors).dropped =
      (List.finRange slotCount).filterMap (tables.loss? (tables.survey sectors).tables sectors) := by
  have dropped := (Survey.dropped_foldl (List.nodup_finRange slotCount)
    ⟨tables, FreeSpace.ofSectors sectors, []⟩).2
  simpa only [survey, List.nil_append, FreeSpace.sectors_ofSectors] using dropped

end Tables

namespace Region

def warning (path : Bytes) (position : RegionPos) (entry : Tables.Dropped) : Notice :=
  .entryIgnored path (position.chunkAt entry.slot) entry.extent entry.problem

/-- What is told when the region of a file has been opened, the newest notice first. -/
def openingNotices (file : Device) (position : RegionPos) (onDisk : Tables) (region : Region) : List Notice :=
  .fileOpened file.path region.tables.count ::
    (((List.finRange slotCount).filterMap
      (onDisk.loss? region.tables region.space.sectors)).map (warning file.path position)).reverse ++
    if file.content.size = 0 then [.fileCreated file.path] else []

theorem openingNotices_of_survey {onDisk : Tables} {sectors : UInt32} {survey : Tables.Survey}
    (found : onDisk.survey sectors = survey) (file : Device) (position : RegionPos) (sync : Bool) :
    openingNotices file position onDisk ⟨position, sync, survey.space, survey.tables⟩ =
      .fileOpened file.path survey.tables.count :: (survey.dropped.map (warning file.path position)).reverse ++
        if file.content.size = 0 then [.fileCreated file.path] else [] := by
  have dropped := Tables.dropped_survey onDisk sectors
  have length := (Tables.surveyed_survey onDisk sectors).length
  rw [found] at dropped length
  rw [openingNotices, length, dropped]

/-- An action on a file that is not empty only reads it. -/
def Spares (file after : Device) : Prop := file.content.size ≠ 0 → file.Silent after

theorem forM_notify_tells {Item : Type} (items : List Item) (notice : Item → Notice) (file : Device) :
    Ends (items.forM fun item => Device.notify (notice item)) file
      (fun _ after => after.around.notices = (items.map notice).reverse ++ file.around.notices ∧
        file.Silent after)
      fun _ _ => False := by
  induction items generalizing file with
  | nil => exact ⟨rfl, Device.Silent.refl file⟩
  | cons item rest ih =>
    have noted := Device.silent_notify (notice item) file
    change Ends (Device.notify (notice item) >>= fun _ => rest.forM _) _ _ _
    rw [ends_bind, Device.notify, ends_modify]
    refine Ends.mono (ih _) ?_ fun _ _ => id
    rintro _ after ⟨notices, silent⟩
    refine ⟨?_, noted.trans silent⟩
    simp [notices, Surroundings.notify]

theorem prepare_tells (file : Device) :
    Ends prepare file
      (fun _ after => after.around.notices =
        (if file.content.size = 0 then [.fileCreated file.path] else []) ++ file.around.notices ∧
        Spares file after)
      fun _ after => Spares file after := by
  simp only [prepare, ends_bind, ends_get]
  refine Ends.mono (((Device.measure_ends file).and (Device.measure_reports file)).and
    (Device.measure_silent file)) ?_ fun _ _ failed _ => failed.2
  rintro size measured ⟨⟨⟨keeps, rfl⟩, quiet⟩, silent⟩
  by_cases empty : file.content.size = 0
  · have spares (after : Device) : Spares file after := fun nonempty => absurd empty nonempty
    simp only [if_pos empty, ends_bind, ends_pure]
    refine Ends.mono (Device.writeAt_reports 0 (Bytes.zeros headerSize) measured) ?_ fun _ after _ => spares after
    intro _ written quietWritten
    refine Ends.mono (Device.sync_reports written) ?_ fun _ after _ => spares after
    intro _ synced quietSynced
    refine ⟨?_, spares _⟩
    have before := (quiet.trans quietWritten).trans quietSynced
    rw [Device.Quiet] at before
    simp [Surroundings.notify, before, keeps.continues.path]
  · have spares : Spares file measured := fun _ => silent
    simp only [if_neg empty, ends_ite, ends_bind, ends_throw, ends_pure]
    repeat' split
    all_goals first | exact spares | exact ⟨quiet, spares⟩

theorem readTables_tells (file : Device) :
    Ends readTables file (fun _ after => file.Quiet after ∧ file.Silent after)
      fun _ after => file.Silent after := by
  simp only [readTables, ends_bind]
  refine Ends.mono ((Device.readAt_reports 0 headerSize file).and (Device.readAt_silent 0 headerSize file))
    ?_ fun _ _ => And.right
  rintro header after ⟨quiet, silent⟩
  by_cases short : header.size ≠ headerSize
  · simp only [if_pos short, ends_bind, ends_get, ends_throw]
    exact silent
  · simp only [if_neg short, ends_pure]
    exact ⟨quiet, silent⟩

theorem ends_tell (survey : Tables.Survey) (path : Bytes) (position : RegionPos) (file : Device)
    {done failed : Device → Prop}
    (holds : ∀ after, after.around.notices = .fileOpened path survey.tables.count ::
      (survey.dropped.map (warning path position)).reverse ++ file.around.notices →
        file.Silent after → done after) :
    Ends (survey.dropped.forM fun entry => Device.notify (warning path position entry)) file
      (fun _ noted => Ends (Device.notify (.fileOpened path survey.tables.count)) noted
        (fun _ after => done after) fun _ after => failed after) fun _ after => failed after := by
  refine Ends.mono (forM_notify_tells survey.dropped (warning path position) file) ?_ fun _ _ => False.elim
  rintro _ noted ⟨notices, silent⟩
  rw [Device.notify, ends_modify]
  refine holds _ ?_ (silent.trans (Device.silent_notify _ noted))
  simp [Surroundings.notify, notices]

/-- Opening a region tells each entry that is on disk and not kept, and only reads a file that is not
empty. -/
theorem load_tells (position : RegionPos) (sync : Bool) {file : Device} (isFile : file.full = false) :
    Ends (load position sync) file
      (fun region after => after.around.notices =
          openingNotices file position (stored after.content) region ++ file.around.notices ∧
        Spares file after)
      fun _ after => Spares file after := by
  simp only [load, ends_bind, ends_get, ends_pure]
  refine Ends.mono ((prepare_ends file).and (prepare_tells file)) ?_ fun _ _ => And.right
  rintro sectors ready ⟨prepared, created, spares⟩
  have enough : headerSize ≤ ready.content.size := by
    have header := prepared.header
    rw [Extent.headerSectors_toNat] at header
    rw [prepared.size, headerSize, sectorSize]
    omega
  have isFileReady := prepared.continues.full.trans isFile
  refine Ends.mono ((readTables_ends ready isFileReady enough).and (readTables_tells ready)) ?_
    fun _ _ failed nonempty => (spares nonempty).trans failed.2
  intro tables read both
  have keeps := both.1.1
  have same := both.1.2
  have quiet := both.2.1
  have silent := both.2.2
  rw [same]
  generalize found : (stored ready.content).survey sectors = survey
  refine ends_tell survey read.path position read ?_
  intro after notices silentTold
  refine ⟨?_, fun nonempty => (spares nonempty).trans (silent.trans silentTold)⟩
  have path : read.path = file.path := keeps.continues.path.trans prepared.continues.path
  have content : after.content = ready.content := silentTold.content.trans keeps.content
  have before : read.around.notices = _ := Eq.trans quiet created
  rw [content, notices, before, path, openingNotices_of_survey found]
  exact (List.append_assoc _ _ _).symm

end Region
end RegionStore
