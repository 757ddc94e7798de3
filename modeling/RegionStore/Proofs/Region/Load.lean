import RegionStore.Region.Basic
import RegionStore.Proofs.Disk.Device
import RegionStore.Proofs.Region.Survey

/-!
Opening the region in a file. It works for an empty file, which gets empty tables, and for every file
of whole sectors that has room for the tables and is not too long, whatever is in them.
-/

set_option autoImplicit false

namespace RegionStore.Region

open Disk

def Admissible (size : Nat) : Prop :=
  size = 0 ∨ size % sectorSize = 0 ∧ headerSize ≤ size ∧
    size ≤ (maxSectorIndex + maxExtentSectors) * sectorSize

instance (size : Nat) : Decidable (Admissible size) := inferInstanceAs (Decidable (_ ∨ _))

/-- What a file contains once it is a region file: an empty one begins with empty tables. -/
structure Prepared (file : Device) (sectors : UInt32) (after : Device) : Prop where
  continues : file.Continues after
  content : if file.content.size = 0 then
      after.content.Same (file.content.write 0 (Bytes.zeros headerSize))
    else after.content = file.content
  size : after.content.size = sectors.toNat * sectorSize
  header : headerSectors.toNat ≤ sectors.toNat
  short : sectors.toNat ≤ maxSectorIndex + maxExtentSectors

def stored (content : Content) : Tables := Tables.ofHeader (content.read 0 headerSize)

structure Loaded (position : RegionPos) (sync : Bool) (file : Device) (region : Region)
    (after : Device) : Prop where
  prepared : Prepared file region.space.sectors after
  position : region.position = position
  sync : region.sync = sync
  tables : region.tables = ((stored after.content).survey region.space.sectors).tables
  space : region.space = ((stored after.content).survey region.space.sectors).space

theorem Prepared.keeps {file between after : Device} {sectors : UInt32}
    (prepared : Prepared file sectors between) (keeps : between.Keeps after) :
    Prepared file sectors after := by
  refine ⟨prepared.continues.trans keeps.continues, ?_, ?_, prepared.header, prepared.short⟩
  · rw [keeps.content]
    exact prepared.content
  · rw [keeps.content]
    exact prepared.size

theorem prepare_ends (file : Device) :
    Ends prepare file (fun sectors after => Prepared file sectors after)
      fun _ _ => ¬ file.Untroubled ∨ ¬ Admissible file.content.size := by
  simp only [prepare, ends_bind, ends_get]
  refine Ends.mono (Device.measure_ends file) ?_ fun _ _ failed => .inl failed.2
  rintro size measured ⟨keeps, rfl⟩
  by_cases empty : file.content.size = 0
  · simp only [if_pos empty, ends_bind, ends_pure]
    refine Ends.mono (Device.writeAt_ends 0 (Bytes.zeros headerSize) measured) ?_ ?_
    · intro _ written wrote
      refine Ends.mono (Device.sync_ends written) ?_ ?_
      · intro _ synced keepsSynced
        have keepsNoted := Device.keeps_notify (.fileCreated measured.path) synced
        have same := keepsNoted.content.trans keepsSynced.content
        have content : written.content.Same (file.content.write 0 (Bytes.zeros headerSize)) :=
          keeps.content ▸ wrote.content
        refine ⟨((keeps.continues.trans wrote.continues).trans keepsSynced.continues).trans
          keepsNoted.continues, ?_, ?_, Nat.le_refl _, by decide⟩
        · rw [if_pos empty, same]
          exact content
        · rw [same, content.size, Content.size_write, empty, Bytes.size_zeros, headerSize]
          rfl
      · rintro _ _ ⟨_, troubled⟩
        exact .inl fun untroubled =>
          troubled ((keeps.continues.trans wrote.continues).untroubled untroubled)
    · rintro _ _ ⟨_, troubled⟩
      refine .inl fun untroubled => troubled ?_ (keeps.continues.untroubled untroubled)
      rw [Bytes.size_zeros, headerSize, maxOffset]
      omega
  · rw [if_neg empty]
    by_cases small : file.content.size < headerSize
    · rw [if_pos small, ends_bind, ends_throw]
      refine .inr ?_
      rintro (none | ⟨_, enough, _⟩)
      · exact empty none
      · omega
    · rw [if_neg small]
      by_cases ragged : file.content.size % sectorSize ≠ 0
      · rw [if_pos ragged, ends_bind, ends_throw]
        refine .inr ?_
        rintro (none | ⟨whole, _, _⟩)
        · exact empty none
        · exact ragged whole
      · rw [if_neg ragged]
        by_cases large : maxSectorIndex + maxExtentSectors < file.content.size / sectorSize
        · rw [if_pos large, ends_bind, ends_throw]
          refine .inr ?_
          rintro (none | ⟨_, _, atMost⟩)
          · exact empty none
          · exact absurd (Nat.div_le_of_le_mul (Nat.mul_comm _ _ ▸ atMost)) (Nat.not_le_of_lt large)
        · rw [if_neg large, ends_pure]
          have word : (file.content.size / sectorSize).toUInt32.toNat =
              file.content.size / sectorSize := by
            rw [maxSectorIndex, maxExtentSectors] at large
            exact Nat.mod_eq_of_lt (by omega)
          rw [headerSize] at small
          rw [sectorSize] at ragged
          refine ⟨keeps.continues, ?_, ?_, ?_, ?_⟩
          · rw [if_neg empty]
            exact keeps.content
          · rw [keeps.content, word, sectorSize]
            omega
          · rw [word, Extent.headerSectors_toNat, sectorSize]
            omega
          · rw [word]
            omega

theorem readTables_ends (file : Device) (isFile : file.full = false)
    (enough : headerSize ≤ file.content.size) :
    Ends readTables file (fun tables after => file.Keeps after ∧ tables = stored file.content)
      fun _ _ => ¬ file.Untroubled := by
  have bounded : 0 + headerSize ≤ maxOffset := by decide
  simp only [readTables, ends_bind]
  refine Ends.mono (Device.readAt_ends 0 headerSize file isFile) ?_
    fun _ _ failed untroubled => failed.2 bounded untroubled.around.schedule.reads
  rintro header after ⟨keeps, same, whole⟩
  by_cases short : header.size ≠ headerSize
  · simp only [if_pos short, ends_bind, ends_throw]
    intro untroubled
    refine short ?_
    rw [whole untroubled.around.schedule.reads bounded, Content.size_read]
    omega
  · simp only [if_neg short, ends_pure]
    rw [Decidable.not_not] at short
    rw [short] at same
    exact ⟨keeps, congrArg Tables.ofHeader same⟩

theorem forM_notify_ends {Item : Type} (items : List Item) (notice : Item → Notice) (file : Device) :
    Ends (items.forM fun item => Device.notify (notice item)) file
      (fun _ after => file.Keeps after) fun _ _ => False := by
  induction items generalizing file with
  | nil => exact Device.Keeps.refl file
  | cons item rest ih =>
    have noted := Device.keeps_notify (notice item) file
    change Ends (Device.notify (notice item) >>= fun _ => rest.forM _) _ _ _
    rw [ends_bind, Device.notify, ends_modify]
    refine Ends.mono (ih _) ?_ fun _ _ => id
    intro _ after keeps
    exact ⟨noted.continues.trans keeps.continues, keeps.content.trans noted.content⟩

theorem Loaded.of_survey {file ready after : Device} {sectors : UInt32} {survey : Tables.Survey}
    (prepared : Prepared file sectors ready) (keeps : ready.Keeps after)
    (found : (stored ready.content).survey sectors = survey) (length : survey.space.sectors = sectors)
    (position : RegionPos) (sync : Bool) :
    Loaded position sync file ⟨position, sync, survey.space, survey.tables⟩ after := by
  refine ⟨?_, rfl, rfl, ?_, ?_⟩
  · simp only [length]
    exact prepared.keeps keeps
  · simp only [keeps.content, length, found]
  · simp only [keeps.content, length, found]

theorem load_ends (position : RegionPos) (sync : Bool) (file : Device) (isFile : file.full = false) :
    Ends (load position sync) file (fun region after => Loaded position sync file region after)
      fun _ _ => ¬ file.Untroubled ∨ ¬ Admissible file.content.size := by
  simp only [load, ends_bind, ends_get, ends_pure]
  refine Ends.mono (prepare_ends file) ?_ fun _ _ => id
  intro sectors ready prepared
  have enough : headerSize ≤ ready.content.size := by
    have header := prepared.header
    rw [Extent.headerSectors_toNat] at header
    rw [prepared.size, headerSize, sectorSize]
    omega
  refine Ends.mono (readTables_ends ready (prepared.continues.full.trans isFile) enough) ?_ ?_
  · intro tables read both
    have keepsRead := both.1
    have same := both.2
    rw [same]
    have length := (Tables.surveyed_survey (stored ready.content) sectors).length
    generalize found : (stored ready.content).survey sectors = survey at length
    refine Ends.mono (forM_notify_ends survey.dropped _ read) ?_ fun _ _ => False.elim
    intro _ noted keepsNoted
    have last := Device.keeps_notify (.fileOpened read.path survey.tables.count) noted
    have continues := (keepsRead.continues.trans keepsNoted.continues).trans last.continues
    have content : noted.content = ready.content := keepsNoted.content.trans keepsRead.content
    rw [Device.notify, ends_modify]
    exact .of_survey prepared ⟨continues, content⟩ found length position sync
  · intro _ _ troubled
    exact .inl fun untroubled => troubled (prepared.continues.untroubled untroubled)

theorem exists_load (position : RegionPos) (sync : Bool) {file : Device}
    (untroubled : file.Untroubled) (admissible : Admissible file.content.size) :
    ∃ region after, load position sync file = .ok region after ∧
      Loaded position sync file region after := by
  apply Ends.exists_ok
  refine Ends.mono (load_ends position sync file untroubled.full) (fun _ _ => id) ?_
  rintro _ _ (troubled | inadmissible)
  · exact troubled untroubled
  · exact inadmissible admissible

theorem loaded_of_load {position : RegionPos} {sync : Bool} {file after : Device} {region : Region}
    (isFile : file.full = false) (opened : load position sync file = .ok region after) :
    Loaded position sync file region after :=
  (ends_of_eq_ok opened).1 (load_ends position sync file isFile)

theorem Loaded.short {position : RegionPos} {sync : Bool} {file after : Device} {region : Region}
    (loaded : Loaded position sync file region after)
    (short : file.content.size ≤ (maxSectorIndex + 1) * sectorSize) :
    region.space.sectors.toNat ≤ maxSectorIndex + 1 := by
  have size := loaded.prepared.size
  have content := loaded.prepared.content
  split at content
  · next empty =>
    rw [content.size, Content.size_write, empty, Bytes.size_zeros, headerSize,
      if_neg (by decide), sectorSize] at size
    rw [maxSectorIndex]
    omega
  · rw [content] at size
    rw [size] at short
    exact Nat.le_of_mul_le_mul_right short (by decide)

theorem Loaded.partitioned {position : RegionPos} {sync : Bool} {file after : Device}
    {region : Region} (loaded : Loaded position sync file region after) :
    Partitioned region.tables region.space := by
  have partitioned := Tables.partitioned_survey (stored after.content) loaded.prepared.header
  rwa [← loaded.tables, ← loaded.space] at partitioned

end RegionStore.Region
