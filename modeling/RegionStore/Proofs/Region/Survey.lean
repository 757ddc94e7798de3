import RegionStore.Proofs.Region.Partition

/-!
What is left of the tables of a file once their entries have been examined. Slot by slot, an entry is
kept exactly if its extent lies in the file and shares no sector with those kept before it;
`Surveyed` says this of the slots examined so far, and `survey_eq_of_keeps` that nothing else satisfies it.
-/

set_option autoImplicit false

namespace RegionStore.Tables

/-- Of the slots below `limit`, those are kept whose extent lies in the file apart from the ones kept
in lower slots. -/
def Keeps (tables : Tables) (sectors limit : Nat) (kept : Tables) : Prop :=
  ∀ slot : Slot, slot.val < limit → ∀ extent, kept.extent? slot = some extent ↔
    tables.extent? slot = some extent ∧ extent.Inside sectors ∧
      ∀ lower < slot, ∀ other, kept.extent? lower = some other → other.Apart extent

theorem examine_eq_ok_iff (space next : FreeSpace) (extent : Extent) :
    examine space extent = .ok next ↔ space.claim? extent = some next := by
  unfold examine
  split
  · next header => simp [FreeSpace.claim?, FreeSpace.holder?, header]
  · split
    · next empty => simp [FreeSpace.claim?, FreeSpace.holder?, empty]
    · split
      · next pastEnd => simp [FreeSpace.claim?, FreeSpace.holder?, pastEnd]
      · cases space.claim? extent <;> simp

def UsedBelow (tables : Tables) (limit sector : Nat) : Prop :=
  ∃ slot : Slot, slot.val < limit ∧ ∃ extent, tables.extent? slot = some extent ∧ extent.Holds sector

theorem usedBelow_succ (tables : Tables) (slot : Slot) (sector : Nat) :
    tables.UsedBelow (slot.val + 1) sector ↔
      tables.UsedBelow slot.val sector ∨
        ∃ extent, tables.extent? slot = some extent ∧ extent.Holds sector := by
  constructor
  · rintro ⟨other, below, extent, found, holds⟩
    by_cases same : other = slot
    · subst same
      exact .inr ⟨extent, found, holds⟩
    · have different : other.val ≠ slot.val := fun equal => same (Fin.ext equal)
      exact .inl ⟨other, by omega, extent, found, holds⟩
  · rintro (⟨other, below, extent, found, holds⟩ | ⟨extent, found, holds⟩)
    · exact ⟨other, by omega, extent, found, holds⟩
    · exact ⟨slot, by omega, extent, found, holds⟩

theorem usedBelow_congr {a b : Tables} {limit : Nat}
    (same : ∀ slot : Slot, slot.val < limit → a.extent? slot = b.extent? slot) (sector : Nat) :
    a.UsedBelow limit sector ↔ b.UsedBelow limit sector := by
  constructor
  · rintro ⟨slot, below, extent, found, holds⟩
    exact ⟨slot, below, extent, same slot below ▸ found, holds⟩
  · rintro ⟨slot, below, extent, found, holds⟩
    exact ⟨slot, below, extent, same slot below ▸ found, holds⟩

theorem usedBelow_slotCount (tables : Tables) (sector : Nat) :
    tables.UsedBelow slotCount sector ↔ tables.Used sector :=
  ⟨fun ⟨slot, _, extent, found, holds⟩ => ⟨slot, extent, found, holds⟩,
    fun ⟨slot, extent, found, holds⟩ => ⟨slot, slot.isLt, extent, found, holds⟩⟩

theorem apart_lower_iff {kept : Tables} {slot : Slot} {extent : Extent} :
    (∀ lower < slot, ∀ other, kept.extent? lower = some other → other.Apart extent) ↔
      ∀ sector, extent.Holds sector → ¬ kept.UsedBelow slot.val sector := by
  constructor
  · rintro apart sector holds ⟨lower, below, other, found, holdsOther⟩
    exact apart lower below other found sector holdsOther holds
  · intro unused lower below other found sector holdsOther holds
    exact unused sector holds ⟨lower, below, other, found, holdsOther⟩

theorem Keeps.congr {tables a b : Tables} {sectors limit : Nat} (keeps : tables.Keeps sectors limit a)
    (same : ∀ slot : Slot, slot.val < limit → b.extent? slot = a.extent? slot) :
    tables.Keeps sectors limit b := by
  intro slot below extent
  rw [same slot below, keeps slot below, apart_lower_iff, apart_lower_iff]
  have lower : ∀ sector, b.UsedBelow slot.val sector ↔ a.UsedBelow slot.val sector :=
    usedBelow_congr fun other lower => same other (Nat.lt_trans lower below)
  simp only [lower]

theorem Keeps.succ {tables kept : Tables} {sectors : Nat} {slot : Slot}
    (keeps : tables.Keeps sectors slot.val kept)
    (here : ∀ extent, kept.extent? slot = some extent ↔
      tables.extent? slot = some extent ∧ extent.Inside sectors ∧
        ∀ sector, extent.Holds sector → ¬ kept.UsedBelow slot.val sector) :
    tables.Keeps sectors (slot.val + 1) kept := by
  intro other below
  by_cases same : other = slot
  · subst same
    intro extent
    rw [here, apart_lower_iff]
  · have different : other.val ≠ slot.val := fun equal => same (Fin.ext equal)
    exact keeps other (by omega)

structure Surveyed (tables : Tables) (sectors : UInt32) (limit : Nat) (survey : Survey) : Prop where
  sound : survey.space.Sound
  length : survey.space.sectors = sectors
  free : ∀ sector, survey.space.Free sector ↔ headerSectors.toNat ≤ sector ∧
    sector < sectors.toNat ∧ ¬ survey.tables.UsedBelow limit sector
  keeps : tables.Keeps sectors.toNat limit survey.tables
  ahead : ∀ slot : Slot, limit ≤ slot.val → survey.tables.offsets.get slot = tables.offsets.get slot
  kept : ∀ slot : Slot, survey.tables.offsets.get slot ≠ 0 →
    survey.tables.timestamps.get slot = tables.timestamps.get slot

theorem surveyed_start (tables : Tables) (sectors : UInt32) :
    Surveyed tables sectors 0 ⟨tables, FreeSpace.ofSectors sectors, []⟩ := by
  obtain ⟨sound, free⟩ := FreeSpace.ofSectors_sound sectors
  refine ⟨sound, FreeSpace.sectors_ofSectors sectors, fun sector => ?_, fun _ impossible => ?_,
    fun _ _ => rfl, fun _ _ => rfl⟩
  · rw [free]
    refine ⟨fun ⟨header, within⟩ => ⟨header, within, ?_⟩, fun ⟨header, within, _⟩ => ⟨header, within⟩⟩
    rintro ⟨_, impossible, _⟩
    exact absurd impossible (Nat.not_lt_zero _)
  · exact absurd impossible (Nat.not_lt_zero _)

theorem Surveyed.step {tables : Tables} {sectors : UInt32} {survey : Survey} (slot : Slot)
    (surveyed : Surveyed tables sectors slot.val survey) :
    Surveyed tables sectors (slot.val + 1) (survey.step slot) := by
  have ahead : ∀ other : Slot, slot.val + 1 ≤ other.val →
      survey.tables.offsets.get other = tables.offsets.get other :=
    fun other behind => surveyed.ahead other (by omega)
  have same : survey.tables.extent? slot = tables.extent? slot :=
    extent?_eq_iff.2 (surveyed.ahead slot (Nat.le_refl _))
  unfold Survey.step
  cases found : survey.tables.extent? slot with
  | none =>
    refine ⟨surveyed.sound, surveyed.length, fun sector => ?_, surveyed.keeps.succ fun extent => ?_,
      ahead, surveyed.kept⟩
    · rw [surveyed.free, usedBelow_succ, found]
      simp only [reduceCtorEq, false_and, exists_false, or_false]
    · rw [← same, found]
      simp only [reduceCtorEq, false_and]
  | some extent =>
    have packable := packable_of_extent? found
    have claimable := FreeSpace.isSome_claim?_iff surveyed.sound packable.bounded
    simp only [surveyed.free, surveyed.length] at claimable
    simp only
    cases claimed : survey.space.claim? extent with
    | some next =>
      rw [(examine_eq_ok_iff _ _ _).2 claimed]
      obtain ⟨inside, allFree, sound, length, free⟩ := surveyed.sound.claim? packable.bounded claimed
      simp only [surveyed.free, surveyed.length] at inside allFree
      refine ⟨sound, length.trans surveyed.length, fun sector => ?_,
        surveyed.keeps.succ fun other => ?_, ahead, surveyed.kept⟩
      · simp only [usedBelow_succ, found, Option.some.injEq, exists_eq_left']
        rw [free, surveyed.free]
        simp only [and_assoc, not_or]
      · rw [← same, found]
        refine ⟨fun equal => ⟨equal, ?_⟩, And.left⟩
        cases equal
        exact ⟨inside, fun sector holds => (allFree sector holds).2.2⟩
    | none =>
      rw [claimed, Option.isSome_none, eq_false Bool.false_ne_true, false_iff] at claimable
      cases examined : examine survey.space extent with
      | ok next => cases claimed.symm.trans ((examine_eq_ok_iff _ _ _).1 examined)
      | error problem =>
        have cleared : ∀ other, (survey.tables.clear slot).extent? other =
            if other = slot then none else survey.tables.extent? other := by
          intro other
          rw [clear, extent?_set, if_pos rfl]
        have lower : ∀ other : Slot, other.val < slot.val →
            (survey.tables.clear slot).extent? other = survey.tables.extent? other := by
          intro other below
          rw [cleared, if_neg (Fin.ne_of_lt below)]
        have usedLower := usedBelow_congr lower
        have gone := (cleared slot).trans (if_pos rfl)
        refine ⟨surveyed.sound, surveyed.length, fun sector => ?_,
          (surveyed.keeps.congr lower).succ fun other => ?_, fun other behind => ?_,
          fun other present => ?_⟩
        · simp only [usedBelow_succ, usedLower, gone, reduceCtorEq, false_and, exists_false, or_false]
          exact surveyed.free sector
        · simp only [gone, usedLower, reduceCtorEq, false_iff, ← same, found, Option.some.injEq]
          rintro ⟨rfl, inside, unused⟩
          refine claimable ⟨inside, fun sector holds => ⟨?_, ?_, unused sector holds⟩⟩
          · exact Nat.le_trans inside.behindHeader holds.1
          · exact Nat.lt_of_lt_of_le holds.2 inside.within
        · have different : other ≠ slot := by
            rintro rfl
            omega
          rw [clear, offsets_set, if_neg different]
          exact ahead other behind
        · rw [clear, offsets_set] at present
          split at present
          · exact absurd rfl present
          · next different =>
            rw [clear, timestamps_set, if_neg different]
            exact surveyed.kept other present

theorem surveyed_survey (tables : Tables) (sectors : UInt32) :
    Surveyed tables sectors slotCount (tables.survey sectors) := by
  have upTo : ∀ limit ≤ slotCount, Surveyed tables sectors limit
      (((List.finRange slotCount).take limit).foldl Survey.step
        ⟨tables, FreeSpace.ofSectors sectors, []⟩) := by
    intro limit within
    induction limit with
    | zero => exact surveyed_start tables sectors
    | succ limit ih =>
      have inside : limit < (List.finRange slotCount).length := by
        rw [List.length_finRange]
        omega
      have here : (List.finRange slotCount)[limit] = ⟨limit, within⟩ := List.getElem_finRange inside
      rw [List.take_succ_eq_append_getElem inside, List.foldl_append, here]
      exact (ih (Nat.le_of_succ_le within)).step ⟨limit, within⟩
  have whole := upTo slotCount (Nat.le_refl _)
  rwa [List.take_of_length_le (Nat.le_of_eq List.length_finRange)] at whole

/-- Which slots are kept is determined slot by slot. -/
theorem Keeps.unique {tables a b : Tables} {sectors limit : Nat} (keepsA : tables.Keeps sectors limit a)
    (keepsB : tables.Keeps sectors limit b) (slot : Slot) (below : slot.val < limit) :
    a.extent? slot = b.extent? slot := by
  have lower : ∀ lower : Slot, lower.val < slot.val → a.extent? lower = b.extent? lower :=
    fun lower before => keepsA.unique keepsB lower (Nat.lt_trans before below)
  have usedLower := usedBelow_congr lower
  apply Option.ext
  intro extent
  have inA := keepsA slot below extent
  have inB := keepsB slot below extent
  rw [apart_lower_iff] at inA inB
  simp only [usedLower] at inA
  exact inA.trans inB.symm
termination_by slot.val

/-- No entry on disk whose chunk is not there could be used: its extent overlaps the header, is empty, ends
behind the file or overlaps the chunk in a lower slot. -/
def Settled (onDisk live : Tables) (sectors : Nat) : Prop :=
  ∀ slot extent, live.extent? slot = none → onDisk.extent? slot = some extent →
    extent.Inside sectors →
      ∃ lower < slot, ∃ other, live.extent? lower = some other ∧ ¬ other.Apart extent

/-- The words on disk bring the live chunks back: those of a chunk are the live ones, and no other entry
could be used. -/
structure Recovers (onDisk live : Tables) (sectors : Nat) : Prop where
  words : ∀ slot : Slot, live.offsets.get slot ≠ 0 →
    onDisk.offsets.get slot = live.offsets.get slot ∧
      onDisk.timestamps.get slot = live.timestamps.get slot
  settled : onDisk.Settled live sectors

theorem Keeps.settled {onDisk live : Tables} {sectors : Nat}
    (keeps : onDisk.Keeps sectors slotCount live) : onDisk.Settled live sectors := by
  intro slot extent absent found inside
  apply Classical.byContradiction
  intro none
  have apart : ∀ lower < slot, ∀ other, live.extent? lower = some other → other.Apart extent := by
    intro lower below other foundLower
    exact Classical.byContradiction fun overlap => none ⟨lower, below, other, foundLower, overlap⟩
  cases absent.symm.trans ((keeps slot slot.isLt extent).2 ⟨found, inside, apart⟩)

/-- Tables that agree with the ones on disk are the ones that are found there if nothing else could be
used. -/
theorem Settled.keeps {onDisk live : Tables} {sectors : Nat} (settled : onDisk.Settled live sectors)
    (agree : ∀ slot extent, live.extent? slot = some extent → onDisk.extent? slot = some extent)
    (inside : ∀ slot extent, live.extent? slot = some extent → extent.Inside sectors)
    (apart : ∀ slot other, slot ≠ other → ∀ a b, live.extent? slot = some a →
      live.extent? other = some b → a.Apart b) : onDisk.Keeps sectors slotCount live := by
  intro slot _ extent
  constructor
  · intro found
    refine ⟨agree slot extent found, inside slot extent found, ?_⟩
    intro lower below other foundLower
    exact apart lower slot (Fin.ne_of_lt below) other extent foundLower found
  · rintro ⟨found, insideExtent, apartLower⟩
    cases present : live.extent? slot with
    | none =>
      obtain ⟨lower, below, other, foundLower, overlap⟩ := settled slot extent present found insideExtent
      exact absurd (apartLower lower below other foundLower) overlap
    | some kept => exact (agree slot kept present).symm.trans found

theorem partitioned_survey (tables : Tables) {sectors : UInt32}
    (header : headerSectors.toNat ≤ sectors.toNat) :
    Partitioned (tables.survey sectors).tables (tables.survey sectors).space := by
  have surveyed := surveyed_survey tables sectors
  refine ⟨surveyed.sound, ?_, ?_, ?_, ?_⟩
  · rw [surveyed.length]
    exact header
  · intro slot extent found
    rw [surveyed.length]
    exact ((surveyed.keeps slot slot.isLt extent).1 found).2.1
  · intro first second different a b foundA foundB
    have keptA := ((surveyed.keeps first first.isLt a).1 foundA).2.2
    have keptB := ((surveyed.keeps second second.isLt b).1 foundB).2.2
    have order : first < second ∨ second < first := by
      have : first.val ≠ second.val := fun equal => different (Fin.ext equal)
      simp only [Fin.lt_def]
      omega
    rcases order with before | behind
    · exact keptB first before a foundA
    · exact (keptA second behind b foundB).symm
  · intro sector
    rw [surveyed.free, surveyed.length, usedBelow_slotCount]

end RegionStore.Tables
