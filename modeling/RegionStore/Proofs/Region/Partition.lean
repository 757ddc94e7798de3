import RegionStore.Region.Tables
import RegionStore.Proofs.FreeSpace.Claim
import RegionStore.Proofs.FreeSpace.Release
import RegionStore.Proofs.FreeSpace.Allocate

/-!
How the tables and the free space of a region share the sectors behind the header: no sector belongs to
two chunks, and the free ones are those that belong to none. `Partitioned` is kept when a chunk gets a
new extent and when it loses its extent.
-/

set_option autoImplicit false

namespace RegionStore

namespace Tables

variable {tables : Tables}

def Used (tables : Tables) (sector : Nat) : Prop :=
  ∃ slot extent, tables.extent? slot = some extent ∧ extent.Holds sector

theorem extent?_eq (tables : Tables) (slot : Slot) : tables.extent? slot =
    if tables.offsets.get slot = 0 then none else some (Extent.ofWord (tables.offsets.get slot)) := rfl

theorem timestamp?_eq (tables : Tables) (slot : Slot) : tables.timestamp? slot =
    if tables.offsets.get slot = 0 then none else some (tables.timestamps.get slot) := rfl

theorem extent?_eq_some_iff {slot : Slot} {extent : Extent} :
    tables.extent? slot = some extent ↔
      tables.offsets.get slot ≠ 0 ∧ Extent.ofWord (tables.offsets.get slot) = extent := by
  rw [extent?_eq]
  split
  · next absent => simp only [absent, ne_eq, not_true_eq_false, false_and, reduceCtorEq]
  · next present => simp only [present, ne_eq, not_false_eq_true, true_and, Option.some.injEq]

theorem extent?_eq_none_iff {slot : Slot} : tables.extent? slot = none ↔ tables.offsets.get slot = 0 := by
  rw [extent?_eq]
  split
  · next absent => simp only [absent]
  · next present => simp only [present, reduceCtorEq]

theorem extent?_eq_iff {a b : Tables} {slot : Slot} :
    a.extent? slot = b.extent? slot ↔ a.offsets.get slot = b.offsets.get slot := by
  constructor
  · intro same
    cases found : b.extent? slot with
    | none =>
      rw [extent?_eq_none_iff.1 (same.trans found), extent?_eq_none_iff.1 found]
    | some extent =>
      obtain ⟨_, ofA⟩ := extent?_eq_some_iff.1 (same.trans found)
      obtain ⟨_, ofB⟩ := extent?_eq_some_iff.1 found
      rw [← Extent.toWord_ofWord (a.offsets.get slot), ofA, ← ofB, Extent.toWord_ofWord]
  · intro same
    rw [extent?_eq, extent?_eq, same]

theorem packable_of_extent? {slot : Slot} {extent : Extent} (found : tables.extent? slot = some extent) :
    extent.Packable := by
  rw [← (extent?_eq_some_iff.1 found).2]
  exact Extent.packable_ofWord _

@[simp] theorem offsets_set (tables : Tables) (slot other : Slot) (offset : UInt32)
    (timestamp : Int32) :
    (tables.set slot offset timestamp).offsets.get other =
      if other = slot then offset else tables.offsets.get other := by
  change (tables.offsets.set slot offset)[other.val] =
    if other = slot then offset else tables.offsets[other.val]
  simp only [Vector.getElem_set, Fin.ext_iff, eq_comm]

@[simp] theorem timestamps_set (tables : Tables) (slot other : Slot) (offset : UInt32)
    (timestamp : Int32) :
    (tables.set slot offset timestamp).timestamps.get other =
      if other = slot then timestamp else tables.timestamps.get other := by
  change (tables.timestamps.set slot timestamp)[other.val] =
    if other = slot then timestamp else tables.timestamps[other.val]
  simp only [Vector.getElem_set, Fin.ext_iff, eq_comm]

theorem absent_set {live stored : Tables} {slot other : Slot} {offset : UInt32} {timestamp : Int32}
    (absent : (live.set slot offset timestamp).offsets.get other = 0) :
    offset = 0 ∧ (stored.set slot offset timestamp).offsets.get other = 0 ∨
      live.offsets.get other = 0 ∧
        (stored.set slot offset timestamp).offsets.get other = stored.offsets.get other := by
  rw [offsets_set] at absent ⊢
  split at absent
  · next here => exact .inl ⟨absent, by rw [if_pos here, absent]⟩
  · next different => exact .inr ⟨absent, if_neg different⟩

theorem extent?_set (tables : Tables) (slot other : Slot) (offset : UInt32) (timestamp : Int32) :
    (tables.set slot offset timestamp).extent? other =
      if other = slot then if offset = 0 then none else some (Extent.ofWord offset)
      else tables.extent? other := by
  rw [extent?_eq, extent?_eq, offsets_set]
  split <;> rfl

theorem extent?_set_toWord (tables : Tables) (slot other : Slot) {extent : Extent}
    (packable : extent.Packable) (nonempty : 0 < extent.count.toNat) (timestamp : Int32) :
    (tables.set slot extent.toWord timestamp).extent? other =
      if other = slot then some extent else tables.extent? other := by
  rw [extent?_set, if_neg (Extent.toWord_ne_zero packable nonempty),
    (Extent.ofWord_toWord_iff extent).2 packable]

end Tables

/-- The chunks have sectors of their own, and the others are free. -/
structure Partitioned (tables : Tables) (space : FreeSpace) : Prop where
  sound : space.Sound
  header : headerSectors.toNat ≤ space.sectors.toNat
  inside : ∀ slot extent, tables.extent? slot = some extent → extent.Inside space.sectors.toNat
  apart : ∀ slot other, slot ≠ other → ∀ a b, tables.extent? slot = some a →
    tables.extent? other = some b → a.Apart b
  free : ∀ sector, space.Free sector ↔
    headerSectors.toNat ≤ sector ∧ sector < space.sectors.toNat ∧ ¬ tables.Used sector

namespace Partitioned

variable {tables : Tables} {space : FreeSpace}

theorem occupied (partitioned : Partitioned tables space) {slot : Slot} {extent : Extent}
    (found : tables.extent? slot = some extent) {sector : Nat} (holds : extent.Holds sector) :
    ¬ space.Free sector :=
  fun free => ((partitioned.free sector).1 free).2.2 ⟨slot, extent, found, holds⟩

/-- A chunk gives its sectors back. -/
theorem vacate (partitioned : Partitioned tables space) {slot : Slot} {extent : Extent}
    (found : tables.extent? slot = some extent) (timestamp : Int32) :
    Partitioned (tables.set slot 0 timestamp) (space.release extent) := by
  have inside := partitioned.inside slot extent found
  have occupied : ∀ sector, extent.Holds sector → ¬ space.Free sector :=
    fun sector => partitioned.occupied found
  obtain ⟨sound, sectors, free⟩ := partitioned.sound.release inside occupied
  have kept : ∀ other place, (tables.set slot 0 timestamp).extent? other = some place →
      other ≠ slot ∧ tables.extent? other = some place := by
    intro other place has
    rw [Tables.extent?_set] at has
    split at has
    · cases has
    · next different => exact ⟨different, has⟩
  refine ⟨sound, sectors ▸ partitioned.header, ?_, ?_, ?_⟩
  · intro other place has
    rw [sectors]
    exact partitioned.inside other place (kept other place has).2
  · intro first second different a b hasA hasB
    exact partitioned.apart first second different a b (kept first a hasA).2 (kept second b hasB).2
  · intro sector
    rw [free, partitioned.free, sectors]
    constructor
    · rintro (holds | ⟨behindHeader, within, notUsed⟩)
      · refine ⟨Nat.le_trans inside.behindHeader holds.1, Nat.lt_of_lt_of_le holds.2 inside.within, ?_⟩
        rintro ⟨other, place, has, holdsOther⟩
        obtain ⟨different, has⟩ := kept other place has
        exact partitioned.apart slot other different.symm extent place found has sector holds holdsOther
      · refine ⟨behindHeader, within, ?_⟩
        rintro ⟨other, place, has, holdsOther⟩
        exact notUsed ⟨other, place, (kept other place has).2, holdsOther⟩
    · rintro ⟨behindHeader, within, notUsed⟩
      by_cases holds : extent.Holds sector
      · exact .inl holds
      · refine .inr ⟨behindHeader, within, ?_⟩
        rintro ⟨other, place, has, holdsOther⟩
        have different : other ≠ slot := by
          rintro rfl
          cases found.symm.trans has
          exact holds holdsOther
        exact notUsed ⟨other, place, by rw [Tables.extent?_set, if_neg different, has], holdsOther⟩

theorem congr {other : Tables} (partitioned : Partitioned tables space)
    (same : ∀ slot, other.extent? slot = tables.extent? slot) : Partitioned other space := by
  have used : ∀ sector, other.Used sector ↔ tables.Used sector := by
    intro sector
    simp only [Tables.Used, same]
  refine ⟨partitioned.sound, partitioned.header, ?_, ?_, ?_⟩
  · intro slot extent found
    exact partitioned.inside slot extent (same slot ▸ found)
  · intro first second different a b foundA foundB
    exact partitioned.apart first second different a b (same first ▸ foundA) (same second ▸ foundB)
  · intro sector
    rw [partitioned.free, used]

/-- A chunk without an extent gets one. -/
theorem occupy (partitioned : Partitioned tables space) {slot : Slot}
    (absent : tables.extent? slot = none) {extent : Extent} (packable : extent.Packable)
    (timestamp : Int32) {next : FreeSpace} (takes : FreeSpace.Takes space extent next) :
    Partitioned (tables.set slot extent.toWord timestamp) next := by
  have inside := takes.inside
  have longer := takes.longer
  have unused : ∀ sector, extent.Holds sector → ¬ tables.Used sector := by
    rintro sector holds ⟨other, place, has, holdsOther⟩
    have within := Nat.lt_of_lt_of_le holdsOther.2 (partitioned.inside other place has).within
    exact partitioned.occupied has holdsOther (takes.fresh sector holds within)
  have found : ∀ other, (tables.set slot extent.toWord timestamp).extent? other =
      if other = slot then some extent else tables.extent? other :=
    fun other => tables.extent?_set_toWord slot other packable inside.nonempty timestamp
  refine ⟨takes.sound, Nat.le_trans partitioned.header longer, ?_, ?_, ?_⟩
  · intro other place has
    rw [found] at has
    split at has
    · cases has
      exact inside
    · have old := partitioned.inside other place has
      exact ⟨old.behindHeader, old.nonempty, Nat.le_trans old.within longer⟩
  · intro first second different a b hasA hasB
    rw [found] at hasA hasB
    split at hasA
    · next isFirst =>
      cases hasA
      rw [if_neg (fun same => different (isFirst.trans same.symm))] at hasB
      exact fun sector holds holdsB => unused sector holds ⟨second, b, hasB, holdsB⟩
    · split at hasB
      · cases hasB
        exact fun sector holdsA holds => unused sector holds ⟨first, a, hasA, holdsA⟩
      · exact partitioned.apart first second different a b hasA hasB
  · intro sector
    have used : (tables.set slot extent.toWord timestamp).Used sector ↔
        extent.Holds sector ∨ tables.Used sector := by
      constructor
      · rintro ⟨other, place, has, holds⟩
        rw [found] at has
        split at has
        · cases has
          exact .inl holds
        · exact .inr ⟨other, place, has, holds⟩
      · rintro (holds | ⟨other, place, has, holds⟩)
        · exact ⟨slot, extent, by rw [found, if_pos rfl], holds⟩
        · have different : other ≠ slot := by
            rintro rfl
            cases absent.symm.trans has
          exact ⟨other, place, by rw [found, if_neg different, has], holds⟩
    rw [takes.free, partitioned.free, takes.length, used]
    by_cases holds : extent.Holds sector
    · simp only [holds, not_true_eq_false, and_false, true_or]
    · simp only [holds, not_false_eq_true, and_true, false_or, or_false]

/-- An extent that was taken for a chunk but is not used goes back. -/
theorem abandon (partitioned : Partitioned tables space) {extent : Extent} {next : FreeSpace}
    (takes : FreeSpace.Takes space extent next) : Partitioned tables (next.release extent) := by
  obtain ⟨sound, sectors, free⟩ := takes.sound.release takes.inside fun sector holds isFree =>
    ((takes.free sector).1 isFree).2 holds
  have longer : space.sectors.toNat ≤ (next.release extent).sectors.toNat := sectors ▸ takes.longer
  refine ⟨sound, Nat.le_trans partitioned.header longer, ?_, partitioned.apart, ?_⟩
  · intro slot place has
    have old := partitioned.inside slot place has
    exact ⟨old.behindHeader, old.nonempty, Nat.le_trans old.within longer⟩
  · intro sector
    rw [free, takes.free, partitioned.free, sectors, takes.length]
    by_cases holds : extent.Holds sector
    · simp only [holds, not_true_eq_false, and_false, or_false, or_true, true_and, true_iff]
      refine ⟨Nat.le_trans takes.inside.behindHeader holds.1, ?_⟩
      rintro ⟨other, place, has, holdsOther⟩
      have within := Nat.lt_of_lt_of_le holdsOther.2 (partitioned.inside other place has).within
      exact partitioned.occupied has holdsOther (takes.fresh sector holds within)
    · simp only [holds, not_false_eq_true, and_true, false_or, or_false]

/-- A chunk gets a new extent, and its old one goes back. -/
theorem relocate (partitioned : Partitioned tables space) {slot : Slot} {old : Extent}
    (found : tables.extent? slot = some old) {extent : Extent} (packable : extent.Packable)
    (timestamp : Int32) {next : FreeSpace} (takes : FreeSpace.Takes space extent next) :
    Partitioned (tables.set slot extent.toWord timestamp) (next.release old) := by
  have inside := partitioned.inside slot old found
  have occupied : ∀ sector, old.Holds sector → ¬ space.Free sector :=
    fun sector => partitioned.occupied found
  have apart : ∀ sector, old.Holds sector → ¬ extent.Holds sector := fun sector holds holdsNew =>
    occupied sector holds (takes.fresh sector holdsNew (Nat.lt_of_lt_of_le holds.2 inside.within))
  have longer := takes.longer
  have insideNext : old.Inside next.sectors.toNat :=
    ⟨inside.behindHeader, inside.nonempty, Nat.le_trans inside.within longer⟩
  obtain ⟨sound, sectors, free⟩ := takes.sound.release insideNext fun sector holds isFree =>
    occupied sector holds ((takes.free sector).1 isFree).1
  obtain ⟨_, sectorsOld, freeOld⟩ := partitioned.sound.release inside occupied
  have takesLater : FreeSpace.Takes (space.release old) extent (next.release old) := by
    refine ⟨sound, sectors ▸ takes.inside, fun sector => ?_, fun sector holds within => ?_,
      fun sector => ?_⟩
    · rw [sectors, sectorsOld, takes.length]
    · rw [sectorsOld] at within
      exact (freeOld sector).2 (.inr (takes.fresh sector holds within))
    · rw [free, freeOld, takes.free]
      by_cases holds : old.Holds sector
      · simp only [holds, apart sector holds, true_or, not_false_eq_true, and_self]
      · simp only [holds, false_or]
  have absent : (tables.set slot 0 0).extent? slot = none := by
    rw [Tables.extent?_set, if_pos rfl, if_pos rfl]
  refine ((partitioned.vacate found 0).occupy absent packable timestamp takesLater).congr ?_
  intro other
  rw [Tables.extent?_set, Tables.extent?_set, Tables.extent?_set]
  split <;> rfl

end Partitioned

end RegionStore
