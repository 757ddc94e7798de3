import Mathlib.Algebra.Order.BigOperators.Group.Finset
import Mathlib.Order.Interval.Finset.Nat
import RegionStore.Proofs.Region.Partition

/-!
How long a file can get. A free extent ends where a chunk begins or where the file ends, so with at most
one chunk for every slot there are few free extents, and if all of them are short the file is short.
Sectors are appended only then.
-/

set_option autoImplicit false

namespace RegionStore.Partitioned

variable {tables : Tables} {space : FreeSpace}

/-- The sectors of the chunk in a slot, and `limit` more in front of them. -/
def zone (tables : Tables) (limit : Nat) (slot : Slot) : Finset Nat :=
  match tables.extent? slot with
  | some extent => Finset.Ico (extent.first.toNat - limit) extent.behind
  | none => ∅

theorem card_zone_le (tables : Tables) (limit : Nat) (slot : Slot) :
    (zone tables limit slot).card ≤ maxExtentSectors + limit := by
  unfold zone
  cases found : tables.extent? slot with
  | none => exact Nat.zero_le _
  | some extent =>
    have small := (Tables.packable_of_extent? found).count
    have behind := extent.behind_def
    simp only [Nat.card_Ico]
    omega

/-- With short free extents, every sector belongs to a chunk, lies shortly in front of one or shortly in
front of the end. -/
theorem mem_zone_or_last (partitioned : Partitioned tables space) {limit : Nat}
    (short : ∀ extent ∈ space.byStart, extent.count.toNat ≤ limit) {sector : Nat}
    (behindHeader : headerSectors.toNat ≤ sector) (within : sector < space.sectors.toNat) :
    (∃ slot, sector ∈ zone tables limit slot) ∨ space.sectors.toNat ≤ sector + limit := by
  by_cases used : tables.Used sector
  · obtain ⟨slot, extent, found, fromFirst, toLast⟩ := used
    refine .inl ⟨slot, ?_⟩
    rw [zone, found]
    simp only [Finset.mem_Ico]
    omega
  · obtain ⟨run, member, fromFirst, toLast⟩ := (partitioned.free sector).2 ⟨behindHeader, within, used⟩
    have atMost := short run member
    have behind := run.behind_def
    by_cases last : space.sectors.toNat ≤ run.behind
    · right
      omega
    · have isRun := partitioned.sound.isRun member
      have notFree := isRun.back
      rw [partitioned.free] at notFree
      have usedBehind : tables.Used run.behind := by
        by_contra unused
        exact notFree ⟨by omega, by omega, unused⟩
      obtain ⟨slot, extent, found, fromFirst', toLast'⟩ := usedBehind
      -- The chunk behind the run begins right there, because the run is free.
      have begins : run.behind ≤ extent.first.toNat := by
        by_contra before
        have free := isRun.all (run.behind - 1) ⟨by omega, by omega⟩
        exact ((partitioned.free _).1 free).2.2 ⟨slot, extent, found, by omega, by omega⟩
      refine .inl ⟨slot, ?_⟩
      rw [zone, found]
      simp only [Finset.mem_Ico]
      omega

theorem sectors_le_of_short (partitioned : Partitioned tables space) {limit : Nat}
    (short : ∀ extent ∈ space.byStart, extent.count.toNat ≤ limit) :
    space.sectors.toNat ≤ headerSectors.toNat + slotCount * (maxExtentSectors + limit) + limit := by
  have covered : Finset.Ico headerSectors.toNat space.sectors.toNat ⊆
      Finset.univ.biUnion (zone tables limit) ∪
        Finset.Ico (space.sectors.toNat - limit) space.sectors.toNat := by
    intro sector member
    rw [Finset.mem_Ico] at member
    simp only [Finset.mem_union, Finset.mem_biUnion, Finset.mem_univ, true_and, Finset.mem_Ico]
    rcases partitioned.mem_zone_or_last short member.1 member.2 with inZone | last
    · exact .inl inZone
    · right
      omega
  have zones := Finset.card_biUnion_le_card_mul Finset.univ (zone tables limit)
    (maxExtentSectors + limit) fun slot _ => card_zone_le tables limit slot
  have union := (Finset.card_le_card covered).trans (Finset.card_union_le _ _)
  rw [Nat.card_Ico, Nat.card_Ico] at union
  rw [Finset.card_univ, Fintype.card_fin] at zones
  omega

/-- The greatest length of a file to which sectors are still appended. -/
def fragmentedSectors : Nat := 521472

/-- Sectors are appended for a record only to a file that is not long. -/
theorem sectors_le_of_noRoom (partitioned : Partitioned tables space) {count : Nat}
    (small : count ≤ maxExtentSectors)
    (noRoom : ∀ extent ∈ space.byStart, extent.count.toNat < count) :
    space.sectors.toNat ≤ fragmentedSectors := by
  have bound := partitioned.sectors_le_of_short fun extent member => Nat.le_sub_one_of_lt (noRoom extent member)
  rw [maxExtentSectors] at small bound
  rw [slotCount, Extent.headerSectors_toNat] at bound
  rw [fragmentedSectors]
  omega

end RegionStore.Partitioned
