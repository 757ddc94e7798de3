import RegionStore.Region.Listing

/-!
What a walk over a listing gives: the chunks of all slots that have one, in the order of the slots.
-/

set_option autoImplicit false

namespace RegionStore

theorem drop_slots {index : Nat} (inside : index < slotCount) :
    (List.finRange slotCount).drop index =
      ⟨index, inside⟩ :: (List.finRange slotCount).drop (index + 1) := by
  have within : index < (List.finRange slotCount).length := by rwa [List.length_finRange]
  rw [List.drop_eq_getElem_cons within, List.getElem_finRange]
  rfl

theorem drop_slots_of_le {index : Nat} (outside : slotCount ≤ index) :
    (List.finRange slotCount).drop index = [] := by
  apply List.drop_of_length_le
  rwa [List.length_finRange]

namespace Listing

variable (listing : Listing)

theorem hasSlot_iff {index : Nat} (inside : index < slotCount) :
    listing.HasSlot index ↔ listing.offsets.get ⟨index, inside⟩ ≠ 0 := by
  constructor
  · rintro ⟨_, present⟩
    exact present
  · intro present
    exact ⟨inside, present⟩

/-- A cursor that has skipped the empty slots from an index on has all chunks from there before it. -/
theorem chunksFrom_seek (number : Option Nat) (index : Nat) :
    listing.chunksFrom ⟨number, listing.seek index⟩ =
      (((List.finRange slotCount).drop index).filter fun slot => listing.offsets.get slot ≠ 0).map
        listing.region.chunkAt := by
  by_cases inside : index < slotCount
  · have rest := chunksFrom_seek number (index + 1)
    rw [seek, if_pos inside, drop_slots inside, List.filter_cons]
    by_cases present : listing.offsets.get ⟨index, inside⟩ ≠ 0
    · rw [if_pos ((listing.hasSlot_iff inside).2 present), chunksFrom, dif_pos inside,
        if_pos (decide_eq_true present), List.map_cons, ← rest]
      rfl
    · rw [if_neg fun has => present ((listing.hasSlot_iff inside).1 has),
        if_neg fun kept => present (of_decide_eq_true kept)]
      exact rest
  · rw [seek, if_neg inside, drop_slots_of_le (Nat.le_of_not_lt inside), chunksFrom, dif_neg inside]
    rfl
termination_by slotCount - index

theorem chunks_eq : listing.chunks =
    ((List.finRange slotCount).filter fun slot => listing.offsets.get slot ≠ 0).map
      listing.region.chunkAt := by
  have all := listing.chunksFrom_seek (some listing.number) 0
  rw [List.drop_zero] at all
  rw [← all, chunks, first]

end Listing

theorem Tables.count_eq (tables : Tables) :
    tables.count = (List.finRange slotCount).countP fun slot => tables.offsets.get slot ≠ 0 := by
  have slots : tables.offsets.toList = (List.finRange slotCount).map fun slot => tables.offsets.get slot := by
    apply List.ext_getElem
    · simp
    · intro index inA inB
      simp only [Vector.getElem_toList, List.getElem_map, List.getElem_finRange]
      rfl
  rw [count, slots, List.countP_map]
  rfl

end RegionStore
