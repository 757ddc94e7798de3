/-!
Lists of entries as maps. The first entry of a key is the one that is found.
-/

set_option autoImplicit false

namespace RegionStore

section
variable {Key Value : Type} [BEq Key] [LawfulBEq Key] {entries : List (Key × Value)} {key : Key}
  {value : Value}

theorem mem_of_lookup (found : entries.lookup key = some value) : (key, value) ∈ entries := by
  obtain ⟨front, back, rfl, _⟩ := List.lookup_eq_some_iff.1 found
  exact List.mem_append_right _ List.mem_cons_self

theorem lookup_eq_some_iff_mem (single : (entries.map Prod.fst).Nodup) :
    entries.lookup key = some value ↔ (key, value) ∈ entries := by
  constructor
  · exact mem_of_lookup
  · intro member
    obtain ⟨front, back, rfl⟩ := List.append_of_mem member
    rw [List.lookup_eq_some_iff]
    refine ⟨front, back, rfl, fun entry before => ?_⟩
    rw [List.map_append, List.nodup_append] at single
    rw [bne_iff_ne]
    exact (single.2.2 entry.1 (List.mem_map_of_mem before) key
      (List.mem_map_of_mem List.mem_cons_self)).symm

end

end RegionStore
