import RegionStore.Proofs.Entries
import RegionStore.World.OpenTable

/-!
The table of open regions as a finite map. Wherever an entry is put and however often the table has
grown, it has the same entries, and with one entry for each position it finds the same numbers.
-/

set_option autoImplicit false

namespace RegionStore.World

namespace OpenTable

def Single (table : OpenTable) : Prop := (table.entries.map Prod.fst).Nodup

theorem Single.find?_eq_some_iff {table : OpenTable} (single : table.Single) {position : RegionPos}
    {number : Nat} : table.find? position = some number ↔ (position, number) ∈ table.entries :=
  lookup_eq_some_iff_mem single

theorem find?_eq_none_iff {table : OpenTable} {position : RegionPos} :
    table.find? position = none ↔ position ∉ table.entries.map Prod.fst := by
  rw [find?, List.lookup_eq_none_iff, List.mem_map]
  constructor
  · rintro all ⟨entry, member, rfl⟩
    exact absurd rfl (bne_iff_ne.1 (all entry member))
  · intro absent entry member
    rw [bne_iff_ne]
    exact fun same => absent ⟨entry, member, same.symm⟩

theorem erase_of_find?_eq_none {table : OpenTable} {position : RegionPos}
    (absent : table.find? position = none) : table.erase position = table := by
  have kept : table.entries.filter (fun entry => entry.1 ≠ position) = table.entries := by
    rw [List.filter_eq_self]
    intro entry member
    rw [decide_eq_true_eq]
    rintro rfl
    exact find?_eq_none_iff.1 absent (List.mem_map_of_mem member)
  exact congrArg (OpenTable.mk table.buckets) kept

theorem put_perm (buckets : Nat) (entry : RegionPos × Nat) (entries : List (RegionPos × Nat)) :
    (put buckets entry entries).Perm (entry :: entries) := by
  unfold put
  simp only
  split
  · exact List.Perm.refl _
  · refine List.perm_middle.trans (List.Perm.cons entry ?_)
    rw [List.takeWhile_append_dropWhile]

theorem foldl_put_perm (buckets : Nat) (entries known : List (RegionPos × Nat)) :
    (entries.foldl (fun known entry => put buckets entry known) known).Perm (entries ++ known) := by
  induction entries generalizing known with
  | nil => exact List.Perm.refl _
  | cons entry rest ih =>
    refine (ih (put buckets entry known)).trans ?_
    exact ((put_perm buckets entry known).append_left rest).trans List.perm_middle

theorem grow_perm (table : OpenTable) : table.grow.entries.Perm table.entries := by
  unfold grow
  split
  · exact List.Perm.refl _
  · split
    · exact (foldl_put_perm _ table.entries []).trans (List.append_nil _ ▸ List.Perm.refl _)
    · exact List.Perm.refl _

theorem insert_perm (table : OpenTable) (position : RegionPos) (number : Nat) :
    (table.insert position number).entries.Perm ((position, number) :: table.entries) :=
  (put_perm _ _ _).trans (table.grow_perm.cons _)

theorem Single.insert {table : OpenTable} (single : table.Single) {position : RegionPos}
    (absent : table.find? position = none) (number : Nat) : (table.insert position number).Single := by
  unfold Single
  rw [((table.insert_perm position number).map Prod.fst).nodup_iff, List.map_cons, List.nodup_cons]
  exact ⟨find?_eq_none_iff.1 absent, single⟩

theorem Single.find?_insert {table : OpenTable} (single : table.Single) {position : RegionPos}
    (absent : table.find? position = none) (number : Nat) (other : RegionPos) :
    (table.insert position number).find? other =
      if other = position then some number else table.find? other := by
  have inserted := single.insert absent number
  have members {place : RegionPos} {found : Nat} :
      (place, found) ∈ (table.insert position number).entries ↔
        (place, found) = (position, number) ∨ (place, found) ∈ table.entries := by
    rw [(table.insert_perm position number).mem_iff, List.mem_cons]
  split
  · next here =>
    rw [inserted.find?_eq_some_iff, members, here]
    exact .inl rfl
  · next different =>
    apply Option.ext
    intro found
    rw [inserted.find?_eq_some_iff, members, single.find?_eq_some_iff, Prod.mk.injEq]
    exact or_iff_right fun both => different both.1

theorem Single.erase {table : OpenTable} (single : table.Single) (position : RegionPos) :
    (table.erase position).Single :=
  List.Nodup.sublist (List.Sublist.map Prod.fst List.filter_sublist) single

theorem Single.find?_erase {table : OpenTable} (single : table.Single) (position other : RegionPos) :
    (table.erase position).find? other = if other = position then none else table.find? other := by
  apply Option.ext
  intro found
  rw [(single.erase position).find?_eq_some_iff, OpenTable.erase, List.mem_filter, decide_eq_true_eq]
  split
  · next here => simp only [here, ne_eq, not_true_eq_false, and_false, reduceCtorEq]
  · next different => rw [single.find?_eq_some_iff, and_iff_left different]

theorem Single.erase_cons {buckets number : Nat} {position : RegionPos}
    {entries : List (RegionPos × Nat)}
    (single : Single ⟨buckets, (position, number) :: entries⟩) :
    OpenTable.erase ⟨buckets, (position, number) :: entries⟩ position = ⟨buckets, entries⟩ := by
  have apart : position ∉ entries.map Prod.fst := (List.nodup_cons.1 single).1
  unfold OpenTable.erase
  rw [List.filter_cons, if_neg (by simp), List.filter_eq_self.2]
  intro entry member
  rw [decide_eq_true_eq]
  rintro rfl
  exact apart (List.mem_map_of_mem member)

end OpenTable

theorem lookup_erased (parked : List (RegionPos × Nat)) (position other : RegionPos) :
    (parked.filter fun entry => entry.1 ≠ position).lookup other =
      if other = position then none else parked.lookup other := by
  induction parked with
  | nil => exact (ite_self none).symm
  | cons entry rest ih =>
    obtain ⟨place, number⟩ := entry
    rw [List.filter_cons, List.lookup_cons]
    by_cases erased : place = position
    · rw [if_neg (by simpa using erased), ih]
      split
      · rfl
      · next different =>
        rw [beq_eq_false_iff_ne.2 fun same => different (same.trans erased)]
    · rw [if_pos (by simpa using erased), List.lookup_cons, ih]
      by_cases here : other = place
      · simp only [beq_iff_eq.2 here, if_neg fun same => erased (here ▸ same)]
      · rw [beq_eq_false_iff_ne.2 here]

end RegionStore.World
