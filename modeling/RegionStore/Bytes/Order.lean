import RegionStore.Bytes

/-!
The order of byte strings: the first byte that differs decides, as an unsigned number, and a proper
beginning comes first. It is the usual order of lists.
-/

set_option autoImplicit false

namespace RegionStore.Bytes

def compareFrom (a b : Bytes) : (count index : Nat) → Ordering
  | 0, _ => @Ord.compare Nat instOrdNat a.size b.size
  | count + 1, index =>
    if a.get index < b.get index then .lt
    else if b.get index < a.get index then .gt
    else compareFrom a b count (index + 1)

def compare (a b : Bytes) : Ordering := compareFrom a b (min a.size b.size) 0

theorem drop_list {bytes : Bytes} {index : Nat} (inside : index < bytes.size) :
    bytes.list.drop index = bytes.get index :: bytes.list.drop (index + 1) := by
  have length : index < bytes.list.length := inside
  rw [List.drop_eq_getElem_cons length, get_of_lt inside]
  rfl

theorem compareFrom_eq (a b : Bytes) (count index : Nat)
    (rest : index + count = min a.size b.size) :
    compareFrom a b count index = Ord.compare (a.list.drop index) (b.list.drop index) := by
  induction count generalizing index with
  | zero =>
    have lengthA : (a.list.drop index).length = a.size - index := List.length_drop
    have lengthB : (b.list.drop index).length = b.size - index := List.length_drop
    cases shapeA : a.list.drop index with
    | nil =>
      cases shapeB : b.list.drop index with
      | nil =>
        rw [shapeA, List.length_nil] at lengthA
        rw [shapeB, List.length_nil] at lengthB
        have : a.size = b.size := by omega
        simp [compareFrom, this]
      | cons =>
        rw [shapeA, List.length_nil] at lengthA
        rw [shapeB, List.length_cons] at lengthB
        have : a.size < b.size := by omega
        exact Nat.compare_eq_lt.2 this
    | cons =>
      cases shapeB : b.list.drop index with
      | nil =>
        rw [shapeA, List.length_cons] at lengthA
        rw [shapeB, List.length_nil] at lengthB
        have : b.size < a.size := by omega
        exact Nat.compare_eq_gt.2 this
      | cons =>
        rw [shapeA, List.length_cons] at lengthA
        rw [shapeB, List.length_cons] at lengthB
        omega
  | succ count ih =>
    rw [drop_list (by omega : index < a.size), drop_list (by omega : index < b.size), compareFrom,
      ih (index + 1) (by omega)]
    generalize a.get index = x
    generalize b.get index = y
    simp only [Ord.compare, List.compareLex, compareOfLessAndEq]
    by_cases less : x < y
    · simp [less]
    · by_cases greater : y < x
      · have : x ≠ y := by
          intro same
          rw [same] at greater
          exact absurd greater (UInt8.lt_irrefl _)
        simp [less, greater, this]
      · have : x = y := UInt8.le_antisymm (UInt8.not_lt.1 greater) (UInt8.not_lt.1 less)
        simp [this]

theorem compare_eq (a b : Bytes) : compare a b = Ord.compare a.list b.list :=
  compareFrom_eq a b _ 0 (Nat.zero_add _)

instance : Std.TransCmp compare where
  eq_swap := by
    intro a b
    rw [compare_eq, compare_eq]
    exact Std.OrientedCmp.eq_swap
  isLE_trans := by
    intro a b c
    rw [compare_eq, compare_eq, compare_eq]
    exact Std.TransCmp.isLE_trans

instance : Std.LawfulEqCmp compare where
  eq_of_compare := by
    intro a b same
    rw [compare_eq] at same
    exact list_inj.1 (Std.LawfulEqCmp.eq_of_compare same)

end RegionStore.Bytes
