import RegionStore.Preferences.Basic
import RegionStore.Proofs.Entries
import RegionStore.Proofs.Preferences.Line

/-!
Values as text. What is read from a text has keys that are not empty and no newline in a key or value, and
exactly such values come back from the text they are written as.
-/

set_option autoImplicit false

namespace RegionStore.Preferences

/-- A key and a value that come back from the line they are written on. -/
structure Storable (key value : Bytes) : Prop where
  named : key ≠ ByteArray.empty
  key : newline ∉ key.list
  value : newline ∉ value.list

def Values.Storable (values : Values) : Prop :=
  ∀ key value, values[key]? = some value → Preferences.Storable key value

/-- No line is broken in two by a newline in a key or a value. -/
def Values.Unbroken (values : Values) : Prop :=
  ∀ key value : Bytes, values[key]? = some value → newline ∉ key.list ∧ newline ∉ value.list

theorem Values.Storable.unbroken {values : Values} (storable : values.Storable) : values.Unbroken :=
  fun key value found => ⟨(storable key value found).key, (storable key value found).value⟩

def textEntries (text : Bytes) : List (Bytes × Bytes) :=
  (lines text.list).map fun line => (Bytes.ofList (words line).1, Bytes.ofList (words line).2)

theorem ofList_eq_empty_iff {list : List UInt8} : Bytes.ofList list = ByteArray.empty ↔ list = [] := by
  rw [← Bytes.list_inj, Bytes.list_ofList]
  rfl

/-- One line more. A key that has a value keeps it. -/
def Values.add (values : Values) (entry : Bytes × Bytes) : Values :=
  if entry.1 = ByteArray.empty then values else values.insertIfNew entry.1 entry.2

theorem parse_eq_foldl (text : Bytes) : parse text = (textEntries text).foldl Values.add ∅ := by
  unfold parse textEntries Values.add
  simp only [List.foldl_map, ofList_eq_empty_iff]

theorem Values.getElem?_add (values : Values) (entry : Bytes × Bytes) {key : Bytes}
    (named : key ≠ ByteArray.empty) :
    (values.add entry)[key]? = values[key]?.or (if key = entry.1 then some entry.2 else none) := by
  unfold add
  split
  · next unnamed =>
    have other : key ≠ entry.1 := fun same => named (same.trans unnamed)
    simp [other]
  · simp only [Std.TreeMap.getElem?_insertIfNew, Std.LawfulEqCmp.compare_eq_iff_eq]
    by_cases same : key = entry.1
    · subst same
      cases found : values[entry.1]? with
      | none => simp [Std.TreeMap.mem_iff_isSome_getElem?, found]
      | some value => simp [Std.TreeMap.mem_iff_isSome_getElem?, found]
    · simp [same, Ne.symm same]

theorem Values.getElem?_foldl_add (entries : List (Bytes × Bytes)) (values : Values) {key : Bytes}
    (named : key ≠ ByteArray.empty) :
    (entries.foldl Values.add values)[key]? = values[key]?.or (entries.lookup key) := by
  induction entries generalizing values with
  | nil => simp
  | cons entry rest ih =>
    rw [List.foldl_cons, ih, values.getElem?_add entry named, Option.or_assoc, List.lookup_cons]
    by_cases same : key = entry.1
    · simp [same]
    · simp [same, beq_eq_false_iff_ne.2 same]

theorem Values.getElem?_empty_foldl_add (entries : List (Bytes × Bytes)) (values : Values) :
    (entries.foldl Values.add values)[ByteArray.empty]? = values[ByteArray.empty]? := by
  induction entries generalizing values with
  | nil => rfl
  | cons entry rest ih =>
    rw [List.foldl_cons, ih]
    unfold add
    split
    · rfl
    · next named =>
      simp [Std.TreeMap.getElem?_insertIfNew, Std.LawfulEqCmp.compare_eq_iff_eq, named]

theorem getElem?_parse (text key : Bytes) :
    (parse text)[key]? = if key = ByteArray.empty then none else (textEntries text).lookup key := by
  rw [parse_eq_foldl]
  split
  · next unnamed =>
    rw [unnamed, Values.getElem?_empty_foldl_add]
    exact Std.TreeMap.getElem?_emptyc
  · next named =>
    rw [Values.getElem?_foldl_add _ _ named, Std.TreeMap.getElem?_emptyc, Option.none_or]

theorem storable_parse (text : Bytes) : (parse text).Storable := by
  intro key value found
  rw [getElem?_parse] at found
  split at found
  · cases found
  · next named =>
    obtain ⟨line, isLine, same⟩ := List.mem_map.1 (mem_of_lookup found)
    have whole := not_mem_of_mem_lines isLine
    obtain ⟨keySubset, valueSubset⟩ := words_subset line
    rw [Prod.mk.injEq] at same
    obtain ⟨rfl, rfl⟩ := same
    exact ⟨named, fun inKey => whole (keySubset inKey), fun inValue => whole (valueSubset inValue)⟩

section
variable {values : Values}

theorem print_list (values : Values) : (print values).list =
    values.toList.flatMap fun entry => entryLine entry.1.list entry.2.list := rfl

/-- A written text has one line for each entry, in the order of the keys. -/
theorem Values.Unbroken.lines_print (unbroken : values.Unbroken) : lines (print values).list =
    values.toList.map fun entry => entryText entry.1.list entry.2.list := by
  rw [print_list]
  apply lines_flatMap_entryLine
  intro entry member inLine
  have stored := unbroken entry.1 entry.2 (Std.TreeMap.mem_toList_iff_getElem?_eq_some.1 member)
  exact (newline_mem_entryText_iff.1 inLine).elim stored.1 stored.2

theorem lines_print (storable : values.Storable) : lines (print values).list =
    values.toList.map fun entry => entryText entry.1.list entry.2.list :=
  storable.unbroken.lines_print

theorem Values.Unbroken.textEntries_print (unbroken : values.Unbroken) :
    textEntries (print values) = values.toList := by
  unfold textEntries
  rw [unbroken.lines_print, List.map_map]
  have same : ((fun line => (Bytes.ofList (words line).1, Bytes.ofList (words line).2)) ∘
      fun entry : Bytes × Bytes => entryText entry.1.list entry.2.list) = id := by
    funext entry
    simp [words_entryText]
  rw [same, List.map_id]

theorem lookup_toList (values : Values) (key : Bytes) : values.toList.lookup key = values[key]? := by
  have single : (values.toList.map Prod.fst).Nodup := by
    rw [List.nodup_iff_pairwise_ne, List.pairwise_map]
    refine Std.TreeMap.distinct_keys_toList.imp fun different same => different ?_
    exact Std.LawfulEqCmp.compare_eq_iff_eq.2 same
  apply Option.ext
  intro value
  rw [lookup_eq_some_iff_mem single, Std.TreeMap.mem_toList_iff_getElem?_eq_some]

/-- If no line is broken, only what has the empty key for its key does not come back. -/
theorem Values.Unbroken.getElem?_parse_print (unbroken : values.Unbroken) (key : Bytes) :
    (parse (print values))[key]? = if key = ByteArray.empty then none else values[key]? := by
  rw [getElem?_parse, unbroken.textEntries_print, lookup_toList]

theorem getElem?_parse_print (storable : values.Storable) (key : Bytes) :
    (parse (print values))[key]? = values[key]? := by
  rw [storable.unbroken.getElem?_parse_print]
  split
  · next unnamed =>
    cases found : values[key]? with
    | none => rfl
    | some value => exact absurd unnamed (storable key value found).named
  · rfl

theorem getElem?_parse_print_iff :
    (∀ key : Bytes, (parse (print values))[key]? = values[key]?) ↔ values.Storable := by
  constructor
  · intro same key value found
    exact storable_parse (print values) key value ((same key).trans found)
  · exact getElem?_parse_print

theorem print_congr {other : Values} (same : ∀ key : Bytes, other[key]? = values[key]?) :
    print other = print values := by
  have lists := (Std.TreeMap.Equiv.of_forall_constGet?_eq same).toList_eq
  unfold print
  rw [lists]

end

end RegionStore.Preferences
