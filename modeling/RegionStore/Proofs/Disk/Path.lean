import Mathlib.Data.List.TakeWhile
import RegionStore.Proofs.Disk.Tree
import RegionStore.Proofs.FileName

/-!
Paths of names in a directory. The names of a path with a slash in it are those in front of the slash and
those behind it, so the path of a name leads to that name in whatever its directory leads to.
-/

set_option autoImplicit false

namespace RegionStore.Disk

namespace Path

/-- A slash only separates names: everything about joined paths follows from this. -/
theorem names_append_slash (position : Nat) (known front back : List UInt8) :
    (namesFrom position known (front ++ slash :: back)).map Prod.snd =
      (namesFrom position known front).map Prod.snd ++
        (namesFrom (position + front.length + 1) [] back).map Prod.snd := by
  induction front generalizing position known with
  | nil =>
    simp only [List.nil_append, namesFrom, ne_eq, not_true_eq_false, if_false, List.length_nil,
      Nat.add_zero]
    split <;> rfl
  | cons byte front ih =>
    have ahead : position + (byte :: front).length + 1 = position + 1 + front.length + 1 := by
      rw [List.length_cons]
      omega
    rw [List.cons_append, namesFrom, namesFrom, ahead]
    split
    · exact ih _ _
    · split
      · exact ih _ _
      · rw [List.map_cons, List.map_cons, ih, List.cons_append]

theorem names_of_clean (position : Nat) {known bytes : List UInt8} (clean : slash ∉ bytes)
    (nonempty : known.reverse ++ bytes ≠ []) :
    (namesFrom position known bytes).map Prod.snd = [Bytes.ofList (known.reverse ++ bytes)] := by
  induction bytes generalizing position known with
  | nil =>
    have some : known ≠ [] := by
      rintro rfl
      exact nonempty rfl
    rw [namesFrom, if_neg some, List.append_nil]
    rfl
  | cons byte rest ih =>
    rw [List.mem_cons, not_or] at clean
    have split : known.reverse ++ byte :: rest = (byte :: known).reverse ++ rest := by simp
    rw [namesFrom, if_pos (Ne.symm clean.1), split]
    exact ih _ clean.2 (split ▸ nonempty)

theorem beforeZero_of_clean {path : Bytes} (clean : ∀ byte ∈ path.list, byte ≠ 0) :
    path.beforeZero = path := by
  have all : path.list.takeWhile (· ≠ 0) = path.list := by
    rw [List.takeWhile_eq_self_iff]
    exact fun byte member => decide_eq_true (clean byte member)
  rw [Bytes.beforeZero, all, Bytes.ofList_list]

section
variable {directory name : Bytes} (nonempty : directory.list ≠ [])
include nonempty

theorem list_join : (join directory name).list =
    if directory.list.getLast? = some slash then directory.list ++ name.list
    else directory.list ++ slash :: name.list := by
  have size : directory.size = directory.list.length := rfl
  have positive : 0 < directory.list.length := List.length_pos_iff.2 nonempty
  have last : directory.get (directory.size - 1) = directory.list.getLast nonempty := by
    rw [Bytes.get_of_lt (by omega), List.getLast_eq_getElem]
    rfl
  have separator : Bytes.list ("/" : Bytes) = [slash] := by decide +kernel
  have same : directory.list.getLast? = some slash ↔ directory.list.getLast nonempty = slash := by
    rw [List.getLast?_eq_some_getLast nonempty, Option.some.injEq]
  rw [join, last]
  simp only [same]
  by_cases ends : directory.list.getLast nonempty = slash
  · rw [if_pos (.inr ends), if_pos ends, Bytes.list_append]
  · rw [if_neg (not_or.2 ⟨by omega, ends⟩), if_neg ends, Bytes.list_concat]
    simp only [List.flatMap_cons, List.flatMap_nil, separator, List.append_nil, List.cons_append,
      List.nil_append]

theorem size_join_le : (join directory name).size ≤ directory.size + 1 + name.size := by
  have size (bytes : Bytes) : bytes.size = bytes.list.length := rfl
  rw [size, size, size, list_join nonempty]
  split <;> rw [List.length_append]
  · omega
  · rw [List.length_cons]
    omega

theorem exists_list_join : ∃ front, (join directory name).list = front ++ slash :: name.list ∧
    (namesFrom 0 [] directory.list).map Prod.snd = (namesFrom 0 [] front).map Prod.snd ∧
    (front ++ slash :: name.list).head? = directory.list.head? ∧
    ∀ byte ∈ front, byte ∈ directory.list := by
  rw [list_join nonempty]
  split
  · next ends =>
    obtain ⟨front, same⟩ := List.getLast?_eq_some_iff.1 ends
    rw [same]
    refine ⟨front, List.append_assoc .., ?_, ?_, fun byte member => List.mem_append_left _ member⟩
    · rw [names_append_slash]
      exact List.append_nil _
    · cases front <;> rfl
  · refine ⟨directory.list, rfl, rfl, ?_, fun byte member => member⟩
    obtain ⟨first, rest, same⟩ := List.exists_cons_of_ne_nil nonempty
    rw [same]
    rfl

variable (clean : ∀ byte ∈ directory.list, byte ≠ 0) (isName : IsName name)
include clean isName

theorem beforeZero_join : (join directory name).beforeZero = join directory name := by
  obtain ⟨front, same, _, _, among⟩ := @exists_list_join directory name nonempty
  apply beforeZero_of_clean
  rw [same]
  intro byte member
  rcases List.mem_append.1 member with inFront | behind
  · exact clean byte (among byte inFront)
  · rcases List.mem_cons.1 behind with rfl | inName
    · decide
    · exact (isName.clean byte inName).2

theorem ofBytes_join : ofBytes (join directory name) =
    ⟨(ofBytes directory).absolute, (ofBytes directory).names ++ [name], false⟩ := by
  obtain ⟨front, same, names, head, _⟩ := @exists_list_join directory name nonempty
  have noSlash : slash ∉ name.list := fun member => (isName.clean slash member).1 rfl
  have last : (front ++ slash :: name.list).getLast? ≠ some slash := by
    rw [List.getLast?_append_of_ne_nil _ (List.cons_ne_nil _ _),
      List.getLast?_cons_of_ne_nil isName.nonempty]
    exact fun isLast => noSlash (List.mem_of_getLast? isLast)
  have split := names_append_slash 0 [] front name.list
  rw [names_of_clean _ noSlash (by simpa using isName.nonempty)] at split
  simp only [ofBytes, namesOf, beforeZero_join nonempty clean isName, beforeZero_of_clean clean, same,
    head, split, names, last, decide_false, List.reverse_nil, List.nil_append, Bytes.ofList_list]

end

theorem beforeZero_join_of_zero {directory name : Bytes} (zero : 0 ∈ directory.list) :
    (join directory name).beforeZero = directory.beforeZero := by
  have nonempty : directory.list ≠ [] := List.ne_nil_of_mem zero
  have stops {rest : List UInt8} :
      (directory.list ++ rest).takeWhile (· ≠ 0) = directory.list.takeWhile (· ≠ 0) := by
    rw [List.takeWhile_append, if_neg]
    intro whole
    have all := List.takeWhile_eq_self_iff.1 ((List.takeWhile_prefix _).eq_of_length whole)
    simpa using all 0 zero
  rw [Bytes.beforeZero, list_join nonempty, Bytes.beforeZero]
  split <;> rw [stops]

theorem join_injective (directory : Bytes) : Function.Injective (join directory) := by
  intro a b same
  unfold join at same
  split at same
  · exact (ByteArray.append_right_inj _).1 same
  · have inner := (ByteArray.append_right_inj _).1 same
    have behind := (ByteArray.append_right_inj _).1 inner
    simpa only [Bytes.concat, ByteArray.append_empty] using behind

end Path

namespace Tree

def asDirectory : Except Errno Node → Except Errno Nat
  | .ok (.directory number) => .ok number
  | .ok _ => .error .notDirectory
  | .error reason => .error reason

/-- Whether there is something at a path, as an undisturbed call tells it. -/
def exists? (tree : Tree) (path : Bytes) : Except Errno Bool :=
  match tree.look path with
  | .ok _ => .ok true
  | .error .noEntry | .error .notDirectory => .ok false
  | .error reason => .error reason

variable {tree : Tree} {directory name : Bytes}

theorem walk_append (number : Nat) (names : List Bytes) (name : Bytes) :
    tree.walk number (names ++ [name]) =
      (tree.walk number names).bind fun reached => asDirectory (tree.find reached name) := by
  induction names generalizing number with
  | nil =>
    rw [List.nil_append, walk, walk]
    simp only [Except.bind, asDirectory]
    cases tree.find number name with
    | error reason => rfl
    | ok node => cases node <;> rfl
  | cons first names ih =>
    rw [List.cons_append, walk, walk]
    cases tree.find number first with
    | error reason => rfl
    | ok node =>
      cases node with
      | directory next => exact ih next
      | file number => rfl
      | full => rfl

def origin (path : Path) : Nat := if path.absolute then root else home

/-- Following all names of a path leads to the directory that the path leads to. -/
theorem walk_names {path : Bytes} (nonempty : path.beforeZero.size ≠ 0)
    (short : path.beforeZero.size ≤ Path.maxPath) :
    tree.walk (origin (Path.ofBytes path)) (Path.ofBytes path).names = asDirectory (tree.look path) := by
  rw [look, locate]
  simp only [if_neg nonempty, if_neg (Nat.not_lt_of_le short)]
  change _ = asDirectory ((tree.walk (origin (Path.ofBytes path)) _).map _ >>= _)
  rcases List.eq_nil_or_concat (Path.ofBytes path).names with none | ⟨front, final, some⟩
  · rw [none]
    rfl
  · rw [some, List.concat_eq_append, walk_append, List.dropLast_concat, List.getLast?_append_of_ne_nil _
      (List.cons_ne_nil _ _)]
    cases tree.walk (origin (Path.ofBytes path)) front with
    | error reason => rfl
    | ok reached =>
      change asDirectory (tree.find reached final) = asDirectory (tree.find reached final >>= _)
      cases tree.find reached final with
      | error reason => rfl
      | ok node => cases node <;> cases (Path.ofBytes path).trailingSlash <;> rfl

section
variable (nonempty : directory.list ≠ []) (clean : ∀ byte ∈ directory.list, byte ≠ 0) (isName : IsName name)
include nonempty clean isName

/-- The place of a name in a directory, unless its path is too long. -/
theorem locate_join : tree.locate (Path.join directory name) =
    if Path.maxPath < (Path.join directory name).size then .error .nameTooLong
    else (asDirectory (tree.look directory)).map fun number => ⟨number, name, false⟩ := by
  have list := @Path.list_join directory name nonempty
  have size : (Path.join directory name).size = (Path.join directory name).list.length := rfl
  have longer : directory.list.length ≤ (Path.join directory name).size := by
    rw [size, list]
    split <;> rw [List.length_append] <;> omega
  have positive := List.length_pos_iff.2 nonempty
  have seen := Path.beforeZero_of_clean clean
  have whole : directory.size = directory.list.length := rfl
  rw [locate, Path.beforeZero_join nonempty clean isName, Path.ofBytes_join nonempty clean isName]
  rw [if_neg (by omega)]
  split
  · rfl
  · next short =>
    have walked := @walk_names tree directory (by rw [seen]; omega) (by rw [seen]; omega)
    rw [← walked, List.dropLast_concat, List.getLast?_append_of_ne_nil _ (List.cons_ne_nil _ _)]
    rfl

theorem exists?_join_of_missing (missing : tree.exists? directory = .ok false)
    (short : (Path.join directory name).size ≤ Path.maxPath) :
    tree.exists? (Path.join directory name) = .ok false := by
  rw [exists?, look, locate_join nonempty clean isName, if_neg (Nat.not_lt_of_le short)]
  rw [exists?] at missing
  cases looked : tree.look directory with
  | ok node =>
    rw [looked] at missing
    cases missing
  | error reason =>
    rw [looked] at missing
    exact missing

theorem place_of_filePlace_join {number : Nat} (there : tree.look directory = .ok (.directory number))
    {place : Place} {node : Option Node}
    (found : tree.filePlace (Path.join directory name) = .ok (place, node)) :
    place = ⟨number, name, false⟩ ∧ (Path.join directory name).size ≤ Path.maxPath := by
  have located := locate_of_filePlace found
  rw [locate_join nonempty clean isName, there] at located
  split at located
  · cases located
  · next short => exact ⟨(Except.ok.inj located).symm, Nat.le_of_not_lt short⟩

theorem filePlace_join_of_absent {number : Nat} (there : tree.look directory = .ok (.directory number))
    (absent : (tree.directory number).entries[name]? = none)
    (short : (Path.join directory name).size ≤ Path.maxPath) :
    tree.filePlace (Path.join directory name) = .ok (⟨number, name, false⟩, none) := by
  have noEntry : tree.find number name = .error .noEntry := by
    have notSelf : name ≠ Path.self := fun same => isName.notDots (.inl same)
    have notParent : name ≠ Path.parent := fun same => isName.notDots (.inr same)
    rw [find, if_neg notSelf, if_neg notParent, if_neg (Nat.not_lt_of_le isName.short), absent]
  have isFile : ¬ (⟨number, name, false⟩ : Place).IsDirectory :=
    not_or.2 ⟨Bool.false_ne_true, isName.notDots⟩
  rw [filePlace, locate_join nonempty clean isName, if_neg (Nat.not_lt_of_le short), there]
  simp only [asDirectory, Except.map, bind, Except.bind]
  rw [if_neg isFile, noEntry]
  rfl

end

/-- Only what stands in front of a zero byte is looked up. -/
theorem look_congr {path other : Bytes} (same : path.beforeZero = other.beforeZero) :
    tree.look path = tree.look other := by
  rw [look, look, locate, locate, Path.ofBytes, Path.ofBytes, same]

/-- No file can be made by a path that is cut off where its directory still stands. -/
theorem clean_of_filePlace_join {number : Nat} (there : tree.look directory = .ok (.directory number))
    {place : Place} (vacant : tree.filePlace (Path.join directory name) = .ok (place, none)) :
    ∀ byte ∈ directory.list, byte ≠ 0 := by
  rintro _ zero rfl
  have nowhere := look_of_filePlace vacant
  rw [look_congr (Path.beforeZero_join_of_zero zero), there] at nowhere
  cases nowhere

theorem exists?_of_filePlace {path : Bytes} {place : Place} {node : Option Node}
    (found : tree.filePlace path = .ok (place, node)) : tree.exists? path = .ok node.isSome := by
  rw [exists?, look_of_filePlace found]
  cases node <;> rfl

end Tree
end RegionStore.Disk
