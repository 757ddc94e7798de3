import RegionStore.Disk.Tree

/-!
Directories stay within the tree, and a name that is put into a directory is found there, while every
path that could be followed before still leads to the same place.
-/

set_option autoImplicit false

namespace RegionStore.Disk.Tree

/-- Every directory that another one names exists. -/
structure Sound (tree : Tree) : Prop where
  start : home < tree.directories.size
  parents : ∀ number, (tree.directory number).parent < tree.directories.size
  children : ∀ (number : Nat) (name : Bytes) (next : Nat),
    (tree.directory number).entries[name]? = some (Node.directory next) →
      next < tree.directories.size

theorem directory_of_le {tree : Tree} {number : Nat} (outside : tree.directories.size ≤ number) :
    tree.directory number = ⟨root, ∅⟩ := by
  rw [directory, Array.getD_eq_getD_getElem?, Array.getElem?_eq_none outside]
  rfl

theorem directory_initial (number : Nat) : Tree.initial.directory number =
    if number = root then
      ⟨root, (∅ : Std.TreeMap Bytes Node Bytes.compare).insert "home" (.directory home)⟩
    else ⟨root, ∅⟩ := by
  match number with
  | 0 => rfl
  | 1 => rfl
  | number + 2 => exact directory_of_le (show 2 ≤ number + 2 by omega)

theorem sound_initial : Sound Tree.initial := by
  refine ⟨by decide, fun number => ?_, fun number name next found => ?_⟩
  · rw [directory_initial]
    split <;> exact Nat.zero_lt_two
  · rw [directory_initial] at found
    split at found
    · rw [Std.TreeMap.getElem?_insert, Std.TreeMap.getElem?_emptyc] at found
      split at found
      · cases found
        exact Nat.one_lt_two
      · cases found
    · rw [Std.TreeMap.getElem?_emptyc] at found
      cases found

section
variable {tree : Tree}

theorem directory_put (tree : Tree) (place : Place) (node : Node) (number : Nat) :
    (tree.put place node).directory number =
      if number = place.directory ∧ number < tree.directories.size then
        { tree.directory number with
          entries := (tree.directory number).entries.insert place.name node }
      else tree.directory number := by
  simp only [put, setEntries, directory, Array.getD_eq_getD_getElem?, Array.getElem?_modify]
  by_cases inside : number < tree.directories.size
  · rw [Array.getElem?_eq_getElem inside]
    by_cases here : place.directory = number
    · rw [if_pos here, if_pos ⟨here.symm, inside⟩]
      rfl
    · have elsewhere : ¬ (number = place.directory ∧ number < tree.directories.size) :=
        fun both => here both.1.symm
      rw [if_neg here, if_neg elsewhere]
  · have outside : ¬ (number = place.directory ∧ number < tree.directories.size) :=
      fun both => inside both.2
    rw [Array.getElem?_eq_none (Nat.le_of_not_lt inside), if_neg outside]
    split <;> rfl

theorem size_put (tree : Tree) (place : Place) (node : Node) :
    (tree.put place node).directories.size = tree.directories.size := Array.size_modify

theorem parent_put (tree : Tree) (place : Place) (node : Node) (number : Nat) :
    ((tree.put place node).directory number).parent = (tree.directory number).parent := by
  rw [directory_put]
  split <;> rfl

theorem entries_put (place : Place) (inside : place.directory < tree.directories.size) (node : Node)
    (number : Nat) (name : Bytes) : ((tree.put place node).directory number).entries[name]? =
      if number = place.directory ∧ name = place.name then some node
      else (tree.directory number).entries[name]? := by
  rw [directory_put]
  by_cases here : number = place.directory
  · have same : Bytes.compare place.name name = .eq ↔ name = place.name := by
      rw [Std.LawfulEqCmp.compare_eq_iff_eq, eq_comm]
    rw [if_pos ⟨here, here ▸ inside⟩]
    simp only [Std.TreeMap.getElem?_insert, same, here, true_and]
  · have elsewhere : ¬ (number = place.directory ∧ number < tree.directories.size) :=
      fun both => here both.1
    have different : ¬ (number = place.directory ∧ name = place.name) := fun both => here both.1
    rw [if_neg elsewhere, if_neg different]

theorem Sound.of_find (sound : tree.Sound) {number next : Nat} (inside : number < tree.directories.size)
    {name : Bytes} (found : tree.find number name = .ok (.directory next)) :
    next < tree.directories.size := by
  unfold find at found
  split at found
  · cases found
    exact inside
  split at found
  · cases found
    exact sound.parents number
  split at found
  · cases found
  split at found
  · next node entry =>
    cases found
    exact sound.children number name next entry
  · cases found

theorem Sound.of_walk (sound : tree.Sound) {number reached : Nat}
    (inside : number < tree.directories.size) {names : List Bytes}
    (walked : tree.walk number names = .ok reached) : reached < tree.directories.size := by
  induction names generalizing number with
  | nil =>
    cases walked
    exact inside
  | cons name names ih =>
    rw [walk] at walked
    split at walked
    · next next found => exact ih (sound.of_find inside found) walked
    · cases walked
    · cases walked

theorem Sound.of_locate (sound : tree.Sound) {path : Bytes} {place : Place}
    (located : tree.locate path = .ok place) : place.directory < tree.directories.size := by
  unfold locate at located
  simp only at located
  split at located
  · cases located
  split at located
  · cases located
  generalize start : (if (Path.ofBytes path).absolute = true then root else home) = number at located
  have inside : number < tree.directories.size := by
    have bounded := sound.start
    rw [home] at bounded
    rw [← start]
    split
    · rw [root]
      omega
    · rw [home]
      omega
  cases walked : tree.walk number (Path.ofBytes path).names.dropLast with
  | error reason =>
    rw [walked] at located
    cases located
  | ok reached =>
    rw [walked] at located
    cases located
    exact sound.of_walk inside walked

end

theorem Sound.of_look {tree : Tree} (sound : tree.Sound) {path : Bytes} {number : Nat}
    (there : tree.look path = .ok (.directory number)) : number < tree.directories.size := by
  unfold look at there
  cases located : tree.locate path with
  | error reason =>
    rw [located] at there
    cases there
  | ok place =>
    rw [located] at there
    simp only [bind, Except.bind] at there
    split at there
    · cases there
    · next found =>
      split at there
      · cases there
        exact sound.of_find (sound.of_locate located) found
      · split at there
        · cases there
        · cases there
          exact sound.of_find (sound.of_locate located) found

theorem size_ne_zero_of_look {tree : Tree} {path : Bytes} {node : Node} (there : tree.look path = .ok node) :
    path.size ≠ 0 := by
  intro empty
  obtain rfl : path = ByteArray.empty := ByteArray.size_eq_zero_iff.1 empty
  cases there

theorem locate_of_filePlace {tree : Tree} {path : Bytes} {place : Place} {node : Option Node}
    (found : tree.filePlace path = .ok (place, node)) : tree.locate path = .ok place := by
  unfold filePlace at found
  cases located : tree.locate path with
  | error reason =>
    rw [located] at found
    cases found
  | ok reached =>
    rw [located] at found
    simp only [bind, Except.bind] at found
    repeat' split at found
    all_goals first | cases found; rfl | cases found

section
variable {tree : Tree} {place : Place} (inside : place.directory < tree.directories.size)
  (fresh : tree.find place.directory place.name = .error .noEntry) (node : Node)
include inside fresh

theorem find_put (number : Nat) (name : Bytes) : (tree.put place node).find number name =
    if number = place.directory ∧ name = place.name then .ok node else tree.find number name := by
  have notDots : place.name ≠ Path.self ∧ place.name ≠ Path.parent ∧ ¬ Path.maxName < place.name.size := by
    unfold find at fresh
    split at fresh
    · cases fresh
    split at fresh
    · cases fresh
    split at fresh
    · cases fresh
    · next notSelf notParent short => exact ⟨notSelf, notParent, short⟩
  obtain ⟨notSelf, notParent, short⟩ := notDots
  unfold find
  rw [parent_put, entries_put place inside]
  by_cases here : number = place.directory ∧ name = place.name
  · rw [if_pos here, if_pos here, here.2, if_neg notSelf, if_neg notParent, if_neg short]
  · rw [if_neg here, if_neg here]

theorem walk_put {number reached : Nat} {names : List Bytes}
    (walked : tree.walk number names = .ok reached) :
    (tree.put place node).walk number names = .ok reached := by
  induction names generalizing number with
  | nil => exact walked
  | cons name names ih =>
    rw [walk] at walked ⊢
    split at walked
    · next next found =>
      have different : ¬ (number = place.directory ∧ name = place.name) := by
        rintro ⟨rfl, rfl⟩
        cases fresh.symm.trans found
      rw [find_put inside fresh, if_neg different, found]
      exact ih walked
    · cases walked
    · cases walked

theorem locate_put {path : Bytes} {reached : Place} (located : tree.locate path = .ok reached) :
    (tree.put place node).locate path = .ok reached := by
  unfold locate at located ⊢
  simp only at located ⊢
  split at located
  · cases located
  split at located
  · cases located
  · next nonempty short =>
    rw [if_neg nonempty, if_neg short]
    generalize (if (Path.ofBytes path).absolute = true then root else home) = number at located ⊢
    cases walked : tree.walk number (Path.ofBytes path).names.dropLast with
    | error reason =>
      rw [walked] at located
      cases located
    | ok reached =>
      rw [walked] at located
      rw [walk_put inside fresh node walked]
      exact located

theorem look_put {path : Bytes} {found : Node} (there : tree.look path = .ok found) :
    (tree.put place node).look path = .ok found := by
  unfold look at there ⊢
  cases located : tree.locate path with
  | error reason =>
    rw [located] at there
    cases there
  | ok reached =>
    rw [located] at there
    rw [locate_put inside fresh node located]
    simp only [bind, Except.bind] at there ⊢
    have different : ¬ (reached.directory = place.directory ∧ reached.name = place.name) := by
      rintro ⟨sameDirectory, sameName⟩
      rw [sameDirectory, sameName, fresh] at there
      cases there
    rwa [find_put inside fresh, if_neg different]

theorem filePlace_put_of_ne {path : Bytes} {reached : Place} {there : Option Node}
    (found : tree.filePlace path = .ok (reached, there))
    (different : ¬ (reached.directory = place.directory ∧ reached.name = place.name)) :
    (tree.put place node).filePlace path = .ok (reached, there) := by
  have located := locate_of_filePlace found
  unfold filePlace at found ⊢
  rw [located] at found
  rw [locate_put inside fresh node located]
  simp only [bind, Except.bind] at found ⊢
  rwa [find_put inside fresh, if_neg different]

end

theorem find_of_vacant {tree : Tree} {path : Bytes} {place : Place}
    (vacant : tree.filePlace path = .ok (place, none)) :
    ¬ place.IsDirectory ∧ tree.find place.directory place.name = .error .noEntry := by
  have located := locate_of_filePlace vacant
  unfold filePlace at vacant
  rw [located] at vacant
  simp only [bind, Except.bind] at vacant
  split at vacant
  · cases vacant
  · next isFile =>
    refine ⟨isFile, ?_⟩
    split at vacant
    · cases vacant
    · cases vacant
    · next absent => exact absent
    · cases vacant

theorem filePlace_put {tree : Tree} {path : Bytes} {place : Place}
    (inside : place.directory < tree.directories.size)
    (vacant : tree.filePlace path = .ok (place, none)) (number : Nat) :
    (tree.put place (.file number)).filePlace path = .ok (place, some (.file number)) := by
  obtain ⟨isFile, fresh⟩ := find_of_vacant vacant
  unfold filePlace
  rw [locate_put inside fresh _ (locate_of_filePlace vacant)]
  simp only [bind, Except.bind]
  rw [if_neg isFile, find_put inside fresh, if_pos ⟨rfl, rfl⟩]

theorem look_of_filePlace {tree : Tree} {path : Bytes} {place : Place} {node : Option Node}
    (found : tree.filePlace path = .ok (place, node)) :
    tree.look path = match node with
      | some node => .ok node
      | none => .error .noEntry := by
  have located := locate_of_filePlace found
  unfold filePlace at found
  unfold look
  rw [located] at found ⊢
  simp only [bind, Except.bind] at found ⊢
  split at found
  · cases found
  · next isFile =>
    have noSlash : ¬ place.trailingSlash = true := fun slash => isFile (.inl slash)
    cases there : tree.find place.directory place.name with
    | error reason =>
      rw [there] at found
      simp only at found ⊢
      split at found
      · next absent => cases absent
      · next absent => cases absent
      · next absent =>
        cases absent
        cases found
        rfl
      · cases found
    | ok reached =>
      rw [there] at found
      cases reached with
      | directory number => cases found
      | file number =>
        cases found
        simp only [if_neg noSlash]
      | full =>
        cases found
        simp only [if_neg noSlash]

section
variable {tree : Tree} {place : Place}

theorem directory_push (tree : Tree) (added : Directory) (number : Nat) :
    Tree.directory ⟨tree.directories.push added⟩ number =
      if number = tree.directories.size then added else tree.directory number := by
  simp only [directory, Array.getD_eq_getD_getElem?, Array.getElem?_push]
  split <;> rfl

theorem Sound.putDirectory (sound : tree.Sound) (inside : place.directory < tree.directories.size) :
    (tree.putDirectory place).Sound := by
  have size : (tree.putDirectory place).directories.size = tree.directories.size + 1 := by
    rw [Tree.putDirectory, size_put, Array.size_push]
  have insidePushed : place.directory <
      (Tree.mk (tree.directories.push ⟨place.directory, ∅⟩)).directories.size := by
    rw [Array.size_push]
    omega
  refine ⟨?_, fun number => ?_, fun number name next found => ?_⟩
  · rw [size]
    exact Nat.lt_succ_of_lt sound.start
  · rw [size, Tree.putDirectory, parent_put, directory_push]
    split
    · exact Nat.lt_succ_of_lt inside
    · exact Nat.lt_succ_of_lt (sound.parents number)
  · rw [Tree.putDirectory, entries_put place insidePushed] at found
    rw [size]
    split at found
    · cases found
      exact Nat.lt_succ_self _
    · rw [directory_push] at found
      split at found
      · rw [Std.TreeMap.getElem?_emptyc] at found
        cases found
      · exact Nat.lt_succ_of_lt (sound.children number name next found)

theorem Sound.makeDirectory (sound : tree.Sound) {path : Bytes} {created : Bool} {made : Tree}
    (makes : tree.makeDirectory path = .ok (created, made)) : made.Sound := by
  unfold Tree.makeDirectory at makes
  cases located : tree.locate path with
  | error reason =>
    rw [located] at makes
    cases makes
  | ok place =>
    rw [located] at makes
    simp only [bind, Except.bind] at makes
    split at makes
    · cases makes
      exact sound
    · cases makes
    · cases makes
      exact sound.putDirectory (sound.of_locate located)
    · cases makes

end

end RegionStore.Disk.Tree
