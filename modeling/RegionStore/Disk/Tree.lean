import Std.Data.TreeMap
import RegionStore.Bytes
import RegionStore.Bytes.Order
import RegionStore.Disk.Path
import RegionStore.Disk.Schedule
import RegionStore.Errno

/-!
The tree of directories and files. A directory has a number, knows the directory above and holds other
nodes by their names. `locate` follows a path up to its last name; looking up, opening, making and
removing differ in what they do with that name. Directories are made by calls that take their turns.
-/

set_option autoImplicit false

namespace RegionStore.Disk

inductive Node where
  | directory (number : Nat)
  | file (number : Nat)
  /-- A device that takes no data. -/
  | full
  deriving DecidableEq, Repr

structure Directory where
  /-- The number of the directory above; the root has itself there. -/
  parent : Nat
  entries : Std.TreeMap Bytes Node Bytes.compare

structure Tree where
  directories : Array Directory

namespace Tree

def root : Nat := 0

/-- Where paths start that do not start at the root. -/
def home : Nat := 1

def initial : Tree :=
  ⟨#[⟨root, (∅ : Std.TreeMap Bytes Node Bytes.compare).insert "home" (.directory home)⟩, ⟨root, ∅⟩]⟩

def directory (tree : Tree) (number : Nat) : Directory := tree.directories.getD number ⟨root, ∅⟩

def setEntries (tree : Tree) (number : Nat)
    (update : Std.TreeMap Bytes Node Bytes.compare → Std.TreeMap Bytes Node Bytes.compare) : Tree :=
  ⟨tree.directories.modify number fun directory =>
    { directory with entries := update directory.entries }⟩

def find (tree : Tree) (number : Nat) (name : Bytes) : Except Errno Node :=
  if name = Path.self then .ok (.directory number)
  else if name = Path.parent then .ok (.directory (tree.directory number).parent)
  else if Path.maxName < name.size then .error .nameTooLong
  else
    match (tree.directory number).entries[name]? with
    | some node => .ok node
    | none => .error .noEntry

def walk (tree : Tree) (number : Nat) : List Bytes → Except Errno Nat
  | [] => .ok number
  | name :: names =>
    match tree.find number name with
    | .ok (.directory next) => walk tree next names
    | .ok _ => .error .notDirectory
    | .error reason => .error reason

/-- A name in a directory, by which there may be something or not. -/
structure Place where
  directory : Nat
  name : Bytes
  /-- Whether the path asked for a directory by a slash at its end. -/
  trailingSlash : Bool

namespace Place

def IsDirectory (place : Place) : Prop := place.trailingSlash = true ∨ Path.IsDots place.name

instance (place : Place) : Decidable place.IsDirectory := inferInstanceAs (Decidable (_ ∨ _))

end Place

/-- The place that a path leads to. Everything in front of the last name has to be there. -/
def locate (tree : Tree) (bytes : Bytes) : Except Errno Place :=
  let path := Path.ofBytes bytes
  if bytes.beforeZero.size = 0 then .error .noEntry
  else if Path.maxPath < bytes.beforeZero.size then .error .nameTooLong
  else
    (tree.walk (if path.absolute then root else home) path.names.dropLast).map fun number =>
      ⟨number, path.names.getLast?.getD Path.self, path.trailingSlash⟩

/-- What a path leads to. A slash at its end asks for a directory. -/
def look (tree : Tree) (path : Bytes) : Except Errno Node := do
  let place ← tree.locate path
  match ← tree.find place.directory place.name with
  | .directory number => .ok (.directory number)
  | node => if place.trailingSlash then .error .notDirectory else .ok node

def filePlace (tree : Tree) (path : Bytes) : Except Errno (Place × Option Node) := do
  let place ← tree.locate path
  if place.IsDirectory then .error .isDirectory
  else
    match tree.find place.directory place.name with
    | .ok (.directory _) => .error .isDirectory
    | .ok node => .ok (place, some node)
    | .error .noEntry => .ok (place, none)
    | .error reason => .error reason

def put (tree : Tree) (place : Place) (node : Node) : Tree :=
  tree.setEntries place.directory fun entries => entries.insert place.name node

def putDirectory (tree : Tree) (place : Place) : Tree :=
  let number := tree.directories.size
  Tree.put ⟨tree.directories.push ⟨place.directory, ∅⟩⟩ place (.directory number)

/-- Makes a directory in one that exists; one that is there already is no failure. -/
def makeDirectory (tree : Tree) (path : Bytes) : Except Errno (Bool × Tree) := do
  let place ← tree.locate path
  match tree.find place.directory place.name with
  | .ok (.directory _) => .ok (false, tree)
  | .ok _ => .error .alreadyExists
  | .error .noEntry => .ok (true, tree.putDirectory place)
  | .error reason => .error reason

def maxMissing : Nat := 1000

end Tree

/-- Calls that take their turns in a tree, and fail with the reason of the operating system. -/
abbrev OnTree := EStateM Errno (Tree × Schedule)

namespace OnTree

def attempt (call : FileCall) : OnTree Unit := fun (tree, schedule) =>
  let (turn, ahead) := (schedule.turns call).next
  match turn.refusal? with
  | some reason => .error reason (tree, schedule.setTurns call ahead)
  | none => .ok () (tree, schedule.setTurns call ahead)

/-- What a path leads to. A missing name on the way is an answer, not a failure. -/
def examine (path : Bytes) : OnTree (Option Node) := do
  try
    attempt .examining
    some <$> MonadExcept.ofExcept ((← get).1.look path)
  catch
    | .noEntry | .notDirectory => pure none
    | reason => throw reason

def makeDirectory (path : Bytes) : OnTree Bool := do
  attempt .making
  let (tree, schedule) ← get
  let (created, tree) ← MonadExcept.ofExcept (tree.makeDirectory path)
  set (tree, schedule)
  return created

/-- The beginnings of a path that are directories to be made, the outermost first: as far up as nothing
is there. The names come last first, each with the position where it ends. -/
def missingPaths (path : Bytes) : List (Nat × Bytes) → (missing : List Bytes) → OnTree (List Bytes)
  | [], missing => return missing
  | (stop, name) :: above, missing => do
    let missing := if Path.IsDots name then missing else path.extract 0 stop :: missing
    if Tree.maxMissing < missing.length then throw .nameTooLong
    else
      match above with
      | [] => return missing
      | (stop, name) :: above =>
        match ← examine (path.extract 0 stop) with
        | some (.directory _) => return missing
        | some _ => throw .notDirectory
        | none => missingPaths path ((stop, name) :: above) missing

def makeEach : List Bytes → (created : Bool) → OnTree Bool
  | [], created => return created
  | path :: paths, _ => do makeEach paths (← makeDirectory path)

/-- Makes a directory and those above it, and tells whether it is new. Directories that were made before
a failure stay. -/
def makeDirectories (path : Bytes) : OnTree Bool := do
  if path.size = 0 then throw .invalid
  else
    match ← examine path with
    | some (.directory _) => return false
    | some _ => throw .notDirectory
    | none => makeEach (← missingPaths path (Path.namesOf path).reverse []) false

end OnTree

namespace Tree

/-- Whether what a node stands for may be taken away by the path of a place. A directory has to be
empty. -/
def Removable (tree : Tree) (place : Place) : Node → Prop
  | .directory number => (tree.directory number).entries.isEmpty = true ∧ ¬ Path.IsDots place.name
  | _ => place.trailingSlash = false

instance (tree : Tree) (place : Place) (node : Node) : Decidable (tree.Removable place node) :=
  match node with
  | .directory _ => inferInstanceAs (Decidable (_ ∧ _))
  | .file _ | .full => inferInstanceAs (Decidable (_ = _))

def remove (tree : Tree) (path : Bytes) : Bool × Tree :=
  match tree.locate path with
  | .error _ => (false, tree)
  | .ok place =>
    match tree.find place.directory place.name with
    | .error _ => (false, tree)
    | .ok node =>
      if tree.Removable place node then
        (true, tree.setEntries place.directory fun entries => entries.erase place.name)
      else (false, tree)

/-- Everything below a directory, by path. No directory is deeper than there are directories. -/
def below (tree : Tree) : (depth number : Nat) → (path : Bytes) → List (Bytes × Node)
  | 0, _, _ => []
  | depth + 1, number, path =>
    (tree.directory number).entries.toList.flatMap fun (name, node) =>
      let path := Path.join path name
      match node with
      | .directory next => (path, node) :: below tree depth next path
      | _ => [(path, node)]

def listing (tree : Tree) : List (Bytes × Node) :=
  (tree.below tree.directories.size home ByteArray.empty).mergeSort fun a b =>
    Bytes.compare a.1 b.1 ≠ .gt

end Tree
end RegionStore.Disk
