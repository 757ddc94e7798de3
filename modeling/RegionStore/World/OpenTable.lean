import RegionStore.Coordinates

/-!
The table of open regions. It finds a region by its position, and it is gone through in a fixed order:
positions are spread over buckets, positions of one bucket stay together with the newest first, and a
bucket that was empty comes before all others. The table grows when it would hold more regions than
buckets, and then all regions are put in anew.
-/

set_option autoImplicit false

namespace RegionStore.World

structure OpenTable where
  buckets : Nat
  entries : List (RegionPos × Nat)

namespace OpenTable

def bucketCounts : List Nat :=
  [13, 29, 59, 127, 257, 541, 1109, 2357, 5087, 10273, 20753, 42043, 85229]

def empty : OpenTable := ⟨13, []⟩

def bucket (buckets : Nat) (position : RegionPos) : UInt64 :=
  (position.x.toUInt32.toUInt64 + position.z.toUInt32.toUInt64 * 4294967296) % buckets.toUInt64

def put (buckets : Nat) (entry : RegionPos × Nat) (entries : List (RegionPos × Nat)) :
    List (RegionPos × Nat) :=
  let own := bucket buckets entry.1
  let foreign := fun (other : RegionPos × Nat) => bucket buckets other.1 ≠ own
  match entries.dropWhile fun other => foreign other with
  | [] => entry :: entries
  | rest => entries.takeWhile (fun other => foreign other) ++ entry :: rest

def grow (table : OpenTable) : OpenTable :=
  if table.entries.length < table.buckets then table
  else
    match bucketCounts.find? fun count => table.entries.length < count with
    | some buckets =>
      ⟨buckets, table.entries.foldl (fun entries entry => put buckets entry entries) []⟩
    | none => table

def find? (table : OpenTable) (position : RegionPos) : Option Nat := table.entries.lookup position

def insert (table : OpenTable) (position : RegionPos) (number : Nat) : OpenTable :=
  let table := table.grow
  { table with entries := put table.buckets (position, number) table.entries }

def erase (table : OpenTable) (position : RegionPos) : OpenTable :=
  { table with entries := table.entries.filter fun entry => entry.1 ≠ position }

/-- A table that was emptied keeps its buckets. -/
def clear (table : OpenTable) : OpenTable := { table with entries := [] }

end OpenTable
end RegionStore.World
