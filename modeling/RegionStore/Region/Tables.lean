import RegionStore.Bytes
import RegionStore.Coordinates
import RegionStore.Extent
import RegionStore.FreeSpace
import RegionStore.Notice

/-!
The two tables at the start of a region file: where each chunk lies, and when it was last written. A
table of a file is examined slot by slot, and an entry is kept only if its sectors can be claimed.
-/

set_option autoImplicit false

namespace RegionStore

structure Tables where
  offsets : Vector UInt32 slotCount
  timestamps : Vector Int32 slotCount
  deriving DecidableEq

namespace Tables

def empty : Tables := ⟨Vector.replicate slotCount 0, Vector.replicate slotCount 0⟩

def offsetPosition (slot : Slot) : Nat := slot.val * 4

def timestampPosition (slot : Slot) : Nat := sectorSize + slot.val * 4

def ofHeader (header : Bytes) : Tables :=
  ⟨Vector.ofFn fun slot => header.toWord (offsetPosition slot),
    Vector.ofFn fun slot => (header.toWord (timestampPosition slot)).toInt32⟩

def set (tables : Tables) (slot : Slot) (offset : UInt32) (timestamp : Int32) : Tables :=
  ⟨tables.offsets.set slot offset, tables.timestamps.set slot timestamp⟩

def clear (tables : Tables) (slot : Slot) : Tables := tables.set slot 0 0

def extent? (tables : Tables) (slot : Slot) : Option Extent :=
  if tables.offsets[slot] = 0 then none else some (Extent.ofWord tables.offsets[slot])

def timestamp? (tables : Tables) (slot : Slot) : Option Int32 :=
  if tables.offsets[slot] = 0 then none else some tables.timestamps[slot]

def count (tables : Tables) : Nat := tables.offsets.toList.countP (· ≠ 0)

/-- Claims the sectors of an entry, or tells why it cannot be used. -/
def examine (space : FreeSpace) (extent : Extent) : Except EntryProblem FreeSpace :=
  if extent.first < headerSectors then .error .overlapsHeader
  else if extent.count = 0 then .error .noSectors
  else if space.sectors < extent.stop then .error .pastEnd
  else match space.claim? extent with
    | some space => .ok space
    | none => .error .overlapsChunk

structure Dropped where
  slot : Slot
  extent : Extent
  problem : EntryProblem
  deriving DecidableEq

/-- The entries that are kept, the sectors that stay free and the entries dropped so far. -/
structure Survey where
  tables : Tables
  space : FreeSpace
  dropped : List Dropped
  deriving DecidableEq

def Survey.step (survey : Survey) (slot : Slot) : Survey :=
  match survey.tables.extent? slot with
  | none => survey
  | some extent =>
    match examine survey.space extent with
    | .ok space => { survey with space := space }
    | .error problem =>
      { survey with
        tables := survey.tables.clear slot
        dropped := survey.dropped ++ [⟨slot, extent, problem⟩] }

def survey (tables : Tables) (sectors : UInt32) : Survey :=
  (List.finRange slotCount).foldl Survey.step ⟨tables, FreeSpace.ofSectors sectors, []⟩

end Tables
end RegionStore
