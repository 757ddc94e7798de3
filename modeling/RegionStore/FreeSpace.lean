import RegionStore.Bytes
import RegionStore.Extent

/-!
Free sectors of a file. Free extents are kept twice, by position and by size; a claim takes sectors
out of them, a release puts sectors back and joins them with their neighbours, and an allocation takes
the front of the smallest extent that is large enough. All sums of sectors are 32-bit words.
-/

set_option autoImplicit false

namespace RegionStore

/-- Smaller extents come first, of equally large ones the one nearer to the start of the file. -/
def Extent.Smaller (a b : Extent) : Prop :=
  a.count < b.count ∨ a.count = b.count ∧ a.first < b.first

instance (a b : Extent) : Decidable (a.Smaller b) :=
  inferInstanceAs (Decidable (_ ∨ _))

structure FreeSpace where
  /-- The length of the file in sectors. -/
  sectors : UInt32
  /-- Ordered by the first sector, which no two of them share. -/
  byStart : List Extent
  /-- Ordered by `Extent.Smaller`. -/
  bySize : List Extent
  deriving DecidableEq, Repr

namespace FreeSpace

/-- An extent does not replace one that starts at the same sector. -/
def insertByStart (extent : Extent) : List Extent → List Extent
  | [] => [extent]
  | next :: rest =>
    if extent.first < next.first then extent :: next :: rest
    else if extent.first = next.first then next :: rest
    else next :: insertByStart extent rest

def insertBySize (extent : Extent) : List Extent → List Extent
  | [] => [extent]
  | next :: rest =>
    if extent.Smaller next then extent :: next :: rest
    else if extent = next then next :: rest
    else next :: insertBySize extent rest

def add (space : FreeSpace) (extent : Extent) : FreeSpace :=
  { space with
    byStart := insertByStart extent space.byStart
    bySize := insertBySize extent space.bySize }

def remove (space : FreeSpace) (extent : Extent) : FreeSpace :=
  { space with
    byStart := space.byStart.filter fun other => other.first ≠ extent.first
    bySize := space.bySize.filter fun other => other ≠ extent }

def ofSectors (sectors : UInt32) : FreeSpace :=
  let space : FreeSpace := ⟨sectors, [], []⟩
  if headerSectors < sectors then space.add ⟨headerSectors, sectors - headerSectors⟩ else space

/-- The extent that holds a given one, if the given one is free and inside the file. -/
def holder? (space : FreeSpace) (extent : Extent) : Option Extent :=
  if extent.first < headerSectors ∨ extent.count = 0 ∨ space.sectors < extent.stop then none
  else
    match (space.byStart.filter fun other => other.first ≤ extent.first).getLast? with
    | none => none
    | some other => if other.stop < extent.stop then none else some other

def claim? (space : FreeSpace) (extent : Extent) : Option FreeSpace :=
  (space.holder? extent).map fun other =>
    let space := space.remove other
    let space :=
      if other.first < extent.first then space.add ⟨other.first, extent.first - other.first⟩
      else space
    if extent.stop < other.stop then space.add ⟨extent.stop, other.stop - extent.stop⟩ else space

/-- Makes an occupied extent free and joins it with the free extents on both sides. -/
def release (space : FreeSpace) (extent : Extent) : FreeSpace :=
  if extent.count = 0 then space
  else
    let (space, joined) :=
      match space.byStart.find? fun other => other.first = extent.stop with
      | some next => (space.remove next, { extent with count := extent.count + next.count })
      | none => (space, extent)
    let (space, joined) :=
      match (space.byStart.filter fun other => other.first < extent.first).getLast? with
      | some previous =>
        if previous.stop = extent.first then
          (space.remove previous, Extent.mk previous.first (joined.count + previous.count))
        else (space, joined)
      | none => (space, joined)
    space.add joined

/-- Sectors that were chosen for a record. Appended ones lie behind the former end of the file. -/
structure Allocation where
  extent : Extent
  appended : Bool
  deriving DecidableEq, Repr

/-- Nothing if sectors would have to be appended where no table word can point. -/
def allocate? (space : FreeSpace) (count : UInt32) : Option (Allocation × FreeSpace) :=
  match space.bySize.find? fun extent => count ≤ extent.count with
  | some extent =>
    let space := space.remove extent
    let space :=
      if count < extent.count then space.add ⟨extent.first + count, extent.count - count⟩ else space
    some (⟨⟨extent.first, count⟩, false⟩, space)
  | none =>
    if maxSectorIndex < space.sectors.toNat then none
    else
      some (⟨⟨space.sectors, count⟩, true⟩, { space with sectors := space.sectors + count })

def total (space : FreeSpace) : UInt32 :=
  space.byStart.foldl (fun sum extent => sum + extent.count) 0

end FreeSpace
end RegionStore
