import RegionStore.Bytes
import RegionStore.Disk.Device
import RegionStore.Failure
import RegionStore.FreeSpace

/-!
Placing records in a file. A record that fits where the last one was stays there, any other one gets
sectors of its own; if these cannot be written, the free space is put back as it was and appended
sectors are cut off again. The old place of a record that moves is not released here.
-/

set_option autoImplicit false

namespace RegionStore

open Disk

/-- The state of operations that need an open file and something about it. -/
abbrev OnFile (State : Type) := EStateM Failure (State × Device)

namespace OnFile

@[inline] def device {State Result : Type} (action : OnDevice Result) : OnFile State Result :=
  fun (state, file) =>
    match action file with
    | .ok result file => .ok result (state, file)
    | .error failure file => .error failure (state, file)

end OnFile

namespace FreeSpace

/-- Writes a record and zeros up to the end of its extent. -/
def writeRecord (extent : Extent) (record : Bytes) (sync : Bool) : OnDevice Unit := do
  Device.writeAt extent.position (record ++ Bytes.zeros (extent.size - record.size))
  if sync then Device.sync

def rollBack (allocation : Allocation) : OnFile FreeSpace Unit := do
  if allocation.appended then
    let first := allocation.extent.first
    modify fun (space, file) => ({ space with sectors := first }, file)
    OnFile.device fun file =>
      match Device.resize (first.toNat * sectorSize) file with
      | .ok _ file => .ok () file
      | .error failure file => Device.notify (.tailNotCut failure) file
  else modify fun (space, file) => (space.release allocation.extent, file)

def placeAnew (record : Bytes) (count : UInt32) (sync : Bool) : OnFile FreeSpace Extent := do
  let (space, file) ← get
  match space.allocate? count with
  | none => throw (.regionFull file.path space.sectors)
  | some (allocation, space) =>
    set (space, file)
    try
      OnFile.device (writeRecord allocation.extent record sync)
      return allocation.extent
    catch failure =>
      rollBack allocation
      throw failure

/-- Writes a record and tells where, in the old extent if there is one that is large enough. -/
def place (record : Bytes) (old : Option Extent) (sync : Bool) : OnFile FreeSpace Extent := do
  let count := sectorsOf record.size
  if maxExtentSectors < count then throw (.recordTooLarge count)
  match old with
  | some extent =>
    if count ≤ extent.count.toNat then
      OnFile.device (writeRecord extent record sync)
      return extent
    else placeAnew record count.toUInt32 sync
  | none => placeAnew record count.toUInt32 sync

end FreeSpace
end RegionStore
