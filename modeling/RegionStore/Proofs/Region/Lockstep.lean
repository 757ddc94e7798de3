import RegionStore.Proofs.Disk.Retries
import RegionStore.Proofs.Placement
import RegionStore.Proofs.Region.Requests

/-!
What is done with an open region does not depend on how often its file calls have to be made again. All
positions that records and tables are at lie far below the end of what can be addressed, so nothing else
can come of a call.
-/

set_option autoImplicit false

namespace RegionStore

open Disk

namespace FreeSpace

theorem count_of_allocate? {space next : FreeSpace} {count : UInt32} {allocation : Allocation}
    (found : space.allocate? count = some (allocation, next)) : allocation.extent.count = count := by
  unfold allocate? at found
  split at found
  · cases found
    rfl
  · split at found
    · cases found
    · cases found
      rfl

theorem lockstep_writeRecord (extent : Extent) {record : Bytes}
    (fits : sectorsOf record.size ≤ extent.count.toNat) (sync : Bool) :
    InStep Device.Alike (writeRecord extent record sync) :=
  (Device.lockstep_writeAt (extent.bounded_padded fits)).bind fun _ =>
    Device.lockstep_sync.ite (lockstep_pure ())

theorem lockstep_cut (size : Nat) :
    InStep Device.Alike (fun file => match Device.resize size file with
      | .ok _ file => .ok () file
      | .error failure file => Device.notify (.tailNotCut failure) file : OnDevice Unit) := by
  intro file file' alike
  have agree := Device.lockstep_resize size alike
  simp only
  generalize Device.resize size file = result, Device.resize size file' = result' at agree
  cases agree with
  | ok _ alike => exact .ok () alike
  | error failure alike => exact Device.lockstep_notify _ alike

theorem lockstep_rollBack (allocation : Allocation) :
    InStep (Beside Device.Alike) (rollBack allocation) := by
  unfold rollBack
  apply Lockstep.ite
  · exact (lockstep_modify_beside fun _ _ _ alike => ⟨rfl, alike⟩).bind fun _ => (lockstep_cut _).device
  · exact lockstep_modify_beside fun _ _ _ alike => ⟨rfl, alike⟩

theorem lockstep_placeAnew {record : Bytes} {count : UInt32} (enough : sectorsOf record.size ≤ count.toNat)
    (sync : Bool) : InStep (Beside Device.Alike) (placeAnew record count sync) := by
  unfold placeAnew
  apply Lockstep.get_beside
  intro space file file' alike
  simp only
  cases found : space.allocate? count with
  | none =>
    rw [alike.path]
    exact lockstep_throw _
  | some pair =>
    obtain ⟨allocation, next⟩ := pair
    rw [← count_of_allocate? found] at enough
    apply (lockstep_set ⟨rfl, alike⟩).bind
    intro _
    apply Lockstep.early _ lockstep_pure lockstep_pure
    apply Lockstep.tryCatch
    · exact (lockstep_writeRecord allocation.extent enough sync).device.bind fun _ => lockstep_pure _
    · intro failure
      exact (lockstep_rollBack allocation).bind fun _ =>
        (lockstep_throw failure).bind fun _ => lockstep_pure _

theorem lockstep_place (record : Bytes) (old : Option Extent) (sync : Bool) :
    InStep (Beside Device.Alike) (place record old sync) := by
  unfold place
  simp only
  by_cases large : maxExtentSectors < sectorsOf record.size
  · rw [if_pos large]
    exact lockstep_throw _
  · have anew : InStep (Beside Device.Alike) (placeAnew record (sectorsOf record.size).toUInt32 sync) :=
      lockstep_placeAnew (Nat.le_of_eq (toNat_toUInt32 (Nat.le_of_not_lt large)).symm) sync
    rw [if_neg large]
    cases old with
    | none => exact anew
    | some extent =>
      by_cases fits : sectorsOf record.size ≤ extent.count.toNat
      · simp only [if_pos fits]
        exact (lockstep_writeRecord extent fits sync).device.bind fun _ => lockstep_pure extent
      · simp only [if_neg fits]
        exact anew

end FreeSpace

namespace Region

theorem lockstep_prepare : InStep Device.Alike prepare := by
  unfold prepare
  apply Device.lockstep_measure.bind
  intro size
  apply Lockstep.get_bind
  intro file file' alike
  simp only [alike.path]
  have tables : InStep Device.Alike (Device.writeAt 0 (Bytes.zeros headerSize)) :=
    Device.lockstep_writeAt (by rw [Bytes.size_zeros]; decide)
  have created : InStep Device.Alike (do
      Device.writeAt 0 (Bytes.zeros headerSize)
      Device.sync
      Device.notify (.fileCreated file'.path)
      return headerSectors) :=
    tables.bind fun _ => Device.lockstep_sync.bind fun _ =>
      (Device.lockstep_notify _).bind fun _ => lockstep_pure _
  apply created.ite
  apply (lockstep_throw _).ite
  apply (lockstep_throw _).ite
  exact (lockstep_throw _).ite (lockstep_pure _)

theorem lockstep_readTables : InStep Device.Alike readTables := by
  apply (Device.lockstep_readAt (by decide)).bind
  intro header
  have unreadable : InStep Device.Alike (do
      throw (.headerUnreadable (← get).path) : OnDevice Tables) := by
    apply Lockstep.get_bind
    intro file file' alike
    rw [alike.path]
    exact lockstep_throw _
  exact unreadable.ite (lockstep_pure _)

theorem lockstep_load (position : RegionPos) (sync : Bool) : InStep Device.Alike (load position sync) := by
  apply lockstep_prepare.bind
  intro sectors
  apply lockstep_readTables.bind
  intro tables
  apply Lockstep.get_bind
  intro file file' alike
  simp only [alike.path]
  apply Lockstep.bind
  · exact Lockstep.forM (fun _ => Device.lockstep_notify _) _
  · intro _
    exact (Device.lockstep_notify _).bind fun _ => lockstep_pure _

theorem lockstep_ask {Result : Type} (question : Region → Except Failure Result) :
    InStep (Beside Device.Alike) (ask question) :=
  Lockstep.get_beside fun _ _ _ _ => lockstep_ofExcept _

theorem lockstep_loadChunk [Codec] (chunk : ChunkPos) : InStep (Beside Device.Alike) (loadChunk chunk) := by
  apply Lockstep.get_beside
  intro region _ _ _
  apply (lockstep_ofExcept _).bind
  intro slot
  simp only
  cases region.tables.extent? slot with
  | none => exact lockstep_pure none
  | some extent =>
    exact (Device.lockstep_readAt extent.position_add_size_le).device.bind fun data =>
      (lockstep_ofExcept _).map some

theorem lockstep_writeEntry (slot : Slot) (offset : UInt32) (timestamp : Int32) :
    InStep Device.Alike (writeEntry slot offset timestamp) := by
  have timestampBounded := timestampPosition_bounded slot
  have offsetBounded := offsetPosition_bounded slot
  apply (Device.lockstep_writeAt (Nat.le_trans timestampBounded (by decide))).bind
  intro _
  exact Device.lockstep_writeAt (Nat.le_trans offsetBounded (by decide))

theorem lockstep_setEntry (slot : Slot) (offset : UInt32) (timestamp : Int32) :
    InStep (Beside Device.Alike) (setEntry slot offset timestamp) :=
  lockstep_modify_beside fun _ _ _ alike => ⟨rfl, alike⟩

theorem lockstep_release (extent : Extent) : InStep (Beside Device.Alike) (release extent) :=
  lockstep_modify_beside fun _ _ _ alike => ⟨rfl, alike⟩

theorem lockstep_onSpace {Result : Type} {action : OnFile FreeSpace Result}
    (inStep : InStep (Beside Device.Alike) action) : InStep (Beside Device.Alike) (onSpace action) := by
  intro ⟨region, file⟩ ⟨region', file'⟩ ⟨same, alike⟩
  obtain rfl : region = region' := same
  have spaces : Beside Device.Alike (region.space, file) (region.space, file') := ⟨rfl, alike⟩
  have agree := inStep spaces
  simp only [onSpace]
  generalize action (region.space, file) = result, action (region.space, file') = result' at agree
  have regions {state state' : FreeSpace × Device} (states : Beside Device.Alike state state') :
      Beside Device.Alike ({ region with space := state.1 }, state.2)
        ({ region with space := state'.1 }, state'.2) :=
    ⟨congrArg (fun space => { region with space := space }) states.1, states.2⟩
  cases agree with
  | ok result states => exact .ok result (regions states)
  | error failure states => exact .error failure (regions states)

theorem lockstep_syncChange : InStep (Beside Device.Alike) syncChange :=
  Lockstep.get_beside fun _ _ _ _ => Device.lockstep_sync.device.ite (lockstep_pure ())

theorem lockstep_saveData (slot : Slot) (data : Bytes) :
    InStep (Beside Device.Alike) (saveData slot data) := by
  apply Lockstep.get_beside
  intro region _ _ _
  apply (lockstep_onSpace (FreeSpace.lockstep_place _ _ _)).bind
  intro new
  apply Lockstep.get_beside
  intro _ file file' alike
  simp only [alike.around.timestamp]
  apply Lockstep.bind
  · apply (lockstep_writeEntry _ _ _).device.tryCatch
    intro failure
    exact ((lockstep_release new).bind fun _ => lockstep_throw failure).ite (lockstep_throw failure)
  · intro _
    apply (lockstep_setEntry _ _ _).bind
    intro _
    cases region.tables.extent? slot with
    | none => exact lockstep_syncChange
    | some old =>
      exact ((lockstep_release old).bind fun _ => lockstep_syncChange).ite lockstep_syncChange

theorem lockstep_saveChunk [Codec] (chunk : ChunkPos) (payload : Bytes) (tag : UInt8) :
    InStep (Beside Device.Alike) (saveChunk chunk payload tag) :=
  Lockstep.get_beside fun _ _ _ _ => (lockstep_ofExcept _).bind fun slot =>
    (lockstep_ofExcept _).bind fun data => lockstep_saveData slot data

theorem lockstep_clearSlot (slot : Slot) : InStep (Beside Device.Alike) (clearSlot slot) := by
  apply Lockstep.get_beside
  intro region _ _ _
  simp only
  cases region.tables.extent? slot with
  | none => exact lockstep_pure _
  | some extent =>
    exact (lockstep_writeEntry slot 0 0).device.bind fun _ => (lockstep_setEntry slot 0 0).bind fun _ =>
      (lockstep_release extent).bind fun _ => lockstep_syncChange

theorem lockstep_deleteChunk (chunk : ChunkPos) : InStep (Beside Device.Alike) (deleteChunk chunk) :=
  Lockstep.get_beside fun _ _ _ _ => (lockstep_ofExcept _).bind fun slot => lockstep_clearSlot slot

theorem lockstep_flush : InStep (Beside Device.Alike) flush := Device.lockstep_sync.device

theorem lockstep_close : InStep (Beside Device.Alike) close := by
  have flushed : InStep (Beside Device.Alike) (do
      try flush
      catch failure =>
        let path := (← get).2.path
        OnFile.device (Device.notify (.fileNotFlushed path failure)) : OnRegion Unit) := by
    apply lockstep_flush.tryCatch
    intro failure
    apply Lockstep.get_beside
    intro region file file' alike
    simp only [alike.path]
    exact (Device.lockstep_notify _).device
  exact flushed.bind fun _ => Device.lockstep_close.device

end Region
end RegionStore
