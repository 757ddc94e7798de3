import RegionStore.Proofs.Region.Changes

/-!
What no action on an open region changes, however it ends: which region it is.
-/

set_option autoImplicit false

namespace RegionStore.Region

open Disk

/-- The region stays the one at its position. -/
def Steady {Result : Type} (action : OnRegion Result) : Prop :=
  ∀ state : Region × Device, Ends action state (fun _ next => next.1.position = state.1.position)
    fun _ next => next.1.position = state.1.position

section
variable {Result Other : Type}

theorem steady_pure (result : Result) : Steady (pure result) := fun _ => rfl

theorem steady_throw (failure : Failure) : Steady (throw failure : OnRegion Result) := fun _ => rfl

theorem steady_get : Steady (get : OnRegion (Region × Device)) := fun _ => rfl

theorem steady_ofExcept (value : Except Failure Result) :
    Steady (MonadExcept.ofExcept value : OnRegion Result) := by
  cases value with
  | ok result => exact steady_pure result
  | error failure => exact steady_throw failure

theorem Steady.bind {action : OnRegion Result} {rest : Result → OnRegion Other} (first : Steady action)
    (second : ∀ result, Steady (rest result)) : Steady (action >>= rest) := by
  intro state
  rw [ends_bind]
  refine Ends.mono (first state) ?_ fun _ _ => id
  intro result next same
  rw [← same]
  exact second result next

theorem Steady.map {action : OnRegion Result} (steady : Steady action) (form : Result → Other) :
    Steady (form <$> action) := by
  intro state
  rw [ends_map]
  exact steady state

theorem Steady.tryCatch {action : OnRegion Result} {handle : Failure → OnRegion Result}
    (first : Steady action) (second : ∀ failure, Steady (handle failure)) :
    Steady (tryCatch action handle) := by
  intro state
  rw [ends_tryCatch]
  refine Ends.mono (first state) (fun _ _ => id) ?_
  intro failure next same
  rw [← same]
  exact second failure next

theorem steady_device (action : OnDevice Result) : Steady (OnFile.device action) := by
  intro state
  rw [ends_device, Ends]
  cases action state.2 <;> rfl

theorem steady_onSpace (action : OnFile FreeSpace Result) : Steady (onSpace action) := by
  intro state
  rw [ends_onSpace, Ends]
  cases action (state.1.space, state.2) <;> rfl

theorem steady_modify (update : Region × Device → Region × Device)
    (same : ∀ state, (update state).1.position = state.1.position) :
    Steady (modify update : OnRegion PUnit) := same

end

theorem steady_release (extent : Extent) : Steady (release extent) := steady_modify _ fun _ => rfl

theorem steady_setEntry (slot : Slot) (offset : UInt32) (timestamp : Int32) :
    Steady (setEntry slot offset timestamp) := steady_modify _ fun _ => rfl

theorem steady_syncChange : Steady syncChange := by
  refine steady_get.bind fun state => ?_
  split
  · exact steady_device _
  · exact steady_pure _

theorem steady_saveData (slot : Slot) (data : Bytes) : Steady (saveData slot data) := by
  refine steady_get.bind fun before => (steady_onSpace _).bind fun new => steady_get.bind fun after => ?_
  refine Steady.bind ?_ fun _ => (steady_setEntry _ _ _).bind fun _ => ?_
  · refine (steady_device _).tryCatch fun failure => ?_
    split
    · exact (steady_release _).bind fun _ => steady_throw failure
    · exact steady_throw failure
  · split
    · next old _ =>
      split
      · exact (steady_release old).bind fun _ => steady_syncChange
      · exact steady_syncChange
    · exact steady_syncChange

theorem steady_saveChunk [Codec] (chunk : ChunkPos) (payload : Bytes) (tag : UInt8) :
    Steady (saveChunk chunk payload tag) :=
  steady_get.bind fun _ => (steady_ofExcept _).bind fun slot => (steady_ofExcept _).bind fun data =>
    steady_saveData slot data

theorem steady_deleteChunk (chunk : ChunkPos) : Steady (deleteChunk chunk) := by
  refine steady_get.bind fun _ => (steady_ofExcept _).bind fun slot => steady_get.bind fun state => ?_
  split
  · exact steady_pure _
  · next extent _ =>
    exact (steady_device _).bind fun _ => (steady_setEntry _ _ _).bind fun _ =>
      (steady_release extent).bind fun _ => steady_syncChange

theorem steady_loadChunk [Codec] (chunk : ChunkPos) : Steady (loadChunk chunk) := by
  refine steady_get.bind fun state => (steady_ofExcept _).bind fun slot => ?_
  split
  · exact steady_pure _
  · exact (steady_device _).bind fun _ => (steady_ofExcept _).map some

theorem steady_ask {Result : Type} (question : Region → Except Failure Result) :
    Steady (ask question) := steady_get.bind fun _ => steady_ofExcept _

theorem steady_flush : Steady flush := steady_device _

theorem load_position (position : RegionPos) (sync : Bool) (file : Device) :
    Ends (load position sync) file (fun region _ => region.position = position) fun _ _ => True := by
  unfold load
  rw [ends_bind]
  refine Ends.mono (ends_somehow _ _) (fun sectors ready _ => ?_) fun _ _ => id
  rw [ends_bind]
  refine Ends.mono (ends_somehow _ _) (fun tables read _ => ?_) fun _ _ => id
  generalize tables.survey sectors = survey
  simp only [ends_bind, ends_get, ends_pure]
  refine Ends.mono (ends_somehow _ _) (fun _ noted _ => ?_) fun _ _ => id
  exact Ends.mono (ends_somehow _ _) (fun _ _ _ => trivial) fun _ _ => id

end RegionStore.Region
