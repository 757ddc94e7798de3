import RegionStore.Proofs.Host.Lockstep
import RegionStore.World.Basic

/-!
What is done with a world does not depend on how often the file calls below it have to be made again. What
puts regions away sees even less of its host, so it is told for whatever else hosts may differ in.
-/

set_option autoImplicit false

namespace RegionStore

open Disk

namespace Host

/-- Hosts that are alike have the same regions open, and stay alike while these get and lose holders. -/
structure Companion (alike : Host → Host → Prop) : Prop where
  region? : ∀ first second, alike first second → ∀ number, first.region? number = second.region? number
  notify : ∀ notice, InStep alike (notify notice)
  hold : ∀ number, InStep alike (hold number)
  release : ∀ number, InStep alike (release number)

theorem companion_twin : Companion Twin :=
  ⟨fun _ _ => Twin.region?, lockstep_notify, lockstep_hold, lockstep_release⟩

section
variable {alike : Host → Host → Prop} (companion : Companion alike) {first second : Host}
  (hosts : alike first second)
include companion hosts

theorem Companion.holders (number : Nat) : first.holders number = second.holders number := by
  unfold Host.holders
  rw [companion.region? first second hosts]

theorem Companion.isOpen_iff (number : Nat) : first.IsOpen number ↔ second.IsOpen number := by
  unfold Host.IsOpen
  rw [companion.region? first second hosts]

end

end Host

namespace World

open Host

section
variable {alike : Host → Host → Prop}

theorem lockstep_change (update : World → World) : InStep (Beside alike) (change update) :=
  lockstep_modify_beside fun _ _ _ hosts => ⟨rfl, hosts⟩

theorem lockstep_remove (position : RegionPos) : InStep (Beside alike) (remove position) := lockstep_change _

variable (companion : Companion alike)
include companion

theorem lockstep_notify (notice : Notice) : InStep (Beside alike) (notify notice) :=
  (companion.notify notice).host

theorem lockstep_park (position : RegionPos) (number : Nat) :
    InStep (Beside alike) (park position number) := by
  apply Lockstep.get_beside
  intro world host host' hosts
  simp only [companion.holders hosts]
  exact (lockstep_change _).ite (lockstep_pure _)

theorem lockstep_forgetClosed : InStep (Beside alike) forgetClosed := by
  apply lockstep_modify_beside
  intro world host host' hosts
  refine ⟨?_, hosts⟩
  simp only [companion.isOpen_iff hosts]

variable (flushes : ∀ number position, InStep (Beside alike)
  (tryCatch (flush number) fun failure => notify (.evictedNotFlushed position failure)))
include flushes

theorem lockstep_evict (position : RegionPos) : InStep (Beside alike) (evict position) := by
  apply Lockstep.get_beside
  intro world _ _ _
  simp only
  cases world.opened.find? position with
  | none => exact lockstep_pure _
  | some number =>
    apply (lockstep_remove position).bind
    intro _
    apply (flushes number position).bind
    intro _
    exact (lockstep_park companion position number).bind fun _ =>
      (lockstep_notify companion _).bind fun _ => (companion.release number).host

theorem lockstep_evictExcess : InStep (Beside alike) evictExcess :=
  Lockstep.get_beside fun _ _ _ _ =>
    (Lockstep.forM (lockstep_evict companion flushes) _).bind fun _ => lockstep_forgetClosed companion

theorem lockstep_admitRegion (position : RegionPos) (number : Nat) :
    InStep (Beside alike) (admitRegion position number) :=
  (companion.hold number).host.bind fun _ =>
    (lockstep_change _).bind fun _ => lockstep_evictExcess companion flushes

end

theorem lockstep_flush (number : Nat) : InStep (Beside Twin) (flush number) :=
  (lockstep_onRegion number Region.lockstep_flush).host

theorem lockstep_flush_notify (number : Nat) (position : RegionPos) : InStep (Beside Twin)
    (tryCatch (flush number) fun failure => notify (.evictedNotFlushed position failure)) :=
  (lockstep_flush number).tryCatch fun _ => lockstep_notify companion_twin _

theorem lockstep_makeDirectory : InStep (Beside Twin) makeDirectory :=
  Lockstep.get_beside fun _ _ _ _ =>
    (lockstep_onTree _ _ (OnTree.lockstep_makeDirectories _)).host.map _

theorem lockstep_fileExists (path : Bytes) : InStep (Beside Twin) (fileExists path) :=
  (lockstep_onTree _ _ (OnTree.lockstep_examine path)).host.map _

theorem lockstep_openFresh (position : RegionPos) (create : Bool) :
    InStep (Beside Twin) (openFresh position create) := by
  apply Lockstep.get_beside
  intro world _ _ _
  have opened : InStep (Beside Twin) (do
      let number ← WithHost.host (Host.openRegion (world.filePath position) position world.config.sync)
      admitRegion position number
      return some number : OnWorld (Option Nat)) :=
    (lockstep_openRegion _ _ _).host.bind fun number =>
      (lockstep_admitRegion companion_twin lockstep_flush_notify position number).bind fun _ =>
        lockstep_pure _
  simp only
  apply Lockstep.ite
  · exact lockstep_makeDirectory.bind fun _ => opened
  · apply (lockstep_fileExists _).bind
    intro found
    exact (lockstep_pure none).ite opened

theorem lockstep_obtain (position : RegionPos) (create : Bool) :
    InStep (Beside Twin) (obtain position create) := by
  apply Lockstep.get_beside
  intro world host host' twin
  simp only [companion_twin.isOpen_iff twin]
  cases world.opened.find? position with
  | some number =>
    exact (lockstep_change _).bind fun _ => (lockstep_hold number).host.bind fun _ => lockstep_pure _
  | none =>
    simp only
    cases world.parked.lookup position with
    | none => exact lockstep_openFresh position create
    | some number =>
      apply (lockstep_change _).bind
      intro _
      apply Lockstep.ite
      · exact (lockstep_hold number).host.bind fun _ =>
          (lockstep_admitRegion companion_twin lockstep_flush_notify position number).bind fun _ =>
            lockstep_pure _
      · exact lockstep_openFresh position create

section
variable {Result : Type} [Inhabited Result]

theorem lockstep_onChunk (chunk : ChunkPos) (create : Bool) (absent : Result) {action : OnRegion Result}
    (inStep : InStep (Beside Device.Alike) action) :
    InStep (Beside Twin) (onChunk chunk create absent action) := by
  apply (lockstep_obtain chunk.regionOf create).bind
  intro found
  cases found with
  | none => exact lockstep_pure absent
  | some number =>
    have released := (Host.lockstep_release number).host (γ := World)
    apply Lockstep.early _ lockstep_pure lockstep_pure
    apply Lockstep.tryCatch
    · apply (lockstep_onRegion number inStep).host.bind
      intro result
      exact released.bind fun _ => lockstep_pure _
    · intro failure
      exact released.bind fun _ => (lockstep_throw failure).bind fun _ => lockstep_pure _

end

theorem lockstep_loadChunk [Codec] (chunk : ChunkPos) : InStep (Beside Twin) (loadChunk chunk) :=
  lockstep_onChunk chunk false none (Region.lockstep_loadChunk chunk)

theorem lockstep_hasChunk (chunk : ChunkPos) : InStep (Beside Twin) (hasChunk chunk) :=
  lockstep_onChunk chunk false false (Region.lockstep_ask _)

theorem lockstep_timestamp? (chunk : ChunkPos) : InStep (Beside Twin) (timestamp? chunk) :=
  lockstep_onChunk chunk false none (Region.lockstep_ask _)

theorem lockstep_deleteChunk (chunk : ChunkPos) : InStep (Beside Twin) (deleteChunk chunk) :=
  lockstep_onChunk chunk false () (Region.lockstep_deleteChunk chunk)

theorem lockstep_saveChunk [Codec] (chunk : ChunkPos) (payload : Bytes) (tag : Option UInt8) :
    InStep (Beside Twin) (saveChunk chunk payload tag) :=
  Lockstep.get_beside fun _ _ _ _ =>
    lockstep_onChunk chunk true () (Region.lockstep_saveChunk chunk payload _)

theorem lockstep_closeRegion (position : RegionPos) : InStep (Beside Twin) (closeRegion position) := by
  apply (lockstep_change _).bind
  intro _
  apply Lockstep.get_beside
  intro world _ _ _
  simp only
  cases world.opened.find? position with
  | none => exact lockstep_pure false
  | some number =>
    exact (lockstep_flush number).bind fun _ => (lockstep_park companion_twin position number).bind fun _ =>
      (lockstep_remove position).bind fun _ => (Host.lockstep_release number).host.bind fun _ =>
        (lockstep_notify companion_twin _).bind fun _ => lockstep_pure true

theorem lockstep_tryFlush (position : RegionPos) (number : Nat) :
    InStep (Beside Twin) (tryFlush position number) := by
  apply Lockstep.early _ lockstep_pure lockstep_pure
  apply Lockstep.tryCatch
  · exact (lockstep_flush number).bind fun _ => lockstep_pure _
  · intro failure
    exact (lockstep_notify companion_twin _).bind fun _ => lockstep_pure _

theorem lockstep_closeAll : InStep (Beside Twin) closeAll := by
  apply Lockstep.get_beside
  intro world _ _ _
  simp only
  apply (Lockstep.filterMapM (fun _ => lockstep_tryFlush _ _) _).bind
  intro failures
  apply (Lockstep.forM (fun _ => lockstep_park companion_twin _ _) _).bind
  intro _
  apply (lockstep_change _).bind
  intro _
  apply (Lockstep.forM (fun _ => (Host.lockstep_release _).host) _).bind
  intro _
  apply (lockstep_forgetClosed companion_twin).bind
  intro _
  cases failures with
  | nil => exact lockstep_pure _
  | cons failure _ => exact lockstep_throw failure

theorem lockstep_destroy : InStep (Beside Twin) destroy :=
  lockstep_closeAll.tryCatch fun _ => Lockstep.get_beside fun _ _ _ _ => lockstep_notify companion_twin _

end World
end RegionStore
