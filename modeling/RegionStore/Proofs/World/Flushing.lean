import Mathlib.Data.List.ReduceOption
import RegionStore.Proofs.Disk.Log
import RegionStore.Proofs.Disk.Reports
import RegionStore.Proofs.Disk.Turns
import RegionStore.Proofs.Host.Abreast
import RegionStore.Proofs.World.Lockstep
import RegionStore.Proofs.World.Resting
import RegionStore.Proofs.World.Upkeep

/-!
Flushes that fail. Closing everything flushes one open region after the other and goes on after a failure;
a region that is evicted is put away all the same, and the failure is no more than a notice. What a world
and its files come to does not depend on how flushes turn out.
-/

set_option autoImplicit false

namespace RegionStore

open Disk

def Notice.OfClosing (path : Bytes) : Notice → Prop
  | .fileNotFlushed file _ | .closeFailed file => file = path
  | _ => False

def Disk.Surroundings.NotesClosing (path : Bytes) (before after : Surroundings) : Prop :=
  ∃ told, (∀ notice ∈ told, notice.OfClosing path) ∧ after.notices = told ++ before.notices

theorem Region.close_notes (region : Region) (file : Device) :
    Ends close (region, file) (fun _ state => file.around.NotesClosing file.path state.2.around)
      fun _ _ => False := by
  have closes (flushed : Device) (samePath : flushed.path = file.path)
      (noted : file.around.NotesClosing file.path flushed.around) :
      Ends (OnFile.device Device.close) (region, flushed)
        (fun _ state => file.around.NotesClosing file.path state.2.around) fun _ _ => False := by
    obtain ⟨told, ofClosing, same⟩ := noted
    rw [ends_device]
    simp only [Ends, Device.close]
    cases (flushed.turns .closing).next.1.refusal? with
    | none => exact ⟨told, ofClosing, same⟩
    | some _ =>
      refine ⟨.closeFailed flushed.path :: told, ?_, congrArg (_ :: ·) same⟩
      exact List.forall_mem_cons.2 ⟨samePath, ofClosing⟩
  unfold close
  rw [ends_bind, ends_tryCatch, flush, ends_device]
  have ends := (Device.sync_reports file).and (Device.sync_ends file)
  refine Ends.mono ends ?_ ?_
  · rintro _ flushed ⟨quiet, keeps⟩
    exact closes flushed keeps.continues.path ⟨[], List.forall_mem_nil _, quiet⟩
  · rintro failure flushed ⟨⟨_, quiet⟩, keeps, _⟩
    rw [ends_bind, ends_get, ends_device, Device.notify, ends_modify]
    refine closes _ keeps.continues.path
      ⟨[.fileNotFlushed flushed.path failure], ?_, congrArg (_ :: ·) quiet⟩
    exact List.forall_mem_singleton.2 keeps.continues.path

namespace Host

/-- A flush of an open region brings a sync of its file to an end, and fails exactly with what that has
come to. -/
theorem flush_concludes {host : Host} {number : Nat} {entry : OpenRegion}
    (found : host.region? number = some entry) :
    Ends (onRegion number Region.flush) host
      (fun _ next => next.around.notices = host.around.notices ∧
        concluded next.around.events = none :: concluded host.around.events)
      fun failure next => ∃ reason, failure = .refused .syncing entry.handle.path reason ∧
        next.around.notices = host.around.notices ∧
        concluded next.around.events = some reason :: concluded host.around.events := by
  rw [ends_onRegion found, Region.flush, ends_device]
  have ends := (Device.sync_reports (host.device entry.handle)).and
    (Device.sync_concludes (host.device entry.handle))
  simp only [Device.Quiet, around_device, path_device] at ends
  refine Ends.mono ends ?_ ?_
  · rintro _ synced ⟨quiet, concludes⟩
    rw [around_setRegion, around_keep]
    exact ⟨quiet, concludes⟩
  · rintro failure synced ⟨⟨_, quiet⟩, reason, same, concludes⟩
    rw [around_setRegion, around_keep]
    exact ⟨reason, same, quiet, concludes⟩

theorem release_notes {host : Host} {number : Nat} {entry : OpenRegion}
    (found : host.region? number = some entry) :
    Ends (release number) host
      (fun _ next => host.around.NotesClosing entry.handle.path next.around) fun _ _ => False := by
  unfold release
  simp only [ends_bind, ends_get, found]
  split
  · exact ⟨[], List.forall_mem_nil _, rfl⟩
  · rw [ends_bind, ends_onRegion found]
    have ends := Region.close_notes entry.region (host.device entry.handle)
    rw [around_device, path_device] at ends
    refine Ends.mono ends (fun _ state noted => ?_) fun _ _ => id
    rw [← around_keep host entry.handle state.2] at noted
    exact noted

theorem companion_abreast : Companion Abreast :=
  ⟨fun _ _ abreast number => (abreast.region? number).symm, abreast_notify, abreast_hold, abreast_release⟩

end Host

namespace World

section
variable {world : World} {host : Host}

theorem flush_beside (number : Nat) (state : World × Host) :
    Ends (flush number) state (fun _ next => Beside Host.Abreast state next)
      fun _ next => Beside Host.Abreast state next := by
  obtain ⟨world, host⟩ := state
  unfold flush
  rw [ends_host]
  exact Ends.mono (Host.flush_abreast number host) (fun _ _ abreast => ⟨rfl, abreast⟩)
    fun _ _ abreast => ⟨rfl, abreast⟩

/-- Whether the flush fails does not show but in the surroundings. -/
theorem abreast_flush_notify (number : Nat) (position : RegionPos) : InStep (Beside Host.Abreast)
    (tryCatch (flush number) fun failure => notify (.evictedNotFlushed position failure)) := by
  have equivalence : Equivalence (Beside Host.Abreast : World × Host → World × Host → Prop) :=
    Beside.equivalence Host.abreast_equivalence
  refine lockstep_of_ends equivalence fun state => ?_
  rw [ends_tryCatch]
  refine Ends.mono (flush_beside number state) (fun _ _ => id) fun failure next flushed => ?_
  exact ⟨flushed.1, flushed.2.trans (Host.abreast_inSurroundings next.2 _)⟩

/-- The action does not fail, and what it makes of the world, the files and the open regions does not
depend on how the calls of files turn out. -/
def Unhindered (action : OnWorld Unit) : Prop :=
  ∀ (world : World) (host : Host) (around : Surroundings), ∃ next next',
    action (world, host) = .ok () next ∧ action (world, { host with around := around }) = .ok () next' ∧
      Beside Host.Abreast next next'

theorem unhindered_of_lockstep {action : OnWorld Unit} (inStep : InStep (Beside Host.Abreast) action)
    (restful : Restful False action) : Unhindered action := by
  intro world host around
  obtain ⟨_, next, ran⟩ := restful.exists_ok (world, host)
  obtain ⟨_, next', ran'⟩ := restful.exists_ok (world, { host with around := around })
  have apart : Beside Host.Abreast (world, host) (world, { host with around := around }) :=
    ⟨rfl, Host.abreast_inSurroundings host around⟩
  have agree := inStep apart
  rw [ran, ran'] at agree
  cases agree with
  | ok _ states => exact ⟨next, next', ran, ran', states⟩

theorem unhindered_evict (position : RegionPos) : Unhindered (evict position) :=
  unhindered_of_lockstep (lockstep_evict Host.companion_abreast abreast_flush_notify position)
    (restful_evict position)

theorem unhindered_evictExcess : Unhindered evictExcess :=
  unhindered_of_lockstep (lockstep_evictExcess Host.companion_abreast abreast_flush_notify)
    restful_evictExcess

theorem unhindered_admitRegion (position : RegionPos) (number : Nat) :
    Unhindered (admitRegion position number) :=
  unhindered_of_lockstep (lockstep_admitRegion Host.companion_abreast abreast_flush_notify position number)
    (restful_admitRegion position number)

def flushNotice (position : RegionPos) : Except Failure Unit → List Notice
  | .ok _ => []
  | .error failure => [.evictedNotFlushed position failure]

/-- An eviction notes the failure of its flush, if there is one, and that the region has been evicted;
what else is noted is about closing the file. -/
theorem evict_notes {position : RegionPos} {number : Nat} {entry : OpenRegion}
    (found : world.opened.find? position = some number) (isOpen : host.region? number = some entry) :
    Ends (evict position) (world, host) (fun _ next => ∃ told,
      (∀ notice ∈ told, notice.OfClosing entry.handle.path) ∧ next.2.around.notices =
        told ++ .regionEvicted position ::
          flushNotice position (outcome (flush number) (world, host)) ++ host.around.notices)
      fun _ _ => False := by
  have putAway {removed : World} {flushed : Host} {notices : List Notice} (abreast : host.Abreast flushed)
      (same : flushed.around.notices = notices ++ host.around.notices) :
      Ends (do
        park position number
        notify (.regionEvicted position)
        WithHost.host (Host.release number)) (removed, flushed) (fun _ next => ∃ told,
          (∀ notice ∈ told, notice.OfClosing entry.handle.path) ∧ next.2.around.notices =
            told ++ .regionEvicted position :: notices ++ host.around.notices) fun _ _ => False := by
    have still : Host.region? { flushed with around := flushed.around.notify (.regionEvicted position) }
        number = some entry := (abreast.region? number).trans isOpen
    rw [ends_bind, ends_park, ends_bind, notify, ends_host, Host.notify, ends_modify, ends_host]
    refine Ends.mono (Host.release_notes still) ?_ fun _ _ => id
    rintro _ next ⟨told, ofClosing, after⟩
    refine ⟨told, ofClosing, ?_⟩
    rw [after, Surroundings.notify, same, List.append_assoc, List.cons_append]
  simp only [ends_bind] at putAway
  unfold evict
  simp only [ends_bind, ends_get, found, remove, change, ends_modify, ends_tryCatch]
  rw [flush, outcome_host, ends_host]
  have flushed := ((Host.flush_abreast number host).and (Host.flush_concludes isOpen)).and
    (ends_outcome (Host.onRegion number Region.flush) host)
  refine Ends.mono flushed ?_ ?_
  · rintro _ flushed ⟨⟨abreast, quiet, _⟩, went⟩
    rw [went]
    exact putAway abreast quiet
  · rintro failure flushed ⟨⟨abreast, _, _, quiet, _⟩, went⟩
    rw [went, notify, ends_host, Host.notify, ends_modify]
    exact putAway (abreast.trans (Host.abreast_inSurroundings flushed _))
      (congrArg (Notice.evictedNotFlushed position failure :: ·) quiet)

/-- These regions are open and have been flushed one after the other: for each one a sync of its file has
been brought to an end, and a failure has been reported and has kept nothing from going on. -/
inductive Flushes :
    List (RegionPos × Nat) → List (Option Failure) → World × Host → World × Host → Prop where
  | nil (state : World × Host) : Flushes [] [] state state
  | cons {position : RegionPos} {number : Nat} {entry : OpenRegion} {refusal : Option Errno}
    {result : Option Failure} {rest : List (RegionPos × Nat)} {results : List (Option Failure)}
    {state next last : World × Host} (isOpen : state.2.region? number = some entry)
    (ran : tryFlush position number state = .ok result next)
    (concludes : concluded next.2.around.events = refusal :: concluded state.2.around.events)
    (told : result = refusal.map (.refused .syncing entry.handle.path))
    (later : Flushes rest results next last) :
    Flushes ((position, number) :: rest) (result :: results) state last

theorem tryFlush_concludes {position : RegionPos} {number : Nat} {entry : OpenRegion}
    (isOpen : host.region? number = some entry) :
    Ends (tryFlush position number) (world, host)
      (fun result next => Beside Host.Abreast (world, host) next ∧
        ∃ refusal, concluded next.2.around.events = refusal :: concluded host.around.events ∧
          result = refusal.map (.refused .syncing entry.handle.path)) fun _ _ => False := by
  have flushed := (Host.flush_abreast number host).and (Host.flush_concludes isOpen)
  unfold tryFlush
  simp only [ends_tryCatch, ends_bind, flush, ends_host]
  refine Ends.mono flushed ?_ ?_
  · rintro _ next ⟨abreast, _, concludes⟩
    exact ⟨⟨rfl, abreast⟩, none, concludes, rfl⟩
  · rintro failure next ⟨abreast, reason, rfl, _, concludes⟩
    exact ⟨⟨rfl, abreast.trans (Host.abreast_inSurroundings next _)⟩, some reason, concludes, rfl⟩

theorem tryFlush_of_refused {position : RegionPos} {number : Nat} {entry : OpenRegion}
    (isOpen : host.region? number = some entry) {reason : Errno}
    (refused : (host.around.turns .syncing).settle.refusal = some reason) :
    Ends (tryFlush position number) (world, host) (fun result _ => result.isSome = true)
      fun _ _ => False := by
  have fails : Ends Region.flush (entry.region, host.device entry.handle) (fun _ _ => False)
      fun _ _ => True := by
    rw [← Host.around_device host entry.handle] at refused
    rw [Region.flush, ends_device]
    exact Ends.mono (Device.sync_of_refused refused) (fun _ _ => id) fun _ _ _ => trivial
  unfold tryFlush
  simp only [ends_tryCatch, ends_bind, flush, ends_host, Host.ends_onRegion isOpen]
  exact Ends.mono fails (fun _ _ => False.elim) fun _ _ _ => rfl

/-- All of the open regions are flushed, whatever fails, and the failures are kept in their order. -/
theorem ends_flushes (entries : List (RegionPos × Nat)) (state : World × Host)
    (areOpen : ∀ entry ∈ entries, state.2.IsOpen entry.2) :
    Ends (entries.filterMapM fun (position, number) => tryFlush position number) state
      (fun failures last => ∃ results, Flushes entries results state last ∧
        failures = results.reduceOption ∧ Beside Host.Abreast state last) fun _ _ => False := by
  induction entries generalizing state with
  | nil => exact ⟨[], .nil state, rfl, rfl, Host.Abreast.refl _⟩
  | cons entry rest ih =>
    obtain ⟨position, number⟩ := entry
    obtain ⟨world, host⟩ := state
    obtain ⟨isOpen, areOpen⟩ := List.forall_mem_cons.1 areOpen
    obtain ⟨entry, isOpen⟩ := Option.isSome_iff_exists.1 isOpen
    obtain ⟨result, next, ran, ⟨same, abreast⟩, refusal, concludes, told⟩ :=
      (tryFlush_concludes isOpen).exists_ok
    have stillOpen : ∀ entry ∈ rest, next.2.IsOpen entry.2 := fun entry member => by
      rw [Host.IsOpen, abreast.region?]
      exact areOpen entry member
    have step {results : List (Option Failure)} {last : World × Host}
        (later : Flushes rest results next last) :
        Flushes ((position, number) :: rest) (result :: results) (world, host) last :=
      .cons isOpen ran concludes told later
    rw [List.filterMapM_cons, ends_bind, ends_of_eq_ok ran]
    cases result with
    | none =>
      refine Ends.mono (ih next stillOpen) ?_ fun _ _ => id
      rintro _ last ⟨results, later, rfl, still, onward⟩
      exact ⟨none :: results, step later, rfl, same.trans still, abreast.trans onward⟩
    | some failure =>
      rw [ends_bind]
      refine Ends.mono (ih next stillOpen) ?_ fun _ _ => id
      rintro _ last ⟨results, later, rfl, still, onward⟩
      exact ⟨some failure :: results, step later, rfl, same.trans still, abreast.trans onward⟩

/-- Closing everything is to put it away after the flushes, and the first of their failures is passed on. -/
theorem closeAll_ends (areOpen : ∀ entry ∈ world.opened.entries, host.IsOpen entry.2) :
    ∃ results flushed, Flushes world.opened.entries results (world, host) flushed ∧
      Ends closeAll (world, host)
        (fun _ next => results.reduceOption.head? = none ∧
          shut world.opened.entries flushed = .ok () next)
        fun failure next => results.reduceOption.head? = some failure ∧
          shut world.opened.entries flushed = .ok () next := by
  have flushing := ends_flushes world.opened.entries (world, host) areOpen
  obtain ⟨_, flushed, ran, results, flushes, rfl, _⟩ := flushing.exists_ok
  obtain ⟨_, next, ranShut⟩ := (restful_shut world.opened.entries).exists_ok flushed
  refine ⟨results, flushed, flushes, ?_⟩
  rw [closeAll_eq, ends_bind, ends_get, ends_bind, ends_of_eq_ok ran, ends_bind, ends_of_eq_ok ranShut]
  cases results.reduceOption with
  | nil => exact ⟨rfl, ranShut⟩
  | cons failure rest => exact ⟨rfl, ranShut⟩

end

end World
end RegionStore
