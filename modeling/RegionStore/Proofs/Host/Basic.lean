import RegionStore.Host.Basic
import RegionStore.Proofs.Disk.Device
import RegionStore.Proofs.Disk.Tree

/-!
Files and open regions of the host. An action on an open file or region ends as it does on the device,
and what it leaves of the device is kept by the host.
-/

set_option autoImplicit false

namespace RegionStore

open Disk

@[simp] theorem ends_host {State Result : Type} (action : OnHost Result) (state : State) (host : Host)
    (done : Result → State × Host → Prop) (failed : Failure → State × Host → Prop) :
    Ends (WithHost.host action) (state, host) done failed ↔
      Ends action host (fun result next => done result (state, next))
        fun failure next => failed failure (state, next) := by
  simp only [Ends, WithHost.host]
  cases action host <;> rfl

theorem outcome_host {State Result : Type} (action : OnHost Result) (state : State) (host : Host) :
    outcome (WithHost.host action) (state, host) = outcome action host := by
  simp only [outcome, WithHost.host]
  cases action host <;> rfl

theorem ends_onTree {Result : Type} (call : FileCall) (path : Bytes) (action : OnTree Result) (host : Host)
    (done : Result → Host → Prop) (failed : Failure → Host → Prop) :
    Ends (Host.onTree call path action) host done failed ↔
      Ends action (host.tree, host.around.schedule)
        (fun result next => done result (host.keepTree next.1 next.2))
        fun reason next => failed (.refused call path reason) (host.keepTree next.1 next.2) := by
  simp only [Ends, Host.onTree]
  cases action (host.tree, host.around.schedule) <;> rfl

namespace Host

/-- The tree is sound and names only files that exist. -/
structure Sound (host : Host) : Prop where
  tree : host.tree.Sound
  files : ∀ (number : Nat) (name : Bytes) (file : Nat),
    (host.tree.directory number).entries[name]? = some (Node.file file) → file < host.contents.size

theorem sound_initial : Sound Host.initial := by
  refine ⟨Tree.sound_initial, fun number name file found => ?_⟩
  have nothing : (Tree.initial.directory number).entries[name]? = some (Node.file file) := found
  rw [Tree.directory_initial] at nothing
  split at nothing
  · rw [Std.TreeMap.getElem?_insert, Std.TreeMap.getElem?_emptyc] at nothing
    split at nothing <;> cases nothing
  · rw [Std.TreeMap.getElem?_emptyc] at nothing
    cases nothing

structure Leads (host : Host) (path : Bytes) (file : Nat) : Prop where
  place : ∃ place, host.tree.filePlace path = .ok (place, some (.file file))
  inside : file < host.contents.size

/-- The path leads to a file without content or to a place where one can be made. -/
def Vacant (host : Host) (path : Bytes) : Prop :=
  (∃ place, host.tree.filePlace path = .ok (place, none)) ∨
    ∃ place file, host.tree.filePlace path = .ok (place, some (.file file)) ∧ (host.content file).size = 0

theorem Sound.leads {host : Host} (sound : host.Sound) {path : Bytes} {place : Tree.Place} {file : Nat}
    (found : host.tree.filePlace path = .ok (place, some (.file file))) : host.Leads path file := by
  refine ⟨⟨place, found⟩, ?_⟩
  unfold Tree.filePlace at found
  cases located : host.tree.locate path with
  | error reason =>
    rw [located] at found
    cases found
  | ok reached =>
    rw [located] at found
    simp only [bind, Except.bind] at found
    split at found
    · cases found
    split at found
    · cases found
    · next node isNode =>
      cases found
      unfold Tree.find at isNode
      split at isNode
      · cases isNode
      split at isNode
      · cases isNode
      split at isNode
      · cases isNode
      split at isNode
      · next node entry =>
        cases isNode
        exact sound.files _ _ file entry
      · cases isNode
    · cases found
    · cases found

section
variable {State Result : Type}

theorem ends_onFile (handle : Handle) (action : OnFile State Result) (state : State) (host : Host)
    (done : Result → State × Host → Prop) (failed : Failure → State × Host → Prop) :
    Ends (onFile handle action) (state, host) done failed ↔
      Ends action (state, host.device handle)
        (fun result next => done result (next.1, host.keep handle next.2))
        fun failure next => failed failure (next.1, host.keep handle next.2) := by
  simp only [Ends, onFile]
  cases action (state, host.device handle) <;> rfl

theorem ends_onDevice (handle : Handle) (action : OnDevice Result) (host : Host)
    (done : Result → Host → Prop) (failed : Failure → Host → Prop) :
    Ends (onDevice handle action) host done failed ↔
      Ends action (host.device handle) (fun result next => done result (host.keep handle next))
        fun failure next => failed failure (host.keep handle next) := by
  have split : Ends (onDevice handle action) host done failed ↔
      Ends (onFile handle (OnFile.device action)) ((), host)
        (fun result next => done result next.2) fun failure next => failed failure next.2 := by
    simp only [Ends, onDevice]
    cases onFile handle (OnFile.device action) ((), host) <;> rfl
  rw [split, ends_onFile, ends_device]

theorem ends_onRegion [Inhabited Result] {number : Nat} {entry : OpenRegion} {host : Host}
    (found : host.region? number = some entry) (action : OnRegion Result)
    (done : Result → Host → Prop) (failed : Failure → Host → Prop) :
    Ends (onRegion number action) host done failed ↔
      Ends action (entry.region, host.device entry.handle)
        (fun result next => done result
          ((host.keep entry.handle next.2).setRegion number { entry with region := next.1 }))
        fun failure next => failed failure
          ((host.keep entry.handle next.2).setRegion number { entry with region := next.1 }) := by
  simp only [Ends, onRegion, found, onFile]
  cases action (entry.region, host.device entry.handle) <;> rfl

end

@[simp] theorem region?_setRegion (host : Host) (number : Nat) (entry : OpenRegion) :
    (host.setRegion number entry).region? number = some entry :=
  Std.TreeMap.getElem?_insert_self

@[simp] theorem around_device (host : Host) (handle : Handle) :
    (host.device handle).around = host.around := by
  obtain ⟨_, _ | _⟩ := handle <;> rfl

@[simp] theorem path_device (host : Host) (handle : Handle) :
    (host.device handle).path = handle.path := by
  obtain ⟨_, _ | _⟩ := handle <;> rfl

@[simp] theorem around_keep (host : Host) (handle : Handle) (device : Device) :
    (host.keep handle device).around = device.around := by
  obtain ⟨_, _ | _⟩ := handle <;> rfl

@[simp] theorem around_setRegion (host : Host) (number : Nat) (entry : OpenRegion) :
    (host.setRegion number entry).around = host.around := rfl

theorem device_keep {host : Host} {path : Bytes} {file : Nat} (inside : file < host.contents.size)
    {device : Device} (continues : (host.device ⟨path, some file⟩).Continues device) :
    (host.keep ⟨path, some file⟩ device).device ⟨path, some file⟩ = device := by
  obtain ⟨devicePath, content, full, around⟩ := device
  obtain rfl : devicePath = path := continues.path
  obtain rfl : full = false := continues.full
  simp only [Host.device, keep, Host.content, Array.getD_eq_getD_getElem?,
    Array.getElem?_setIfInBounds_self_of_lt inside]
  rfl

theorem Leads.keep {host : Host} {path : Bytes} {file : Nat} (leads : host.Leads path file)
    (handle : Handle) (device : Device) : (host.keep handle device).Leads path file := by
  obtain ⟨handlePath, _ | number⟩ := handle
  · exact ⟨leads.place, leads.inside⟩
  · exact ⟨leads.place, (Array.size_setIfInBounds ..).symm ▸ leads.inside⟩

end Host
end RegionStore
