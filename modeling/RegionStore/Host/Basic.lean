import Std.Data.TreeMap
import RegionStore.Bytes
import RegionStore.Disk.Content
import RegionStore.Disk.Device
import RegionStore.Disk.Tree
import RegionStore.Failure
import RegionStore.Placement
import RegionStore.Region.Basic

/-!
Everything outside the library's own objects: the tree of files with their contents, the surroundings
of file calls, and the regions that are open. A file keeps its number when its name goes away, so what
has been opened stays usable.
-/

set_option autoImplicit false

namespace RegionStore

open Disk

/-- What has been opened: a file by its number or, without one, a full device, and the path that it was
opened by. -/
structure Handle where
  path : Bytes
  file : Option Nat
  deriving DecidableEq

/-- An open region is closed when its last holder lets go of it. -/
structure OpenRegion where
  region : Region
  handle : Handle
  holders : Nat

abbrev OpenRegions := Std.TreeMap Nat OpenRegion (@Ord.compare Nat instOrdNat)

structure Host where
  tree : Tree
  contents : Array Content
  around : Surroundings
  /-- The number of a region that has been closed is not used again. -/
  regions : OpenRegions
  nextRegion : Nat

abbrev OnHost := EStateM Failure Host

abbrev WithHost (State : Type) := EStateM Failure (State × Host)

namespace WithHost

@[inline] def host {State Result : Type} (action : OnHost Result) : WithHost State Result :=
  fun (state, host) =>
    match action host with
    | .ok result host => .ok result (state, host)
    | .error failure host => .error failure (state, host)

end WithHost

namespace Host

def initial : Host := ⟨Tree.initial, #[], Surroundings.initial, ∅, 0⟩

def notify (notice : Notice) : OnHost Unit :=
  modify fun host => { host with around := host.around.notify notice }

def content (host : Host) (number : Nat) : Content := host.contents.getD number Content.empty

/-- The number of the file at a place, which is made if there is nothing. A device has none. -/
def fileAt (host : Host) (place : Tree.Place) : Option Node → Option Nat × Host
  | some (.file number) => (some number, host)
  | some _ => (none, host)
  | none =>
    let number := host.contents.size
    (some number,
      { host with
        tree := host.tree.put place (.file number)
        contents := host.contents.push Content.empty })

def keepTree (host : Host) (tree : Tree) (schedule : Schedule) : Host :=
  { host with tree := tree, around := { host.around with schedule := schedule } }

/-- Runs calls on the tree for a path. One that is refused fails as the given call. -/
def onTree {Result : Type} (call : FileCall) (path : Bytes) (action : OnTree Result) :
    OnHost Result := fun host =>
  match action (host.tree, host.around.schedule) with
  | .ok result (tree, schedule) => .ok result (host.keepTree tree schedule)
  | .error reason (tree, schedule) => .error (.refused call path reason) (host.keepTree tree schedule)

def openFile (path : Bytes) : OnHost Handle := fun host =>
  let settlement := (host.around.turns .opening).settle
  let host := { host with around := host.around.setTurns .opening settlement.ahead }
  match settlement.refusal with
  | some reason => .error (.refused .opening path reason) host
  | none =>
    match host.tree.filePlace path with
    | .error reason => .error (.refused .opening path reason) host
    | .ok (place, node) =>
      let (file, host) := host.fileAt place node
      .ok ⟨path, file⟩ host

def device (host : Host) (handle : Handle) : Device :=
  match handle.file with
  | some number => ⟨handle.path, host.content number, false, host.around⟩
  | none => ⟨handle.path, Content.empty, true, host.around⟩

def keep (host : Host) (handle : Handle) (device : Device) : Host :=
  let host := { host with around := device.around }
  match handle.file with
  | some number => { host with contents := host.contents.setIfInBounds number device.content }
  | none => host

def onFile {State Result : Type} (handle : Handle) (action : OnFile State Result) :
    WithHost State Result := fun (state, host) =>
  match action (state, host.device handle) with
  | .ok result (state, device) => .ok result (state, host.keep handle device)
  | .error failure (state, device) => .error failure (state, host.keep handle device)

def onDevice {Result : Type} (handle : Handle) (action : OnDevice Result) : OnHost Result :=
  fun host =>
    match onFile handle (OnFile.device action) ((), host) with
    | .ok result (_, host) => .ok result host
    | .error failure (_, host) => .error failure host

def region? (host : Host) (number : Nat) : Option OpenRegion := host.regions[number]?

def IsOpen (host : Host) (number : Nat) : Prop := (host.region? number).isSome = true

instance (host : Host) (number : Nat) : Decidable (host.IsOpen number) :=
  inferInstanceAs (Decidable (_ = true))

def holders (host : Host) (number : Nat) : Nat :=
  match host.region? number with
  | some entry => entry.holders
  | none => 0

def setRegion (host : Host) (number : Nat) (entry : OpenRegion) : Host :=
  { host with regions := host.regions.insert number entry }

/-- Runs an action on an open region and its file; nothing happens to one that is closed. -/
def onRegion {Result : Type} [Inhabited Result] (number : Nat) (action : OnRegion Result) :
    OnHost Result := fun host =>
  match host.region? number with
  | none => .ok default host
  | some entry =>
    match onFile entry.handle action (entry.region, host) with
    | .ok result (region, host) =>
      .ok result (host.setRegion number { entry with region := region })
    | .error failure (region, host) =>
      .error failure (host.setRegion number { entry with region := region })

/-- Opens a region file for one holder. If the file turns out to be none, it is closed again. -/
def openRegion (path : Bytes) (position : RegionPos) (sync : Bool) : OnHost Nat := do
  let handle ← openFile path
  try
    let region ← onDevice handle (Region.load position sync)
    modifyGet fun host =>
      (host.nextRegion,
        { host.setRegion host.nextRegion ⟨region, handle, 1⟩ with
          nextRegion := host.nextRegion + 1 })
  catch failure =>
    onDevice handle Device.close
    throw failure

def hold (number : Nat) : OnHost Unit := modify fun host =>
  match host.region? number with
  | some entry => host.setRegion number { entry with holders := entry.holders + 1 }
  | none => host

/-- Takes a holder from an open region, and closes it with the last one. -/
def release (number : Nat) : OnHost Unit := do
  let host ← get
  match host.region? number with
  | none => pure ()
  | some entry =>
    if 1 < entry.holders then
      set (host.setRegion number { entry with holders := entry.holders - 1 })
    else
      onRegion number Region.close
      modify fun host => { host with regions := host.regions.erase number }

end Host
end RegionStore
