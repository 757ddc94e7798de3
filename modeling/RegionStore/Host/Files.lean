import RegionStore.Bytes
import RegionStore.Disk.Content
import RegionStore.Disk.Tree
import RegionStore.Host.Basic

/-!
Files as a whole, and single changes to them by name. No disturbance concerns these operations and
they do not fail; what cannot be done is told by the result.
-/

set_option autoImplicit false

namespace RegionStore.Host

open Disk

def fileNumber? (host : Host) (path : Bytes) : Option Nat :=
  match host.tree.look path with
  | .ok (.file number) => some number
  | _ => none

/-- Changes a file by name, after making it if it is missing. -/
def changeFile (path : Bytes) (change : Content → Content) (host : Host) : Host :=
  match host.tree.filePlace path with
  | .error _ => host
  | .ok (place, node) =>
    match host.fileAt place node with
    | (some number, host) => { host with contents := host.contents.modify number change }
    | (none, host) => host

/-- At most `count` bytes of what a path leads to, fewer where a file ends. -/
def readRange (host : Host) (path : Bytes) (start count : Nat) : Bytes :=
  match host.tree.look path with
  | .ok (.file number) => (host.content number).read start count
  | .ok .full => Bytes.zeros count
  | _ => ByteArray.empty

/-- All bytes of what a path leads to; a directory has none. -/
def readWhole? (host : Host) (path : Bytes) : Option Bytes :=
  match host.tree.look path with
  | .ok (.file number) =>
    let content := host.content number
    some (content.read 0 content.size)
  | .ok _ => some ByteArray.empty
  | .error _ => none

inductive Replacement where
  | done
  | notOpened
  | notWritten
  deriving DecidableEq, Repr

/-- Puts data in place of all bytes of a file. A full device takes it only if there is none. -/
def replaceFile (path data : Bytes) (host : Host) : Replacement × Host :=
  match host.tree.filePlace path with
  | .error _ => (.notOpened, host)
  | .ok (place, node) =>
    match host.fileAt place node with
    | (some number, host) =>
      (.done,
        { host with contents := host.contents.modify number fun _ => Content.empty.write 0 data })
    | (none, host) => (if data.size = 0 then .done else .notWritten, host)

inductive FileSize where
  | bytes (count : Nat)
  | directory
  deriving DecidableEq, Repr

def sizeOf (host : Host) : Node → FileSize
  | .directory _ => .directory
  | .file number => .bytes (host.content number).size
  | .full => .bytes 0

def fileSize? (host : Host) (path : Bytes) : Option FileSize :=
  match host.tree.look path with
  | .ok node => some (host.sizeOf node)
  | .error _ => none

def listing (host : Host) : List (Bytes × FileSize) :=
  host.tree.listing.map fun (path, node) => (path, host.sizeOf node)

def removeFile (path : Bytes) (host : Host) : Bool × Host :=
  let (removed, tree) := host.tree.remove path
  (removed, { host with tree := tree })

def linkFull (path : Bytes) (host : Host) : Host :=
  let host := (host.removeFile path).2
  match host.tree.filePlace path with
  | .ok (place, none) => { host with tree := host.tree.put place .full }
  | _ => host

def makeDirectories (path : Bytes) (host : Host) : Except Errno Bool × Host :=
  match OnTree.makeDirectories path (host.tree, Schedule.calm) with
  | .ok created (tree, _) => (.ok created, { host with tree := tree })
  | .error reason (tree, _) => (.error reason, { host with tree := tree })

end RegionStore.Host
