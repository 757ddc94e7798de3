import RegionStore.Bytes
import RegionStore.Compression
import RegionStore.Coordinates
import RegionStore.Disk.Path
import RegionStore.Host.Basic
import RegionStore.World.OpenTable

/-!
The regions of one directory. Regions are opened when they are needed, and only a limited number of
them stays open, those used last. A region that was put away while somebody still holds it is
remembered, so that it is taken up again instead of being opened a second time.
-/

set_option autoImplicit false

namespace RegionStore

open Disk

variable [Codec]

structure WorldConfig where
  directory : Bytes := "world/region"
  maxOpen : UInt32 := 64
  /-- The tag of the method that chunks are saved with. -/
  method : UInt8 := Method.zlib.tag
  sync : Bool := true
  deriving DecidableEq

structure World where
  config : WorldConfig
  /-- Open regions, the one used last in front. -/
  recency : List RegionPos
  opened : World.OpenTable
  /-- Regions that were put away while somebody held them. -/
  parked : List (RegionPos × Nat)

abbrev OnWorld := WithHost World

namespace World

def ofConfig (config : WorldConfig) : World := ⟨config, [], OpenTable.empty, []⟩

def filePath (world : World) (position : RegionPos) : Bytes :=
  Path.join world.config.directory position.fileName

def IsOpen (world : World) (position : RegionPos) : Prop :=
  (world.opened.find? position).isSome = true

instance (world : World) (position : RegionPos) : Decidable (world.IsOpen position) :=
  inferInstanceAs (Decidable (_ = true))

def openCount (world : World) : Nat := world.opened.entries.length

def notify (notice : Notice) : OnWorld Unit := WithHost.host (Host.notify notice)

def change (update : World → World) : OnWorld Unit :=
  modify fun (world, host) => (update world, host)

def erased (parked : List (RegionPos × Nat)) (position : RegionPos) : List (RegionPos × Nat) :=
  parked.filter fun entry => entry.1 ≠ position

def flush (number : Nat) : OnWorld Unit := WithHost.host (Host.onRegion number Region.flush)

/-- Remembers an open region that has other holders than the table. -/
def park (position : RegionPos) (number : Nat) : OnWorld Unit := do
  if 1 < (← get).2.holders number then
    change fun world =>
      { world with parked := (position, number) :: erased world.parked position }

def forgetClosed : OnWorld Unit :=
  modify fun (world, host) =>
    ({ world with parked := world.parked.filter fun entry => host.IsOpen entry.2 }, host)

def remove (position : RegionPos) : OnWorld Unit :=
  change fun world =>
    { world with
      recency := world.recency.erase position
      opened := world.opened.erase position }

/-- Puts an open region away. A failed flush does not stop it. -/
def evict (position : RegionPos) : OnWorld Unit := do
  match (← get).1.opened.find? position with
  | none => pure ()
  | some number =>
    remove position
    try flush number
    catch failure => notify (.evictedNotFlushed position failure)
    park position number
    notify (.regionEvicted position)
    WithHost.host (Host.release number)

/-- Puts away the open regions that are too many, the one used longest ago first. -/
def evictExcess : OnWorld Unit := do
  let world := (← get).1
  (world.recency.drop world.config.maxOpen.toNat).reverse.forM evict
  forgetClosed

def admitRegion (position : RegionPos) (number : Nat) : OnWorld Unit := do
  WithHost.host (Host.hold number)
  change fun world =>
    { world with
      recency := position :: world.recency
      opened := world.opened.insert position number }
  evictExcess

def makeDirectory : OnWorld Unit := do
  let directory := (← get).1.config.directory
  discard (WithHost.host (Host.onTree .making directory (OnTree.makeDirectories directory)))

def fileExists (path : Bytes) : OnWorld Bool :=
  Option.isSome <$> WithHost.host (Host.onTree .examining path (OnTree.examine path))

/-- Opens the file of a region. Without `create` there may be none. -/
def openFresh (position : RegionPos) (create : Bool) : OnWorld (Option Nat) := do
  let world := (← get).1
  let path := world.filePath position
  if create then makeDirectory
  else if !(← fileExists path) then return none
  let number ← WithHost.host (Host.openRegion path position world.config.sync)
  admitRegion position number
  return some number

/-- An open region with a holder for the caller, who lets go of it later. -/
def obtain (position : RegionPos) (create : Bool) : OnWorld (Option Nat) := do
  let (world, host) ← get
  match world.opened.find? position with
  | some number =>
    change fun world =>
      { world with recency := position :: world.recency.erase position }
    WithHost.host (Host.hold number)
    return some number
  | none =>
    match world.parked.lookup position with
    | none => openFresh position create
    | some number =>
      change fun world => { world with parked := erased world.parked position }
      if host.IsOpen number then
        WithHost.host (Host.hold number)
        admitRegion position number
        return some number
      else openFresh position create

/-- Runs an action on the region of a chunk, or gives `absent` if it has no file. -/
def onChunk {Result : Type} [Inhabited Result] (chunk : ChunkPos) (create : Bool)
    (absent : Result) (action : OnRegion Result) : OnWorld Result := do
  match ← obtain chunk.regionOf create with
  | none => return absent
  | some number =>
    try
      let result ← WithHost.host (Host.onRegion number action)
      WithHost.host (Host.release number)
      return result
    catch failure =>
      WithHost.host (Host.release number)
      throw failure

def loadChunk (chunk : ChunkPos) : OnWorld (Option Bytes) :=
  onChunk chunk false none (Region.loadChunk chunk)

def hasChunk (chunk : ChunkPos) : OnWorld Bool :=
  onChunk chunk false false (Region.ask fun region => region.hasChunk chunk)

def timestamp? (chunk : ChunkPos) : OnWorld (Option Int32) :=
  onChunk chunk false none (Region.ask fun region => region.timestamp? chunk)

def deleteChunk (chunk : ChunkPos) : OnWorld Unit :=
  onChunk chunk false () (Region.deleteChunk chunk)

def saveChunk (chunk : ChunkPos) (payload : Bytes) (tag : Option UInt8) : OnWorld Unit := do
  let tag := tag.getD (← get).1.config.method
  onChunk chunk true () (Region.saveChunk chunk payload tag)

/-- Flushes and closes a region, and tells whether it was open. It stays open if the flush fails. -/
def closeRegion (position : RegionPos) : OnWorld Bool := do
  change fun world => { world with parked := erased world.parked position }
  match (← get).1.opened.find? position with
  | none => return false
  | some number =>
    flush number
    park position number
    remove position
    WithHost.host (Host.release number)
    notify (.regionClosed position)
    return true

def tryFlush (position : RegionPos) (number : Nat) : OnWorld (Option Failure) := do
  try
    flush number
    return none
  catch failure =>
    notify (.regionNotFlushed position failure)
    return some failure

/-- Flushes and closes all regions. The first failure of a flush is passed on after that. -/
def closeAll : OnWorld Unit := do
  let entries := (← get).1.opened.entries
  let failures ← entries.filterMapM fun (position, number) => tryFlush position number
  entries.forM fun (position, number) => park position number
  change fun world => { world with recency := [], opened := world.opened.clear }
  entries.forM fun (_, number) => WithHost.host (Host.release number)
  forgetClosed
  match failures with
  | [] => pure ()
  | failure :: _ => throw failure

def destroy : OnWorld Unit := do
  try closeAll
  catch failure => notify (.worldNotClosed (← get).1.config.directory failure)

end World
end RegionStore
