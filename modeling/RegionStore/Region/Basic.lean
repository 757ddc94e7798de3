import RegionStore.Bytes
import RegionStore.Compression
import RegionStore.Coordinates
import RegionStore.Disk.Device
import RegionStore.FreeSpace
import RegionStore.Placement
import RegionStore.Region.Listing
import RegionStore.Region.Tables

/-!
One region in its file. The file starts with the tables, behind which every chunk has an extent with
its record: a length, the tag of the compression method and the payload. Saving writes the record
first and the table words after it, so the tables never point to what is not there yet; an old extent
becomes free only when no table word points to it any more.
-/

set_option autoImplicit false

namespace RegionStore

open Disk

variable [Codec]

structure Region where
  position : RegionPos
  /-- Whether each change is synced before it is made visible and again afterwards. -/
  sync : Bool
  space : FreeSpace
  tables : Tables

abbrev OnRegion := OnFile Region

namespace Region

def lengthSize : Nat := 4

def recordHeaderSize : Nat := 5

/-- The length of the file in sectors, once it is sure that it is a region file or can become one. An
empty file gets empty tables. -/
def prepare : OnDevice UInt32 := do
  let size ← Device.measure
  let path := (← get).path
  if size = 0 then
    Device.writeAt 0 (Bytes.zeros headerSize)
    Device.sync
    Device.notify (.fileCreated path)
    return headerSectors
  if size < headerSize then throw (.fileTooShort path size)
  if size % sectorSize ≠ 0 then throw (.fileRagged path size)
  let sectors := size / sectorSize
  if maxSectorIndex + maxExtentSectors < sectors then throw (.fileTooLarge path sectors)
  return sectors.toUInt32

def readTables : OnDevice Tables := do
  let header ← Device.readAt 0 headerSize
  if header.size ≠ headerSize then throw (.headerUnreadable (← get).path)
  return Tables.ofHeader header

def load (position : RegionPos) (sync : Bool) : OnDevice Region := do
  let sectors ← prepare
  let survey := (← readTables).survey sectors
  let path := (← get).path
  survey.dropped.forM fun entry => Device.notify
    (.entryIgnored path (position.chunkAt entry.slot) entry.extent entry.problem)
  Device.notify (.fileOpened path survey.tables.count)
  return ⟨position, sync, survey.space, survey.tables⟩

def slot (region : Region) (chunk : ChunkPos) : Except Failure Slot :=
  if chunk.regionOf = region.position then .ok chunk.slotOf
  else .error (.foreignChunk chunk region.position)

/-- The record in the bytes that the file has of an extent. Its length decides where it ends, so what
follows it in the extent may be anything. -/
def recordData (chunk : ChunkPos) (extent : Extent) (data : Bytes) : Except Failure Bytes :=
  if data.size < recordHeaderSize then .error (.recordCut chunk)
  else
    let length := data.toWord 0
    let stop := lengthSize + length.toNat
    if length = 0 then .error (.recordEmpty chunk)
    else if length &&& 0x80000000 ≠ 0 then .error (.lengthNegative chunk)
    else if extent.size < stop then .error (.lengthBeyondExtent chunk length extent.count)
    else if data.size < stop then .error (.lengthBeyondFile chunk length)
    else decodeChunk (data.extract lengthSize stop)

def record (data : Bytes) : Bytes := Bytes.ofWord data.size.toUInt32 ++ data

def ask {Result : Type} (question : Region → Except Failure Result) : OnRegion Result := do
  MonadExcept.ofExcept (question (← get).1)

def loadChunk (chunk : ChunkPos) : OnRegion (Option Bytes) := do
  let region := (← get).1
  let slot ← MonadExcept.ofExcept (region.slot chunk)
  match region.tables.extent? slot with
  | none => return none
  | some extent =>
    let data ← OnFile.device (Device.readAt extent.position extent.size)
    some <$> MonadExcept.ofExcept (recordData (region.position.chunkAt slot) extent data)

/-- Writes the timestamp and after it the offset, which makes the change visible. -/
def writeEntry (slot : Slot) (offset : UInt32) (timestamp : Int32) : OnDevice Unit := do
  Device.writeAt (Tables.timestampPosition slot) (Bytes.ofWord timestamp.toUInt32)
  Device.writeAt (Tables.offsetPosition slot) (Bytes.ofWord offset)

def setEntry (slot : Slot) (offset : UInt32) (timestamp : Int32) : OnRegion Unit :=
  modify fun (region, file) =>
    ({ region with tables := region.tables.set slot offset timestamp }, file)

def release (extent : Extent) : OnRegion Unit :=
  modify fun (region, file) => ({ region with space := region.space.release extent }, file)

def onSpace {Result : Type} (action : OnFile FreeSpace Result) : OnRegion Result :=
  fun (region, file) =>
    match action (region.space, file) with
    | .ok result (space, file) => .ok result ({ region with space := space }, file)
    | .error failure (space, file) => .error failure ({ region with space := space }, file)

def syncChange : OnRegion Unit := do
  if (← get).1.sync then OnFile.device Device.sync

/-- Gives a slot new data, which is already encoded. -/
def saveData (slot : Slot) (data : Bytes) : OnRegion Unit := do
  let region := (← get).1
  let old := region.tables.extent? slot
  let new ← onSpace (FreeSpace.place (record data) old region.sync)
  let offset := new.toWord
  let timestamp := (← get).2.around.timestamp
  try
    OnFile.device (writeEntry slot offset timestamp)
  catch failure =>
    if old ≠ some new then release new
    throw failure
  setEntry slot offset timestamp
  match old with
  | some old => if old ≠ new then release old
  | none => pure ()
  syncChange

def saveChunk (chunk : ChunkPos) (payload : Bytes) (tag : UInt8) : OnRegion Unit := do
  let slot ← MonadExcept.ofExcept ((← get).1.slot chunk)
  let data ← MonadExcept.ofExcept (encodeChunk payload tag)
  saveData slot data

def clearSlot (slot : Slot) : OnRegion Unit := do
  match (← get).1.tables.extent? slot with
  | none => pure ()
  | some extent =>
    OnFile.device (writeEntry slot 0 0)
    setEntry slot 0 0
    release extent
    syncChange

/-- Does nothing if there is no such chunk. -/
def deleteChunk (chunk : ChunkPos) : OnRegion Unit := do
  let slot ← MonadExcept.ofExcept ((← get).1.slot chunk)
  clearSlot slot

def hasChunk (region : Region) (chunk : ChunkPos) : Except Failure Bool :=
  (region.slot chunk).map fun slot => (region.tables.extent? slot).isSome

def timestamp? (region : Region) (chunk : ChunkPos) : Except Failure (Option Int32) :=
  (region.slot chunk).map region.tables.timestamp?

def count (region : Region) : Nat := region.tables.count

def findExtent (region : Region) (index : Nat) : Except Failure (Option Extent) :=
  if h : index < slotCount then .ok (region.tables.extent? ⟨index, h⟩)
  else .error (.slotOutOfRange index)

def listing (region : Region) (number : Nat) : Listing :=
  ⟨number, region.position, region.tables.offsets⟩

def flush : OnRegion Unit := OnFile.device Device.sync

/-- Flushes and closes the file; a failure is only reported. -/
def close : OnRegion Unit := do
  try flush
  catch failure =>
    let path := (← get).2.path
    OnFile.device (Device.notify (.fileNotFlushed path failure))
  OnFile.device Device.close

end Region
end RegionStore
