import RegionStore.Bytes
import RegionStore.Codec
import RegionStore.Coordinates
import RegionStore.Decimal
import RegionStore.Errno
import RegionStore.Extent

/-!
Why an operation fails. Every cause is a constructor with the values it is reported with; the wording
is in `Failure.message`, the broad kind in `Failure.kind`. A chunk that is absent is not a failure.
-/

set_option autoImplicit false

namespace RegionStore

/-- The calls by which files are used. A path is examined and a directory is made without opening anything. -/
inductive FileCall where
  | examining
  | making
  | opening
  | closing
  | reading
  | writing
  | measuring
  | resizing
  | syncing
  deriving DecidableEq, Repr

namespace FileCall

open Bytes

/-- What is said of an open file when the call is refused. -/
def failed (deed : String) (path : Bytes) : Bytes := concat [deed, " ", quoted path, " failed"]

/-- Without an open file the reason is told here already. -/
def statement (path : Bytes) (reason : Errno) : FileCall → Bytes
  | examining => concat ["Can't check existence of ", quoted path, ": ", reason.text]
  | making => concat ["Can't create directory ", quoted path, ": ", reason.text]
  | opening => failed "Opening" path
  | closing => failed "Closing" path
  | reading => failed "Reading" path
  | writing => failed "Writing" path
  | measuring => failed "Getting size of" path
  | resizing => failed "Resizing" path
  | syncing => failed "Syncing" path

end FileCall

inductive Failure where
  | missingMethod
  | unknownMethod (tag : UInt8)
  | dataTooLarge (size : Nat)
  | streamUnfinished (stop : Deflate.Stop)
  | recordTooLarge (sectors : Nat)
  | regionFull (path : Bytes) (sector : UInt32)
  | fileTooShort (path : Bytes) (size : Nat)
  | fileRagged (path : Bytes) (size : Nat)
  | fileTooLarge (path : Bytes) (sectors : Nat)
  | headerUnreadable (path : Bytes)
  | recordCut (chunk : ChunkPos)
  | recordEmpty (chunk : ChunkPos)
  | lengthNegative (chunk : ChunkPos)
  | lengthBeyondExtent (chunk : ChunkPos) (length sectors : UInt32)
  | lengthBeyondFile (chunk : ChunkPos) (length : UInt32)
  | badStream (flaw : Deflate.Flaw)
  | refused (call : FileCall) (path : Bytes) (reason : Errno)
  | noProgress (path : Bytes)
  | foreignChunk (chunk : ChunkPos) (region : RegionPos)
  | slotOutOfRange (index : Nat)
  deriving DecidableEq

namespace Failure

inductive Kind where
  | format
  | corruption
  | io (code : Int)
  | invalidArgument
  | outOfRange
  deriving DecidableEq, Repr

def kind : Failure → Kind
  | missingMethod | unknownMethod _ | dataTooLarge _ | streamUnfinished _ | recordTooLarge _
  | regionFull _ _ | fileTooShort _ _ | fileRagged _ _ | fileTooLarge _ _ | headerUnreadable _ => .format
  | recordCut _ | recordEmpty _ | lengthNegative _ | lengthBeyondExtent _ _ _
  | lengthBeyondFile _ _ | badStream _ => .corruption
  | refused _ _ reason => .io reason.code
  | noProgress _ => .io 0
  | foreignChunk _ _ => .invalidArgument
  | slotOutOfRange _ => .outOfRange

open Bytes Decimal in
def statement : Failure → Bytes
  | missingMethod => "Missing compression type"
  | unknownMethod tag => concat ["Invalid compression type ", print tag.toNat]
  | dataTooLarge size => concat ["Chunk data is too large: ", print size, " bytes"]
  | streamUnfinished stop => concat ["Failed to compress chunk data: ", stop.text]
  | recordTooLarge sectors =>
    concat ["Chunk record is too large: requires ", print sectors, " sectors, limit is ",
      print maxExtentSectors]
  | regionFull path sector =>
    concat ["Region file ", quoted path, " is full: sector index ", print sector.toNat,
      " can't be stored in offsets table"]
  | fileTooShort path size =>
    concat ["Region file ", quoted path, " is too short: ", print size, " bytes, header requires ",
      print headerSize]
  | fileRagged path size =>
    concat ["Region file ", quoted path, " size ", print size,
      " is not multiple of sector size ", print sectorSize]
  | fileTooLarge path sectors =>
    concat ["Region file ", quoted path, " is too large: ", print sectors, " sectors"]
  | headerUnreadable path => concat ["Can't read header of region file ", quoted path]
  | recordCut chunk =>
    concat ["Chunk ", chunk.text, " has truncated header, extent is past end of file"]
  | recordEmpty chunk => concat ["Chunk ", chunk.text, " is allocated but has no data"]
  | lengthNegative chunk => concat ["Chunk ", chunk.text, " has negative length"]
  | lengthBeyondExtent chunk length sectors =>
    concat ["Chunk ", chunk.text, " length ", print length.toNat, " exceeds its extent of ",
      print sectors.toNat, " sectors"]
  | lengthBeyondFile chunk length =>
    concat ["Chunk ", chunk.text, " length ", print length.toNat, " goes past end of file"]
  | badStream .truncated => "Compressed chunk data is truncated"
  | badStream (.corrupted defect) =>
    concat ["Compressed chunk data is corrupted: ", defect.text]
  | badStream (.excess byteCount) =>
    concat ["Unexpected ", print byteCount, " bytes after end of compressed chunk data"]
  | refused call path reason => call.statement path reason
  | noProgress path => concat ["Writing ", quoted path, " made no progress"]
  | foreignChunk chunk region => concat [chunk.text, " doesn't belong to ", region.text]
  | slotOutOfRange index => concat ["Local index ", print index, " is out of range"]

/-- A failure of the operating system ends with its reason. -/
def message (failure : Failure) : Bytes :=
  match failure.kind with
  | .io code => withReason failure.statement code
  | _ => failure.statement.beforeZero

end Failure
end RegionStore
