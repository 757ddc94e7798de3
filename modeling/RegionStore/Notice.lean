import RegionStore.Bytes
import RegionStore.Compression
import RegionStore.Coordinates
import RegionStore.Decimal
import RegionStore.Extent
import RegionStore.Failure

/-!
What the library reports besides its results. A notice is either plain information or a warning, and
its wording is in `Notice.text`.
-/

set_option autoImplicit false

namespace RegionStore

inductive EntryProblem where
  | overlapsHeader
  | noSectors
  | pastEnd
  | overlapsChunk
  deriving DecidableEq, Repr

def EntryProblem.text : EntryProblem → String
  | .overlapsHeader => "overlaps header"
  | .noSectors => "has zero sectors"
  | .pastEnd => "goes past end of file"
  | .overlapsChunk => "overlaps another chunk"

inductive Notice where
  | fileCreated (path : Bytes)
  | fileOpened (path : Bytes) (chunks : Nat)
  | regionEvicted (region : RegionPos)
  | regionClosed (region : RegionPos)
  | defaultsUsed (path : Bytes)
  | entryIgnored (path : Bytes) (chunk : ChunkPos) (extent : Extent) (problem : EntryProblem)
  | tailNotCut (failure : Failure)
  | closeFailed (path : Bytes)
  | fileNotFlushed (path : Bytes) (failure : Failure)
  | evictedNotFlushed (region : RegionPos) (failure : Failure)
  | regionNotFlushed (region : RegionPos) (failure : Failure)
  | worldNotClosed (directory : Bytes) (failure : Failure)
  | notWritable (path : Bytes)
  | notWritten (path : Bytes)
  | badInteger (value key : Bytes)
  | unknownMethodName (name : Bytes) (fallback : String)
  deriving DecidableEq

namespace Notice

def IsWarning : Notice → Prop
  | fileCreated _ | fileOpened _ _ | regionEvicted _ | regionClosed _ | defaultsUsed _ => False
  | _ => True

instance (notice : Notice) : Decidable notice.IsWarning := by
  unfold IsWarning
  split <;> infer_instance

open Bytes Decimal in
def text : Notice → Bytes
  | fileCreated path => concat ["Created region file ", quoted path]
  | fileOpened path chunks =>
    concat ["Opened region file ", quoted path, " with ", print chunks, " chunks"]
  | regionEvicted region => concat ["Evicted ", region.text]
  | regionClosed region => concat ["Closed ", region.text]
  | defaultsUsed path => concat ["Can't open settings file ", quoted path, ", using defaults"]
  | entryIgnored path chunk extent problem =>
    concat ["Region file ", quoted path, " has invalid offset entry for ", chunk.text,
      ": sectors [", print extent.first.toNat, "; ", print extent.stop.toNat, ") ", problem.text,
      ", ignoring it"]
  | tailNotCut failure =>
    concat ["Can't truncate region file after failed write: ", failure.message]
  | closeFailed path => concat ["Failed to close file ", quoted path]
  | fileNotFlushed path failure =>
    concat ["Failed to flush region file ", quoted path, ": ", failure.message]
  | evictedNotFlushed region failure =>
    concat ["Failed to flush evicted ", region.text, ": ", failure.message]
  | regionNotFlushed region failure =>
    concat ["Failed to flush ", region.text, ": ", failure.message]
  | worldNotClosed directory failure =>
    concat ["Failed to close regions in ", quoted directory, ": ", failure.message]
  | notWritable path => concat ["Can't open file ", quoted path]
  | notWritten path => concat ["Failed to flush file ", quoted path]
  | badInteger value key =>
    concat ["Invalid integer value ", quoted value, " of setting ", quoted key]
  | unknownMethodName name fallback =>
    concat ["Unknown region compression ", quoted name, ", using ", fallback]

def line (notice : Notice) : Bytes :=
  if notice.IsWarning then Bytes.concat ["Warning: ", notice.text] else notice.text

end Notice
end RegionStore
