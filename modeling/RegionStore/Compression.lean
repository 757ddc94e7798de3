import RegionStore.Bytes
import RegionStore.Codec
import RegionStore.Deflate.Compress
import RegionStore.Deflate.Stream
import RegionStore.Failure

/-!
The encoding of chunk data: a tag byte that names the compression method, and the payload as that
method leaves it. A tag without a method is refused the same way wherever it comes from.
-/

set_option autoImplicit false

namespace RegionStore

inductive Method where
  | gzip
  | zlib
  | plain
  deriving DecidableEq, Repr

namespace Method

def all : List Method := [gzip, zlib, plain]

def tag : Method → UInt8
  | gzip => 1
  | zlib => 2
  | plain => 3

def name : Method → String
  | gzip => "gzip"
  | zlib => "zlib"
  | plain => "none"

def ofTag? (tag : UInt8) : Option Method := all.find? fun method => method.tag == tag

def ofName? (name : Bytes) : Option Method := all.find? fun method => method.name.toUTF8 = name

def nameOfTag (tag : UInt8) : String :=
  match ofTag? tag with
  | some method => method.name
  | none => "unknown"

def tagged (method : Method) (data : Bytes) : Bytes := ⟨#[method.tag]⟩ ++ data

def container? : Method → Option Deflate.Container
  | gzip => some .long
  | zlib => some .short
  | plain => none

end Method

variable [Codec]

namespace Deflate.Container

/-- The room for the stream of so many bytes, which is the bound as far as 32 bits can count it. -/
def room (container : Container) (size : Nat) : Nat := (Codec.bound container size).toUInt32.toNat

/-- The stream is to be finished by one call. -/
def deflate (container : Container) (data : Bytes) : Except Failure Bytes :=
  if maxCount < data.size then .error (.dataTooLarge data.size)
  else if container.room data.size = 0 then .error (.streamUnfinished .noRoom)
  else
    let stream := Codec.compress container data
    if stream.size ≤ container.room data.size then .ok stream
    else .error (.streamUnfinished .roomUsed)

def inflate (container : Container) (data : Bytes) : Except Failure Bytes :=
  if maxCount < data.size then .error (.dataTooLarge data.size)
  else
    let stream := Stream.start (Codec.expand container data) data
    (stream.drain (Buffer.forInput data.size)).mapError .badStream

end Deflate.Container

namespace Method

def pack (method : Method) (payload : Bytes) : Except Failure Bytes :=
  match method.container? with
  | some container => container.deflate payload
  | none => .ok payload

def unpack (method : Method) (data : Bytes) : Except Failure Bytes :=
  match method.container? with
  | some container => container.inflate data
  | none => .ok data

end Method

def encodeChunk (payload : Bytes) (tag : UInt8) : Except Failure Bytes :=
  match Method.ofTag? tag with
  | some method => (method.pack payload).map method.tagged
  | none => .error (.unknownMethod tag)

def decodeChunk (data : Bytes) : Except Failure Bytes :=
  if h : 0 < data.size then
    match Method.ofTag? data[0] with
    | some method => method.unpack (data.extract 1 data.size)
    | none => .error (.unknownMethod data[0])
  else .error .missingMethod

end RegionStore
