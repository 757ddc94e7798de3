import RegionStore.Bytes

/-!
What is relied on of the library that compresses. It puts data into a stream in one of two containers and
takes them out again. A stream is read in order, so what has been made out of its beginning stays decided
whatever follows.
-/

set_option autoImplicit false

namespace RegionStore

namespace Deflate

inductive Container where
  | short
  | long
  deriving DecidableEq, Repr

inductive Defect where
  | headerCheck
  | method
  | windowSize
  | dictionary
  | headerFlags
  | headerChecksum
  | blockType
  | storedLengths
  | symbolCounts
  | lengthCode
  | lengthRepeat
  | noEndOfBlock
  | literalCode
  | distanceCode
  | literalWord
  | distanceWord
  | farDistance
  | checksum
  | outputLength
  deriving DecidableEq, Repr

def Defect.text : Defect → String
  | .headerCheck => "incorrect header check"
  | .method => "unknown compression method"
  | .windowSize => "invalid window size"
  | .dictionary => "need dictionary"
  | .headerFlags => "unknown header flags set"
  | .headerChecksum => "header crc mismatch"
  | .blockType => "invalid block type"
  | .storedLengths => "invalid stored block lengths"
  | .symbolCounts => "too many length or distance symbols"
  | .lengthCode => "invalid code lengths set"
  | .lengthRepeat => "invalid bit length repeat"
  | .noEndOfBlock => "invalid code -- missing end-of-block"
  | .literalCode => "invalid literal/lengths set"
  | .distanceCode => "invalid distances set"
  | .literalWord => "invalid literal/length code"
  | .distanceWord => "invalid distance code"
  | .farDistance => "invalid distance too far back"
  | .checksum => "incorrect data check"
  | .outputLength => "incorrect length check"

inductive Flaw where
  | truncated
  | corrupted (defect : Defect)
  | excess (byteCount : Nat)
  deriving DecidableEq, Repr

/-- How a call that is to finish a stream ends short of that: it has no room at all, or the room is used
up. The latter is no error to the library, which has no text for it. -/
inductive Stop where
  | noRoom
  | roomUsed
  deriving DecidableEq, Repr

def Stop.text : Stop → String
  | .noRoom => "buffer error"
  | .roomUsed => ""

/-- Input and room are counted in 32 bits. -/
def maxCount : Nat := 4294967295

end Deflate

open Deflate

/-- What is made out of data: the output, and how many bytes stay unread behind the end of the stream or
why there is no end. -/
structure Expansion where
  output : Bytes
  ending : Except Flaw Nat

class Codec where
  /-- The room that is enough for the stream of so many bytes. -/
  bound : Container → Nat → Nat
  compress : Container → Bytes → Bytes
  expand : Container → Bytes → Expansion

/-- The codec keeps to its bound, gives back what it was given, and does not take back what it has decided
before it has seen all data. -/
class LawfulCodec [Codec] : Prop where
  size_compress_le (container : Container) (data : Bytes) :
    (Codec.compress container data).size ≤ Codec.bound container data.size
  expand_compress (container : Container) (data : Bytes) :
    Codec.expand container (Codec.compress container data) = ⟨data, .ok 0⟩
  expand_append (container : Container) (data more : Bytes)
    (decided : (Codec.expand container data).ending ≠ .error .truncated) :
    Codec.expand container (data ++ more) =
      ⟨(Codec.expand container data).output,
        (Codec.expand container data).ending.map (· + more.size)⟩

end RegionStore
