import RegionStore.Bytes
import RegionStore.Deflate.Checksum
import RegionStore.Deflate.Inflate

/-!
Containers of compressed data: a header in front of the blocks and a checksum of the output behind
them. The short container has two header bytes that are divisible by 31 as a number; the long one has
a magic number, flags and optional fields, and also records the length of the output.
-/

set_option autoImplicit false

namespace RegionStore.Deflate

namespace Container
open Inflating

structure Flags where
  bits : Nat

def Flags.checksum (flags : Flags) : Bool := flags.bits.testBit 1
def Flags.extra (flags : Flags) : Bool := flags.bits.testBit 2
def Flags.name (flags : Flags) : Bool := flags.bits.testBit 3
def Flags.comment (flags : Flags) : Bool := flags.bits.testBit 4
def Flags.reserved (flags : Flags) : Bool := flags.bits / 32 ≠ 0

def methodNumber : Nat := 8

def shortHeader : Inflating Unit := do
  let word ← take 16
  let method := word % 256
  let flags := word / 256
  if (256 * method + flags) % 31 ≠ 0 then fail .headerCheck
  if method % 16 ≠ methodNumber then fail .method
  if method / 16 > 7 then fail .windowSize
  if flags.testBit 5 then
    let _dictionary ← take 32
    fail .dictionary

def skipText : Nat → Inflating Unit
  | 0 => throw .truncated
  | bound + 1 => do
    if (← take 8) ≠ 0 then skipText bound

def longHeader : Inflating Unit := do
  if (← take 16) ≠ 0x8B1F then fail .headerCheck
  let word ← take 16
  if word % 256 ≠ methodNumber then fail .method
  let flags := Flags.mk (word / 256)
  if flags.reserved then fail .headerFlags
  let _time ← take 32
  let _level ← take 16
  if flags.extra then
    let length ← take 16
    let _extra ← takeBytes length
  if flags.name then skipText (← bound)
  if flags.comment then skipText (← bound)
  if flags.checksum then
    let header := (← read).extract 0 ((← get).position / 8)
    if (← take 16) ≠ (crc32 header).toNat % 65536 then fail .headerChecksum

def header : Container → Inflating Unit
  | .short => shortHeader
  | .long => longHeader

def trailer : Container → Inflating Unit
  | .short => do
    let checksum := (← takeBytes 4).toWord 0
    if checksum ≠ adler32 (← get).output then fail .checksum
  | .long => do
    if (← take 32) ≠ (crc32 (← get).output).toNat then fail .checksum
    if (← take 32) ≠ (← get).output.size % 4294967296 then fail .outputLength

/-- One container; what follows it is left unread. -/
def content (container : Container) : Inflating Unit := do
  container.header
  stream
  container.trailer

def expand (container : Container) (data : Bytes) : Expansion :=
  match container.content data ⟨0, ByteArray.empty⟩ with
  | .ok _ progress => ⟨progress.output, .ok (data.size - progress.position / 8)⟩
  | .error flaw progress => ⟨progress.output, .error flaw⟩

/-- The header of the usual effort and window, without optional fields. -/
def headerBytes : Container → Bytes
  | .short => ⟨#[0x78, 0x9C]⟩
  | .long => ⟨#[0x1F, 0x8B, 0x08, 0, 0, 0, 0, 0, 0, 0x03]⟩

def trailerBytes (output : Bytes) : Container → Bytes
  | .short => Bytes.ofWord (adler32 output)
  | .long => Bytes.ofWordReversed (crc32 output) ++ Bytes.ofWordReversed output.size.toUInt32

end Container
end RegionStore.Deflate
