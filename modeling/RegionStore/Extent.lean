import RegionStore.Bytes

/-!
Runs of sectors, and the words that tables store them in. A word has room for 24 bits of the first
sector and 8 bits of the count; the word zero stands for no extent at all.
-/

set_option autoImplicit false

namespace RegionStore

def sectorSize : Nat := 4096

/-- The offset and timestamp tables take one sector each, in front of everything else. -/
def headerSectors : UInt32 := 2

def headerSize : Nat := 8192

/-- The largest count and the largest first sector that a table word can hold. -/
def maxExtentSectors : Nat := 0xFF

def maxSectorIndex : Nat := 0xFFFFFF

/-- Contiguous sectors, counted from the start of the file. -/
structure Extent where
  first : UInt32
  count : UInt32
  deriving DecidableEq, Repr

namespace Extent

/-- The sector behind the last one, as a 32-bit word. -/
def stop (extent : Extent) : UInt32 := extent.first + extent.count

def toWord (extent : Extent) : UInt32 := extent.first <<< 8 ||| (extent.count &&& 0xFF)

def ofWord (word : UInt32) : Extent := ⟨word >>> 8, word &&& 0xFF⟩

def position (extent : Extent) : Nat := extent.first.toNat * sectorSize

def size (extent : Extent) : Nat := extent.count.toNat * sectorSize

end Extent

/-- Rounds up; the sum in between is a 64-bit word. The divisor is positive. -/
def ceilDiv (x y : UInt64) : UInt64 := (x + y - 1) / y

def sectorsNeeded (size : UInt64) : UInt64 := ceilDiv size 4096

def sectorsOf (size : Nat) : Nat := (size + (sectorSize - 1)) / sectorSize

end RegionStore
