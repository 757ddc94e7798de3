import RegionStore.Bytes
import RegionStore.Decimal

/-!
Chunks lie on an integer grid and are grouped into square regions. A chunk is addressed by its region
and a slot inside it; `slotOf` and `regionOf` find both, `RegionPos.chunkAt` goes back.
-/

set_option autoImplicit false

namespace RegionStore

structure ChunkPos where
  x : Int32
  z : Int32
  deriving DecidableEq, Repr

/-- The position of a region, counted in regions. -/
structure RegionPos where
  x : Int32
  z : Int32
  deriving DecidableEq, Repr

def regionWidth : Nat := 32

def slotCount : Nat := 1024

abbrev Slot := Fin slotCount

/-- Rounds toward negative infinity. The divisor is positive. -/
def floorDiv (x y : Int32) : Int32 :=
  if x % y < 0 then x / y - 1 else x / y

def floorMod (x y : Int32) : Int32 :=
  if x % y < 0 then x % y + y else x % y

namespace ChunkPos

def regionOf (chunk : ChunkPos) : RegionPos :=
  ⟨floorDiv chunk.x 32, floorDiv chunk.z 32⟩

/-- Slots are numbered along x first. -/
def slotOf (chunk : ChunkPos) : Slot :=
  let index := (floorMod chunk.x 32).toInt.toNat + (floorMod chunk.z 32).toInt.toNat * regionWidth
  ⟨index % slotCount, Nat.mod_lt _ (by decide)⟩

def text (chunk : ChunkPos) : Bytes :=
  Bytes.concat ["chunk(", Decimal.print chunk.x.toInt, ", ", Decimal.print chunk.z.toInt, ")"]

end ChunkPos

namespace RegionPos

def chunkAt (region : RegionPos) (slot : Slot) : ChunkPos :=
  ⟨region.x * 32 + Int32.ofNat (slot.val % regionWidth),
    region.z * 32 + Int32.ofNat (slot.val / regionWidth)⟩

def text (region : RegionPos) : Bytes :=
  Bytes.concat ["region(", Decimal.print region.x.toInt, ", ", Decimal.print region.z.toInt, ")"]

def fileName (region : RegionPos) : Bytes :=
  Bytes.concat ["r.", Decimal.print region.x.toInt, ".", Decimal.print region.z.toInt, ".mca"]

end RegionPos
end RegionStore
