import RegionStore.Coordinates
import RegionStore.Region.Tables

/-!
The chunks of a region at one moment, and cursors that walk over them in the order of their slots. A
listing keeps its own table, so later changes of the region do not show in it.
-/

set_option autoImplicit false

namespace RegionStore

/-- Two listings are the same if they carry the same number. -/
structure Listing where
  number : Nat
  region : RegionPos
  offsets : Vector UInt32 slotCount

/-- A place in a listing; a cursor that was never placed belongs to none. -/
structure Cursor where
  listing : Option Nat
  index : Nat
  deriving DecidableEq

namespace Listing

def HasSlot (listing : Listing) (index : Nat) : Prop :=
  ∃ h : index < slotCount, listing.offsets[index] ≠ 0

instance (listing : Listing) (index : Nat) : Decidable (listing.HasSlot index) :=
  if h : index < slotCount then
    if present : listing.offsets[index] ≠ 0 then .isTrue ⟨h, present⟩
    else .isFalse fun ⟨_, other⟩ => present other
  else .isFalse fun ⟨other, _⟩ => h other

/-- The first slot with a chunk from `index` on, or the end of the table. -/
def seek (listing : Listing) (index : Nat) : Nat :=
  if index < slotCount then
    if listing.HasSlot index then index else seek listing (index + 1)
  else index
termination_by slotCount - index

def first (listing : Listing) : Cursor := ⟨some listing.number, listing.seek 0⟩

def last (listing : Listing) : Cursor := ⟨some listing.number, listing.seek slotCount⟩

def next (listing : Listing) (cursor : Cursor) : Cursor :=
  { cursor with index := listing.seek (cursor.index + 1) }

def chunk? (listing : Listing) (cursor : Cursor) : Option ChunkPos :=
  if h : cursor.index < slotCount then some (listing.region.chunkAt ⟨cursor.index, h⟩) else none

theorem le_seek (listing : Listing) (index : Nat) : index ≤ listing.seek index := by
  fun_induction seek listing index <;> omega

def chunksFrom (listing : Listing) (cursor : Cursor) : List ChunkPos :=
  if h : cursor.index < slotCount then
    listing.region.chunkAt ⟨cursor.index, h⟩ :: listing.chunksFrom (listing.next cursor)
  else []
termination_by slotCount - cursor.index
decreasing_by
  have := listing.le_seek (cursor.index + 1)
  simp only [next]
  omega

def chunks (listing : Listing) : List ChunkPos := listing.chunksFrom listing.first

end Listing
end RegionStore
