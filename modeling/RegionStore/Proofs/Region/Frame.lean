import RegionStore.Proofs.Region.Intact
import RegionStore.Proofs.Region.Stored

/-!
What the phases of a change leave alone. Placing a record touches only the sectors that were chosen for
it, whether it gets through or not, and writing the words of a slot touches only the header. So the
tables on disk and the records of the other chunks are read as before.
-/

set_option autoImplicit false

namespace RegionStore

open Disk

/-- Extents without a common sector have no common byte. -/
theorem Extent.Apart.bytes {a b : Extent} (apart : a.Apart b) (nonemptyA : 0 < a.count.toNat)
    (nonemptyB : 0 < b.count.toNat) :
    a.position + a.size ≤ b.position ∨ b.position + b.size ≤ a.position := by
  rw [Extent.position_add_size, Extent.position_add_size]
  rcases (Extent.apart_iff nonemptyA nonemptyB).1 apart with before | behind
  · exact .inl (Nat.mul_le_mul_right _ before)
  · exact .inr (Nat.mul_le_mul_right _ behind)

theorem Extent.Inside.position_ge {extent : Extent} {sectors : Nat} (inside : extent.Inside sectors) :
    headerSize ≤ extent.position := by
  have header := inside.behindHeader
  rw [Extent.headerSectors_toNat] at header
  rw [Extent.position, headerSize, sectorSize]
  omega

theorem Extent.Inside.end_le {extent : Extent} {sectors : Nat} (inside : extent.Inside sectors) :
    extent.position + extent.size ≤ sectors * sectorSize := by
  rw [Extent.position_add_size]
  exact Nat.mul_le_mul_right _ inside.within

namespace Disk

/-- What is read in front of `limit` and outside the range from `first` to `last` is as before. -/
def Device.Spares (before after : Device) (limit first last : Nat) : Prop :=
  ∀ start count, start + count ≤ limit → start + count ≤ first ∨ last ≤ start →
    after.content.read start count = before.content.read start count

namespace Device

theorem Keeps.spares {before after : Device} (keeps : before.Keeps after) (limit first last : Nat) :
    before.Spares after limit first last := by
  intro start count _ _
  rw [keeps.content]

theorem Spares.trans {a b c : Device} {limit first last : Nat} (earlier : a.Spares b limit first last)
    (later : b.Spares c limit first last) : a.Spares c limit first last := by
  intro start count inside outside
  rw [later start count inside outside, earlier start count inside outside]

theorem Wrote.spares {before after : Device} {position limit first last : Nat} {data : Bytes}
    (wrote : before.Wrote position data after) (present : limit ≤ before.content.size)
    (front : first ≤ position) (back : position + data.size ≤ last) :
    before.Spares after limit first last := by
  intro start count inside outside
  apply wrote.read_other
  · omega
  · omega

end Device

theorem Content.read_resize {content : Content} {size start count : Nat} (inside : start + count ≤ size)
    (present : start + count ≤ content.size) :
    (content.resize size).read start count = content.read start count := by
  apply Content.read_congr
  · rw [Content.size_resize]
    omega
  · intro index short
    rw [Content.byteAt_resize, if_pos (by omega)]

end Disk

/-- A record that was placed is read back. -/
theorem FreeSpace.Placed.read_own {file after : Device} {space next : FreeSpace} {old : Option Extent}
    {record : Bytes} {extent : Extent} (placed : Placed space file old record extent next after) :
    after.content.read extent.position extent.size = extent.padded record := by
  rw [← Extent.size_padded placed.target.fits]
  exact placed.wrote.read_self

/-- A record that has not got through leaves the other sectors alone. -/
theorem FreeSpace.Spoiled.spares {file after : Device} {space : FreeSpace} {extent : Extent}
    {data : Bytes} (spoiled : Spoiled file space extent data after)
    (covered : space.sectors.toNat * sectorSize ≤ file.content.size) :
    file.Spares after (space.sectors.toNat * sectorSize) extent.position
      (extent.position + data.size) := by
  obtain ⟨count, _, between, wrote, ending⟩ := spoiled.content
  have spared : file.Spares between (space.sectors.toNat * sectorSize) extent.position
      (extent.position + data.size) := by
    apply wrote.spares covered (Nat.le_refl _)
    rw [ByteArray.size_extract]
    omega
  intro start length inside outside
  rw [← spared start length inside outside]
  rcases ending with same | ⟨_, cut⟩
  · rw [same]
  · rw [cut]
    exact Content.read_resize inside (Nat.le_trans inside (Nat.le_trans covered wrote.size_le))

namespace Region

section
variable {slot : Slot} {offset : UInt32} {timestamp : Int32} {file after : Device}

theorem timestampPosition_within (slot : Slot) (word : UInt32) :
    Tables.timestampPosition slot + (Bytes.ofWord word).size ≤ headerSize := by
  rw [Bytes.size_ofWord]
  exact timestampPosition_bounded slot

theorem offsetPosition_within (slot : Slot) (word : UInt32) :
    Tables.offsetPosition slot + (Bytes.ofWord word).size ≤ headerSize := by
  have bounded := offsetPosition_bounded slot
  rw [sectorSize] at bounded
  rw [Bytes.size_ofWord, headerSize]
  omega

theorem extract_within {position stop : Nat} {data : Bytes} (within : position + data.size ≤ stop)
    (count : Nat) : position + (data.extract 0 count).size ≤ stop := by
  rw [ByteArray.size_extract]
  omega

theorem EntryWritten.confined (written : EntryWritten slot offset timestamp file after)
    (enough : headerSize ≤ file.content.size) :
    after.content.size = file.content.size ∧ file.Spares after file.content.size 0 headerSize := by
  obtain ⟨between, first, second⟩ := written.words
  have inFirst := timestampPosition_within slot timestamp.toUInt32
  have inSecond := offsetPosition_within slot offset
  have size := first.size (Nat.le_trans inFirst enough)
  constructor
  · rw [← size]
    exact second.size (Nat.le_trans inSecond (size ▸ enough))
  · exact (first.spares (Nat.le_refl _) (Nat.zero_le _) inFirst).trans
      (second.spares (Nat.le_of_eq size.symm) (Nat.zero_le _) inSecond)

theorem EntryCut.confined (cut : EntryCut slot offset timestamp file after)
    (enough : headerSize ≤ file.content.size) :
    after.content.size = file.content.size ∧ file.Spares after file.content.size 0 headerSize := by
  have inFirst := timestampPosition_within slot timestamp.toUInt32
  cases cut with
  | first count short wrote =>
    have inside := extract_within inFirst count
    exact ⟨wrote.size (Nat.le_trans inside enough),
      wrote.spares (Nat.le_refl _) (Nat.zero_le _) inside⟩
  | second between count short whole wrote =>
    have inside := extract_within (offsetPosition_within slot offset) count
    have size := whole.size (Nat.le_trans inFirst enough)
    constructor
    · rw [← size]
      exact wrote.size (Nat.le_trans inside (size ▸ enough))
    · exact (whole.spares (Nat.le_refl _) (Nat.zero_le _) inFirst).trans
        (wrote.spares (Nat.le_of_eq size.symm) (Nat.zero_le _) inside)

/-- The tables on disk are spared by what happens behind them. -/
theorem stored_of_spares {limit first last : Nat} (spares : file.Spares after limit first last)
    (header : headerSize ≤ limit) (behind : headerSize ≤ first) :
    stored after.content = stored file.content := by
  unfold stored
  rw [spares 0 headerSize (by omega) (.inl (by omega))]

end

section
variable {limit : Nat} {region : Region} {file : Device} (intact : Intact limit region file)
include intact

theorem Intact.header_le : headerSize ≤ region.space.sectors.toNat * sectorSize := by
  have header := intact.partitioned.header
  rw [Extent.headerSectors_toNat] at header
  rw [headerSize, sectorSize]
  omega

theorem Intact.header_present : headerSize ≤ file.content.size :=
  Nat.le_trans intact.header_le intact.covered

theorem Intact.nonempty : file.content.size ≠ 0 := by
  have header := intact.header_present
  rw [headerSize] at header
  omega

section
variable {slot : Slot} {data : Bytes} {extent : Extent} {next : FreeSpace}
  (target : FreeSpace.Target region.space (region.tables.extent? slot)
    (sectorsOf (record data).size) extent next)
  (small : sectorsOf (record data).size ≤ maxExtentSectors)
include target small

theorem Intact.target_inside : extent.Inside next.sectors.toNat ∧
    region.space.sectors.toNat ≤ next.sectors.toNat := by
  rcases target.stays_or_takes intact.partitioned.sound intact.partitioned.header
    (record_size_pos data) small with ⟨same, kept⟩ | ⟨_, _, takes⟩
  · rw [kept]
    exact ⟨intact.partitioned.inside slot extent same, Nat.le_refl _⟩
  · exact ⟨takes.inside, takes.longer⟩

/-- A record goes to sectors apart from all chunks, unless it stays where it is. -/
theorem Intact.target_apart {other : Slot} {place : Extent}
    (found : region.tables.extent? other = some place) (elsewhere : other ≠ slot ∨ place ≠ extent) :
    place.Apart extent := by
  rcases target.stays_or_takes intact.partitioned.sound intact.partitioned.header
    (record_size_pos data) small with ⟨same, _⟩ | ⟨_, _, takes⟩
  · refine intact.partitioned.apart other slot ?_ place extent found same
    rintro rfl
    rcases elsewhere with different | different
    · exact different rfl
    · exact different (Option.some.inj (found.symm.trans same))
  · intro sector holds holdsNew
    have within := (intact.partitioned.inside other place found).within
    exact intact.partitioned.occupied found holds
      (takes.fresh sector holdsNew (Nat.lt_of_lt_of_le holds.2 within))

theorem Intact.read_of_spares {after : Device} (spares : file.Spares after
      (region.space.sectors.toNat * sectorSize) extent.position (extent.position + extent.size))
    {other : Slot} {place : Extent} (found : region.tables.extent? other = some place)
    (elsewhere : other ≠ slot ∨ place ≠ extent) :
    after.content.read place.position place.size = file.content.read place.position place.size := by
  have inside := intact.partitioned.inside other place found
  have nonempty := (intact.target_inside target small).1.nonempty
  apply spares _ _ inside.end_le
  exact (intact.target_apart target small found elsewhere).bytes inside.nonempty nonempty

end

/-- When a record has not been placed, other records are still there, and also the old one of its chunk
if that was to move. -/
theorem Intact.read_of_unplaced {slot : Slot} {data : Bytes} {failure : Failure} {after : Device}
    (cause : FreeSpace.Unplaced region.space file (region.tables.extent? slot) (record data) failure
      after)
    {other : Slot} {place : Extent} (found : region.tables.extent? other = some place)
    (elsewhere : other ≠ slot ∨ place.count.toNat < sectorsOf (record data).size) :
    after.content.read place.position place.size = file.content.read place.position place.size := by
  cases cause with
  | rejected same why => rw [same]
  | spoiled troubled small extent next target spoiled cut =>
    have spares := spoiled.spares intact.covered
    rw [Extent.size_padded target.fits] at spares
    apply intact.read_of_spares target small spares found
    refine elsewhere.imp_right fun moves same => ?_
    have fits := target.fits
    rw [← same] at fits
    exact Nat.not_le_of_lt moves fits

section
variable {slot : Slot} {data : Bytes} {extent : Extent} {next : FreeSpace} {placed : Device}
  (wrote : FreeSpace.Placed region.space file (region.tables.extent? slot) (record data) extent next
    placed)
include wrote

theorem Intact.placed_spares : file.Spares placed (region.space.sectors.toNat * sectorSize)
    extent.position (extent.position + extent.size) := by
  apply wrote.wrote.spares intact.covered (Nat.le_refl _)
  rw [Extent.size_padded wrote.target.fits]

theorem Intact.placed_stored : stored placed.content = stored file.content :=
  stored_of_spares (intact.placed_spares wrote) intact.header_le
    (intact.target_inside wrote.target wrote.small).1.position_ge

theorem Intact.placed_size :
    placed.content.size = max file.content.size (extent.position + extent.size) := by
  have nonempty := (intact.target_inside wrote.target wrote.small).1.nonempty
  have size := wrote.wrote.content.size
  rw [Content.size_write, Extent.size_padded wrote.target.fits, if_neg] at size
  · exact size
  · rw [Extent.size, sectorSize]
    omega

end

end

end Region
end RegionStore
