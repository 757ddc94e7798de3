import Mathlib.Algebra.Group.Int.Defs
import Mathlib.Algebra.Group.Nat.Defs
import RegionStore.Coordinates

/-!
Chunks, regions and slots. Each chunk has one slot in one region, and going back from there gives the
chunk again.
-/

set_option autoImplicit false

namespace RegionStore

/-- Division toward zero is division downward, or one more than that for a negative number that is no
multiple. -/
theorem truncated_cases (x : Int) {y : Int} (positive : 0 < y) :
    x.tdiv y = x / y ∧ x.tmod y = x % y ∧ 0 ≤ x.tmod y ∨
      x.tdiv y = x / y + 1 ∧ x.tmod y = x % y - y ∧ x.tmod y < 0 := by
  have divided : x.tdiv y = x / y + if 0 ≤ x ∨ y ∣ x then 0 else y.sign := Int.tdiv_eq_ediv
  have rest : x.tmod y = x % y - if 0 ≤ x ∨ y ∣ x then 0 else y.natAbs := Int.tmod_eq_emod
  have low : 0 ≤ x % y := Int.emod_nonneg x (Int.ne_of_gt positive)
  have high : x % y < y := Int.emod_lt_of_pos x positive
  by_cases exact : 0 ≤ x ∨ y ∣ x
  · rw [if_pos exact] at divided rest
    omega
  · rw [if_neg exact] at divided rest
    rw [Int.sign_eq_one_of_pos positive] at divided
    omega

theorem bmod_of_small {x : Int} (low : -2 ^ 31 ≤ x) (high : x < 2 ^ 31) : x.bmod (2 ^ 32) = x :=
  Int.bmod_eq_of_le_mul_two (by omega) (by omega)

theorem bmod_emod_width (x : Int) : x.bmod (2 ^ 32) % 32 = x % 32 := by
  have divides : (32 : Int) ∣ ((2 ^ 32 : Nat) : Int) := by decide
  rw [← Int.emod_emod_of_dvd _ divides, Int.bmod_emod, Int.emod_emod_of_dvd _ divides]

section
variable (x : Int32)

theorem floorMod_toInt {y : Int32} (positive : 0 < y) : (floorMod x y).toInt = x.toInt % y.toInt := by
  have rest : (x % y).toInt = x.toInt.tmod y.toInt := Int32.toInt_mod x y
  have zero : (0 : Int32).toInt = 0 := rfl
  have above : 0 < y.toInt := Int32.lt_iff_toInt_lt.1 positive
  have high := Int32.toInt_lt y
  have low : 0 ≤ x.toInt % y.toInt := Int.emod_nonneg _ (Int.ne_of_gt above)
  have less : x.toInt % y.toInt < y.toInt := Int.emod_lt_of_pos _ above
  unfold floorMod
  simp only [Int32.lt_iff_toInt_lt, rest, zero]
  rcases truncated_cases x.toInt above with ⟨_, same, nonnegative⟩ | ⟨_, lacks, negative⟩
  · rw [if_neg (Int.not_lt.2 nonnegative), rest, same]
  · rw [if_pos negative, Int32.toInt_add, rest, lacks, bmod_of_small (by omega) (by omega)]
    omega

theorem ediv_within {y : Int} (positive : 0 < y) : -2 ^ 31 ≤ x.toInt / y ∧ x.toInt / y < 2 ^ 31 := by
  have low := Int32.le_toInt x
  have high := Int32.toInt_lt x
  exact ⟨Int.le_ediv_of_mul_le positive (by omega), Int.ediv_lt_of_lt_mul positive (by omega)⟩

theorem floorDiv_toInt {y : Int32} (positive : 0 < y) : (floorDiv x y).toInt = x.toInt / y.toInt := by
  have rest : (x % y).toInt = x.toInt.tmod y.toInt := Int32.toInt_mod x y
  have zero : (0 : Int32).toInt = 0 := rfl
  have one : (1 : Int32).toInt = 1 := rfl
  have above : 0 < y.toInt := Int32.lt_iff_toInt_lt.1 positive
  have notMinusOne : y ≠ -1 := by
    rintro rfl
    exact absurd positive (by decide)
  have quotient : (x / y).toInt = x.toInt.tdiv y.toInt := Int32.toInt_div_of_ne_right x y notMinusOne
  obtain ⟨low, high⟩ := ediv_within x above
  unfold floorDiv
  simp only [Int32.lt_iff_toInt_lt, rest, zero]
  rcases truncated_cases x.toInt above with ⟨same, _, nonnegative⟩ | ⟨more, _, negative⟩
  · rw [if_neg (Int.not_lt.2 nonnegative), quotient, same]
  · rw [if_pos negative, Int32.toInt_sub, quotient, one, more, bmod_of_small (by omega) (by omega)]
    omega

end

namespace ChunkPos

theorem regionOf_x (chunk : ChunkPos) : chunk.regionOf.x.toInt = chunk.x.toInt / 32 :=
  floorDiv_toInt chunk.x (by decide)

theorem regionOf_z (chunk : ChunkPos) : chunk.regionOf.z.toInt = chunk.z.toInt / 32 :=
  floorDiv_toInt chunk.z (by decide)

theorem slotOf_val (chunk : ChunkPos) :
    (chunk.slotOf.val : Int) = chunk.x.toInt % 32 + chunk.z.toInt % 32 * 32 := by
  have unfolded : chunk.slotOf.val =
      ((floorMod chunk.x 32).toInt.toNat + (floorMod chunk.z 32).toInt.toNat * 32) % 1024 := rfl
  have x : (floorMod chunk.x 32).toInt = chunk.x.toInt % 32 := floorMod_toInt chunk.x (by decide)
  have z : (floorMod chunk.z 32).toInt = chunk.z.toInt % 32 := floorMod_toInt chunk.z (by decide)
  rw [unfolded, x, z]
  omega

end ChunkPos

namespace RegionPos

theorem chunkAt_x (region : RegionPos) (slot : Slot) :
    (region.chunkAt slot).x.toInt = (region.x.toInt * 32 + (slot.val % 32 : Nat)).bmod (2 ^ 32) := by
  have width : (32 : Int32).toInt = 32 := rfl
  have part : (Int32.ofNat (slot.val % 32)).toInt = (slot.val % 32 : Nat) :=
    Int32.toInt_ofNat_of_lt (by omega)
  change (region.x * 32 + Int32.ofNat (slot.val % 32)).toInt = _
  rw [Int32.toInt_add, Int32.toInt_mul, width, part, Int.bmod_add_bmod]

theorem chunkAt_z (region : RegionPos) (slot : Slot) :
    (region.chunkAt slot).z.toInt = (region.z.toInt * 32 + (slot.val / 32 : Nat)).bmod (2 ^ 32) := by
  have width : (32 : Int32).toInt = 32 := rfl
  have small : slot.val < 1024 := slot.isLt
  have part : (Int32.ofNat (slot.val / 32)).toInt = (slot.val / 32 : Nat) :=
    Int32.toInt_ofNat_of_lt (by omega)
  change (region.z * 32 + Int32.ofNat (slot.val / 32)).toInt = _
  rw [Int32.toInt_add, Int32.toInt_mul, width, part, Int.bmod_add_bmod]

/-- This holds also where chunk coordinates overflow. -/
theorem slotOf_chunkAt (region : RegionPos) (slot : Slot) : (region.chunkAt slot).slotOf = slot := by
  have small : slot.val < 1024 := slot.isLt
  have value := (region.chunkAt slot).slotOf_val
  rw [chunkAt_x, chunkAt_z, bmod_emod_width, bmod_emod_width] at value
  apply Fin.ext
  omega

theorem chunkAt_slotOf (chunk : ChunkPos) : chunk.regionOf.chunkAt chunk.slotOf = chunk := by
  have value := chunk.slotOf_val
  have lowX := Int32.le_toInt chunk.x
  have highX := Int32.toInt_lt chunk.x
  have lowZ := Int32.le_toInt chunk.z
  have highZ := Int32.toInt_lt chunk.z
  have x : (chunk.regionOf.chunkAt chunk.slotOf).x = chunk.x := by
    apply Int32.toInt_inj.1
    rw [chunkAt_x, chunk.regionOf_x, bmod_of_small (by omega) (by omega)]
    omega
  have z : (chunk.regionOf.chunkAt chunk.slotOf).z = chunk.z := by
    apply Int32.toInt_inj.1
    rw [chunkAt_z, chunk.regionOf_z, bmod_of_small (by omega) (by omega)]
    omega
  calc chunk.regionOf.chunkAt chunk.slotOf
    _ = ⟨(chunk.regionOf.chunkAt chunk.slotOf).x, (chunk.regionOf.chunkAt chunk.slotOf).z⟩ := rfl
    _ = chunk := by rw [x, z]

/-- All chunks of the region have coordinates of 32 bits. -/
def Fits (region : RegionPos) : Prop :=
  ∀ offset : Nat, offset < regionWidth →
    (-2 ^ 31 ≤ region.x.toInt * regionWidth + offset ∧ region.x.toInt * regionWidth + offset < 2 ^ 31) ∧
      -2 ^ 31 ≤ region.z.toInt * regionWidth + offset ∧ region.z.toInt * regionWidth + offset < 2 ^ 31

theorem fits_iff {region : RegionPos} : region.Fits ↔
    (-2 ^ 26 ≤ region.x.toInt ∧ region.x.toInt < 2 ^ 26) ∧
      -2 ^ 26 ≤ region.z.toInt ∧ region.z.toInt < 2 ^ 26 := by
  unfold Fits regionWidth
  constructor
  · intro fits
    have first := fits 0 (by decide)
    have last := fits 31 (by decide)
    omega
  · intro bounds offset small
    omega

theorem fits_regionOf (chunk : ChunkPos) : chunk.regionOf.Fits := by
  have lowX := Int32.le_toInt chunk.x
  have highX := Int32.toInt_lt chunk.x
  have lowZ := Int32.le_toInt chunk.z
  have highZ := Int32.toInt_lt chunk.z
  rw [fits_iff, chunk.regionOf_x, chunk.regionOf_z]
  omega

theorem regionOf_chunkAt {region : RegionPos} (fits : region.Fits) (slot : Slot) :
    (region.chunkAt slot).regionOf = region := by
  have small : slot.val < 1024 := slot.isLt
  have bounds := fits_iff.1 fits
  have x : (region.chunkAt slot).regionOf.x = region.x := by
    apply Int32.toInt_inj.1
    rw [ChunkPos.regionOf_x, chunkAt_x, bmod_of_small (by omega) (by omega)]
    omega
  have z : (region.chunkAt slot).regionOf.z = region.z := by
    apply Int32.toInt_inj.1
    rw [ChunkPos.regionOf_z, chunkAt_z, bmod_of_small (by omega) (by omega)]
    omega
  calc (region.chunkAt slot).regionOf
    _ = ⟨(region.chunkAt slot).regionOf.x, (region.chunkAt slot).regionOf.z⟩ := rfl
    _ = region := by rw [x, z]

end RegionPos
end RegionStore
