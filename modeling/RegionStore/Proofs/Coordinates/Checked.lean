import RegionStore.Proofs.Coordinates

/-!
The arithmetic of chunk addresses with a check after each signed operation: it gives no result as soon as
one of them leaves the range of 32 bits. None does, in division and remainder by a positive number, for
any chunk, and on the way back for any region whose chunks fit; so a chunk has exactly one slot in exactly
one such region.
-/

set_option autoImplicit false

namespace RegionStore

namespace Checked

def narrow? (value : Int) : Option Int32 :=
  if -2 ^ 31 ≤ value ∧ value < 2 ^ 31 then some (Int32.ofInt value) else none

def add? (x y : Int32) : Option Int32 := narrow? (x.toInt + y.toInt)

def sub? (x y : Int32) : Option Int32 := narrow? (x.toInt - y.toInt)

def mul? (x y : Int32) : Option Int32 := narrow? (x.toInt * y.toInt)

def div? (x y : Int32) : Option Int32 :=
  if y = 0 then none else narrow? (x.toInt.tdiv y.toInt)

def rem? (x y : Int32) : Option Int32 := do
  let _ ← div? x y
  narrow? (x.toInt.tmod y.toInt)

def floorDiv? (x y : Int32) : Option Int32 := do
  let rest ← rem? x y
  let quotient ← div? x y
  if rest < 0 then sub? quotient 1 else some quotient

def floorMod? (x y : Int32) : Option Int32 := do
  let rest ← rem? x y
  if rest < 0 then add? rest y else some rest

def regionOf? (chunk : ChunkPos) : Option RegionPos := do
  let x ← floorDiv? chunk.x 32
  let z ← floorDiv? chunk.z 32
  some ⟨x, z⟩

def slotOf? (chunk : ChunkPos) : Option Slot := do
  let x ← floorMod? chunk.x 32
  let z ← floorMod? chunk.z 32
  let index := x.toInt + z.toInt * regionWidth
  if h : 0 ≤ index ∧ index < slotCount then some ⟨index.toNat, by omega⟩ else none

/-- A coordinate of a chunk, from that of its region and how far it lies inside. -/
def coordinateAt? (side : Int32) (offset : Nat) : Option Int32 := do
  let corner ← mul? side 32
  add? corner (Int32.ofNat offset)

def chunkAt? (region : RegionPos) (slot : Slot) : Option ChunkPos := do
  let x ← coordinateAt? region.x (slot.val % regionWidth)
  let z ← coordinateAt? region.z (slot.val / regionWidth)
  some ⟨x, z⟩

theorem narrow?_toInt (x : Int32) : narrow? x.toInt = some x := by
  rw [narrow?, if_pos ⟨x.le_toInt, x.toInt_lt⟩, x.ofInt_toInt]

theorem narrow?_eq {x : Int32} {value : Int} (same : x.toInt = value) : narrow? value = some x := by
  rw [← same, narrow?_toInt]

section
variable {x y : Int32}

theorem add?_eq (low : -2 ^ 31 ≤ x.toInt + y.toInt) (high : x.toInt + y.toInt < 2 ^ 31) :
    add? x y = some (x + y) := by
  apply narrow?_eq
  rw [Int32.toInt_add, bmod_of_small low high]

theorem sub?_eq (low : -2 ^ 31 ≤ x.toInt - y.toInt) (high : x.toInt - y.toInt < 2 ^ 31) :
    sub? x y = some (x - y) := by
  apply narrow?_eq
  rw [Int32.toInt_sub, bmod_of_small low high]

theorem mul?_eq (low : -2 ^ 31 ≤ x.toInt * y.toInt) (high : x.toInt * y.toInt < 2 ^ 31) :
    mul? x y = some (x * y) := by
  apply narrow?_eq
  rw [Int32.toInt_mul, bmod_of_small low high]

end

section
variable (x : Int32) {y : Int32}

theorem toInt_div (positive : 0 < y) : (x / y).toInt = x.toInt.tdiv y.toInt := by
  apply Int32.toInt_div_of_ne_right
  rintro rfl
  exact absurd positive (by decide)

theorem div?_eq (positive : 0 < y) : div? x y = some (x / y) := by
  have notZero : y ≠ 0 := by
    rintro rfl
    exact absurd positive (by decide)
  rw [div?, if_neg notZero, narrow?_eq (toInt_div x positive)]

theorem rem?_eq (positive : 0 < y) : rem? x y = some (x % y) := by
  rw [rem?, div?_eq x positive, narrow?_eq (Int32.toInt_mod x y)]
  rfl

/-- Neither the quotient toward zero nor the one below it is out of range. -/
theorem floorDiv?_eq (positive : 0 < y) : floorDiv? x y = some (floorDiv x y) := by
  have above : 0 < y.toInt := Int32.lt_iff_toInt_lt.1 positive
  obtain ⟨low, high⟩ := ediv_within x above
  rw [floorDiv?, rem?_eq x positive, div?_eq x positive, floorDiv]
  simp only [Option.bind_eq_bind, Option.bind_some]
  split
  · next negative =>
    have one : (1 : Int32).toInt = 1 := rfl
    have less : (x / y).toInt - (1 : Int32).toInt = x.toInt / y.toInt := by
      rw [Int32.lt_iff_toInt_lt, Int32.toInt_mod] at negative
      rw [toInt_div x positive, one]
      rcases truncated_cases x.toInt above with ⟨_, _, nonnegative⟩ | ⟨more, _, _⟩
      · exact absurd negative (Int.not_lt.2 nonnegative)
      · omega
    rw [← less] at low high
    exact sub?_eq low high
  · rfl

/-- A negative remainder and the divisor differ in sign, so their sum is in range. -/
theorem floorMod?_eq (positive : 0 < y) : floorMod? x y = some (floorMod x y) := by
  have above : 0 < y.toInt := Int32.lt_iff_toInt_lt.1 positive
  have most := Int32.toInt_lt y
  have less : x.toInt.tmod y.toInt < y.toInt := Int.tmod_lt_of_pos x.toInt above
  have least := Int32.le_toInt (x % y)
  rw [floorMod?, rem?_eq x positive, floorMod]
  simp only [Option.bind_eq_bind, Option.bind_some]
  split
  · next negative =>
    have zero : (0 : Int32).toInt = 0 := rfl
    rw [Int32.lt_iff_toInt_lt, zero] at negative
    exact add?_eq (by omega) (by omega)
  · rfl

end

theorem regionOf?_eq (chunk : ChunkPos) : regionOf? chunk = some chunk.regionOf := by
  rw [regionOf?, floorDiv?_eq chunk.x (by decide), floorDiv?_eq chunk.z (by decide)]
  rfl

theorem slotOf?_eq (chunk : ChunkPos) : slotOf? chunk = some chunk.slotOf := by
  have x : (floorMod chunk.x 32).toInt = chunk.x.toInt % 32 := floorMod_toInt chunk.x (by decide)
  have z : (floorMod chunk.z 32).toInt = chunk.z.toInt % 32 := floorMod_toInt chunk.z (by decide)
  have value := chunk.slotOf_val
  have inside : chunk.slotOf.val < 1024 := chunk.slotOf.isLt
  have index : (floorMod chunk.x 32).toInt + (floorMod chunk.z 32).toInt * regionWidth =
      chunk.slotOf.val := by
    rw [x, z, value]
    rfl
  have valid : 0 ≤ (chunk.slotOf.val : Int) ∧ (chunk.slotOf.val : Int) < slotCount :=
    ⟨Int.natCast_nonneg _, Int.ofNat_lt.2 chunk.slotOf.isLt⟩
  rw [slotOf?, floorMod?_eq chunk.x (by decide), floorMod?_eq chunk.z (by decide)]
  simp only [Option.bind_eq_bind, Option.bind_some, index, dif_pos valid, Int.toNat_natCast]

theorem coordinateAt?_eq {side : Int32} (low : -2 ^ 26 ≤ side.toInt) (high : side.toInt < 2 ^ 26)
    {offset : Nat} (inside : offset < 32) :
    coordinateAt? side offset = some (side * 32 + Int32.ofNat offset) := by
  have width : (32 : Int32).toInt = 32 := rfl
  have part : (Int32.ofNat offset).toInt = offset := Int32.toInt_ofNat_of_lt (by omega)
  have corner : (side * 32).toInt = side.toInt * 32 := by
    rw [Int32.toInt_mul, width, bmod_of_small (by omega) (by omega)]
  have product : mul? side 32 = some (side * 32) := by
    apply mul?_eq
    · rw [width]
      omega
    · rw [width]
      omega
  have sum : add? (side * 32) (Int32.ofNat offset) = some (side * 32 + Int32.ofNat offset) := by
    apply add?_eq
    · rw [corner, part]
      omega
    · rw [corner, part]
      omega
  rw [coordinateAt?, product, Option.bind_eq_bind, Option.bind_some, sum]

/-- The products and the sums for a region whose chunks fit are in range. -/
theorem chunkAt?_eq {region : RegionPos} (fits : region.Fits) (slot : Slot) :
    chunkAt? region slot = some (region.chunkAt slot) := by
  have row : slot.val / 32 < 32 := Nat.div_lt_of_lt_mul slot.isLt
  obtain ⟨⟨lowX, highX⟩, lowZ, highZ⟩ := RegionPos.fits_iff.1 fits
  rw [chunkAt?, regionWidth, coordinateAt?_eq lowX highX (Nat.mod_lt _ (by decide)),
    coordinateAt?_eq lowZ highZ row]
  rfl

end Checked

/-- A chunk lies in the region that its coordinates rounded down to multiples of the width give, and in
one of the slots there, from which it is found again; and each slot of a region whose chunks fit holds
exactly one chunk, which has this region and this slot. Division and remainder that are used for it are
those toward minus infinity, for any number and any positive divisor. With a check after each signed
operation the results are the same, so none of them is ever out of range. -/
theorem addressing_exact :
    (∀ chunk : ChunkPos,
      chunk.regionOf.x.toInt = chunk.x.toInt.fdiv 32 ∧ chunk.regionOf.z.toInt = chunk.z.toInt.fdiv 32 ∧
      (chunk.slotOf.val : Int) = chunk.x.toInt.fmod 32 + chunk.z.toInt.fmod 32 * 32 ∧
      chunk.slotOf.val < 1024 ∧ chunk.regionOf.Fits ∧ chunk.regionOf.chunkAt chunk.slotOf = chunk ∧
      Checked.regionOf? chunk = some chunk.regionOf ∧ Checked.slotOf? chunk = some chunk.slotOf ∧
      Checked.chunkAt? chunk.regionOf chunk.slotOf = some chunk) ∧
    (∀ region : RegionPos, region.Fits → ∀ slot : Slot,
      (region.chunkAt slot).regionOf = region ∧ (region.chunkAt slot).slotOf = slot ∧
      Checked.chunkAt? region slot = some (region.chunkAt slot)) ∧
    ∀ x y : Int32, 0 < y →
      x.toInt = (floorDiv x y).toInt * y.toInt + (floorMod x y).toInt ∧
      0 ≤ (floorMod x y).toInt ∧ (floorMod x y).toInt < y.toInt ∧
      Checked.floorDiv? x y = some (floorDiv x y) ∧ Checked.floorMod? x y = some (floorMod x y) := by
  refine ⟨fun chunk => ?_, fun region fits slot => ?_, fun x y positive => ?_⟩
  · have width : (0 : Int) ≤ 32 := by decide
    have back := Checked.chunkAt?_eq (RegionPos.fits_regionOf chunk) chunk.slotOf
    rw [RegionPos.chunkAt_slotOf] at back
    simp only [Int.fdiv_eq_ediv_of_nonneg _ width, Int.fmod_eq_emod_of_nonneg _ width]
    exact ⟨chunk.regionOf_x, chunk.regionOf_z, chunk.slotOf_val, chunk.slotOf.isLt,
      RegionPos.fits_regionOf chunk, RegionPos.chunkAt_slotOf chunk, Checked.regionOf?_eq chunk,
      Checked.slotOf?_eq chunk, back⟩
  · exact ⟨RegionPos.regionOf_chunkAt fits slot, region.slotOf_chunkAt slot,
      Checked.chunkAt?_eq fits slot⟩
  · have above : 0 < y.toInt := Int32.lt_iff_toInt_lt.1 positive
    have quotient := floorDiv_toInt x positive
    have rest := floorMod_toInt x positive
    refine ⟨?_, ?_, ?_, Checked.floorDiv?_eq x positive, Checked.floorMod?_eq x positive⟩
    · rw [quotient, rest, Int.ediv_mul_add_emod]
    · rw [rest]
      exact Int.emod_nonneg _ (Int.ne_of_gt above)
    · rw [rest]
      exact Int.emod_lt_of_pos _ above

/-- The ends of the range: the least number by three, and the last slot of the outermost region. -/
theorem addressing_exact_at_ends :
    (⟨-2 ^ 26, 2 ^ 26 - 1⟩ : RegionPos).Fits ∧
      (RegionPos.chunkAt ⟨-2 ^ 26, 2 ^ 26 - 1⟩ ⟨1023, by decide⟩).regionOf = ⟨-2 ^ 26, 2 ^ 26 - 1⟩ ∧
      Checked.chunkAt? ⟨-2 ^ 26, 2 ^ 26 - 1⟩ ⟨1023, by decide⟩ = some ⟨-2 ^ 31 + 31, 2 ^ 31 - 1⟩ ∧
      (0 : Int32) < 3 ∧ Checked.floorDiv? (-2 ^ 31) 3 = some (floorDiv (-2 ^ 31) 3) ∧
      floorDiv (-2 ^ 31) 3 = -715827883 := by
  have fits : (⟨-2 ^ 26, 2 ^ 26 - 1⟩ : RegionPos).Fits := RegionPos.fits_iff.2 (by decide)
  have last : RegionPos.chunkAt ⟨-2 ^ 26, 2 ^ 26 - 1⟩ ⟨1023, by decide⟩ =
      ⟨-2 ^ 31 + 31, 2 ^ 31 - 1⟩ := by decide
  obtain ⟨_, back, division⟩ := addressing_exact
  obtain ⟨region, _, checked⟩ := back _ fits ⟨1023, by decide⟩
  obtain ⟨_, _, _, quotient, _⟩ := division (-2 ^ 31) 3 (by decide)
  exact ⟨fits, region, checked.trans (congrArg some last), by decide, quotient, by decide⟩

end RegionStore
