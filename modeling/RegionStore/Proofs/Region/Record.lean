import RegionStore.Proofs.Bytes
import RegionStore.Proofs.Placement
import RegionStore.Region.Basic

/-!
Records as they are written and as they are read back. The zeros behind a record do not matter.
-/

set_option autoImplicit false

namespace RegionStore.Region

theorem size_record (data : Bytes) : (record data).size = 4 + data.size := by
  rw [record, ByteArray.size_append, Bytes.size_ofWord]

theorem and_sign_eq_zero_iff (word : UInt32) : word &&& 0x80000000 = 0 ↔ word.toNat < 2 ^ 31 := by
  rw [← UInt32.toNat_inj, UInt32.toNat_and]
  change word.toNat &&& 2 ^ 31 = 0 ↔ word.toNat < 2 ^ 31
  constructor
  · intro zero
    apply Nat.lt_of_not_le
    intro large
    have bounded : word.toNat < 2 ^ 32 := word.toNat_lt
    have sign : word.toNat.testBit 31 = true := by
      rw [Nat.testBit_eq_decide_div_mod_eq, decide_eq_true_eq]
      omega
    have bit : (word.toNat &&& 2 ^ 31).testBit 31 = false := by rw [zero, Nat.zero_testBit]
    rw [Nat.testBit_and, sign, Nat.testBit_two_pow_self] at bit
    cases bit
  · intro small
    apply Nat.eq_of_testBit_eq
    intro bit
    rw [Nat.testBit_and, Nat.testBit_two_pow, Nat.zero_testBit]
    by_cases sign : 31 = bit
    · rw [← sign, Nat.testBit_lt_two_pow small, Bool.false_and]
    · rw [decide_eq_false sign, Bool.and_false]

theorem recordData_padded [Codec] (chunk : ChunkPos) {extent : Extent} {data : Bytes}
    (nonempty : 0 < data.size) (fits : sectorsOf (record data).size ≤ extent.count.toNat)
    (small : sectorsOf (record data).size ≤ maxExtentSectors) :
    recordData chunk extent (extent.padded (record data)) = decodeChunk data := by
  have size := size_record data
  have atMost := (sectorsOf_le_iff _ _).1 small
  have enough := (sectorsOf_le_iff _ _).1 fits
  rw [size, maxExtentSectors, sectorSize] at atMost
  rw [size, ← Extent.size] at enough
  have sizePadded := Extent.size_padded fits
  have whole := Bytes.Carries.refl (extent.padded (record data))
  have front := whole.front
  have carried := front.back
  have word : (extent.padded (record data)).toWord 0 = data.size.toUInt32 := by
    rw [← Bytes.toWord_ofWord data.size.toUInt32]
    refine Bytes.toWord_congr fun index inside => ?_
    rw [Nat.zero_add, ← front.front.same index inside, Nat.zero_add]
  have length : data.size.toUInt32.toNat = data.size := Nat.mod_eq_of_lt (by omega)
  have notZero : data.size.toUInt32 ≠ 0 := by
    intro zero
    have := congrArg UInt32.toNat zero
    rw [length, UInt32.toNat_zero] at this
    omega
  have positive : data.size.toUInt32 &&& 0x80000000 = 0 := (and_sign_eq_zero_iff _).2 (by omega)
  unfold recordData
  simp only [word, length]
  rw [if_neg (by rw [sizePadded, recordHeaderSize]; omega), if_neg notZero,
    if_neg (Decidable.not_not.2 positive), if_neg (by rw [lengthSize]; omega),
    if_neg (by rw [sizePadded, lengthSize]; omega)]
  exact congrArg decodeChunk carried.extract

end RegionStore.Region
