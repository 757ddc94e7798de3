import Mathlib.Algebra.Group.Nat.Defs
import RegionStore.Bytes

/-!
Words as bytes, and back, also of words that were replaced only in part, and byte strings inside others.
-/

set_option autoImplicit false

namespace RegionStore.Bytes

theorem zeros_append_zeros (first second : Nat) : zeros first ++ zeros second = zeros (first + second) := by
  apply ext_get
  · simp only [ByteArray.size_append, size_zeros]
  · intro index _
    simp [get_append]

theorem size_ofWord (word : UInt32) : (ofWord word).size = 4 := rfl

theorem ofWord_nonempty (word : UInt32) : 0 < (ofWord word).size := Nat.succ_pos 3

theorem toWord_ofWord (word : UInt32) : (ofWord word).toWord 0 = word := by
  change (word >>> 24).toUInt8.toUInt32 <<< 24 ||| (word >>> 16).toUInt8.toUInt32 <<< 16 |||
    (word >>> 8).toUInt8.toUInt32 <<< 8 ||| word.toUInt8.toUInt32 = word
  apply UInt32.toBitVec_inj.1
  apply BitVec.eq_of_getLsbD_eq
  intro index inside
  simp only [UInt32.toBitVec_or, UInt32.toBitVec_shiftLeft, UInt32.toBitVec_shiftRight,
    UInt8.toBitVec_toUInt32, UInt32.toBitVec_toUInt8, BitVec.getLsbD_or]
  simp
  grind

/-- A word depends on its four bytes. -/
theorem toWord_congr {a b : Bytes} {start start' : Nat}
    (same : ∀ index < 4, a.get (start + index) = b.get (start' + index)) :
    a.toWord start = b.toWord start' := by
  have first := same 0 (by decide)
  have second := same 1 (by decide)
  have third := same 2 (by decide)
  have fourth := same 3 (by decide)
  rw [Nat.add_zero, Nat.add_zero] at first
  rw [toWord, toWord, first, second, third, fourth]

/-- The bytes of a word that was read are the ones it was read from. -/
theorem get_ofWord_toWord (bytes : Bytes) (start : Nat) {index : Nat} (inside : index < 4) :
    get (ofWord (bytes.toWord start)) index = bytes.get (start + index) := by
  have bits (a b c d : UInt8) :
      let word := a.toUInt32 <<< 24 ||| b.toUInt32 <<< 16 ||| c.toUInt32 <<< 8 ||| d.toUInt32
      (word >>> 24).toUInt8 = a ∧ (word >>> 16).toUInt8 = b ∧ (word >>> 8).toUInt8 = c ∧
        word.toUInt8 = d := by
    refine ⟨?_, ?_, ?_, ?_⟩
    all_goals
      apply UInt8.toBitVec_inj.1
      apply BitVec.eq_of_getLsbD_eq
      intro index inside
      simp only [UInt32.toBitVec_or, UInt32.toBitVec_shiftLeft, UInt32.toBitVec_shiftRight,
        UInt8.toBitVec_toUInt32, UInt32.toBitVec_toUInt8]
    all_goals simp
    all_goals grind
  obtain ⟨first, second, third, fourth⟩ := bits (bytes.get start) (bytes.get (start + 1))
    (bytes.get (start + 2)) (bytes.get (start + 3))
  match index, inside with
  | 0, _ => exact first
  | 1, _ => exact second
  | 2, _ => exact third
  | 3, _ => exact fourth

/-- A word in the bytes of which only the first ones have been replaced by those of a new word. -/
def torn (old new : UInt32) (count : Nat) : UInt32 :=
  toWord ((ofWord new).extract 0 count ++ (ofWord old).extract count 4) 0

theorem get_torn (old new : UInt32) (count : Nat) {index : Nat} (inside : index < 4) :
    get (ofWord (torn old new count)) index =
      if index < count then get (ofWord new) index else get (ofWord old) index := by
  have sizeOld := size_ofWord old
  have sizeNew := size_ofWord new
  rw [torn, get_ofWord_toWord _ _ inside, get_append, ByteArray.size_extract, get_extract, get_extract]
  split
  · next front =>
    rw [if_pos (by omega), if_pos (by omega)]
    simp only [Nat.zero_add]
  · next back =>
    rw [if_pos (by omega), if_neg (by omega)]
    congr 1
    omega

theorem ofWord_ext {a b : UInt32} (same : ∀ index < 4, get (ofWord a) index = get (ofWord b) index) :
    a = b := by
  rw [← toWord_ofWord a, ← toWord_ofWord b]
  refine toWord_congr fun index inside => ?_
  rw [Nat.zero_add]
  exact same index inside

theorem torn_of_le {old new : UInt32} {count : Nat} (whole : 4 ≤ count) : torn old new count = new := by
  refine ofWord_ext fun index inside => ?_
  rw [get_torn old new count inside, if_pos (by omega)]

theorem torn_size (old new : UInt32) : torn old new (ofWord new).size = new :=
  torn_of_le (Nat.le_of_eq (size_ofWord new).symm)

theorem torn_zero (old new : UInt32) : torn old new 0 = old := by
  refine ofWord_ext fun index inside => ?_
  rw [get_torn old new 0 inside, if_neg (Nat.not_lt_zero _)]

/-- The last byte stays the old one unless all bytes are replaced. -/
theorem toUInt8_torn {old new : UInt32} {count : Nat} (short : count < 4) :
    (torn old new count).toUInt8 = old.toUInt8 := by
  have last := get_torn old new count (by decide : 3 < 4)
  rwa [if_neg (by omega)] at last

def spliced (old new : Bytes) (count : Nat) : Bytes :=
  new.extract 0 count ++ old.extract count old.size

theorem size_spliced {old new : Bytes} {count : Nat} (same : new.size = old.size) :
    (spliced old new count).size = old.size := by
  rw [spliced, ByteArray.size_append, ByteArray.size_extract, ByteArray.size_extract]
  omega

theorem get_spliced {old new : Bytes} (count : Nat) (same : new.size = old.size) {index : Nat}
    (inside : index < old.size) :
    get (spliced old new count) index = if index < count then new.get index else old.get index := by
  rw [spliced, get_append, ByteArray.size_extract, get_extract, get_extract]
  split
  · next front =>
    rw [if_pos (by omega), if_pos (by omega)]
    simp only [Nat.zero_add]
  · next back =>
    rw [if_pos (by omega), if_neg (by omega)]
    congr 1
    omega

structure Carries (bytes : Bytes) (start : Nat) (part : Bytes) : Prop where
  within : start + part.size ≤ bytes.size
  same : ∀ index < part.size, bytes.get (start + index) = part.get index

theorem Carries.refl (bytes : Bytes) : bytes.Carries 0 bytes :=
  ⟨Nat.le_of_eq (Nat.zero_add _), fun index _ => congrArg bytes.get (Nat.zero_add index)⟩

theorem Carries.front {bytes front back : Bytes} {start : Nat}
    (carries : bytes.Carries start (front ++ back)) : bytes.Carries start front := by
  obtain ⟨within, same⟩ := carries
  rw [ByteArray.size_append] at within same
  refine ⟨by omega, fun index inside => ?_⟩
  rw [same index (by omega), get_append, if_pos inside]

theorem Carries.back {bytes front back : Bytes} {start : Nat}
    (carries : bytes.Carries start (front ++ back)) : bytes.Carries (start + front.size) back := by
  obtain ⟨within, same⟩ := carries
  rw [ByteArray.size_append] at within same
  refine ⟨by omega, fun index inside => ?_⟩
  rw [Nat.add_assoc, same (front.size + index) (by omega), get_append, if_neg (by omega),
    Nat.add_sub_cancel_left]

theorem Carries.extract {bytes part : Bytes} {start : Nat} (carries : bytes.Carries start part) :
    bytes.extract start (start + part.size) = part := by
  obtain ⟨within, same⟩ := carries
  have size : (bytes.extract start (start + part.size)).size = part.size := by
    rw [ByteArray.size_extract]
    omega
  refine ext_get size fun index inside => ?_
  rw [size] at inside
  rw [get_extract, if_pos (by omega), same index inside]

end RegionStore.Bytes
