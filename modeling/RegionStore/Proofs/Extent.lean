import Mathlib.Algebra.Group.Nat.Defs
import RegionStore.Extent

/-!
Extents as sets of sectors, with ends that do not wrap, and the table words they are packed into. A
word gives its extent back exactly if the first sector has 24 bits and the count has eight.
-/

set_option autoImplicit false

namespace RegionStore.Extent

/-- The sector behind the last one; unlike `stop` it does not wrap. -/
def behind (extent : Extent) : Nat := extent.first.toNat + extent.count.toNat

def Holds (extent : Extent) (sector : Nat) : Prop :=
  extent.first.toNat ≤ sector ∧ sector < extent.behind

instance (extent : Extent) (sector : Nat) : Decidable (extent.Holds sector) :=
  inferInstanceAs (Decidable (_ ∧ _))

/-- An extent of at least one sector behind the header, in a file of the given length. -/
structure Inside (extent : Extent) (sectors : Nat) : Prop where
  behindHeader : headerSectors.toNat ≤ extent.first.toNat
  nonempty : 0 < extent.count.toNat
  within : extent.behind ≤ sectors

instance (extent : Extent) (sectors : Nat) : Decidable (extent.Inside sectors) :=
  decidable_of_iff (headerSectors.toNat ≤ extent.first.toNat ∧ 0 < extent.count.toNat ∧
      extent.behind ≤ sectors)
    ⟨fun ⟨first, second, third⟩ => ⟨first, second, third⟩, fun inside =>
      ⟨inside.behindHeader, inside.nonempty, inside.within⟩⟩

def Apart (a b : Extent) : Prop := ∀ sector, a.Holds sector → ¬ b.Holds sector

structure Packable (extent : Extent) : Prop where
  first : extent.first.toNat ≤ maxSectorIndex
  count : extent.count.toNat ≤ maxExtentSectors

theorem headerSectors_toNat : headerSectors.toNat = 2 := rfl

theorem behind_def (extent : Extent) : extent.behind = extent.first.toNat + extent.count.toNat := rfl

theorem position_add_size (extent : Extent) :
    extent.position + extent.size = extent.behind * sectorSize := by
  rw [position, size, behind_def, Nat.add_mul]

theorem behind_mk (first count : UInt32) :
    Extent.behind ⟨first, count⟩ = first.toNat + count.toNat := rfl

theorem stop_toNat {extent : Extent} (bounded : extent.behind < 2 ^ 32) :
    extent.stop.toNat = extent.behind := by
  rw [stop, UInt32.toNat_add]
  exact Nat.mod_eq_of_lt bounded

theorem Packable.bounded {extent : Extent} (packable : extent.Packable) : extent.behind < 2 ^ 32 := by
  have first := packable.first
  have count := packable.count
  rw [maxSectorIndex] at first
  rw [maxExtentSectors] at count
  rw [behind_def]
  omega

theorem ext_toNat {a b : Extent} (first : a.first.toNat = b.first.toNat)
    (count : a.count.toNat = b.count.toNat) : a = b := by
  obtain ⟨aFirst, aCount⟩ := a
  obtain ⟨bFirst, bCount⟩ := b
  rw [Extent.mk.injEq]
  exact ⟨UInt32.toNat_inj.1 first, UInt32.toNat_inj.1 count⟩

theorem Apart.symm {a b : Extent} (apart : a.Apart b) : b.Apart a :=
  fun sector inB inA => apart sector inA inB

theorem holds_first {extent : Extent} (nonempty : 0 < extent.count.toNat) :
    extent.Holds extent.first.toNat :=
  ⟨Nat.le_refl _, by rw [behind_def]; omega⟩

theorem apart_iff {a b : Extent} (nonemptyA : 0 < a.count.toNat) (nonemptyB : 0 < b.count.toNat) :
    a.Apart b ↔ a.behind ≤ b.first.toNat ∨ b.behind ≤ a.first.toNat := by
  constructor
  · intro apart
    by_cases order : a.first.toNat ≤ b.first.toNat
    · left
      apply Nat.le_of_not_lt
      exact fun overlap => apart b.first.toNat ⟨order, overlap⟩ (holds_first nonemptyB)
    · right
      apply Nat.le_of_not_lt
      exact fun overlap => apart a.first.toNat (holds_first nonemptyA) ⟨by omega, overlap⟩
  · intro order sector ⟨fromA, toA⟩ ⟨fromB, toB⟩
    omega

theorem first_ofWord (word : UInt32) : (ofWord word).first.toNat = word.toNat / 256 := by
  simp only [ofWord, UInt32.toNat_shiftRight]
  rw [show (8 : UInt32).toNat % 32 = 8 from rfl, Nat.shiftRight_eq_div_pow]

theorem count_ofWord (word : UInt32) : (ofWord word).count.toNat = word.toNat % 256 := by
  simp only [ofWord, UInt32.toNat_and]
  exact Nat.and_two_pow_sub_one_eq_mod word.toNat 8

/-- The upper eight bits of both numbers are lost. -/
theorem toNat_toWord (extent : Extent) :
    extent.toWord.toNat = extent.first.toNat % 2 ^ 24 * 256 + extent.count.toNat % 256 := by
  have count : extent.count.toNat &&& (0xFF : UInt32).toNat = extent.count.toNat % 256 :=
    Nat.and_two_pow_sub_one_eq_mod extent.count.toNat 8
  have shifted : extent.first.toNat <<< 8 % 2 ^ 32 = (extent.first.toNat % 2 ^ 24) <<< 8 := by
    rw [Nat.shiftLeft_eq, Nat.shiftLeft_eq]
    omega
  have below : extent.count.toNat % 256 < 2 ^ 8 := Nat.mod_lt _ (by decide)
  rw [toWord, UInt32.toNat_or, UInt32.toNat_shiftLeft, UInt32.toNat_and, count,
    show (8 : UInt32).toNat % 32 = 8 from rfl, shifted, ← Nat.shiftLeft_add_eq_or_of_lt below,
    Nat.shiftLeft_eq]

theorem packable_ofWord (word : UInt32) : (ofWord word).Packable := by
  have bounded := word.toNat_lt
  constructor
  · rw [first_ofWord, maxSectorIndex]
    omega
  · rw [count_ofWord, maxExtentSectors]
    omega

theorem toWord_ofWord (word : UInt32) : (ofWord word).toWord = word := by
  have bounded := word.toNat_lt
  apply UInt32.toNat_inj.1
  rw [toNat_toWord, first_ofWord, count_ofWord]
  omega

/-- An extent comes back from its word exactly if there is room for it. -/
theorem ofWord_toWord_iff (extent : Extent) :
    ofWord extent.toWord = extent ↔ extent.Packable := by
  constructor
  · intro same
    rw [← same]
    exact packable_ofWord _
  · intro packable
    have first := packable.first
    have count := packable.count
    rw [maxSectorIndex] at first
    rw [maxExtentSectors] at count
    apply ext_toNat
    · rw [first_ofWord, toNat_toWord]
      omega
    · rw [count_ofWord, toNat_toWord]
      omega

/-- Not too large extents do not have the word that stands for none, wherever they begin. -/
theorem toWord_ne_zero_of_small {extent : Extent} (small : extent.count.toNat ≤ maxExtentSectors)
    (nonempty : 0 < extent.count.toNat) : extent.toWord ≠ 0 := by
  intro zero
  have word := toNat_toWord extent
  rw [zero, UInt32.toNat_zero] at word
  rw [maxExtentSectors] at small
  omega

theorem toWord_ne_zero {extent : Extent} (packable : extent.Packable)
    (nonempty : 0 < extent.count.toNat) : extent.toWord ≠ 0 :=
  toWord_ne_zero_of_small packable.count nonempty

end RegionStore.Extent
