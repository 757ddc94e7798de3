import RegionStore.Disk.Content

/-!
Contents by their bytes. The pages that hold a content depend on how it was written, its bytes do not,
so contents are compared by `Same`: writing in parts comes to the same as writing at once, and what
lies outside a write is read back as before.
-/

set_option autoImplicit false

namespace RegionStore.Disk.Content

/-- Two contents of one size with the same bytes, whatever pages hold them. -/
structure Same (a b : Content) : Prop where
  size : a.size = b.size
  byte : ∀ position, a.byteAt position = b.byteAt position

theorem Same.refl (content : Content) : content.Same content := ⟨rfl, fun _ => rfl⟩

theorem Same.symm {a b : Content} (same : a.Same b) : b.Same a :=
  ⟨same.size.symm, fun position => (same.byte position).symm⟩

theorem Same.trans {a b c : Content} (first : a.Same b) (second : b.Same c) : a.Same c :=
  ⟨first.size.trans second.size, fun position => (first.byte position).trans (second.byte position)⟩

theorem Same.write {a b : Content} (same : a.Same b) (start : Nat) (data : Bytes) :
    (a.write start data).Same (b.write start data) := by
  constructor
  · rw [size_write, size_write, same.size]
  · intro position
    rw [byteAt_write, byteAt_write, same.byte]

theorem Same.resize {a b : Content} (same : a.Same b) (size : Nat) : (a.resize size).Same (b.resize size) := by
  constructor
  · simp only [size_resize]
  · intro position
    simp only [byteAt_resize, same.byte]

theorem read_congr {a b : Content} {start count : Nat}
    (size : min count (a.size - start) = min count (b.size - start))
    (byte : ∀ index < min count (a.size - start), a.byteAt (start + index) = b.byteAt (start + index)) :
    a.read start count = b.read start count := by
  apply Bytes.ext_get
  · rw [size_read, size_read, size]
  · intro index inside
    rw [size_read] at inside
    rw [get_read inside, get_read (size ▸ inside), byte index inside]

theorem read_zero (content : Content) (start : Nat) : content.read start 0 = ByteArray.empty := by
  apply Bytes.ext_get
  · rw [size_read]
    exact Nat.zero_min _
  · intro index inside
    rw [size_read, Nat.zero_min] at inside
    exact absurd inside (Nat.not_lt_zero _)

theorem read_min (content : Content) (start count : Nat) :
    content.read start (min count (content.size - start)) = content.read start count := by
  rw [read, read, Nat.min_assoc, Nat.min_self]

theorem Same.read {a b : Content} (same : a.Same b) (start count : Nat) :
    a.read start count = b.read start count :=
  read_congr (by rw [same.size]) fun _ _ => same.byte _

theorem write_of_size_eq_zero (content : Content) (start : Nat) {data : Bytes}
    (nothing : data.size = 0) : content.write start data = content := if_pos nothing

theorem write_of_read {content : Content} {start : Nat} {data : Bytes}
    (present : start + data.size ≤ content.size) (same : content.read start data.size = data) :
    (content.write start data).Same content := by
  constructor
  · rw [size_write]
    split <;> omega
  · intro position
    rw [byteAt_write]
    split
    · next inside =>
      rw [← same, get_read (by omega)]
      congr 1
      omega
    · rfl

/-- Writing two neighbouring parts comes to the same as writing both at once. -/
theorem write_write_same (content : Content) (start : Nat) (data : Bytes) {first middle last : Nat}
    (ordered : first ≤ middle) (ordered' : middle ≤ last) (bounded : last ≤ data.size) :
    ((content.write (start + first) (data.extract first middle)).write (start + middle)
        (data.extract middle last)).Same
      (content.write (start + first) (data.extract first last)) := by
  constructor
  · simp only [size_write, ByteArray.size_extract]
    split <;> split <;> split <;> omega
  · intro position
    simp only [byteAt_write, Bytes.get_extract, ByteArray.size_extract]
    by_cases later : start + middle ≤ position ∧ position < start + middle + (min last data.size - middle)
    · rw [if_pos later, if_pos (by omega), if_pos (by omega), if_pos (by omega)]
      congr 1
      omega
    · rw [if_neg later]
      by_cases earlier : start + first ≤ position ∧
          position < start + first + (min middle data.size - first)
      · rw [if_pos earlier, if_pos (by omega), if_pos (by omega), if_pos (by omega)]
      · rw [if_neg earlier, if_neg (by omega)]

theorem read_write (content : Content) (start : Nat) (data : Bytes) :
    (content.write start data).read start data.size = data := by
  apply Bytes.ext_get
  · rw [size_read, size_write]
    split <;> omega
  · intro index inside
    rw [size_read] at inside
    rw [get_read inside, byteAt_write, if_pos (by omega)]
    congr 1
    omega

/-- Reading two neighbouring parts comes to the same as reading both at once. -/
theorem read_append_read (content : Content) (start : Nat) {first second : Nat}
    (full : start + first ≤ content.size) :
    content.read start first ++ content.read (start + first) second =
      content.read start (first + second) := by
  apply Bytes.ext_get
  · simp only [ByteArray.size_append, size_read]
    omega
  · intro index inside
    simp only [ByteArray.size_append, size_read] at inside
    have whole : index < min (first + second) (content.size - start) := by omega
    rw [Bytes.get_append, size_read, get_read whole]
    split
    · next before => rw [get_read (by omega)]
    · next behind =>
      rw [get_read (by omega)]
      congr 1
      omega

theorem extract_read {content : Content} {start count first last : Nat}
    (whole : last ≤ min count (content.size - start)) :
    (content.read start count).extract first last = content.read (start + first) (last - first) := by
  apply Bytes.ext_get
  · simp only [ByteArray.size_extract, size_read]
    omega
  · intro index inside
    simp only [ByteArray.size_extract, size_read] at inside
    rw [Bytes.get_extract, size_read, if_pos (by omega), get_read (by omega), get_read (by omega),
      Nat.add_assoc]

structure Zeros (content : Content) (count : Nat) : Prop where
  size : content.size = count
  zero : ∀ position, content.byteAt position = 0

theorem Zeros.read {content : Content} {count : Nat} (zeros : content.Zeros count) :
    content.read 0 content.size = Bytes.zeros count := by
  apply Bytes.ext_get
  · rw [size_read, Bytes.size_zeros, zeros.size]
    omega
  · intro index inside
    rw [size_read] at inside
    rw [get_read inside, zeros.zero, Bytes.get_zeros]

theorem zeros_of_empty {content : Content} (empty : content.size = 0) : content.Zeros 0 :=
  ⟨empty, fun _ => byteAt_of_size_le (empty ▸ Nat.zero_le _)⟩

end RegionStore.Disk.Content
