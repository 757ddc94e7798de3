import RegionStore.Proofs.Bytes
import RegionStore.Proofs.Region.Changes
import RegionStore.Proofs.Region.Load

/-!
The tables as they are on disk. What is written behind the header leaves them alone, and writing the
words of a slot changes that slot and no other.
-/

set_option autoImplicit false

namespace RegionStore

open Disk

theorem Tables.ext_get {a b : Tables} (offsets : ∀ slot : Slot, a.offsets.get slot = b.offsets.get slot)
    (timestamps : ∀ slot : Slot, a.timestamps.get slot = b.timestamps.get slot) : a = b := by
  obtain ⟨aOffsets, aTimestamps⟩ := a
  obtain ⟨bOffsets, bTimestamps⟩ := b
  rw [Tables.mk.injEq]
  constructor
  · apply Vector.ext
    exact fun index inside => offsets ⟨index, inside⟩
  · apply Vector.ext
    exact fun index inside => timestamps ⟨index, inside⟩

theorem Tables.set_words (tables : Tables) (slot : Slot) (timestamp : Int32) (form : UInt32 → UInt32) :
    (tables.set slot (tables.offsets.get slot) timestamp).set slot
        (form ((tables.set slot (tables.offsets.get slot) timestamp).offsets.get slot))
        ((tables.set slot (tables.offsets.get slot) timestamp).timestamps.get slot) =
      tables.set slot (form (tables.offsets.get slot)) timestamp := by
  apply Tables.ext_get
  · intro other
    simp only [offsets_set, if_true]
    split <;> rfl
  · intro other
    simp only [timestamps_set, if_true]
    split <;> rfl

namespace Region

theorem get_header (content : Content) {index : Nat} (inside : index < headerSize) :
    Bytes.get (content.read 0 headerSize) index = content.byteAt index := by
  by_cases present : index < content.size
  · rw [Content.get_read (by omega), Nat.zero_add]
  · rw [Bytes.get_of_le (by rw [Content.size_read]; omega),
      Content.byteAt_of_size_le (Nat.le_of_not_lt present)]

theorem offsets_stored (content : Content) (slot : Slot) :
    (stored content).offsets.get slot =
      (content.read 0 headerSize).toWord (Tables.offsetPosition slot) :=
  Vector.getElem_ofFn slot.isLt

theorem timestamps_stored (content : Content) (slot : Slot) :
    (stored content).timestamps.get slot =
      ((content.read 0 headerSize).toWord (Tables.timestampPosition slot)).toInt32 :=
  Vector.getElem_ofFn slot.isLt

theorem offsets_stored_of_zero {content : Content}
    (zero : ∀ position < headerSize, content.byteAt position = 0) (slot : Slot) :
    (stored content).offsets.get slot = 0 := by
  have bounded := offsetPosition_bounded slot
  rw [sectorSize] at bounded
  have same : ∀ index < 4, Bytes.get (content.read 0 headerSize)
      (Tables.offsetPosition slot + index) = Bytes.get (Bytes.zeros 4) (0 + index) := by
    intro index four
    have inside : Tables.offsetPosition slot + index < headerSize := by
      rw [headerSize]
      omega
    rw [get_header content inside, zero _ inside, Bytes.get_zeros]
  rw [offsets_stored, Bytes.toWord_congr same]
  decide

/-- A word that was written, or a part of it, is read back, and words elsewhere are as before. -/
theorem toWord_header_of_wrote_part {file after : Device} {position other count : Nat} {word : UInt32}
    (wrote : file.Wrote position ((Bytes.ofWord word).extract 0 count) after)
    (within : other + 4 ≤ headerSize) (aligned : position % 4 = 0) (aligned' : other % 4 = 0) :
    (after.content.read 0 headerSize).toWord other =
      if other = position then
        Bytes.torn ((file.content.read 0 headerSize).toWord position) word count
      else (file.content.read 0 headerSize).toWord other := by
  have size : ((Bytes.ofWord word).extract 0 count).size = min count 4 - 0 := by
    rw [ByteArray.size_extract, Bytes.size_ofWord]
  split
  · next here =>
    subst here
    refine Bytes.ofWord_ext fun index four => ?_
    rw [Bytes.get_ofWord_toWord _ _ four, Bytes.get_torn _ _ _ four, Bytes.get_ofWord_toWord _ _ four,
      get_header _ (by omega), get_header _ (by omega), wrote.content.byte, Content.byteAt_write, size]
    by_cases new : index < count
    · rw [if_pos (by omega), if_pos new, Bytes.get_extract, if_pos]
      · congr 1
        omega
      · rw [Bytes.size_ofWord]
        omega
    · rw [if_neg (by omega), if_neg new]
  · next elsewhere =>
    apply Bytes.toWord_congr
    intro index four
    rw [get_header _ (by omega), get_header _ (by omega), wrote.content.byte, Content.byteAt_write, size,
      if_neg (by omega)]

theorem toWord_header_of_wrote {file after : Device} {position other : Nat} {word : UInt32}
    (wrote : file.Wrote position (Bytes.ofWord word) after) (within : other + 4 ≤ headerSize)
    (aligned : position % 4 = 0) (aligned' : other % 4 = 0) :
    (after.content.read 0 headerSize).toWord other =
      if other = position then word else (file.content.read 0 headerSize).toWord other := by
  rw [← ByteArray.extract_zero_size (b := Bytes.ofWord word)] at wrote
  rw [toWord_header_of_wrote_part wrote within aligned aligned', Bytes.torn_size]

section
variable {slot : Slot} {file after : Device} {count : Nat}

theorem offsetPosition_facts (slot : Slot) :
    Tables.offsetPosition slot % 4 = 0 ∧ Tables.offsetPosition slot + 4 ≤ headerSize := by
  have bounded := offsetPosition_bounded slot
  rw [sectorSize] at bounded
  rw [Tables.offsetPosition, headerSize] at *
  omega

theorem timestampPosition_facts (slot : Slot) :
    Tables.timestampPosition slot % 4 = 0 ∧ Tables.timestampPosition slot + 4 ≤ headerSize := by
  refine ⟨?_, timestampPosition_bounded slot⟩
  rw [Tables.timestampPosition, sectorSize]
  omega

theorem offsetPosition_ne_timestampPosition (slot other : Slot) :
    Tables.offsetPosition slot ≠ Tables.timestampPosition other := by
  have bounded := offsetPosition_bounded slot
  rw [sectorSize] at bounded
  rw [Tables.timestampPosition, sectorSize]
  omega

theorem offsetPosition_inj {slot other : Slot} :
    Tables.offsetPosition slot = Tables.offsetPosition other ↔ slot = other := by
  rw [Tables.offsetPosition, Tables.offsetPosition, Fin.ext_iff]
  omega

theorem timestampPosition_inj {slot other : Slot} :
    Tables.timestampPosition slot = Tables.timestampPosition other ↔ slot = other := by
  rw [Tables.timestampPosition, Tables.timestampPosition, Fin.ext_iff]
  omega

theorem stored_of_wrote_offset {offset : UInt32}
    (wrote : file.Wrote (Tables.offsetPosition slot) ((Bytes.ofWord offset).extract 0 count) after) :
    stored after.content = (stored file.content).set slot
      (Bytes.torn ((stored file.content).offsets.get slot) offset count)
      ((stored file.content).timestamps.get slot) := by
  have aligned := (offsetPosition_facts slot).1
  apply Tables.ext_get
  · intro other
    obtain ⟨alignedOther, within⟩ := offsetPosition_facts other
    rw [Tables.offsets_set, offsets_stored, offsets_stored, offsets_stored,
      toWord_header_of_wrote_part wrote within aligned alignedOther]
    simp only [offsetPosition_inj]
  · intro other
    obtain ⟨alignedOther, within⟩ := timestampPosition_facts other
    rw [Tables.timestamps_set, timestamps_stored, timestamps_stored, timestamps_stored,
      toWord_header_of_wrote_part wrote within aligned alignedOther,
      if_neg (offsetPosition_ne_timestampPosition slot other).symm]
    split
    · next here => rw [here]
    · rfl

theorem stored_of_wrote_timestamp {timestamp : Int32}
    (wrote : file.Wrote (Tables.timestampPosition slot)
      ((Bytes.ofWord timestamp.toUInt32).extract 0 count) after) :
    stored after.content = (stored file.content).set slot ((stored file.content).offsets.get slot)
      (Bytes.torn ((stored file.content).timestamps.get slot).toUInt32 timestamp.toUInt32
        count).toInt32 := by
  have aligned := (timestampPosition_facts slot).1
  apply Tables.ext_get
  · intro other
    obtain ⟨alignedOther, within⟩ := offsetPosition_facts other
    rw [Tables.offsets_set, offsets_stored, offsets_stored, offsets_stored,
      toWord_header_of_wrote_part wrote within aligned alignedOther,
      if_neg (offsetPosition_ne_timestampPosition other slot)]
    split
    · next here => rw [here]
    · rfl
  · intro other
    obtain ⟨alignedOther, within⟩ := timestampPosition_facts other
    rw [Tables.timestamps_set, timestamps_stored, timestamps_stored, timestamps_stored,
      toWord_header_of_wrote_part wrote within aligned alignedOther]
    simp only [timestampPosition_inj]
    split
    · rfl
    · rfl

end

theorem stored_of_entryWritten {slot : Slot} {offset : UInt32} {timestamp : Int32}
    {file after : Device} (written : EntryWritten slot offset timestamp file after) :
    stored after.content = (stored file.content).set slot offset timestamp := by
  obtain ⟨between, first, second⟩ := written.words
  rw [← ByteArray.extract_zero_size (b := Bytes.ofWord offset)] at second
  rw [← ByteArray.extract_zero_size (b := Bytes.ofWord timestamp.toUInt32)] at first
  rw [stored_of_wrote_offset second, stored_of_wrote_timestamp first, Bytes.torn_size, Bytes.torn_size]
  exact Tables.set_words _ slot timestamp fun _ => offset

theorem wrote_again {file : Device} {position : Nat} {word : UInt32}
    (present : position + 4 ≤ file.content.size)
    (same : ∀ index < 4, file.content.byteAt (position + index) = Bytes.get (Bytes.ofWord word) index) :
    file.Wrote position (Bytes.ofWord word) file := by
  refine ⟨Device.Continues.refl file, (Content.write_of_read present ?_).symm⟩
  apply Bytes.ext_get
  · rw [Content.size_read, Bytes.size_ofWord]
    omega
  · intro index inside
    rw [Content.size_read, Bytes.size_ofWord] at inside
    rw [Bytes.size_ofWord, Content.get_read inside, same index (by omega)]

section
variable {slot : Slot} {file : Device} (header : headerSize ≤ file.content.size)
include header

theorem wrote_offset_again : file.Wrote (Tables.offsetPosition slot)
    (Bytes.ofWord ((stored file.content).offsets.get slot)) file := by
  obtain ⟨_, within⟩ := offsetPosition_facts slot
  refine wrote_again (Nat.le_trans within header) fun index four => ?_
  rw [offsets_stored, Bytes.get_ofWord_toWord _ _ four, get_header _ (by omega)]

theorem wrote_timestamp_again : file.Wrote (Tables.timestampPosition slot)
    (Bytes.ofWord ((stored file.content).timestamps.get slot).toUInt32) file := by
  obtain ⟨_, within⟩ := timestampPosition_facts slot
  refine wrote_again (Nat.le_trans within header) fun index four => ?_
  rw [timestamps_stored, UInt32.toUInt32_toInt32, Bytes.get_ofWord_toWord _ _ four,
    get_header _ (by omega)]

theorem entry_again : EntryWritten slot ((stored file.content).offsets.get slot)
    ((stored file.content).timestamps.get slot) file file :=
  ⟨file, wrote_timestamp_again header, wrote_offset_again header⟩

end

theorem offsets_stored_front (size : Nat) (word : UInt32) (slot : Slot) :
    (stored ((Content.empty.resize size).write 0 (Bytes.ofWord word))).offsets.get slot =
      if slot.val = 0 then word else 0 := by
  have wrote : Device.Wrote ⟨ByteArray.empty, Content.empty.resize size, false, Surroundings.initial⟩ 0
      (Bytes.ofWord word) ⟨ByteArray.empty, (Content.empty.resize size).write 0 (Bytes.ofWord word),
        false, Surroundings.initial⟩ :=
    ⟨⟨rfl, rfl, rfl, rfl, fun _ _ _ => id⟩, Content.Same.refl _⟩
  obtain ⟨aligned, within⟩ := offsetPosition_facts slot
  rw [offsets_stored, toWord_header_of_wrote wrote within rfl aligned, ← offsets_stored,
    offsets_stored_of_zero]
  · have here : Tables.offsetPosition slot = 0 ↔ slot.val = 0 := by
      rw [Tables.offsetPosition]
      omega
    simp only [here]
  · intro position _
    rw [Content.byteAt_resize, Content.byteAt_of_size_le (Nat.zero_le _), ite_self]

/-- Writing the words of a slot that has stopped leaves a beginning of the new timestamp, and a beginning
of the new offset only behind all of the timestamp. -/
theorem stored_of_entryCut {slot : Slot} {offset : UInt32} {timestamp : Int32} {file after : Device}
    (cut : EntryCut slot offset timestamp file after) :
    ∃ first second, (first < 4 ∧ second = 0 ∨ first = 4 ∧ second < 4) ∧
      stored after.content = (stored file.content).set slot
        (Bytes.torn ((stored file.content).offsets.get slot) offset second)
        (Bytes.torn ((stored file.content).timestamps.get slot).toUInt32 timestamp.toUInt32
          first).toInt32 := by
  cases cut with
  | first count short wrote =>
    refine ⟨count, 0, .inl ⟨short, rfl⟩, ?_⟩
    rw [Bytes.torn_zero]
    exact stored_of_wrote_timestamp wrote
  | second between count short whole wrote =>
    rw [← ByteArray.extract_zero_size (b := Bytes.ofWord timestamp.toUInt32)] at whole
    refine ⟨4, count, .inr ⟨rfl, short⟩, ?_⟩
    rw [stored_of_wrote_offset wrote, stored_of_wrote_timestamp whole, Bytes.torn_size,
      Bytes.torn_of_le (Nat.le_refl 4)]
    exact Tables.set_words _ slot timestamp fun old => Bytes.torn old offset count

end Region
end RegionStore
