/-!
Byte strings. Paths, setting keys, messages and chunk data are all byte strings here, since none of
them has to be valid text. Multi-byte words are written out in both orders.
-/

set_option autoImplicit false

namespace RegionStore

abbrev Bytes := ByteArray

instance : DecidableEq Bytes := ByteArray.instDecidableEq

instance : BEq Bytes := instBEqOfDecidableEq

instance : LawfulBEq Bytes := inferInstanceAs (@LawfulBEq ByteArray instBEqOfDecidableEq)

instance : Coe String Bytes := ⟨String.toUTF8⟩

namespace Bytes

def list (bytes : Bytes) : List UInt8 := bytes.data.toList

def ofList (list : List UInt8) : Bytes := ⟨list.toArray⟩

def zeros (count : Nat) : Bytes := ⟨Array.replicate count 0⟩

/-- The byte at an index, zero past the end. -/
@[inline] def get (bytes : Bytes) (index : Nat) : UInt8 :=
  if h : index < bytes.size then bytes[index] else 0

def concat : List Bytes → Bytes
  | [] => ByteArray.empty
  | part :: rest => part ++ concat rest

def quoted (text : Bytes) : Bytes := concat ["\"", text, "\""]

/-- Exactly `count` bytes from `start` on, with zeros where there are none. -/
def slice (bytes : Bytes) (start count : Nat) : Bytes :=
  let part := bytes.extract start (start + count)
  part ++ zeros (count - part.size)

def overlay (bytes : Bytes) (start : Nat) (part : Bytes) : Bytes :=
  bytes.slice 0 start ++ part ++ bytes.extract (start + part.size) bytes.size

/-- What is seen of a path or a message that has a zero byte in it. -/
def beforeZero (bytes : Bytes) : Bytes := ofList (bytes.list.takeWhile (· ≠ 0))

/-- Four bytes, most significant first. -/
def ofWord (word : UInt32) : Bytes :=
  ⟨#[(word >>> 24).toUInt8, (word >>> 16).toUInt8, (word >>> 8).toUInt8, word.toUInt8]⟩

def toWord (bytes : Bytes) (start : Nat) : UInt32 :=
  (bytes.get start).toUInt32 <<< 24 ||| (bytes.get (start + 1)).toUInt32 <<< 16 |||
    (bytes.get (start + 2)).toUInt32 <<< 8 ||| (bytes.get (start + 3)).toUInt32

def ofWordReversed (word : UInt32) : Bytes :=
  ⟨#[word.toUInt8, (word >>> 8).toUInt8, (word >>> 16).toUInt8, (word >>> 24).toUInt8]⟩

@[simp] theorem list_ofList (list : List UInt8) : (ofList list).list = list := rfl

@[simp] theorem ofList_list (bytes : Bytes) : ofList bytes.list = bytes := rfl

theorem list_inj {a b : Bytes} : a.list = b.list ↔ a = b := by
  constructor
  · intro same
    rw [← ofList_list a, same, ofList_list]
  · intro same
    rw [same]

@[simp] theorem size_ofList (list : List UInt8) : (ofList list).size = list.length := rfl

theorem get_of_lt {bytes : Bytes} {index : Nat} (inside : index < bytes.size) :
    bytes.get index = bytes[index] := dif_pos inside

theorem get_of_le {bytes : Bytes} {index : Nat} (outside : bytes.size ≤ index) :
    bytes.get index = 0 := dif_neg (by omega)

@[simp] theorem size_zeros (count : Nat) : (zeros count).size = count := by
  simp [zeros, ByteArray.size]

@[simp] theorem get_zeros (count index : Nat) : get (zeros count) index = 0 := by
  by_cases inside : index < (zeros count).size
  · rw [get_of_lt inside]
    simp [zeros, ByteArray.getElem_eq_getElem_data]
  · exact get_of_le (by omega)

theorem get_append (front back : Bytes) (index : Nat) :
    get (front ++ back) index =
      if index < front.size then front.get index else back.get (index - front.size) := by
  split
  · next inside =>
    rw [get_of_lt inside, get_of_lt (by rw [ByteArray.size_append]; omega),
      ByteArray.getElem_append_left inside]
  · next outside =>
    by_cases inside : index < (front ++ back).size
    · have := inside
      rw [ByteArray.size_append] at this
      rw [get_of_lt inside, get_of_lt (by omega),
        ByteArray.getElem_append_right (Nat.le_of_not_lt outside)]
    · have := inside
      rw [ByteArray.size_append] at this
      rw [get_of_le (by omega), get_of_le (by omega)]

theorem get_extract (bytes : Bytes) (start stop index : Nat) :
    get (bytes.extract start stop) index =
      if start + index < min stop bytes.size then bytes.get (start + index) else 0 := by
  have size : (bytes.extract start stop).size = min stop bytes.size - start :=
    ByteArray.size_extract
  split
  · next inside =>
    have within : index < (bytes.extract start stop).size := by omega
    have inside : start + index < bytes.size := by omega
    rw [get_of_lt within, ByteArray.getElem_extract within, get_of_lt inside]
  · next outside =>
    have : (bytes.extract start stop).size ≤ index := by omega
    exact get_of_le this

@[simp] theorem size_slice (bytes : Bytes) (start count : Nat) :
    (slice bytes start count).size = count := by
  simp only [slice, ByteArray.size_append, ByteArray.size_extract, size_zeros]
  omega

theorem get_slice (bytes : Bytes) (start count index : Nat) :
    get (slice bytes start count) index =
      if index < count then bytes.get (start + index) else 0 := by
  rw [slice, get_append, get_extract, ByteArray.size_extract, get_zeros]
  split
  · next within =>
    rw [if_pos (by omega), if_pos (by omega)]
  · next outside =>
    split
    · next inside => rw [get_of_le (by omega)]
    · rfl

theorem size_overlay (bytes : Bytes) (start : Nat) (part : Bytes) :
    (overlay bytes start part).size = max bytes.size (start + part.size) := by
  simp only [overlay, ByteArray.size_append, ByteArray.size_extract, size_slice]
  omega

theorem get_overlay (bytes : Bytes) (start : Nat) (part : Bytes) (index : Nat) :
    get (overlay bytes start part) index =
      if start ≤ index ∧ index < start + part.size then part.get (index - start)
      else bytes.get index := by
  rw [overlay, get_append, get_append, ByteArray.size_append, size_slice, get_slice, get_extract]
  by_cases before : index < start
  · rw [if_pos (by omega), if_pos before, if_pos before, if_neg (by omega), Nat.zero_add]
  · by_cases within : index < start + part.size
    · rw [if_pos within, if_neg before, if_pos ⟨by omega, within⟩]
    · have behind : start + part.size + (index - (start + part.size)) = index := by omega
      rw [if_neg within, if_neg fun both : _ ∧ _ => within both.2, behind]
      split
      · rfl
      · rw [get_of_le (by omega)]

theorem ext_get {a b : Bytes} (size : a.size = b.size)
    (same : ∀ index < a.size, a.get index = b.get index) : a = b := by
  apply ByteArray.ext
  apply Array.ext
  · exact size
  · intro index inA inB
    have := same index inA
    rwa [get_of_lt inA, get_of_lt inB] at this

end Bytes
end RegionStore
