import Std.Data.TreeMap
import RegionStore.Bytes

/-!
The bytes of a file, in pages of one length. A page is there only if it was written to, and every other
byte below the size is zero, so a file may be far larger than what it takes to hold it. `byteAt` says
what a file contains, and the lemmas describe `read`, `write` and `resize` through it.
-/

set_option autoImplicit false

namespace RegionStore.Disk

/-- The length of a page in bytes; what follows the last byte written to a page need not be there. -/
def pageSize : Nat := 4096

abbrev Pages := Std.TreeMap Nat Bytes (@Ord.compare Nat instOrdNat)

namespace Pages

def page (pages : Pages) (number : Nat) : Bytes := pages.getD number ByteArray.empty

def byteAt (pages : Pages) (position : Nat) : UInt8 :=
  (pages.page (position / pageSize)).get (position % pageSize)

/-- Writes the data from its byte `done` on, page by page. The data as a whole goes to `start`. -/
def write (pages : Pages) (start : Nat) (data : Bytes) (done : Nat) : Pages :=
  if done < data.size then
    let position := start + done
    let count := min (data.size - done) (pageSize - position % pageSize)
    let page := Bytes.overlay (pages.page (position / pageSize)) (position % pageSize)
      (data.extract done (done + count))
    write (pages.insert (position / pageSize) page) start data (done + count)
  else pages
termination_by data.size - done
decreasing_by
  have : (start + done) % pageSize < pageSize := Nat.mod_lt _ (by decide)
  omega

/-- Goes on reading behind the bytes that are already known, page by page. -/
def read (pages : Pages) (start count : Nat) (known : Bytes) : Bytes :=
  if known.size < count then
    let position := start + known.size
    let length := min (count - known.size) (pageSize - position % pageSize)
    read pages start count
      (known ++ Bytes.slice (pages.page (position / pageSize)) (position % pageSize) length)
  else known
termination_by count - known.size
decreasing_by
  have : (start + known.size) % pageSize < pageSize := Nat.mod_lt _ (by decide)
  simp only [ByteArray.size_append, Bytes.size_slice]
  omega

def cut (pages : Pages) (size : Nat) : Pages :=
  pages.filterMap fun number page =>
    if number * pageSize < size then some (page.extract 0 (size - number * pageSize)) else none

theorem page_insert (pages : Pages) (number : Nat) (page : Bytes) (other : Nat) :
    Pages.page (pages.insert number page) other =
      if number = other then page else pages.page other := by
  rw [Pages.page, Std.TreeMap.getD_insert]
  by_cases same : number = other
  · rw [if_pos same, if_pos (Nat.compare_eq_eq.2 same)]
  · rw [if_neg same, if_neg fun equal => same (Nat.compare_eq_eq.1 equal)]
    rfl

def Within (pages : Pages) (size : Nat) : Prop :=
  ∀ number, (pages.page number).size = 0 ∨ number * pageSize + (pages.page number).size ≤ size

theorem Within.mono {pages : Pages} {size larger : Nat} (within : pages.Within size)
    (growing : size ≤ larger) : pages.Within larger := fun number =>
  (within number).imp_right fun inside => Nat.le_trans inside growing

theorem byteAt_eq_zero {pages : Pages} {size position : Nat} (within : pages.Within size)
    (outside : size ≤ position) : pages.byteAt position = 0 := by
  apply Bytes.get_of_le
  rcases within (position / pageSize) with nothing | inside
  · omega
  · have := Nat.div_add_mod' position pageSize
    omega

theorem byteAt_write (pages : Pages) (start : Nat) (data : Bytes) (done position : Nat) :
    (pages.write start data done).byteAt position =
      if start + done ≤ position ∧ position < start + data.size then data.get (position - start)
      else pages.byteAt position := by
  fun_induction write pages start data done with
  | case1 pages done unfinished here count page ih =>
    have inPage : here % pageSize < pageSize := Nat.mod_lt _ (by decide)
    have partSize : (data.extract done (done + count)).size = count := by
      simp only [ByteArray.size_extract]
      omega
    have split := Nat.div_add_mod' position pageSize
    have splitHere := Nat.div_add_mod' here pageSize
    rw [ih]
    by_cases later : start + (done + count) ≤ position ∧ position < start + data.size
    · rw [if_pos later, if_pos (by omega)]
    · rw [if_neg later, byteAt, page_insert]
      by_cases samePage : here / pageSize = position / pageSize
      · rw [if_pos samePage, Bytes.get_overlay, partSize, Bytes.get_extract]
        rw [samePage] at splitHere
        by_cases now : start + done ≤ position ∧ position < start + (done + count)
        · rw [if_pos (by omega), if_pos (by omega), if_pos (by omega)]
          congr 1
          omega
        · rw [if_neg (by omega), if_neg (by omega), samePage]
          rfl
      · have : ¬ (start + done ≤ position ∧ position < start + data.size) := by
          intro inside
          have : position < here + (pageSize - here % pageSize) := by omega
          have : here / pageSize * pageSize ≤ position := by omega
          have : position < (here / pageSize + 1) * pageSize := by
            rw [Nat.add_mul]
            omega
          exact samePage (Nat.div_eq_of_lt_le ‹_› ‹_›).symm
        rw [if_neg samePage, if_neg this]
        rfl
  | case2 pages done finished => rw [if_neg (by omega)]

theorem within_write {pages : Pages} {size : Nat} (within : pages.Within size) (start : Nat)
    (data : Bytes) (done : Nat) :
    (pages.write start data done).Within (max size (start + data.size)) := by
  fun_induction write pages start data done generalizing size with
  | case1 =>
    rename_i pages done unfinished here count page ih
    have pageEnd : page.size = max (pages.page (here / pageSize)).size (here % pageSize + count) := by
      rw [Bytes.size_overlay, ByteArray.size_extract]
      omega
    have splitHere := Nat.div_add_mod' here pageSize
    have grown : Within (pages.insert (here / pageSize) page) (max size (start + data.size)) := by
      intro number
      rw [page_insert]
      split
      · next same =>
        have old := within number
        rw [same] at splitHere pageEnd
        omega
      · exact within.mono (Nat.le_max_left ..) number
    have := ih grown
    rwa [Nat.max_eq_left (Nat.le_max_right ..)] at this
  | case2 pages done finished => exact within.mono (Nat.le_max_left ..)

theorem size_read (pages : Pages) (start count : Nat) (known : Bytes) :
    (pages.read start count known).size = max count known.size := by
  fun_induction read pages start count known with
  | case1 known unfinished here length ih =>
    rw [ih, ByteArray.size_append, Bytes.size_slice]
    omega
  | case2 known finished => omega

theorem get_read (pages : Pages) (start count : Nat) (known : Bytes) {index : Nat}
    (inside : index < max count known.size) :
    Bytes.get (pages.read start count known) index =
      if index < known.size then known.get index else pages.byteAt (start + index) := by
  fun_induction read pages start count known with
  | case1 known unfinished here length ih =>
    have inPage : here % pageSize < pageSize := Nat.mod_lt _ (by decide)
    have splitHere := Nat.div_add_mod' here pageSize
    rw [ih (by simp only [ByteArray.size_append, Bytes.size_slice]; omega), ByteArray.size_append,
      Bytes.size_slice, Bytes.get_append, Bytes.get_slice]
    by_cases before : index < known.size
    · rw [if_pos (by omega), if_pos before, if_pos before]
    · rw [if_neg before, if_neg before]
      by_cases now : index < known.size + length
      · have number : (start + index) / pageSize = here / pageSize := by
          apply Nat.div_eq_of_lt_le
          · omega
          · rw [Nat.add_mul]
            omega
        have split := Nat.div_add_mod' (start + index) pageSize
        rw [number] at split
        rw [if_pos now, if_pos (by omega), byteAt, number]
        congr 1
        omega
      · rw [if_neg now]
  | case2 known finished => rw [if_pos (by omega)]

theorem page_cut (pages : Pages) (size number : Nat) :
    (pages.cut size).page number =
      if number * pageSize < size then (pages.page number).extract 0 (size - number * pageSize)
      else ByteArray.empty := by
  rw [page, cut, Std.TreeMap.getD_eq_getD_getElem?, Std.TreeMap.getElem?_filterMap', page,
    Std.TreeMap.getD_eq_getD_getElem?]
  cases pages[number]? with
  | none =>
    split
    · exact ByteArray.ext (by simp)
    · rfl
  | some page =>
    simp only [Option.bind_some, Option.getD_some]
    split <;> rfl

theorem within_cut (pages : Pages) (size : Nat) : (pages.cut size).Within size := by
  intro number
  rw [page_cut]
  split
  · rw [ByteArray.size_extract]
    omega
  · exact .inl rfl

theorem byteAt_cut (pages : Pages) (size position : Nat) :
    (pages.cut size).byteAt position = if position < size then pages.byteAt position else 0 := by
  split
  · next inside =>
    have split := Nat.div_add_mod' position pageSize
    rw [byteAt, page_cut, if_pos (by omega), Bytes.get_extract, byteAt, Nat.zero_add]
    by_cases there : position % pageSize < (pages.page (position / pageSize)).size
    · rw [if_pos (by omega)]
    · rw [if_neg (by omega), Bytes.get_of_le (by omega)]
  · next outside => exact byteAt_eq_zero (within_cut pages size) (by omega)

end Pages

structure Content where
  size : Nat
  pages : Pages
  within : pages.Within size

namespace Content

def empty : Content := ⟨0, ∅, fun _ => .inl rfl⟩

def byteAt (content : Content) (position : Nat) : UInt8 := content.pages.byteAt position

/-- At most `count` bytes, fewer where the file ends. -/
def read (content : Content) (start count : Nat) : Bytes :=
  content.pages.read start (min count (content.size - start)) ByteArray.empty

/-- A write past the end leaves zeros in between; a write of nothing changes nothing. -/
def write (content : Content) (start : Nat) (data : Bytes) : Content :=
  if data.size = 0 then content
  else
    ⟨max content.size (start + data.size), content.pages.write start data 0,
      Pages.within_write content.within start data 0⟩

def resize (content : Content) (size : Nat) : Content :=
  if growing : content.size ≤ size then ⟨size, content.pages, content.within.mono growing⟩
  else ⟨size, content.pages.cut size, Pages.within_cut content.pages size⟩

theorem byteAt_of_size_le {content : Content} {position : Nat} (outside : content.size ≤ position) :
    content.byteAt position = 0 := Pages.byteAt_eq_zero content.within outside

theorem size_read (content : Content) (start count : Nat) :
    (content.read start count).size = min count (content.size - start) := by
  rw [read, Pages.size_read]
  exact Nat.max_eq_left (Nat.zero_le _)

theorem get_read {content : Content} {start count index : Nat}
    (inside : index < min count (content.size - start)) :
    Bytes.get (content.read start count) index = content.byteAt (start + index) := by
  rw [read, Pages.get_read _ _ _ _ (Nat.lt_of_lt_of_le inside (Nat.le_max_left ..))]
  exact if_neg (Nat.not_lt_zero _)

theorem size_write (content : Content) (start : Nat) (data : Bytes) :
    (content.write start data).size =
      if data.size = 0 then content.size else max content.size (start + data.size) := by
  unfold write
  split <;> rfl

theorem byteAt_write (content : Content) (start : Nat) (data : Bytes) (position : Nat) :
    (content.write start data).byteAt position =
      if start ≤ position ∧ position < start + data.size then data.get (position - start)
      else content.byteAt position := by
  unfold write
  split
  · rw [if_neg (by omega)]
  · exact Pages.byteAt_write ..

theorem size_resize (content : Content) (size : Nat) : (content.resize size).size = size := by
  unfold resize
  split <;> rfl

theorem byteAt_resize (content : Content) (size position : Nat) :
    (content.resize size).byteAt position =
      if position < size then content.byteAt position else 0 := by
  unfold resize
  split
  · next growing =>
    split
    · rfl
    · next outside => exact byteAt_of_size_le (Nat.le_of_not_lt outside)
  · exact Pages.byteAt_cut ..

end Content
end RegionStore.Disk
