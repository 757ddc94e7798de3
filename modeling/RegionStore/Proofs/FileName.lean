import Mathlib.Algebra.Group.Nat.Defs
import Mathlib.Data.List.Basic
import RegionStore.Coordinates
import RegionStore.Disk.Path

/-!
The names of region files. What is printed of an integer has no byte of a separator, so the name of a
file tells the position of its region, and it is a name for any directory.
-/

set_option autoImplicit false

namespace RegionStore

open Disk

theorem Bytes.list_append (a b : Bytes) : (a ++ b).list = a.list ++ b.list := by
  rw [Bytes.list, ByteArray.data_append, Array.toList_append]
  rfl

theorem Bytes.list_concat (parts : List Bytes) : (Bytes.concat parts).list = parts.flatMap Bytes.list := by
  induction parts with
  | nil => rfl
  | cons part rest ih => rw [Bytes.concat, Bytes.list_append, ih, List.flatMap_cons]

namespace Decimal

theorem digit_of_mem_digits {value : Nat} {byte : UInt8} (member : byte ∈ digits value) :
    ∃ small < 10, byte = digit small := by
  fun_induction digits value with
  | case1 value small => exact ⟨value, small, List.mem_singleton.1 member⟩
  | case2 value _ ih =>
    rcases List.mem_append.1 member with front | last
    · exact ih front
    · exact ⟨value % 10, Nat.mod_lt _ (by decide), List.mem_singleton.1 last⟩

theorem ne_of_mem_signed {value : Int} {byte other : UInt8} (member : byte ∈ signed value)
    (sign : other ≠ minus) (digits : ∀ small < 10, other ≠ digit small) : byte ≠ other := by
  have plain {number : Nat} (among : byte ∈ Decimal.digits number) : byte ≠ other := by
    obtain ⟨small, bound, rfl⟩ := digit_of_mem_digits among
    exact (digits small bound).symm
  cases value with
  | ofNat number => exact plain member
  | negSucc number =>
    rcases List.mem_cons.1 member with rfl | among
    · exact sign.symm
    · exact plain among

theorem length_digits_le {value count : Nat} (bound : value < 10 ^ (count + 1)) :
    (digits value).length ≤ count + 1 := by
  induction count generalizing value with
  | zero =>
    rw [digits, if_pos (by omega)]
    exact Nat.le_refl 1
  | succ count ih =>
    rw [digits]
    split
    · exact Nat.succ_le_succ (Nat.zero_le _)
    · have shorter := @ih (value / 10) (by omega)
      rw [List.length_append, List.length_singleton]
      omega

theorem signed_injective {a b : Int} (same : signed a = signed b) : a = b := by
  have readsA := parse?_signed (Nat.le_max_left a.natAbs b.natAbs)
  have readsB := parse?_signed (Nat.le_max_right a.natAbs b.natAbs)
  rw [same, readsB] at readsA
  exact (Option.some.inj readsA).symm

end Decimal

theorem append_separator_inj {separator : UInt8} {front front' back back' : List UInt8}
    (clean : separator ∉ front) (clean' : separator ∉ front')
    (same : front ++ separator :: back = front' ++ separator :: back') : front = front' ∧ back = back' := by
  have ahead {part rest : List UInt8} (absent : separator ∉ part) :
      (part ++ separator :: rest).takeWhile (· ≠ separator) = part := by
    rw [List.takeWhile_append_of_pos, List.takeWhile_cons_of_neg (by simp), List.append_nil]
    intro byte member
    rw [decide_eq_true_eq]
    rintro rfl
    exact absent member
  have first := congrArg (List.takeWhile (· ≠ separator)) same
  rw [ahead clean, ahead clean'] at first
  subst first
  exact ⟨rfl, (List.cons.inj (List.append_cancel_left same)).2⟩

/-- A name that can be put into any directory, and is looked up there. -/
structure IsName (name : Bytes) : Prop where
  nonempty : name.list ≠ []
  clean : ∀ byte ∈ name.list, byte ≠ Path.slash ∧ byte ≠ 0
  notDots : ¬ Path.IsDots name
  short : name.size ≤ Path.maxName

namespace RegionPos

def dot : UInt8 := 0x2E

theorem list_fileName (position : RegionPos) : position.fileName.list =
    0x72 :: dot :: (Decimal.signed position.x.toInt ++ dot ::
      (Decimal.signed position.z.toInt ++ [dot, 0x6D, 0x63, 0x61])) := by
  have front : Bytes.list ("r." : Bytes) = [0x72, dot] := by decide +kernel
  have middle : Bytes.list ("." : Bytes) = [dot] := by decide +kernel
  have back : Bytes.list (".mca" : Bytes) = [dot, 0x6D, 0x63, 0x61] := by decide +kernel
  rw [fileName, Bytes.list_concat]
  simp only [List.flatMap_cons, List.flatMap_nil, front, middle, back, Decimal.print, Bytes.list_ofList,
    List.cons_append, List.nil_append, List.append_nil]

theorem fileName_injective : Function.Injective fileName := by
  have clean (value : Int) : dot ∉ Decimal.signed value := fun member =>
    Decimal.ne_of_mem_signed member (by decide) (by decide) rfl
  intro a b same
  have lists := congrArg Bytes.list same
  rw [list_fileName, list_fileName] at lists
  obtain ⟨x, rest⟩ := append_separator_inj (clean _) (clean _) (List.cons.inj (List.cons.inj lists).2).2
  obtain ⟨z, _⟩ := append_separator_inj (clean _) (clean _) rest
  have sameX : a.x = b.x := Int32.toInt_inj.1 (Decimal.signed_injective x)
  have sameZ : a.z = b.z := Int32.toInt_inj.1 (Decimal.signed_injective z)
  cases a
  cases b
  cases sameX
  cases sameZ
  rfl

theorem length_signed_le (value : Int32) : (Decimal.signed value.toInt).length ≤ 11 := by
  have low := value.le_toInt
  have high := value.toInt_lt
  cases number : value.toInt with
  | ofNat magnitude =>
    have short := @Decimal.length_digits_le magnitude 9 (by
      rw [number, Int.ofNat_eq_natCast] at high
      omega)
    exact Nat.le_succ_of_le short
  | negSucc magnitude =>
    have short := @Decimal.length_digits_le (magnitude + 1) 9 (by
      rw [number] at low
      omega)
    exact Nat.succ_le_succ short

theorem size_fileName_le (position : RegionPos) : position.fileName.size ≤ 29 := by
  have size : position.fileName.size = position.fileName.list.length := rfl
  have x := length_signed_le position.x
  have z := length_signed_le position.z
  rw [size, list_fileName]
  simp only [List.length_cons, List.length_append, List.length_nil]
  omega

theorem isName_fileName (position : RegionPos) : IsName position.fileName := by
  have list := position.list_fileName
  refine ⟨?_, ?_, ?_, ?_⟩
  · rw [list]
    exact nofun
  · have clean {value : Int} {byte : UInt8} (member : byte ∈ Decimal.signed value) :
        byte ≠ Path.slash ∧ byte ≠ 0 :=
      ⟨Decimal.ne_of_mem_signed member (by decide) (by decide),
        Decimal.ne_of_mem_signed member (by decide) (by decide)⟩
    intro byte member
    rw [list] at member
    simp only [List.mem_cons, List.mem_append, List.not_mem_nil, or_false] at member
    rcases member with rfl | rfl | member | rfl | member | rfl | rfl | rfl | rfl
    case inr.inr.inl => exact clean member
    case inr.inr.inr.inr.inl => exact clean member
    all_goals decide
  · have first {name : Bytes} (same : position.fileName = name) : name.list.head? = some 0x72 := by
      rw [← same, list]
      rfl
    rintro (isSelf | isParent)
    · exact absurd (first isSelf) (by decide +kernel)
    · exact absurd (first isParent) (by decide +kernel)
  · exact Nat.le_trans position.size_fileName_le (by decide)

end RegionPos
end RegionStore
