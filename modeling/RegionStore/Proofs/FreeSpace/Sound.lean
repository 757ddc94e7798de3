import RegionStore.FreeSpace
import RegionStore.Proofs.Extent

/-!
When the free extents of a file are in order: they are the maximal runs of the free sectors, each once
and by position, and the extents ordered by size are the same ones. `Sound.eq_of_free_iff` says that
nothing but the set of free sectors and the length of the file matters then. Adding an extent that
touches no free sector and removing a free extent keep the order.
-/

set_option autoImplicit false

namespace RegionStore

/-- Sectors of a set that lie in a row, as many as there are. -/
structure Extent.IsRun (extent : Extent) (set : Nat → Prop) : Prop where
  nonempty : 0 < extent.count.toNat
  all : ∀ sector, extent.Holds sector → set sector
  front : ∀ sector, sector + 1 = extent.first.toNat → ¬ set sector
  back : ¬ set extent.behind

namespace Extent

theorem Smaller.trans {a b c : Extent} (first : a.Smaller b) (second : b.Smaller c) :
    a.Smaller c := by
  simp only [Smaller, UInt32.lt_iff_toNat_lt, ← UInt32.toNat_inj] at first second ⊢
  omega

theorem Smaller.asymm {a b : Extent} (first : a.Smaller b) : ¬ b.Smaller a := by
  simp only [Smaller, UInt32.lt_iff_toNat_lt, ← UInt32.toNat_inj] at first ⊢
  omega

theorem smaller_of_ne {a b : Extent} (notSmaller : ¬ a.Smaller b) (different : a ≠ b) :
    b.Smaller a := by
  have apart : ¬ (a.first.toNat = b.first.toNat ∧ a.count.toNat = b.count.toNat) :=
    fun same => different (ext_toNat same.1 same.2)
  simp only [Smaller, UInt32.lt_iff_toNat_lt, ← UInt32.toNat_inj] at notSmaller ⊢
  omega

end Extent

namespace FreeSpace

theorem eq_of_mem_iff {before : Extent → Extent → Prop} {a b : List Extent}
    (asymm : ∀ x y, before x y → ¬ before y x) (sortedA : a.Pairwise before)
    (sortedB : b.Pairwise before) (same : ∀ extent, extent ∈ a ↔ extent ∈ b) : a = b := by
  have irrefl : ∀ {x y}, before x y → x ≠ y := by
    intro x y order equal
    subst equal
    exact asymm x x order order
  have permuted : a.Perm b :=
    (List.perm_ext_iff_of_nodup (sortedA.imp irrefl) (sortedB.imp irrefl)).2 fun extent =>
      same extent
  exact permuted.eq_of_pairwise (fun x y _ _ order back => absurd back (asymm x y order))
    sortedA sortedB

theorem before_of_ne {before : Extent → Extent → Prop} {list : List Extent}
    (sorted : list.Pairwise before) {a b : Extent} (memberA : a ∈ list) (memberB : b ∈ list)
    (different : a ≠ b) : before a b ∨ before b a := by
  induction list with
  | nil => cases memberA
  | cons first rest ih =>
    obtain ⟨firstBefore, sortedRest⟩ := List.pairwise_cons.1 sorted
    rcases List.mem_cons.1 memberA with rfl | laterA
    · rcases List.mem_cons.1 memberB with rfl | laterB
      · exact absurd rfl different
      · exact .inl (firstBefore b laterB)
    · rcases List.mem_cons.1 memberB with rfl | laterB
      · exact .inr (firstBefore a laterA)
      · exact ih sortedRest laterA laterB

theorem before_getLast?_filter {before : Extent → Extent → Prop} {list : List Extent}
    (sorted : list.Pairwise before) {property : Extent → Bool} {last : Extent}
    (isLast : (list.filter property).getLast? = some last) :
    last ∈ list ∧ property last = true ∧
      ∀ other ∈ list, property other = true → other = last ∨ before other last := by
  obtain ⟨front, whole⟩ := List.getLast?_eq_some_iff.1 isLast
  have memberFilter : last ∈ list.filter property := by
    rw [whole]
    exact List.mem_append_right _ List.mem_cons_self
  obtain ⟨member, has⟩ := List.mem_filter.1 memberFilter
  refine ⟨member, has, fun other memberOther hasOther => ?_⟩
  have sortedFilter := sorted.filter property
  have inFilter : other ∈ list.filter property := List.mem_filter.2 ⟨memberOther, hasOther⟩
  rw [whole] at sortedFilter inFilter
  rcases List.mem_append.1 inFilter with inFront | atEnd
  · exact .inr ((List.pairwise_append.1 sortedFilter).2.2 other inFront last List.mem_cons_self)
  · exact .inl (List.mem_singleton.1 atEnd)

def Free (space : FreeSpace) (sector : Nat) : Prop :=
  ∃ extent ∈ space.byStart, extent.Holds sector

/-- Free extents lie in the file, with occupied sectors between them, and both lists have them in
their order. -/
structure Sound (space : FreeSpace) : Prop where
  separate : space.byStart.Pairwise fun a b => a.behind < b.first.toNat
  inside : ∀ extent ∈ space.byStart, extent.Inside space.sectors.toNat
  ordered : space.bySize.Pairwise Extent.Smaller
  mirrored : ∀ extent, extent ∈ space.bySize ↔ extent ∈ space.byStart

variable {space : FreeSpace}

theorem Sound.free_inside (sound : space.Sound) {sector : Nat} (free : space.Free sector) :
    headerSectors.toNat ≤ sector ∧ sector < space.sectors.toNat := by
  obtain ⟨extent, member, fromFirst, toLast⟩ := free
  have inside := sound.inside extent member
  have := inside.behindHeader
  have := inside.within
  omega

theorem Sound.isRun (sound : space.Sound) {extent : Extent} (member : extent ∈ space.byStart) :
    extent.IsRun space.Free := by
  refine ⟨(sound.inside extent member).nonempty, fun sector holds => ⟨extent, member, holds⟩, ?_, ?_⟩
  · rintro sector front ⟨other, memberOther, fromFirst, toLast⟩
    by_cases same : other = extent
    · subst same
      omega
    · have := before_of_ne sound.separate memberOther member same
      have := extent.behind_def
      omega
  · rintro ⟨other, memberOther, fromFirst, toLast⟩
    by_cases same : other = extent
    · subst same
      omega
    · have := before_of_ne sound.separate memberOther member same
      have := extent.behind_def
      omega

/-- The free extents are exactly the maximal runs of free sectors. -/
theorem Sound.mem_iff_isRun (sound : space.Sound) (extent : Extent) :
    extent ∈ space.byStart ↔ extent.IsRun space.Free := by
  refine ⟨sound.isRun, fun run => ?_⟩
  obtain ⟨other, member, fromFirst, toLast⟩ := run.all _ (Extent.holds_first run.nonempty)
  have runOther := sound.isRun member
  have behindSelf := extent.behind_def
  have behindOther := other.behind_def
  have first : other.first.toNat = extent.first.toNat := by
    apply Nat.le_antisymm fromFirst
    apply Nat.le_of_not_lt
    intro later
    exact run.front (extent.first.toNat - 1) (by omega) ⟨other, member, by omega, by omega⟩
  have notShorter : ¬ other.behind < extent.behind :=
    fun shorter => runOther.back (run.all _ ⟨by omega, shorter⟩)
  have notLonger : ¬ extent.behind < other.behind :=
    fun longer => run.back ⟨other, member, by omega, longer⟩
  have same : other = extent := Extent.ext_toNat first (by omega)
  exact same ▸ member

theorem Sound.eq_of_free_iff {a b : FreeSpace} (soundA : a.Sound) (soundB : b.Sound)
    (sectors : a.sectors = b.sectors) (free : ∀ sector, a.Free sector ↔ b.Free sector) : a = b := by
  have sets : a.Free = b.Free := funext fun sector => propext (free sector)
  have members : ∀ extent, extent ∈ a.byStart ↔ extent ∈ b.byStart := by
    intro extent
    rw [soundA.mem_iff_isRun, soundB.mem_iff_isRun, sets]
  have asymm : ∀ x y : Extent, x.behind < y.first.toNat → ¬ y.behind < x.first.toNat := by
    intro x y
    rw [Extent.behind_def, Extent.behind_def]
    omega
  have byStart : a.byStart = b.byStart :=
    eq_of_mem_iff asymm soundA.separate soundB.separate members
  have bySize : a.bySize = b.bySize := by
    refine eq_of_mem_iff (fun _ _ => Extent.Smaller.asymm) soundA.ordered soundB.ordered ?_
    intro extent
    rw [soundA.mirrored, soundB.mirrored, members]
  obtain ⟨sectorsA, byStartA, bySizeA⟩ := a
  obtain ⟨sectorsB, byStartB, bySizeB⟩ := b
  rw [FreeSpace.mk.injEq]
  exact ⟨sectors, byStart, bySize⟩

theorem mem_insertByStart {extent : Extent} {list : List Extent}
    (fresh : ∀ other ∈ list, other.first ≠ extent.first) (other : Extent) :
    other ∈ insertByStart extent list ↔ other = extent ∨ other ∈ list := by
  induction list with
  | nil => simp [insertByStart]
  | cons next rest ih =>
    have different : extent.first ≠ next.first := (fresh next List.mem_cons_self).symm
    have later := ih fun other member => fresh other (List.mem_cons_of_mem _ member)
    simp only [insertByStart, if_neg different]
    split
    · rw [List.mem_cons]
    · rw [List.mem_cons, later, List.mem_cons]
      constructor
      · rintro (here | first | there)
        · exact .inr (.inl here)
        · exact .inl first
        · exact .inr (.inr there)
      · rintro (first | here | there)
        · exact .inr (.inl first)
        · exact .inl here
        · exact .inr (.inr there)

theorem mem_insertBySize (extent : Extent) (list : List Extent) (other : Extent) :
    other ∈ insertBySize extent list ↔ other = extent ∨ other ∈ list := by
  induction list with
  | nil => simp [insertBySize]
  | cons next rest ih =>
    simp only [insertBySize]
    split
    · rw [List.mem_cons]
    · split
      · next same => simp [same]
      · rw [List.mem_cons, ih, List.mem_cons]
        constructor
        · rintro (here | first | there)
          · exact .inr (.inl here)
          · exact .inl first
          · exact .inr (.inr there)
        · rintro (first | here | there)
          · exact .inr (.inl first)
          · exact .inl here
          · exact .inr (.inr there)

theorem insertByStart_separate {extent : Extent} {list : List Extent}
    (sorted : list.Pairwise fun a b => a.behind < b.first.toNat)
    (beside : ∀ other ∈ list,
      other.behind < extent.first.toNat ∨ extent.behind < other.first.toNat) :
    (insertByStart extent list).Pairwise fun a b => a.behind < b.first.toNat := by
  have fresh : ∀ other ∈ list, other.first ≠ extent.first := by
    intro other member same
    have := beside other member
    rw [same, extent.behind_def, other.behind_def, same] at this
    omega
  induction list with
  | nil => exact List.pairwise_singleton ..
  | cons next rest ih =>
    obtain ⟨nextBefore, sortedRest⟩ := List.pairwise_cons.1 sorted
    have besideNext := beside next List.mem_cons_self
    have besideRest := fun other member => beside other (List.mem_cons_of_mem _ member)
    have freshRest := fun other member => fresh other (List.mem_cons_of_mem _ member)
    have different : extent.first ≠ next.first := (fresh next List.mem_cons_self).symm
    have behindSelf := extent.behind_def
    have behindNext := next.behind_def
    simp only [insertByStart, if_neg different]
    split
    · next before =>
      rw [UInt32.lt_iff_toNat_lt] at before
      refine List.pairwise_cons.2 ⟨fun other member => ?_, sorted⟩
      rcases List.mem_cons.1 member with rfl | later
      · omega
      · have := nextBefore other later
        omega
    · next after =>
      rw [UInt32.lt_iff_toNat_lt] at after
      refine List.pairwise_cons.2 ⟨fun other member => ?_, ih sortedRest besideRest freshRest⟩
      rcases (mem_insertByStart freshRest other).1 member with rfl | later
      · omega
      · exact nextBefore other later

theorem insertBySize_ordered {extent : Extent} {list : List Extent}
    (sorted : list.Pairwise Extent.Smaller) :
    (insertBySize extent list).Pairwise Extent.Smaller := by
  induction list with
  | nil => exact List.pairwise_singleton ..
  | cons next rest ih =>
    obtain ⟨nextBefore, sortedRest⟩ := List.pairwise_cons.1 sorted
    simp only [insertBySize]
    split
    · next before =>
      refine List.pairwise_cons.2 ⟨fun other member => ?_, sorted⟩
      rcases List.mem_cons.1 member with rfl | later
      · exact before
      · exact before.trans (nextBefore other later)
    · next notBefore =>
      split
      · exact sorted
      · next different =>
        refine List.pairwise_cons.2 ⟨fun other member => ?_, ih sortedRest⟩
        rcases (mem_insertBySize extent rest other).1 member with rfl | later
        · exact Extent.smaller_of_ne notBefore different
        · exact nextBefore other later

/-- No free sector lies in an extent or beside it. -/
def Clear (space : FreeSpace) (extent : Extent) : Prop :=
  ∀ sector, extent.first.toNat ≤ sector + 1 → sector ≤ extent.behind → ¬ space.Free sector

theorem Sound.beside_of_clear (sound : space.Sound) {extent : Extent} (clear : space.Clear extent) :
    ∀ other ∈ space.byStart,
      other.behind < extent.first.toNat ∨ extent.behind < other.first.toNat := by
  intro other member
  have nonempty := (sound.inside other member).nonempty
  have behindSelf := extent.behind_def
  have behindOther := other.behind_def
  by_cases order : other.first.toNat ≤ extent.behind
  · left
    apply Nat.lt_of_not_le
    intro touching
    have within : other.Holds (max other.first.toNat (extent.first.toNat - 1)) := by
      constructor <;> omega
    exact clear _ (by omega) (by omega) ⟨other, member, within⟩
  · right
    omega

theorem mem_add {extent : Extent} (sound : space.Sound) (clear : space.Clear extent)
    (other : Extent) : other ∈ (space.add extent).byStart ↔ other = extent ∨ other ∈ space.byStart := by
  apply mem_insertByStart
  intro other member same
  have := sound.beside_of_clear clear other member
  rw [same, extent.behind_def, other.behind_def, same] at this
  omega

theorem Sound.add {extent : Extent} (sound : space.Sound) (clear : space.Clear extent)
    (inside : extent.Inside space.sectors.toNat) : (space.add extent).Sound := by
  constructor
  · exact insertByStart_separate sound.separate (sound.beside_of_clear clear)
  · intro other member
    rcases (mem_add sound clear other).1 member with rfl | old
    · exact inside
    · exact sound.inside other old
  · exact insertBySize_ordered sound.ordered
  · intro other
    rw [mem_add sound clear]
    change other ∈ insertBySize extent space.bySize ↔ _
    rw [mem_insertBySize, sound.mirrored]

theorem free_add {extent : Extent} (sound : space.Sound) (clear : space.Clear extent)
    (sector : Nat) : (space.add extent).Free sector ↔ extent.Holds sector ∨ space.Free sector := by
  constructor
  · rintro ⟨other, member, holds⟩
    rcases (mem_add sound clear other).1 member with rfl | old
    · exact .inl holds
    · exact .inr ⟨other, old, holds⟩
  · rintro (holds | ⟨other, member, holds⟩)
    · exact ⟨extent, (mem_add sound clear extent).2 (.inl rfl), holds⟩
    · exact ⟨other, (mem_add sound clear other).2 (.inr member), holds⟩

theorem mem_remove {extent : Extent} (sound : space.Sound) (member : extent ∈ space.byStart)
    (other : Extent) :
    other ∈ (space.remove extent).byStart ↔ other ∈ space.byStart ∧ other ≠ extent := by
  simp only [remove, List.mem_filter, decide_not, Bool.not_eq_true', decide_eq_false_iff_not,
    and_congr_right_iff]
  intro memberOther
  refine not_congr ⟨fun same => ?_, fun same => congrArg Extent.first same⟩
  apply Decidable.byContradiction
  intro different
  have order := before_of_ne sound.separate memberOther member different
  rw [extent.behind_def, other.behind_def, same] at order
  omega

theorem Sound.remove {extent : Extent} (sound : space.Sound) (member : extent ∈ space.byStart) :
    (space.remove extent).Sound := by
  constructor
  · exact sound.separate.filter _
  · intro other memberOther
    exact sound.inside other ((mem_remove sound member other).1 memberOther).1
  · exact sound.ordered.filter _
  · intro other
    rw [mem_remove sound member, ← sound.mirrored]
    simp [FreeSpace.remove]

theorem free_remove {extent : Extent} (sound : space.Sound) (member : extent ∈ space.byStart)
    (sector : Nat) :
    (space.remove extent).Free sector ↔ space.Free sector ∧ ¬ extent.Holds sector := by
  constructor
  · rintro ⟨other, memberOther, holds⟩
    obtain ⟨old, different⟩ := (mem_remove sound member other).1 memberOther
    refine ⟨⟨other, old, holds⟩, fun both => ?_⟩
    obtain ⟨fromFirst, toLast⟩ := holds
    obtain ⟨fromFirst', toLast'⟩ := both
    have := before_of_ne sound.separate old member different
    omega
  · rintro ⟨⟨other, memberOther, holds⟩, outside⟩
    have different : other ≠ extent := fun same => outside (same ▸ holds)
    exact ⟨other, (mem_remove sound member other).2 ⟨memberOther, different⟩, holds⟩

end FreeSpace
end RegionStore
