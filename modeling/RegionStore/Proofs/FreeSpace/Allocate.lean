import RegionStore.Proofs.FreeSpace.Claim

/-!
Where an allocation finds sectors: at the front of the smallest free extent that is large enough, or
behind the end of the file if there is none. Nothing is allocated only if sectors would have to be
appended at a place that no table word can hold.
-/

set_option autoImplicit false

namespace RegionStore.FreeSpace

variable {space : FreeSpace}

/-- The extent is the front of the smallest free one that is large enough, and leaves free space. -/
structure Carves (space : FreeSpace) (extent : Extent) (next : FreeSpace) : Prop where
  fits : ∃ whole ∈ space.byStart, whole.first = extent.first ∧
    extent.count.toNat ≤ whole.count.toNat ∧
    ∀ other ∈ space.byStart, extent.count.toNat ≤ other.count.toNat →
      other = whole ∨ whole.Smaller other
  sound : next.Sound
  sectors : next.sectors = space.sectors
  free : ∀ sector, next.Free sector ↔ space.Free sector ∧ ¬ extent.Holds sector

/-- The extent lies behind the end of the file, because no free one is large enough. -/
structure Appends (space : FreeSpace) (extent : Extent) (next : FreeSpace) : Prop where
  first : extent.first = space.sectors
  noRoom : ∀ other ∈ space.byStart, other.count.toNat < extent.count.toNat
  addressable : space.sectors.toNat ≤ maxSectorIndex
  next : next = { space with sectors := space.sectors + extent.count }

theorem Carves.holds_free {extent : Extent} {next : FreeSpace} (carves : Carves space extent next)
    {sector : Nat} (holds : extent.Holds sector) : space.Free sector := by
  obtain ⟨whole, member, first, count, _⟩ := carves.fits
  obtain ⟨fromFirst, toLast⟩ := holds
  rw [Extent.behind_def, ← first] at toLast
  exact ⟨whole, member, first ▸ fromFirst, by rw [Extent.behind_def]; omega⟩

theorem Appends.sectors {extent : Extent} {next : FreeSpace} (appends : Appends space extent next)
    (small : extent.count.toNat ≤ maxExtentSectors) : next.sectors.toNat = extent.behind := by
  have addressable := appends.addressable
  rw [maxSectorIndex] at addressable
  rw [maxExtentSectors] at small
  rw [appends.next, Extent.behind_def, appends.first, UInt32.toNat_add]
  exact Nat.mod_eq_of_lt (by omega)

theorem Appends.free {extent : Extent} {next : FreeSpace} (appends : Appends space extent next)
    (sector : Nat) : next.Free sector ↔ space.Free sector := by
  rw [appends.next]
  rfl

theorem Appends.sound {extent : Extent} {next : FreeSpace} (appends : Appends space extent next)
    (sound : space.Sound) (small : extent.count.toNat ≤ maxExtentSectors) : next.Sound := by
  have longer := appends.sectors small
  rw [Extent.behind_def, appends.first] at longer
  have same := appends.next
  refine ⟨same ▸ sound.separate, fun other member => ?_, same ▸ sound.ordered, same ▸ sound.mirrored⟩
  have inside := sound.inside other (by rwa [same] at member)
  exact ⟨inside.behindHeader, inside.nonempty, by have := inside.within; omega⟩

structure Takes (space : FreeSpace) (extent : Extent) (next : FreeSpace) : Prop where
  sound : next.Sound
  inside : extent.Inside next.sectors.toNat
  length : ∀ sector, sector < next.sectors.toNat ↔
    sector < space.sectors.toNat ∨ extent.Holds sector
  fresh : ∀ sector, extent.Holds sector → sector < space.sectors.toNat → space.Free sector
  free : ∀ sector, next.Free sector ↔ space.Free sector ∧ ¬ extent.Holds sector

theorem Takes.longer {extent : Extent} {next : FreeSpace} (takes : Takes space extent next) :
    space.sectors.toNat ≤ next.sectors.toNat := by
  apply Nat.le_of_not_lt
  exact fun shorter => Nat.lt_irrefl _ ((takes.length _).2 (.inl shorter))

theorem Carves.takes (sound : space.Sound) {extent : Extent} {next : FreeSpace}
    (carves : Carves space extent next) (positive : 0 < extent.count.toNat) :
    Takes space extent next := by
  obtain ⟨whole, member, first, count, _⟩ := carves.fits
  have insideWhole := sound.inside whole member
  have within := insideWhole.within
  have header := insideWhole.behindHeader
  have behind := extent.behind_def
  rw [Extent.behind_def, first] at within
  rw [first] at header
  refine ⟨carves.sound, ⟨header, positive, by rw [carves.sectors]; omega⟩, fun sector => ?_,
    fun sector holds _ => carves.holds_free holds, carves.free⟩
  rw [carves.sectors, Extent.Holds]
  omega

theorem Appends.takes (sound : space.Sound) (header : headerSectors.toNat ≤ space.sectors.toNat)
    {extent : Extent} {next : FreeSpace} (appends : Appends space extent next)
    (positive : 0 < extent.count.toNat) (small : extent.count.toNat ≤ maxExtentSectors) :
    Takes space extent next := by
  have first : extent.first.toNat = space.sectors.toNat := congrArg UInt32.toNat appends.first
  have longer := appends.sectors small
  have behind := extent.behind_def
  refine ⟨appends.sound sound small, ⟨by omega, positive, by omega⟩, fun sector => ?_,
    fun sector holds within => ?_, fun sector => ?_⟩
  · rw [longer, Extent.Holds]
    omega
  · have := holds.1
    omega
  · rw [appends.free]
    refine ⟨fun free => ⟨free, fun holds => ?_⟩, And.left⟩
    have := (sound.free_inside free).2
    have := holds.1
    omega

theorem Sound.noRoom (sound : space.Sound) {count : UInt32}
    (found : space.bySize.find? (fun extent => count ≤ extent.count) = none) :
    ∀ other ∈ space.byStart, other.count.toNat < count.toNat := by
  intro other member
  have small := List.find?_eq_none.1 found other ((sound.mirrored other).2 member)
  rw [decide_eq_true_eq, UInt32.le_iff_toNat_le] at small
  omega

theorem Sound.smallest (sound : space.Sound) {count : UInt32} {whole : Extent}
    (found : space.bySize.find? (fun extent => count ≤ extent.count) = some whole) :
    whole ∈ space.byStart ∧ count.toNat ≤ whole.count.toNat ∧
      ∀ other ∈ space.byStart, count.toNat ≤ other.count.toNat → other = whole ∨ whole.Smaller other := by
  obtain ⟨enough, front, back, split, tooSmall⟩ := List.find?_eq_some_iff_append.1 found
  rw [decide_eq_true_eq, UInt32.le_iff_toNat_le] at enough
  refine ⟨(sound.mirrored whole).1 (List.mem_of_find?_eq_some found), enough, ?_⟩
  intro other memberOther large
  have memberOther := (sound.mirrored other).2 memberOther
  have ordered := sound.ordered
  rw [split] at memberOther ordered
  rcases List.mem_append.1 memberOther with inFront | behind
  · have small := tooSmall other inFront
    rw [Bool.not_eq_true', decide_eq_false_iff_not, UInt32.le_iff_toNat_le] at small
    exact absurd large small
  · rcases List.mem_cons.1 behind with rfl | later
    · exact .inl rfl
    · exact .inr ((List.pairwise_cons.1 (List.pairwise_append.1 ordered).2.1).1 other later)

theorem Sound.find?_of_smallest (sound : space.Sound) {count : UInt32} {whole : Extent}
    (member : whole ∈ space.byStart) (enough : count.toNat ≤ whole.count.toNat)
    (best : ∀ other ∈ space.byStart, count.toNat ≤ other.count.toNat →
      other = whole ∨ whole.Smaller other) :
    space.bySize.find? (fun extent => count ≤ extent.count) = some whole := by
  cases found : space.bySize.find? fun extent => count ≤ extent.count with
  | none => exact absurd enough (Nat.not_le_of_lt (sound.noRoom found whole member))
  | some other =>
    obtain ⟨memberOther, enoughOther, bestOther⟩ := sound.smallest found
    rcases best other memberOther enoughOther with same | smaller
    · rw [same]
    · rcases bestOther whole member enough with same | smallerOther
      · rw [same]
      · exact absurd smallerOther smaller.asymm

/-- The front is taken, and what is left of the extent goes back. -/
theorem Sound.carves (sound : space.Sound) {count : UInt32} {whole : Extent} {next : FreeSpace}
    (found : space.bySize.find? (fun extent => count ≤ extent.count) = some whole)
    (made : next = if count < whole.count then
      (space.remove whole).add ⟨whole.first + count, whole.count - count⟩ else space.remove whole) :
    Carves space ⟨whole.first, count⟩ next := by
  obtain ⟨member, enough, best⟩ := sound.smallest found
  have within := (sound.inside whole member).within
  have bounded := space.sectors.toNat_lt
  have behindWhole := whole.behind_def
  have behindTaken := Extent.behind_mk whole.first count
  have start : (whole.first + count).toNat = whole.first.toNat + count.toNat := by
    rw [UInt32.toNat_add]
    exact Nat.mod_eq_of_lt (by omega)
  have left : (whole.count - count).toNat = whole.count.toNat - count.toNat :=
    UInt32.toNat_sub_of_le _ _ (UInt32.le_iff_toNat_le.2 enough)
  have behindRest : Extent.behind ⟨whole.first + count, whole.count - count⟩ = whole.behind := by
    rw [Extent.behind_mk, start, left]
    omega
  have removed := free_remove sound member
  obtain ⟨soundNext, sectorsNext, freeNext⟩ := sound.add_rest
    ⟨whole.first + count, whole.count - count⟩ member (by rw [start]; omega) (by omega)
    (sound.remove member) rfl (fun sector _ _ free => (removed sector).1 free)
    (by rw [UInt32.lt_iff_toNat_lt, left]; omega) made
  refine ⟨⟨whole, member, rfl, enough, best⟩, soundNext, sectorsNext, fun sector => ?_⟩
  rw [freeNext]
  apply sound.free_taken member
  · exact Nat.le_refl _
  · omega
  simp only [Extent.Holds, behindRest, behindTaken, start]
  omega

theorem allocate?_of_found {count : UInt32} {whole : Extent}
    (found : space.bySize.find? (fun extent => count ≤ extent.count) = some whole) :
    ∃ next, space.allocate? count = some (⟨⟨whole.first, count⟩, false⟩, next) := by
  unfold FreeSpace.allocate?
  rw [found]
  exact ⟨_, rfl⟩

theorem allocate?_of_noRoom {count : UInt32}
    (noRoom : space.bySize.find? (fun extent => count ≤ extent.count) = none) :
    space.allocate? count =
      if maxSectorIndex < space.sectors.toNat then none
      else some (⟨⟨space.sectors, count⟩, true⟩, { space with sectors := space.sectors + count }) := by
  unfold FreeSpace.allocate?
  rw [noRoom]

theorem allocate?_eq_none_iff {count : UInt32} :
    space.allocate? count = none ↔
      space.bySize.find? (fun extent => count ≤ extent.count) = none ∧
        maxSectorIndex < space.sectors.toNat := by
  cases found : space.bySize.find? fun extent => count ≤ extent.count with
  | some whole =>
    obtain ⟨next, allocated⟩ := allocate?_of_found found
    simp [allocated]
  | none =>
    rw [allocate?_of_noRoom found]
    simp

theorem Sound.allocate?_cases (sound : space.Sound) (count : UInt32) :
    (∃ extent next, space.allocate? count = some (⟨extent, false⟩, next) ∧ extent.count = count ∧
        Carves space extent next) ∨
      (∃ extent next, space.allocate? count = some (⟨extent, true⟩, next) ∧ extent.count = count ∧
        Appends space extent next) ∨
      (space.allocate? count = none ∧ maxSectorIndex < space.sectors.toNat ∧
        ∀ other ∈ space.byStart, other.count.toNat < count.toNat) := by
  unfold FreeSpace.allocate?
  cases found : space.bySize.find? fun extent => count ≤ extent.count with
  | none =>
    have noRoom := sound.noRoom found
    right
    by_cases full : maxSectorIndex < space.sectors.toNat
    · exact .inr ⟨if_pos full, full, noRoom⟩
    · exact .inl ⟨_, _, if_neg full, rfl, rfl, noRoom, by omega, rfl⟩
  | some whole => exact .inl ⟨⟨whole.first, count⟩, _, rfl, rfl, sound.carves found rfl⟩

/-- Sectors are appended where no free extent is large enough. -/
theorem Sound.allocate?_of_noRoom (sound : space.Sound) {count : UInt32}
    (noRoom : ∀ other ∈ space.byStart, other.count.toNat < count.toNat)
    (short : space.sectors.toNat ≤ maxSectorIndex) :
    space.allocate? count =
      some (⟨⟨space.sectors, count⟩, true⟩, { space with sectors := space.sectors + count }) := by
  have none : space.bySize.find? (fun extent => count ≤ extent.count) = none := by
    apply List.find?_eq_none.2
    intro other member
    have small := noRoom other ((sound.mirrored other).1 member)
    rw [decide_eq_true_eq, UInt32.le_iff_toNat_le]
    omega
  rw [FreeSpace.allocate?_of_noRoom none, if_neg (Nat.not_lt_of_le short)]

theorem Sound.noFree_of_header (sound : space.Sound)
    (short : space.sectors.toNat ≤ headerSectors.toNat) : space.byStart = [] := by
  apply List.eq_nil_iff_forall_not_mem.2
  intro extent member
  have inside := sound.inside extent member
  have header := inside.behindHeader
  have within := inside.within
  have nonempty := inside.nonempty
  rw [Extent.behind_def] at within
  omega

end RegionStore.FreeSpace
