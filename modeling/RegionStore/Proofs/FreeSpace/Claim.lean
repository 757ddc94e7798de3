import RegionStore.Proofs.FreeSpace.Sound

/-!
Free space at the start, and what a claim takes out of it. A claim goes through exactly if the extent
lies in the file behind the header and all its sectors are free, and then it takes these and no others.
-/

set_option autoImplicit false

namespace RegionStore.FreeSpace

variable {space : FreeSpace}

theorem sound_of_nil (sectors : UInt32) : Sound ⟨sectors, [], []⟩ :=
  ⟨.nil, nofun, .nil, fun _ => Iff.rfl⟩

@[simp] theorem sectors_ofSectors (sectors : UInt32) : (ofSectors sectors).sectors = sectors := by
  unfold ofSectors
  split <;> rfl

theorem ofSectors_sound (sectors : UInt32) : (ofSectors sectors).Sound ∧ ∀ sector,
    (ofSectors sectors).Free sector ↔
      headerSectors.toNat ≤ sector ∧ sector < sectors.toNat := by
  have empty := sound_of_nil sectors
  have noFree : ∀ sector, ¬ Free ⟨sectors, [], []⟩ sector := by
    rintro sector ⟨_, member, _⟩
    cases member
  have clear : ∀ extent, Clear ⟨sectors, [], []⟩ extent := fun _ sector _ _ => noFree sector
  unfold ofSectors
  split
  · next room =>
    rw [UInt32.lt_iff_toNat_lt] at room
    have count : (sectors - headerSectors).toNat = sectors.toNat - headerSectors.toNat :=
      UInt32.toNat_sub_of_le _ _ (UInt32.le_iff_toNat_le.2 (Nat.le_of_lt room))
    have inside : Extent.Inside ⟨headerSectors, sectors - headerSectors⟩ sectors.toNat := by
      refine ⟨Nat.le_refl _, ?_, ?_⟩
      · simp only [count]
        omega
      · simp only [Extent.behind, count]
        omega
    refine ⟨empty.add (clear _) inside, fun sector => ?_⟩
    rw [free_add empty (clear _)]
    simp only [noFree, or_false, Extent.Holds, Extent.behind, count]
    omega
  · next noRoom =>
    rw [UInt32.lt_iff_toNat_lt] at noRoom
    refine ⟨empty, fun sector => ?_⟩
    simp only [noFree, false_iff]
    omega

/-- An extent that does not wrap is claimed from a free extent around it. -/
theorem holder?_eq_some_iff (sound : space.Sound) {extent : Extent} (bounded : extent.behind < 2 ^ 32)
    (other : Extent) :
    space.holder? extent = some other ↔
      extent.Inside space.sectors.toNat ∧ other ∈ space.byStart ∧
        other.first.toNat ≤ extent.first.toNat ∧ extent.behind ≤ other.behind := by
  have stop := Extent.stop_toNat bounded
  have behindSelf := extent.behind_def
  have otherStop : ∀ other ∈ space.byStart, other.stop.toNat = other.behind := by
    intro other member
    exact Extent.stop_toNat (Nat.lt_of_le_of_lt (sound.inside other member).within space.sectors.toNat_lt)
  have header := Extent.headerSectors_toNat
  have zero : extent.count = 0 ↔ extent.count.toNat = 0 := UInt32.toNat_inj.symm
  unfold holder?
  simp only [UInt32.lt_iff_toNat_lt, stop, zero]
  split
  · next refused =>
    refine ⟨nofun, fun ⟨inside, _⟩ => ?_⟩
    have := inside.behindHeader
    have := inside.nonempty
    have := inside.within
    omega
  · next accepted =>
    have inside : extent.Inside space.sectors.toNat := ⟨by omega, by omega, by omega⟩
    cases last : (space.byStart.filter fun other => other.first ≤ extent.first).getLast? with
    | none =>
      refine ⟨nofun, fun ⟨_, member, fromFirst, _⟩ => ?_⟩
      rw [List.getLast?_eq_none_iff, List.filter_eq_nil_iff] at last
      exact absurd (decide_eq_true (UInt32.le_iff_toNat_le.2 fromFirst)) (last other member)
    | some found =>
      obtain ⟨memberFound, beforeFound, greatest⟩ := before_getLast?_filter sound.separate last
      rw [decide_eq_true_eq, UInt32.le_iff_toNat_le] at beforeFound
      simp only [otherStop found memberFound]
      split
      · next short =>
        refine ⟨nofun, fun ⟨_, member, fromFirst, toLast⟩ => ?_⟩
        rcases greatest other member (decide_eq_true (UInt32.le_iff_toNat_le.2 fromFirst)) with
          rfl | earlier
        · omega
        · have := inside.nonempty
          omega
      · next long =>
        constructor
        · rintro same
          cases same
          exact ⟨inside, memberFound, beforeFound, by omega⟩
        · rintro ⟨_, member, fromFirst, toLast⟩
          rcases greatest other member (decide_eq_true (UInt32.le_iff_toNat_le.2 fromFirst)) with
            rfl | earlier
          · rfl
          · have := inside.nonempty
            omega

/-- Around a free extent there is no free sector but its own. -/
theorem Sound.not_free_around (sound : space.Sound) {extent : Extent}
    (member : extent ∈ space.byStart) {sector : Nat} (fromFront : extent.first.toNat ≤ sector + 1)
    (toBack : sector ≤ extent.behind) (free : space.Free sector) : extent.Holds sector := by
  have run := sound.isRun member
  apply Decidable.byContradiction
  intro outside
  have behind := extent.behind_def
  have side : sector + 1 = extent.first.toNat ∨ sector = extent.behind := by
    simp only [Extent.Holds] at outside
    omega
  rcases side with front | back
  · exact run.front sector front free
  · exact run.back (back ▸ free)

theorem Sound.add_rest (sound : space.Sound) (rest : Extent) {other : Extent}
    (member : other ∈ space.byStart)
    (fromFirst : other.first.toNat ≤ rest.first.toNat) (toLast : rest.behind ≤ other.behind)
    {part next : FreeSpace} (soundPart : part.Sound) (sectors : part.sectors = space.sectors)
    (taken : ∀ sector, rest.first.toNat ≤ sector + 1 → sector ≤ rest.behind →
      part.Free sector → space.Free sector ∧ ¬ other.Holds sector)
    {room : Prop} [Decidable room] (hasRoom : room ↔ 0 < rest.count.toNat)
    (made : next = if room then part.add rest else part) :
    next.Sound ∧ next.sectors = space.sectors ∧
      ∀ sector, next.Free sector ↔ rest.Holds sector ∨ part.Free sector := by
  subst made
  have behind := rest.behind_def
  split
  · next some =>
    have clear : part.Clear rest := by
      intro sector fromFront toBack freePart
      obtain ⟨free, outside⟩ := taken sector fromFront toBack freePart
      exact outside (sound.not_free_around member (by omega) (by omega) free)
    have inside : rest.Inside part.sectors.toNat := by
      have := (sound.inside other member).behindHeader
      have := (sound.inside other member).within
      rw [sectors]
      exact ⟨by omega, hasRoom.1 some, by omega⟩
    exact ⟨soundPart.add clear inside, sectors, free_add soundPart clear⟩
  · next none =>
    have empty : rest.count.toNat = 0 := Nat.eq_zero_of_not_pos fun some => none (hasRoom.2 some)
    refine ⟨soundPart, sectors, fun sector => ?_⟩
    have nothing : ¬ rest.Holds sector := by
      simp only [Extent.Holds, Extent.behind]
      omega
    simp only [nothing, false_or]

/-- Sectors are taken out of a free extent: the rest of it is kept beside the other free ones. -/
theorem Sound.free_taken (sound : space.Sound) {other taken : Extent} (member : other ∈ space.byStart)
    (fromFirst : other.first.toNat ≤ taken.first.toNat) (toLast : taken.behind ≤ other.behind)
    {sector : Nat} {kept : Prop} (rest : kept ↔ other.Holds sector ∧ ¬ taken.Holds sector) :
    kept ∨ (space.remove other).Free sector ↔ space.Free sector ∧ ¬ taken.Holds sector := by
  rw [rest, free_remove sound member]
  by_cases holds : other.Holds sector
  · have free : space.Free sector := ⟨other, member, holds⟩
    simp only [free, holds, not_true_eq_false, and_false, or_false, true_and]
  · have outside : ¬ taken.Holds sector := fun ⟨fromStart, toEnd⟩ =>
      holds ⟨Nat.le_trans fromFirst fromStart, Nat.lt_of_lt_of_le toEnd toLast⟩
    simp only [holds, outside, not_false_eq_true, and_true, false_or]

theorem Sound.claim? (sound : space.Sound) {extent : Extent} (bounded : extent.behind < 2 ^ 32)
    {next : FreeSpace} (claimed : space.claim? extent = some next) :
    extent.Inside space.sectors.toNat ∧ (∀ sector, extent.Holds sector → space.Free sector) ∧
      next.Sound ∧ next.sectors = space.sectors ∧
      ∀ sector, next.Free sector ↔ space.Free sector ∧ ¬ extent.Holds sector := by
  obtain ⟨other, held, made⟩ := Option.map_eq_some_iff.1 claimed
  obtain ⟨inside, member, fromFirst, toLast⟩ := (holder?_eq_some_iff sound bounded other).1 held
  have otherBounded : other.behind < 2 ^ 32 :=
    Nat.lt_of_le_of_lt (sound.inside other member).within space.sectors.toNat_lt
  have stop := Extent.stop_toNat bounded
  have otherStop := Extent.stop_toNat otherBounded
  have behind := extent.behind_def
  have nonempty := inside.nonempty
  have frontCount : (extent.first - other.first).toNat = extent.first.toNat - other.first.toNat :=
    UInt32.toNat_sub_of_le _ _ (UInt32.le_iff_toNat_le.2 fromFirst)
  have backCount : (other.stop - extent.stop).toNat = other.behind - extent.behind := by
    rw [UInt32.toNat_sub_of_le _ _ (UInt32.le_iff_toNat_le.2 (by omega)), otherStop, stop]
  have behindFront : Extent.behind ⟨other.first, extent.first - other.first⟩ = extent.first.toNat := by
    simp only [Extent.behind, frontCount]
    omega
  have behindBack : Extent.behind ⟨extent.stop, other.stop - extent.stop⟩ = other.behind := by
    rw [Extent.behind_def, backCount, stop]
    omega
  have removed := free_remove sound member
  -- The front of the holder is put back first, then its end.
  obtain ⟨soundFront, sectorsFront, freeFront⟩ := sound.add_rest
    ⟨other.first, extent.first - other.first⟩ member (Nat.le_refl _) (by omega)
    (sound.remove member) rfl (fun sector _ _ free => (removed sector).1 free)
    (by rw [UInt32.lt_iff_toNat_lt, frontCount]; omega)
    (rfl : _ = if other.first < extent.first then _ else _)
  obtain ⟨soundNext, sectorsNext, freeNext⟩ := sound.add_rest
    ⟨extent.stop, other.stop - extent.stop⟩ member (by rw [stop]; omega) (by omega)
    soundFront sectorsFront
    (fun sector fromBack _ free => by
      rcases (freeFront sector).1 free with inFront | free
      · have := inFront.2
        simp only [stop] at fromBack
        omega
      · exact (removed sector).1 free)
    (by rw [UInt32.lt_iff_toNat_lt, backCount]; omega) made.symm
  refine ⟨inside, fun sector ⟨fromStart, toEnd⟩ => ⟨other, member, by omega, by omega⟩,
    soundNext, sectorsNext, fun sector => ?_⟩
  rw [freeNext, freeFront, ← or_assoc]
  apply sound.free_taken member fromFirst toLast
  simp only [Extent.Holds, behindFront, behindBack, stop]
  omega

theorem isSome_claim?_iff (sound : space.Sound) {extent : Extent} (bounded : extent.behind < 2 ^ 32) :
    (space.claim? extent).isSome = true ↔
      extent.Inside space.sectors.toNat ∧ ∀ sector, extent.Holds sector → space.Free sector := by
  constructor
  · intro claimed
    obtain ⟨next, same⟩ := Option.isSome_iff_exists.1 claimed
    obtain ⟨inside, free, _⟩ := sound.claim? bounded same
    exact ⟨inside, free⟩
  · rintro ⟨inside, free⟩
    obtain ⟨other, member, fromFirst, toLast⟩ := free _ (Extent.holds_first inside.nonempty)
    have run := sound.isRun member
    have enough : extent.behind ≤ other.behind := by
      apply Nat.le_of_not_lt
      exact fun short => run.back (free _ ⟨by omega, short⟩)
    have held := (holder?_eq_some_iff sound bounded other).2 ⟨inside, member, fromFirst, enough⟩
    rw [FreeSpace.claim?, held]
    rfl

end RegionStore.FreeSpace
