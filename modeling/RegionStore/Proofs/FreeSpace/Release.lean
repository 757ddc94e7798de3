import RegionStore.Proofs.FreeSpace.Sound

/-!
What a release puts back. The released extent joins with the free extents right behind it and right in
front of it before it is added, so free extents stay the maximal runs of free sectors.
-/

set_option autoImplicit false

namespace RegionStore.FreeSpace

variable {space : FreeSpace}

/-- Sectors have left the free space to join an extent that is about to become free. -/
structure Joins (space : FreeSpace) (extent : Extent) (part : FreeSpace) (joined : Extent) : Prop where
  sound : part.Sound
  sectors : part.sectors = space.sectors
  inside : joined.Inside space.sectors.toNat
  occupied : ∀ sector, joined.Holds sector → ¬ part.Free sector
  same : ∀ sector, joined.Holds sector ∨ part.Free sector ↔ extent.Holds sector ∨ space.Free sector

theorem Joins.refl (sound : space.Sound) {extent : Extent} (inside : extent.Inside space.sectors.toNat)
    (occupied : ∀ sector, extent.Holds sector → ¬ space.Free sector) :
    Joins space extent space extent :=
  ⟨sound, rfl, inside, occupied, fun _ => Iff.rfl⟩

theorem Joins.absorb {part : FreeSpace} {extent joined : Extent}
    (joins : Joins space extent part joined) {other wide : Extent} (member : other ∈ part.byStart)
    (inside : wide.Inside space.sectors.toNat)
    (union : ∀ sector, wide.Holds sector ↔ joined.Holds sector ∨ other.Holds sector) :
    Joins space extent (part.remove other) wide := by
  have removed := free_remove joins.sound member
  refine ⟨joins.sound.remove member, joins.sectors, inside, fun sector holds free => ?_, fun sector => ?_⟩
  · obtain ⟨freePart, outside⟩ := (removed sector).1 free
    rcases (union sector).1 holds with inJoined | inOther
    · exact joins.occupied sector inJoined freePart
    · exact outside inOther
  · rw [union, removed, ← joins.same]
    have freeOther : other.Holds sector → part.Free sector := fun holds => ⟨other, member, holds⟩
    by_cases inOther : other.Holds sector
    · simp only [inOther, freeOther inOther, or_true, true_or]
    · simp only [inOther, or_false, not_false_eq_true, and_true]

theorem Joins.add {part : FreeSpace} {extent joined : Extent}
    (joins : Joins space extent part joined)
    (front : ∀ sector, sector + 1 = joined.first.toNat → ¬ part.Free sector)
    (back : ¬ part.Free joined.behind) :
    (part.add joined).Sound ∧ (part.add joined).sectors = space.sectors ∧
      ∀ sector, (part.add joined).Free sector ↔ extent.Holds sector ∨ space.Free sector := by
  have clear : part.Clear joined := by
    intro sector fromFront toBack free
    by_cases first : sector + 1 = joined.first.toNat
    · exact front sector first free
    · by_cases last : sector = joined.behind
      · exact back (last ▸ free)
      · exact joins.occupied sector ⟨by omega, by omega⟩ free
  refine ⟨joins.sound.add clear (joins.sectors ▸ joins.inside), joins.sectors, fun sector => ?_⟩
  rw [free_add joins.sound clear, joins.same]

/-- The extent right behind joins first. -/
theorem Sound.join_next (sound : space.Sound) {extent : Extent}
    (inside : extent.Inside space.sectors.toNat)
    (occupied : ∀ sector, extent.Holds sector → ¬ space.Free sector) {part : FreeSpace}
    {joined : Extent}
    (made : (match space.byStart.find? fun other => other.first = extent.stop with
      | some next => (space.remove next, { extent with count := extent.count + next.count })
      | none => (space, extent)) = (part, joined)) :
    Joins space extent part joined ∧ joined.first = extent.first ∧ ¬ part.Free joined.behind := by
  have joins := Joins.refl sound inside occupied
  have within := inside.within
  have behind := extent.behind_def
  have nonempty := inside.nonempty
  have bounded := space.sectors.toNat_lt
  have stop : extent.stop.toNat = extent.behind := Extent.stop_toNat (by omega)
  cases found : space.byStart.find? fun other => other.first = extent.stop with
  | none =>
    rw [found] at made
    cases made
    refine ⟨joins, rfl, ?_⟩
    rintro ⟨other, member, fromFirst, toLast⟩
    have elsewhere := List.find?_eq_none.1 found other member
    rw [decide_eq_true_eq, ← UInt32.toNat_inj, stop] at elsewhere
    exact occupied (extent.behind - 1) ⟨by omega, by omega⟩ ⟨other, member, by omega, by omega⟩
  | some next =>
    rw [found] at made
    cases made
    have member := List.mem_of_find?_eq_some found
    have here := List.find?_some found
    rw [decide_eq_true_eq, ← UInt32.toNat_inj, stop] at here
    have insideNext := (sound.inside next member).within
    have behindNext := next.behind_def
    have count : (extent.count + next.count).toNat = extent.count.toNat + next.count.toNat := by
      rw [UInt32.toNat_add]
      exact Nat.mod_eq_of_lt (by omega)
    have behindWide : Extent.behind ⟨extent.first, extent.count + next.count⟩ = next.behind := by
      rw [Extent.behind_mk, count]
      omega
    refine ⟨joins.absorb member ⟨inside.behindHeader, by rw [count]; omega, by omega⟩ ?_, rfl, ?_⟩
    · intro sector
      rw [Extent.Holds, behindWide]
      change extent.first.toNat ≤ sector ∧ _ ↔ (_ ∧ _) ∨ (_ ∧ _)
      omega
    · rw [behindWide]
      exact fun free => (sound.isRun member).back ((free_remove sound member _).1 free).1

theorem Joins.join_previous {part : FreeSpace} {extent joined : Extent}
    (joins : Joins space extent part joined) (first : joined.first = extent.first)
    (back : ¬ part.Free joined.behind) {last : FreeSpace} {wide : Extent}
    (made : (match (part.byStart.filter fun other => other.first < extent.first).getLast? with
      | some previous =>
        if previous.stop = extent.first then
          (part.remove previous, Extent.mk previous.first (joined.count + previous.count))
        else (part, joined)
      | none => (part, joined)) = (last, wide)) :
    Joins space extent last wide ∧
      (∀ sector, sector + 1 = wide.first.toNat → ¬ last.Free sector) ∧ ¬ last.Free wide.behind := by
  have sound := joins.sound
  have within := joins.inside.within
  have behind := joined.behind_def
  have nonempty := joins.inside.nonempty
  have bounded := space.sectors.toNat_lt
  have firstNat : joined.first.toNat = extent.first.toNat := congrArg UInt32.toNat first
  cases found : (part.byStart.filter fun other => other.first < extent.first).getLast? with
  | none =>
    rw [found] at made
    cases made
    refine ⟨joins, ?_, back⟩
    rintro sector here ⟨other, member, fromFirst, toLast⟩
    rw [List.getLast?_eq_none_iff, List.filter_eq_nil_iff] at found
    exact found other member (decide_eq_true (UInt32.lt_iff_toNat_lt.2 (by omega)))
  | some previous =>
    rw [found] at made
    obtain ⟨member, before, greatest⟩ := before_getLast?_filter sound.separate found
    rw [decide_eq_true_eq, UInt32.lt_iff_toNat_lt] at before
    have insidePrevious := (sound.inside previous member).within
    have behindPrevious := previous.behind_def
    have notOver : previous.behind ≤ joined.first.toNat := by
      apply Nat.le_of_not_lt
      exact fun reaches => joins.occupied joined.first.toNat (Extent.holds_first nonempty)
        ⟨previous, member, by omega, reaches⟩
    have stop : previous.stop.toNat = previous.behind := Extent.stop_toNat (by omega)
    simp only [← UInt32.toNat_inj, stop] at made
    split at made
    · next touching =>
      cases made
      have count : (joined.count + previous.count).toNat =
          joined.count.toNat + previous.count.toNat := by
        rw [UInt32.toNat_add]
        exact Nat.mod_eq_of_lt (by omega)
      have behindWide : Extent.behind ⟨previous.first, joined.count + previous.count⟩ =
          joined.behind := by
        rw [Extent.behind_mk, count]
        omega
      have removed := free_remove sound member
      have header := (sound.inside previous member).behindHeader
      refine ⟨joins.absorb member ⟨header, by rw [count]; omega, by omega⟩ ?_, ?_, ?_⟩
      · intro sector
        rw [Extent.Holds, behindWide]
        change previous.first.toNat ≤ sector ∧ _ ↔ (_ ∧ _) ∨ (_ ∧ _)
        omega
      · intro sector here free
        exact (sound.isRun member).front sector here ((removed sector).1 free).1
      · rw [behindWide]
        exact fun free => back ((removed _).1 free).1
    · next apart =>
      cases made
      refine ⟨joins, ?_, back⟩
      rintro sector here ⟨other, memberOther, fromFirst, toLast⟩
      rcases greatest other memberOther (decide_eq_true (UInt32.lt_iff_toNat_lt.2 (by omega))) with
        rfl | earlier
      · omega
      · omega

@[simp] theorem sectors_release (space : FreeSpace) (extent : Extent) :
    (space.release extent).sectors = space.sectors := by
  unfold FreeSpace.release
  split
  · rfl
  · dsimp only
    repeat' split
    all_goals rfl

/-- A release adds exactly the sectors of the extent, which have been occupied. -/
theorem Sound.release (sound : space.Sound) {extent : Extent}
    (inside : extent.Inside space.sectors.toNat)
    (occupied : ∀ sector, extent.Holds sector → ¬ space.Free sector) :
    (space.release extent).Sound ∧ (space.release extent).sectors = space.sectors ∧
      ∀ sector, (space.release extent).Free sector ↔ extent.Holds sector ∨ space.Free sector := by
  have nonempty : extent.count ≠ 0 := by
    intro zero
    exact absurd inside.nonempty (by rw [zero]; decide)
  unfold FreeSpace.release
  rw [if_neg nonempty]
  split
  next part joined madeNext =>
  split
  next last wide madePrevious =>
  obtain ⟨joins, first, back⟩ := sound.join_next inside occupied madeNext
  obtain ⟨joined, front, back⟩ := joins.join_previous first back madePrevious
  exact joined.add front back

end RegionStore.FreeSpace
