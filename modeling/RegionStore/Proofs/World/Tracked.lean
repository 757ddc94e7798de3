import RegionStore.Proofs.Host.Holding
import RegionStore.Proofs.World.OpenTable
import RegionStore.World.Basic

/-!
How the regions of a world are kept track of. A region that is open belongs to the table or is parked,
and its holders are the table and the callers with handles. While regions are put away, some of them have
left the table but still count its hold on them. A region can be forgotten while it is open: then it is in
neither place, and only the callers with handles hold it.
-/

set_option autoImplicit false

namespace RegionStore.World

open Disk

/-- All regions with numbers from `first` on are tracked, but for those that are forgotten. Callers have
`handles`, and the table has not let go yet of what is in `leaving`. -/
structure Tracked (first : Nat) (forgotten : Nat → Prop) (handles leaving : List (RegionPos × Nat))
    (opened : OpenTable) (parked : List (RegionPos × Nat)) (host : Host) : Prop where
  begins : first ≤ host.nextRegion
  fresh : host.Fresh
  single : opened.Single
  inTable : ∀ position number, opened.find? position = some number →
    first ≤ number ∧ host.OpenAt number position
  numbered : ∀ entry ∈ parked, first ≤ entry.2 ∧ entry.2 < host.nextRegion
  atPosition : ∀ entry ∈ parked, ∀ position, host.OpenAt entry.2 position → entry.1 = position
  known : ∀ number position, first ≤ number → ¬ forgotten number → host.OpenAt number position →
    opened.find? position = some number ∨ opened.find? position = none ∧
      (parked.lookup position = some number ∨
        (position, number) ∈ leaving ∧ (position, number) ∉ handles)
  holders : ∀ number position count, first ≤ number → host.holding number = some (position, count) →
    0 < count ∧ count = (if opened.find? position = some number then 1 else 0) +
      handles.count (position, number) + leaving.count (position, number)
  live : ∀ position number, (position, number) ∈ handles ∨ (position, number) ∈ leaving →
    first ≤ number ∧ host.OpenAt number position
  lost : ∀ number, forgotten number → number < host.nextRegion ∧
    (∀ position, opened.find? position ≠ some number) ∧ ∀ entry ∈ parked, entry.2 ≠ number

theorem tracked_new {host : Host} (fresh : host.Fresh) :
    Tracked host.nextRegion (fun _ => False) [] [] OpenTable.empty [] host := by
  have nothing (number : Nat) (position : RegionPos) (own : host.nextRegion ≤ number) :
      ¬ host.OpenAt number position := fun isOpen =>
    Nat.not_lt_of_le own (fresh number position isOpen)
  refine ⟨Nat.le_refl _, fresh, List.nodup_nil, nofun, nofun, nofun, ?_, ?_, nofun, nofun⟩
  · intro number position own _ isOpen
    exact absurd isOpen (nothing number position own)
  · intro number position count own held
    exact absurd ⟨count, held⟩ (nothing number position own)

section
variable {first : Nat} {forgotten : Nat → Prop} {handles leaving : List (RegionPos × Nat)}
  {opened : OpenTable} {parked : List (RegionPos × Nat)} {host next : Host}
  (tracked : Tracked first forgotten handles leaving opened parked host)
include tracked

theorem Tracked.alike (alike : host.Alike next) :
    Tracked first forgotten handles leaving opened parked next := by
  have same : next.holding = host.holding := funext alike.holding
  obtain ⟨begins, fresh, single, inTable, numbered, atPosition, known, holders, live, lost⟩ := tracked
  have freshNext : next.Fresh := by
    unfold Host.Fresh
    rwa [alike.openAt, alike.next]
  refine ⟨?_, freshNext, single, ?_, ?_, ?_, ?_, ?_, ?_, ?_⟩ <;> simp only [alike.next, alike.openAt, same] <;>
    assumption

theorem Tracked.perm {leaving' : List (RegionPos × Nat)} (perm : leaving.Perm leaving') :
    Tracked first forgotten handles leaving' opened parked host := by
  obtain ⟨begins, fresh, single, inTable, numbered, atPosition, known, holders, live, lost⟩ := tracked
  simp only [perm.mem_iff, perm.count_eq] at known holders live
  exact ⟨begins, fresh, single, inTable, numbered, atPosition, known, holders, live, lost⟩

/-- Some parked regions are dropped, but none that is still to be found by its position. -/
theorem Tracked.fewer {parked' : List (RegionPos × Nat)} (kept : ∀ entry ∈ parked', entry ∈ parked)
    (found : ∀ number position, first ≤ number → ¬ forgotten number → host.OpenAt number position →
      opened.find? position = none → parked.lookup position = some number →
      parked'.lookup position = some number) :
    Tracked first forgotten handles leaving opened parked' host := by
  obtain ⟨begins, fresh, single, inTable, numbered, atPosition, known, holders, live, lost⟩ := tracked
  refine ⟨begins, fresh, single, inTable, fun entry member => numbered entry (kept entry member),
    fun entry member => atPosition entry (kept entry member), ?_, holders, live, ?_⟩
  · intro number position own remembered isOpen
    rcases known number position own remembered isOpen with inTable | ⟨absent, isParked | leaves⟩
    · exact .inl inTable
    · exact .inr ⟨absent, .inl (found number position own remembered isOpen absent isParked)⟩
    · exact .inr ⟨absent, .inr leaves⟩
  · intro number isForgotten
    obtain ⟨numbered, notInTable, notParked⟩ := lost number isForgotten
    exact ⟨numbered, notInTable, fun entry member => notParked entry (kept entry member)⟩

theorem Tracked.forgetClosed :
    Tracked first forgotten handles leaving opened
      (parked.filter fun entry => host.IsOpen entry.2) host := by
  refine tracked.fewer (fun entry member => (List.mem_filter.1 member).1) ?_
  intro number position _ _ isOpen _ isParked
  obtain ⟨front, back, rfl, before⟩ := List.lookup_eq_some_iff.1 isParked
  rw [List.filter_append, List.filter_cons,
    if_pos (decide_eq_true (Host.isOpen_iff_openAt.2 ⟨position, isOpen⟩))]
  exact List.lookup_eq_some_iff.2
    ⟨_, _, rfl, fun entry member => before entry (List.mem_filter.1 member).1⟩

/-- No parked region is left at a position. If it is not the position of a region of the table, those
that are open there are forgotten from then on. -/
theorem Tracked.forget (position : RegionPos) :
    Tracked first
      (fun number => forgotten number ∨
        opened.find? position = none ∧ first ≤ number ∧ host.OpenAt number position)
      handles leaving opened (erased parked position) host := by
  have kept (entry : RegionPos × Nat) (member : entry ∈ erased parked position) :
      entry ∈ parked ∧ entry.1 ≠ position := by
    simpa using List.mem_filter.1 member
  obtain ⟨begins, fresh, single, inTable, numbered, atPosition, known, holders, live, lost⟩ := tracked
  refine ⟨begins, fresh, single, inTable, fun entry member => numbered entry (kept entry member).1,
    fun entry member => atPosition entry (kept entry member).1, ?_, holders, live, ?_⟩
  · intro number place own remembered isOpen
    rw [not_or] at remembered
    refine (known number place own remembered.1 isOpen).imp_right fun ⟨absent, rest⟩ => ⟨absent, ?_⟩
    have elsewhere : place ≠ position := by
      rintro rfl
      exact remembered.2 ⟨absent, own, isOpen⟩
    rwa [erased, lookup_erased, if_neg elsewhere]
  · rintro number (isForgotten | ⟨absent, _, isOpen⟩)
    · obtain ⟨numbered, notInTable, notParked⟩ := lost number isForgotten
      exact ⟨numbered, notInTable, fun entry member => notParked entry (kept entry member).1⟩
    · refine ⟨fresh number position isOpen, fun place found => ?_, fun entry member same => ?_⟩
      · rw [← (inTable place number found).2.unique isOpen, found] at absent
        cases absent
      · exact (kept entry member).2 (atPosition entry (kept entry member).1 position (same ▸ isOpen))

theorem Tracked.drop {position : RegionPos}
    (stale : ∀ number, opened.find? position = none → first ≤ number → ¬ forgotten number →
      ¬ host.OpenAt number position) :
    Tracked first forgotten handles leaving opened (erased parked position) host := by
  have same : (fun number => forgotten number ∨
      opened.find? position = none ∧ first ≤ number ∧ host.OpenAt number position) = forgotten := by
    funext number
    rw [eq_iff_iff, or_iff_left_iff_imp]
    intro ⟨absent, own, isOpen⟩
    exact Classical.byContradiction fun remembered => stale number absent own remembered isOpen
  exact same ▸ tracked.forget position

/-- The holders of a region that is open. -/
theorem Tracked.holders_of_openAt {number : Nat} {position : RegionPos} (own : first ≤ number)
    (isOpen : host.OpenAt number position) :
    0 < host.holders number ∧ host.holders number =
      (if opened.find? position = some number then 1 else 0) + handles.count (position, number) +
        leaving.count (position, number) := by
  obtain ⟨count, held⟩ := isOpen
  rw [Host.holders_of_holding held]
  exact tracked.holders number position count own held

/-- The hold of the table on a region that leaves it is still counted. -/
theorem Tracked.counted_detach {position : RegionPos} {number : Nat}
    (found : opened.find? position = some number) {other : Nat} {place : RegionPos} {count : Nat}
    (own : first ≤ other) (held : host.holding other = some (place, count)) :
    0 < count ∧ count = (if (opened.erase position).find? place = some other then 1 else 0) +
      handles.count (place, other) + ((position, number) :: leaving).count (place, other) := by
  have before := tracked.holders other place count own held
  rw [tracked.single.find?_erase position]
  by_cases same : (place, other) = (position, number)
  · cases same
    rw [if_pos found] at before
    rw [if_pos rfl, if_neg nofun, List.count_cons_self]
    omega
  · rw [List.count_cons_of_ne (Ne.symm same)]
    by_cases here : place = position
    · subst here
      rw [found, if_neg fun equal => same (congrArg (Prod.mk place) (Option.some.inj equal).symm)]
        at before
      simpa only [if_true, reduceCtorEq, if_false] using before
    · simpa only [if_neg here] using before

theorem Tracked.parked_detach {position : RegionPos} {number : Nat}
    (found : opened.find? position = some number) (isHandle : (position, number) ∈ handles) :
    1 < host.holders number := by
  obtain ⟨own, isOpen⟩ := tracked.inTable position number found
  have counted := (tracked.holders_of_openAt own isOpen).2
  rw [if_pos found] at counted
  have positive := List.count_pos_iff.2 isHandle
  omega

/-- A region of the table leaves it, and is parked if somebody else holds it. -/
theorem Tracked.detach {position : RegionPos} {number : Nat}
    (found : opened.find? position = some number) :
    Tracked first forgotten handles ((position, number) :: leaving) (opened.erase position)
      (if 1 < host.holders number then (position, number) :: erased parked position else parked)
      host := by
  obtain ⟨own, isOpen⟩ := tracked.inTable position number found
  have erase := tracked.single.find?_erase position
  have members {entry : RegionPos × Nat} (member : entry ∈ if 1 < host.holders number then
      (position, number) :: erased parked position else parked) :
      entry = (position, number) ∨ entry ∈ parked := by
    split at member
    · exact (List.mem_cons.1 member).imp_right fun kept => (List.mem_filter.1 kept).1
    · exact .inr member
  refine ⟨tracked.begins, tracked.fresh, tracked.single.erase position, ?_, ?_, ?_, ?_,
    fun _ _ _ => tracked.counted_detach found, ?_, ?_⟩
  · intro place other isOther
    rw [erase] at isOther
    split at isOther
    · cases isOther
    · exact tracked.inTable place other isOther
  · intro entry member
    rcases members member with rfl | old
    · exact ⟨own, tracked.fresh number position isOpen⟩
    · exact tracked.numbered entry old
  · intro entry member place isOpenEntry
    rcases members member with rfl | old
    · exact isOpen.unique isOpenEntry
    · exact tracked.atPosition entry old place isOpenEntry
  · intro other place ownOther remembered isOpenOther
    rw [erase]
    by_cases here : place = position
    · subst here
      rcases tracked.known other place ownOther remembered isOpenOther with inTable | ⟨absent, _⟩
      · rw [found] at inTable
        cases inTable
        refine .inr ⟨if_pos rfl, ?_⟩
        split
        · exact .inl List.lookup_cons_self
        · next alone =>
          exact .inr ⟨List.mem_cons_self, fun isHandle => alone (tracked.parked_detach found isHandle)⟩
      · rw [found] at absent
        cases absent
    · have lookup : (if 1 < host.holders number then (position, number) :: erased parked position
          else parked).lookup place = parked.lookup place := by
        split
        · rw [List.lookup_cons, beq_eq_false_iff_ne.2 here]
          exact (lookup_erased parked position place).trans (if_neg here)
        · rfl
      rw [if_neg here, lookup]
      refine (tracked.known other place ownOther remembered isOpenOther).imp_right
        fun ⟨absent, rest⟩ => ⟨absent, ?_⟩
      exact rest.imp_right fun ⟨leaves, noHandle⟩ => ⟨List.mem_cons_of_mem _ leaves, noHandle⟩
  · intro place other member
    rcases member with isHandle | leaves
    · exact tracked.live place other (.inl isHandle)
    · rcases List.mem_cons.1 leaves with same | leaves
      · cases same
        exact ⟨own, isOpen⟩
      · exact tracked.live place other (.inr leaves)
  · intro other isForgotten
    obtain ⟨numbered, notInTable, notParked⟩ := tracked.lost other isForgotten
    refine ⟨numbered, fun place found => ?_, fun entry member same => ?_⟩
    · rw [erase] at found
      split at found
      · cases found
      · exact notInTable place found
    · rcases members member with rfl | old
      · exact notInTable position (same ▸ found)
      · exact notParked entry old same

/-- A handle that is given up becomes a hold that is still to be let go. -/
theorem Tracked.leave {position : RegionPos} {number : Nat}
    (isHandle : (position, number) ∈ handles) :
    Tracked first forgotten (handles.erase (position, number)) ((position, number) :: leaving) opened
      parked host := by
  obtain ⟨begins, fresh, single, inTable, numbered, atPosition, known, holders, live, lost⟩ := tracked
  refine ⟨begins, fresh, single, inTable, numbered, atPosition, ?_, ?_, ?_, lost⟩
  · intro other place own remembered isOpen
    refine (known other place own remembered isOpen).imp_right fun ⟨absent, rest⟩ => ⟨absent, ?_⟩
    exact rest.imp_right fun ⟨leaves, noHandle⟩ =>
      ⟨List.mem_cons_of_mem _ leaves, fun still => noHandle (List.mem_of_mem_erase still)⟩
  · intro other place count own held
    have before := holders other place count own held
    by_cases same : (place, other) = (position, number)
    · rw [same] at before ⊢
      have positive := List.count_pos_iff.2 isHandle
      rw [List.count_erase_self, List.count_cons_self]
      omega
    · rwa [List.count_erase_of_ne same, List.count_cons_of_ne (Ne.symm same)]
  · intro place other member
    rcases member with still | leaves
    · exact live place other (.inl (List.mem_of_mem_erase still))
    · rcases List.mem_cons.1 leaves with same | leaves
      · exact live place other (.inl (same ▸ isHandle))
      · exact live place other (.inr leaves)

end

section
variable {first number : Nat} {forgotten : Nat → Prop} {handles leaving : List (RegionPos × Nat)}
  {opened : OpenTable} {parked : List (RegionPos × Nat)} {host next : Host} {position : RegionPos}

theorem Tracked.released {count : Nat}
    (tracked : Tracked first forgotten handles ((position, number) :: leaving) opened parked host)
    (held : host.holding number = some (position, count))
    (holds : host.Holds number (if 1 < count then some (position, count - 1) else none) next) :
    Tracked first forgotten handles leaving opened parked next := by
  have still {other : Nat} {place : RegionPos} := @Host.Holds.openAt_iff _ _ _ place _ other _ held holds
  obtain ⟨begins, fresh, single, inTable, numbered, atPosition, known, holders, live, lost⟩ := tracked
  have own := (live position number (.inr List.mem_cons_self)).1
  have counted := (holders number position count own held).2
  rw [List.count_cons_self] at counted
  refine ⟨holds.next ▸ begins, ?_, single, ?_, holds.next ▸ numbered, ?_, ?_, ?_, ?_, holds.next ▸ lost⟩
  · intro other place isOpen
    exact holds.next.symm ▸ fresh other place (still.1 isOpen).1
  · intro place other found
    obtain ⟨ownOther, isOpen⟩ := inTable place other found
    refine ⟨ownOther, still.2 ⟨isOpen, ?_⟩⟩
    rintro rfl
    rw [← isOpen.unique ⟨count, held⟩, if_pos found] at counted
    omega
  · intro entry member place isOpen
    exact atPosition entry member place (still.1 isOpen).1
  · intro other place ownOther remembered isOpen
    obtain ⟨isOpen, many⟩ := still.1 isOpen
    refine (known other place ownOther remembered isOpen).imp_right fun ⟨absent, rest⟩ => ⟨absent, ?_⟩
    refine rest.imp_right fun ⟨leaves, noHandle⟩ => ⟨?_, noHandle⟩
    rcases List.mem_cons.1 leaves with same | leaves
    · cases same
      rw [absent, if_neg nofun, List.count_eq_zero.2 noHandle] at counted
      have more := many rfl
      exact List.count_pos_iff.1 (by omega)
    · exact leaves
  · intro other place among ownOther heldOther
    rw [holds.holding] at heldOther
    split at heldOther
    · next same =>
      subst same
      split at heldOther
      · cases heldOther
        omega
      · cases heldOther
    · next different =>
      have counted := holders other place among ownOther heldOther
      rwa [List.count_cons_of_ne fun same => different (congrArg Prod.snd same).symm] at counted
  · intro place other member
    obtain ⟨ownOther, isOpen⟩ := live place other (member.imp_right (List.mem_cons_of_mem _))
    refine ⟨ownOther, still.2 ⟨isOpen, ?_⟩⟩
    rintro rfl
    rw [isOpen.unique ⟨count, held⟩] at member
    have positive : 0 < handles.count (position, other) + leaving.count (position, other) := by
      rcases member with isHandle | leaves
      · exact Nat.add_pos_left (List.count_pos_iff.2 isHandle) _
      · exact Nat.add_pos_right _ (List.count_pos_iff.2 leaves)
    omega

/-- A caller gets a handle of a region that the table or a caller has. -/
theorem Tracked.gained (tracked : Tracked first forgotten handles leaving opened parked host)
    (gains : host.Gains position number next)
    (kept : opened.find? position = some number ∨ (position, number) ∈ handles) :
    Tracked first forgotten ((position, number) :: handles) leaving opened parked next := by
  obtain ⟨own, isOpen⟩ : first ≤ number ∧ host.OpenAt number position :=
    kept.elim (tracked.inTable position number) fun isHandle => tracked.live position number (.inl isHandle)
  have counted := (tracked.holders_of_openAt own isOpen).2
  have still {other : Nat} {place : RegionPos} : next.OpenAt other place ↔ host.OpenAt other place := by
    rw [gains.openAt_iff tracked.fresh, or_iff_left_iff_imp]
    rintro ⟨rfl, rfl⟩
    exact isOpen
  have same : next.nextRegion = host.nextRegion := by
    have numbered := tracked.fresh number position isOpen
    exact gains.next.trans (by omega)
  refine ⟨same ▸ tracked.begins, gains.fresh tracked.fresh, tracked.single, ?_, same ▸ tracked.numbered,
    ?_, ?_, ?_, ?_, same ▸ tracked.lost⟩
  · intro place other found
    rw [still]
    exact tracked.inTable place other found
  · intro entry member place isOpenEntry
    exact tracked.atPosition entry member place (still.1 isOpenEntry)
  · intro other place ownOther remembered isOpenOther
    refine (tracked.known other place ownOther remembered (still.1 isOpenOther)).imp_right
      fun ⟨absent, rest⟩ => ⟨absent, rest.imp_right fun ⟨leaves, noHandle⟩ => ⟨leaves, ?_⟩⟩
    rintro (_ | _)
    · rcases kept with found | isHandle
      · rw [found] at absent
        cases absent
      · exact noHandle isHandle
    · exact noHandle ‹_›
  · intro other place count ownOther held
    rw [gains.holding] at held
    split at held
    · next here =>
      cases held
      subst here
      rw [List.count_cons_self]
      omega
    · next different =>
      rw [List.count_cons_of_ne fun equal => different (congrArg Prod.snd equal).symm]
      exact tracked.holders other place count ownOther held
  · intro place other member
    rw [still, List.mem_cons] at *
    rcases member with (same | isHandle) | leaves
    · cases same
      exact ⟨own, isOpen⟩
    · exact tracked.live place other (.inl isHandle)
    · exact tracked.live place other (.inr leaves)

/-- A region enters the table at a position where no other one is open, but for forgotten ones. -/
theorem Tracked.admit (tracked : Tracked first forgotten handles leaving opened parked host)
    (gains : host.Gains position number next) (own : first ≤ number) (remembered : ¬ forgotten number)
    (absent : opened.find? position = none)
    (alone : ∀ other, first ≤ other → ¬ forgotten other → host.OpenAt other position → other = number) :
    Tracked first forgotten handles leaving (opened.insert position number) parked next := by
  have insert := tracked.single.find?_insert absent number
  have openAt {other : Nat} {place : RegionPos} := @Host.Gains.openAt_iff _ _ _ place _ other
    tracked.fresh gains
  have isOpen : next.OpenAt number position := openAt.2 (.inr ⟨rfl, rfl⟩)
  have counted : host.holders number =
      handles.count (position, number) + leaving.count (position, number) := by
    rcases gains.known with rfl | isOpen
    · have nobody (holds : (position, host.nextRegion) ∈ handles ∨ (position, host.nextRegion) ∈ leaving) :
          False := Nat.lt_irrefl _ (tracked.fresh _ position (tracked.live _ _ holds).2)
      rw [tracked.fresh.holders_nextRegion, List.count_eq_zero.2 fun member => nobody (.inl member),
        List.count_eq_zero.2 fun member => nobody (.inr member)]
    · rw [(tracked.holders_of_openAt own isOpen).2, absent, if_neg nofun, Nat.zero_add]
  refine ⟨Nat.le_trans tracked.begins gains.le, gains.fresh tracked.fresh,
    tracked.single.insert absent number, ?_, ?_, ?_, ?_, ?_, ?_, ?_⟩
  · intro place other found
    rw [insert] at found
    split at found
    · next here =>
      cases found
      exact ⟨own, here ▸ isOpen⟩
    · obtain ⟨ownOther, isOpenOther⟩ := tracked.inTable place other found
      exact ⟨ownOther, openAt.2 (.inl isOpenOther)⟩
  · intro entry member
    obtain ⟨ownEntry, numbered⟩ := tracked.numbered entry member
    exact ⟨ownEntry, Nat.lt_of_lt_of_le numbered gains.le⟩
  · intro entry member place isOpenEntry
    rcases openAt.1 isOpenEntry with isOpenEntry | ⟨same, rfl⟩
    · exact tracked.atPosition entry member place isOpenEntry
    · rcases gains.known with new | isOpen
      · exact absurd (tracked.numbered entry member).2 (by omega)
      · exact tracked.atPosition entry member place (same ▸ isOpen)
  · intro other place ownOther rememberedOther isOpenOther
    rw [insert]
    rcases openAt.1 isOpenOther with isOpenOther | ⟨rfl, rfl⟩
    · by_cases here : place = position
      · subst here
        rw [alone other ownOther rememberedOther isOpenOther]
        exact .inl (if_pos rfl)
      · rw [if_neg here]
        exact tracked.known other place ownOther rememberedOther isOpenOther
    · exact .inl (if_pos rfl)
  · intro other place count ownOther held
    rw [insert]
    rw [gains.holding] at held
    split at held
    · next same =>
      cases held
      subst same
      rw [if_pos rfl, if_pos rfl]
      omega
    · next different =>
      have before := tracked.holders other place count ownOther held
      by_cases here : place = position
      · subst here
        rw [absent, if_neg nofun] at before
        rwa [if_pos rfl, if_neg fun equal => different (Option.some.inj equal).symm]
      · rwa [if_neg here]
  · intro place other member
    obtain ⟨ownOther, isOpenOther⟩ := tracked.live place other member
    exact ⟨ownOther, openAt.2 (.inl isOpenOther)⟩
  · intro other isForgotten
    obtain ⟨numbered, notInTable, notParked⟩ := tracked.lost other isForgotten
    refine ⟨Nat.lt_of_lt_of_le numbered gains.le, fun place found => ?_, notParked⟩
    rw [insert] at found
    split at found
    · cases found
      exact remembered isForgotten
    · exact notInTable place found

end

end RegionStore.World
