import RegionStore.Proofs.Host.Basic
import RegionStore.Proofs.Region.Steady

/-!
Which regions are open and how many holders each has, under any schedule. Use of a region changes
neither; a region that is opened gets a number that no open region has.
-/

set_option autoImplicit false

namespace RegionStore.Host

open Disk

def holding (host : Host) (number : Nat) : Option (RegionPos × Nat) :=
  (host.region? number).map fun entry => (entry.region.position, entry.holders)

theorem isOpen_iff {host : Host} {number : Nat} :
    host.IsOpen number ↔ host.holding number ≠ none := by
  rw [IsOpen, holding, ne_eq, Option.map_eq_none_iff, Option.isSome_iff_ne_none]

theorem holders_of_holding {host : Host} {number count : Nat} {position : RegionPos}
    (held : host.holding number = some (position, count)) : host.holders number = count := by
  obtain ⟨entry, found, same⟩ := Option.map_eq_some_iff.1 held
  rw [holders, found]
  exact congrArg Prod.snd same

def OpenAt (host : Host) (number : Nat) (position : RegionPos) : Prop :=
  ∃ count, host.holding number = some (position, count)

theorem openAt_of_region? {host : Host} {number : Nat} {entry : OpenRegion}
    (found : host.region? number = some entry) : host.OpenAt number entry.region.position :=
  ⟨entry.holders, by rw [holding, found]; rfl⟩

theorem OpenAt.unique {host : Host} {number : Nat} {position other : RegionPos}
    (here : host.OpenAt number position) (there : host.OpenAt number other) : position = other := by
  obtain ⟨_, here⟩ := here
  obtain ⟨_, there⟩ := there
  rw [here] at there
  cases there
  rfl

theorem isOpen_iff_openAt {host : Host} {number : Nat} :
    host.IsOpen number ↔ ∃ position, host.OpenAt number position := by
  rw [isOpen_iff, Option.ne_none_iff_exists']
  exact Prod.exists

/-- The number that is given next has not been given to an open region. -/
def Fresh (host : Host) : Prop :=
  ∀ number position, host.OpenAt number position → number < host.nextRegion

theorem fresh_initial : Host.initial.Fresh := by
  rintro number position ⟨count, held⟩
  cases held

theorem Fresh.holding_nextRegion {host : Host} (fresh : host.Fresh) :
    host.holding host.nextRegion = none := by
  cases held : host.holding host.nextRegion with
  | none => rfl
  | some now => exact absurd (fresh host.nextRegion now.1 ⟨now.2, held⟩) (Nat.lt_irrefl _)

theorem Fresh.holders_nextRegion {host : Host} (fresh : host.Fresh) :
    host.holders host.nextRegion = 0 := by
  rw [holders, Option.map_eq_none_iff.1 fresh.holding_nextRegion]

structure Alike (before after : Host) : Prop where
  holding : ∀ number, after.holding number = before.holding number
  next : after.nextRegion = before.nextRegion

theorem Alike.refl (host : Host) : host.Alike host := ⟨fun _ => rfl, rfl⟩

theorem Alike.trans {a b c : Host} (first : a.Alike b) (second : b.Alike c) : a.Alike c :=
  ⟨fun number => (second.holding number).trans (first.holding number), second.next.trans first.next⟩

theorem Alike.openAt {before after : Host} (alike : before.Alike after) : after.OpenAt = before.OpenAt := by
  unfold OpenAt
  simp only [alike.holding]

/-- Only the region with this number is held in another way. -/
structure Holds (before : Host) (number : Nat) (now : Option (RegionPos × Nat)) (after : Host) :
    Prop where
  holding : ∀ other, after.holding other = if other = number then now else before.holding other
  next : after.nextRegion = before.nextRegion

theorem Alike.holds {a b c : Host} {number : Nat} {now : Option (RegionPos × Nat)}
    (alike : a.Alike b) (holds : b.Holds number now c) : a.Holds number now c :=
  ⟨fun other => by rw [holds.holding, alike.holding], holds.next.trans alike.next⟩

/-- What is open after a holder has let go has been open before. -/
theorem Holds.openAt_iff {host next : Host} {position place : RegionPos} {number other count : Nat}
    (held : host.holding number = some (position, count))
    (holds : host.Holds number (if 1 < count then some (position, count - 1) else none) next) :
    next.OpenAt other place ↔ host.OpenAt other place ∧ (other = number → 1 < count) := by
  unfold OpenAt
  rw [holds.holding]
  split
  · next same =>
    rw [same, held]
    split
    · next more => simp [more]
    · next last => simp [last]
  · next different => simp [different]

theorem region?_insert (host : Host) (number other : Nat) (entry : OpenRegion) :
    (host.setRegion number entry).region? other =
      if other = number then some entry else host.region? other := by
  have same : Ord.compare number other = .eq ↔ other = number := by
    rw [Nat.compare_eq_eq, eq_comm]
  unfold region? setRegion
  simp only [Std.TreeMap.getElem?_insert, same]

theorem holds_setRegion (host : Host) (number : Nat) (entry : OpenRegion) :
    host.Holds number (some (entry.region.position, entry.holders)) (host.setRegion number entry) := by
  refine ⟨fun other => ?_, rfl⟩
  rw [holding, region?_insert, holding]
  split <;> rfl

theorem region?_erase (host : Host) (number other : Nat) :
    Host.region? { host with regions := host.regions.erase number } other =
      if other = number then none else host.region? other := by
  have same : Ord.compare number other = .eq ↔ other = number := by
    rw [Nat.compare_eq_eq, eq_comm]
  unfold region?
  simp only [Std.TreeMap.getElem?_erase, same]

theorem holds_erase (host : Host) (number : Nat) :
    host.Holds number none { host with regions := host.regions.erase number } := by
  refine ⟨fun other => ?_, rfl⟩
  rw [holding, region?_erase, holding]
  split <;> rfl

theorem Holds.again {a b c : Host} {number : Nat} {now later : Option (RegionPos × Nat)}
    (first : a.Holds number now b) (second : b.Holds number later c) : a.Holds number later c := by
  refine ⟨fun other => ?_, second.next.trans first.next⟩
  rw [second.holding, first.holding]
  split <;> rfl

theorem alike_keep (host : Host) (handle : Handle) (device : Device) :
    host.Alike (host.keep handle device) := by
  obtain ⟨_, _ | _⟩ := handle <;> exact ⟨fun _ => rfl, rfl⟩

theorem onRegion_alike {Result : Type} [Inhabited Result] {action : OnRegion Result}
    (steady : Region.Steady action) (number : Nat) (host : Host) :
    Ends (onRegion number action) host (fun _ next => host.Alike next) fun _ next => host.Alike next := by
  cases found : host.region? number with
  | none =>
    simp only [Ends, onRegion, found]
    exact Alike.refl host
  | some entry =>
    have held : host.holding number = some (entry.region.position, entry.holders) := by
      rw [holding, found]
      rfl
    have alike {region : Region} {device : Device} (same : region.position = entry.region.position) :
        host.Alike ((host.keep entry.handle device).setRegion number { entry with region := region }) := by
      have holds := (alike_keep host entry.handle device).holds
        (holds_setRegion (host.keep entry.handle device) number { entry with region := region })
      refine ⟨fun other => ?_, holds.next⟩
      rw [holds.holding, same]
      split
      · next here => rw [here, held]
      · rfl
    rw [ends_onRegion found]
    exact Ends.mono (steady _) (fun _ _ => alike) fun _ _ => alike

theorem notify_ends (notice : Notice) (host : Host) :
    Ends (notify notice) host (fun _ next => host.Alike next) fun _ _ => False :=
  ⟨fun _ => rfl, rfl⟩

theorem openFile_alike (path : Bytes) (host : Host) :
    Ends (openFile path) host (fun _ next => host.Alike next) fun _ next => host.Alike next := by
  simp only [Ends, openFile]
  cases (host.around.turns .opening).settle.refusal with
  | some reason => exact ⟨fun _ => rfl, rfl⟩
  | none =>
    cases host.tree.filePlace path with
    | error reason => exact ⟨fun _ => rfl, rfl⟩
    | ok found =>
      obtain ⟨place, _ | _ | _ | _⟩ := found <;> exact ⟨fun _ => rfl, rfl⟩

theorem onDevice_alike {Result : Type} (handle : Handle) (action : OnDevice Result) (host : Host) :
    Ends (onDevice handle action) host (fun _ next => host.Alike next) fun _ next => host.Alike next := by
  rw [ends_onDevice]
  exact Ends.mono (ends_somehow _ _) (fun _ next _ => alike_keep host handle next)
    fun _ next _ => alike_keep host handle next

/-- The region with this number, which may have been opened for it, has one more holder. -/
structure Gains (before : Host) (position : RegionPos) (number : Nat) (after : Host) : Prop where
  known : number = before.nextRegion ∨ before.OpenAt number position
  holding : ∀ other, after.holding other =
    if other = number then some (position, before.holders number + 1) else before.holding other
  next : after.nextRegion = max before.nextRegion (number + 1)

theorem Gains.openAt_iff {host next : Host} {position place : RegionPos} {number other : Nat}
    (fresh : host.Fresh) (gains : host.Gains position number next) :
    next.OpenAt other place ↔ host.OpenAt other place ∨ other = number ∧ place = position := by
  unfold OpenAt
  rw [gains.holding]
  split
  · next same =>
    subst same
    constructor
    · rintro ⟨_, equal⟩
      cases equal
      exact .inr ⟨rfl, rfl⟩
    · rintro (⟨count, held⟩ | ⟨_, rfl⟩)
      · rcases gains.known with rfl | here
        · rw [fresh.holding_nextRegion] at held
          cases held
        · rw [here.unique ⟨count, held⟩]
          exact ⟨_, rfl⟩
      · exact ⟨_, rfl⟩
  · next different => exact ⟨.inl, fun either => either.resolve_right fun both => different both.1⟩

theorem Gains.le {before after : Host} {position : RegionPos} {number : Nat}
    (gains : before.Gains position number after) : before.nextRegion ≤ after.nextRegion := by
  rw [gains.next]
  exact Nat.le_max_left _ _

theorem Gains.fresh {before after : Host} {position : RegionPos} {number : Nat} (fresh : before.Fresh)
    (gains : before.Gains position number after) : after.Fresh := by
  intro other place isOpen
  rw [gains.next]
  rcases (gains.openAt_iff fresh).1 isOpen with isOpen | ⟨rfl, _⟩
  · exact Nat.lt_of_lt_of_le (fresh other place isOpen) (Nat.le_max_left _ _)
  · exact Nat.lt_of_lt_of_le (Nat.lt_succ_self other) (Nat.le_max_right _ _)

theorem openRegion_gains (path : Bytes) (position : RegionPos) (sync : Bool) {host : Host}
    (fresh : host.Fresh) :
    Ends (openRegion path position sync) host (fun number next => host.Gains position number next ∧
      number = host.nextRegion) fun _ next => host.Alike next := by
  unfold openRegion
  rw [ends_bind]
  refine Ends.mono (openFile_alike path host) ?_ fun _ _ => id
  intro handle opened alike
  have loads : Ends (onDevice handle (Region.load position sync)) opened
      (fun region next => host.Alike next ∧ region.position = position) fun _ next => host.Alike next := by
    rw [ends_onDevice]
    exact Ends.mono (Region.load_position position sync _)
      (fun _ next same => ⟨alike.trans (alike_keep opened handle next), same⟩)
      fun _ next _ => alike.trans (alike_keep opened handle next)
  rw [ends_tryCatch, ends_bind]
  refine Ends.mono loads ?_ ?_
  · rintro region ready ⟨alikeReady, rfl⟩
    have holds := alikeReady.holds (holds_setRegion ready ready.nextRegion ⟨region, handle, 1⟩)
    have closed : host.holders ready.nextRegion = 0 := by
      rw [alikeReady.next]
      exact fresh.holders_nextRegion
    refine ⟨⟨.inl alikeReady.next, fun other => ?_, ?_⟩, alikeReady.next⟩
    · exact closed.symm ▸ holds.holding other
    · exact (congrArg (· + 1) alikeReady.next).trans (by rw [alikeReady.next]; omega)
  · intro failure closing alikeClosing
    simp only [ends_bind, ends_throw]
    exact Ends.mono (onDevice_alike handle Device.close closing) (fun _ _ => alikeClosing.trans)
      fun _ _ => alikeClosing.trans

theorem hold_gains {number : Nat} {host : Host} {position : RegionPos} (fresh : host.Fresh)
    (isOpen : host.OpenAt number position) :
    Ends (hold number) host (fun _ next => host.Gains position number next) fun _ _ => False := by
  obtain ⟨count, held⟩ := isOpen
  have numbered := fresh number position ⟨count, held⟩
  obtain ⟨entry, found, same⟩ := Option.map_eq_some_iff.1 held
  cases same
  have holds := holds_setRegion host number { entry with holders := entry.holders + 1 }
  have gains : host.Gains entry.region.position number
      (host.setRegion number { entry with holders := entry.holders + 1 }) := by
    refine ⟨.inr ⟨_, held⟩, fun other => ?_, holds.next.trans (by omega)⟩
    rw [holders_of_holding held]
    exact holds.holding other
  unfold hold
  rw [ends_modify, found]
  exact gains

/-- A holder lets go of a region, which is closed with the last one. -/
theorem release_holds (number : Nat) {host : Host} {position : RegionPos} {count : Nat}
    (held : host.holding number = some (position, count)) :
    Ends (release number) host
      (fun _ next => host.Holds number (if 1 < count then some (position, count - 1) else none) next)
      fun _ _ => False := by
  obtain ⟨entry, found, same⟩ := Option.map_eq_some_iff.1 held
  cases same
  unfold release
  simp only [ends_bind, ends_get, found]
  split
  · rw [ends_set]
    exact holds_setRegion host number { entry with holders := entry.holders - 1 }
  · simp only [ends_bind, ends_modify, ends_onRegion found]
    refine Ends.mono (Region.close_ends entry.region (host.device entry.handle)) ?_ fun _ _ => id
    rintro _ closed _
    exact ((alike_keep host entry.handle closed.2).holds (holds_setRegion _ number _)).again
      (holds_erase _ number)

end RegionStore.Host
