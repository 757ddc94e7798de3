import RegionStore.Proofs.World.Resting
import RegionStore.Proofs.World.Tracked

/-!
Regions that are put away or closed. Under any schedule everything stays tracked, and only closing at a
position that is not open can forget a region.
-/

set_option autoImplicit false

namespace RegionStore.World

open Disk

def InOrder (first : Nat) (forgotten : Nat → Prop) (handles leaving : List (RegionPos × Nat))
    (state : World × Host) : Prop :=
  Tracked first forgotten handles leaving state.1.opened state.1.parked state.2

section
variable {first number : Nat} {forgotten : Nat → Prop} {handles leaving : List (RegionPos × Nat)}
  {world : World} {host : Host} {position : RegionPos}

theorem flush_alike (world : World) (host : Host) (number : Nat) :
    Ends (flush number) (world, host) (fun _ next => next.1 = world ∧ host.Alike next.2)
      fun _ next => next.1 = world ∧ host.Alike next.2 := by
  unfold flush
  rw [ends_host]
  exact Ends.mono (Host.onRegion_alike Region.steady_flush number host) (fun _ _ alike => ⟨rfl, alike⟩)
    fun _ _ alike => ⟨rfl, alike⟩

theorem notify_alike (world : World) (host : Host) (notice : Notice) :
    Ends (notify notice) (world, host) (fun _ next => next.1 = world ∧ host.Alike next.2)
      fun _ _ => False := by
  unfold notify
  rw [ends_host]
  exact Ends.mono (Host.notify_ends notice host) (fun _ _ alike => ⟨rfl, alike⟩) fun _ _ => id

theorem tryFlush_alike (world : World) (host : Host) (position : RegionPos) (number : Nat) :
    Ends (tryFlush position number) (world, host) (fun _ next => next.1 = world ∧ host.Alike next.2)
      fun _ _ => False := by
  unfold tryFlush
  simp only [ends_tryCatch, ends_bind]
  refine Ends.mono (flush_alike world host number) (fun _ _ => id) ?_
  rintro failure ⟨world, flushed⟩ ⟨rfl, alike⟩
  refine Ends.mono (notify_alike world flushed _) ?_ fun _ _ => id
  rintro _ ⟨world, noted⟩ ⟨rfl, still⟩
  exact ⟨rfl, alike.trans still⟩

theorem ends_park (world : World) (host : Host) (position : RegionPos) (number : Nat)
    (done : Unit → World × Host → Prop) (failed : Failure → World × Host → Prop) :
    Ends (park position number) (world, host) done failed ↔
      done () ({ world with parked := if 1 < host.holders number then
          (position, number) :: erased world.parked position else world.parked }, host) := by
  unfold park
  simp only [ends_bind, ends_get]
  split <;> rfl

theorem InOrder.release (inOrder : InOrder first forgotten handles ((position, number) :: leaving)
      (world, host)) :
    Ends (WithHost.host (Host.release number)) (world, host)
      (fun _ next => next.1 = world ∧ InOrder first forgotten handles leaving next) fun _ _ => False := by
  obtain ⟨_, count, held⟩ := inOrder.live position number (.inr List.mem_cons_self)
  rw [ends_host]
  exact Ends.mono (Host.release_holds number held) (fun _ _ holds => ⟨rfl, inOrder.released held holds⟩)
    fun _ _ => id

theorem InOrder.alike {next : Host} (inOrder : InOrder first forgotten handles leaving (world, host))
    (alike : host.Alike next) : InOrder first forgotten handles leaving (world, next) :=
  Tracked.alike inOrder alike

theorem InOrder.mem_handles {state : World × Host} (inOrder : InOrder first forgotten handles [] state)
    (own : first ≤ number) (isOpen : state.2.OpenAt number position)
    (unlisted : state.1.opened.find? position ≠ some number) : (position, number) ∈ handles := by
  obtain ⟨some, counted⟩ := Tracked.holders_of_openAt inOrder own isOpen
  rw [if_neg unlisted, List.count_nil] at counted
  exact List.count_pos_iff.1 (by omega)

theorem InOrder.putAway (inOrder : InOrder first forgotten handles leaving (world, host))
    (found : world.opened.find? position = some number) {removed : World} {flushed : Host}
    (opened : removed.opened = world.opened.erase position) (parked : removed.parked = world.parked)
    (alike : host.Alike flushed) :
    Ends (do
        park position number
        notify (.regionEvicted position)
        WithHost.host (Host.release number)) (removed, flushed)
      (fun _ next => InOrder first forgotten handles leaving next ∧
        next.1.opened = world.opened.erase position) fun _ _ => False := by
  have detached := (inOrder.alike alike).detach found
  rw [ends_bind, ends_park, ends_bind]
  refine Ends.mono (notify_alike _ flushed _) ?_ fun _ _ => id
  rintro _ ⟨_, noted⟩ ⟨rfl, still⟩
  have left : InOrder first forgotten handles ((position, number) :: leaving)
      ({ removed with parked := if 1 < flushed.holders number then
          (position, number) :: erased removed.parked position else removed.parked }, noted) := by
    unfold InOrder
    rw [opened, parked]
    exact detached.alike still
  refine Ends.mono left.release ?_ fun _ _ => id
  rintro _ ⟨_, released⟩ ⟨rfl, holds⟩
  exact ⟨holds, opened⟩

theorem InOrder.evict (inOrder : InOrder first forgotten handles leaving (world, host))
    (position : RegionPos) :
    Ends (evict position) (world, host)
      (fun _ next => InOrder first forgotten handles leaving next ∧
        next.1.opened = world.opened.erase position)
      fun _ _ => False := by
  unfold World.evict
  simp only [ends_bind, ends_get]
  cases found : world.opened.find? position with
  | none => exact ⟨inOrder, (OpenTable.erase_of_find?_eq_none found).symm⟩
  | some number =>
    have putAway {removed : World} {flushed : Host}
        (opened : removed.opened = world.opened.erase position) (parked : removed.parked = world.parked)
        (alike : host.Alike flushed) := inOrder.putAway found opened parked alike
    simp only [ends_bind] at putAway
    simp only [remove, change, ends_bind, ends_modify, ends_tryCatch]
    refine Ends.mono (flush_alike _ host number) ?_ ?_
    · rintro _ ⟨_, flushed⟩ ⟨rfl, alike⟩
      exact putAway rfl rfl alike
    · rintro failure ⟨_, flushed⟩ ⟨rfl, alike⟩
      refine Ends.mono (notify_alike _ flushed _) ?_ fun _ _ => id
      rintro _ ⟨_, noted⟩ ⟨rfl, still⟩
      exact putAway rfl rfl (alike.trans still)

theorem InOrder.forgetClosed (inOrder : InOrder first forgotten handles leaving (world, host)) :
    Ends forgetClosed (world, host) (fun _ next => InOrder first forgotten handles leaving next)
      fun _ _ => False := Tracked.forgetClosed inOrder

theorem InOrder.evictExcess (inOrder : InOrder first forgotten handles leaving (world, host)) :
    Ends evictExcess (world, host)
      (fun _ next => InOrder first forgotten handles leaving next ∧ next.1.opened =
        (world.recency.drop world.config.maxOpen.toNat).reverse.foldl OpenTable.erase world.opened)
      fun _ _ => False := by
  unfold World.evictExcess
  simp only [ends_bind, ends_get]
  generalize (world.recency.drop world.config.maxOpen.toNat).reverse = excess
  -- What is still to be evicted takes the table to its end.
  refine Ends.mono (Ends.forM (fun rest state => InOrder first forgotten handles leaving state ∧
    rest.foldl OpenTable.erase state.1.opened = excess.foldl OpenTable.erase world.opened) ?_
    ⟨inOrder, rfl⟩) ?_ fun _ _ => id
  · rintro position rest ⟨now, host⟩ ⟨holds, same⟩
    refine Ends.mono (holds.evict position) ?_ fun _ _ => id
    rintro _ next ⟨holdsNext, opened⟩
    exact ⟨holdsNext, opened ▸ same⟩
  · rintro _ ⟨now, host⟩ ⟨holds, same⟩
    exact ⟨Tracked.forgetClosed holds, same⟩

/-- What closing at a position forgets: a region that is open there but not in the table. -/
def Forgets (first : Nat) (state : World × Host) (position : RegionPos) (number : Nat) : Prop :=
  ¬ state.1.IsOpen position ∧ first ≤ number ∧ state.2.OpenAt number position

theorem InOrder.closeRegion (inOrder : InOrder first forgotten handles leaving (world, host))
    (position : RegionPos) :
    let forgotten := fun number => forgotten number ∨ Forgets first (world, host) position number
    Ends (closeRegion position) (world, host)
      (fun _ next => InOrder first forgotten handles leaving next)
      fun _ next => InOrder first forgotten handles leaving next := by
  intro forgottenNow
  have dropped : Tracked first forgottenNow handles leaving world.opened (erased world.parked position)
      host := by
    have forget := Tracked.forget inOrder position
    simpa only [forgottenNow, Forgets, IsOpen, Option.not_isSome_iff_eq_none] using forget
  unfold World.closeRegion
  simp only [change, ends_bind, ends_modify, ends_get]
  cases found : world.opened.find? position with
  | none => exact dropped
  | some number =>
    rw [ends_bind]
    refine Ends.mono (flush_alike _ host number) ?_ ?_
    · rintro _ ⟨_, flushed⟩ ⟨rfl, alike⟩
      have detached := (dropped.alike alike).detach found
      simp only [ends_bind, ends_park, remove, change, ends_modify]
      have left : InOrder first forgottenNow handles ((position, number) :: leaving)
          ({ world with
              recency := world.recency.erase position
              opened := world.opened.erase position
              parked := if 1 < flushed.holders number then
                (position, number) :: erased (erased world.parked position) position
                else erased world.parked position }, flushed) := detached
      refine Ends.mono left.release ?_ fun _ _ => False.elim
      rintro _ ⟨closed, released⟩ ⟨_, holds⟩
      refine Ends.mono (notify_alike closed released _) ?_ fun _ _ => False.elim
      rintro _ ⟨_, noted⟩ ⟨rfl, still⟩
      exact holds.alike still
    · rintro _ ⟨_, flushed⟩ ⟨rfl, alike⟩
      exact dropped.alike alike

/-- Regions of the table are parked one after the other, and these entries remain. The table still has
all of them, and what has been parked counts as let go. -/
def Parking (first : Nat) (forgotten : Nat → Prop) (handles : List (RegionPos × Nat)) (table : OpenTable)
    (entries : List (RegionPos × Nat)) (state : World × Host) : Prop :=
  state.1.opened = table ∧ ∃ left, (left ++ entries).Perm table.entries ∧
    Tracked first forgotten handles left ⟨table.buckets, entries⟩ state.1.parked state.2

theorem InOrder.parkAll (inOrder : InOrder first forgotten handles [] (world, host)) :
    Ends (world.opened.entries.forM fun (position, number) => park position number) (world, host)
      (fun _ next => Parking first forgotten handles world.opened [] next) fun _ _ => False := by
  refine Ends.forM (Parking first forgotten handles world.opened) ?_ ⟨rfl, [], List.Perm.refl _, inOrder⟩
  rintro ⟨position, number⟩ rest ⟨now, host⟩ ⟨same, left, perm, tracked⟩
  have detached := tracked.detach List.lookup_cons_self
  rw [tracked.single.erase_cons] at detached
  dsimp only
  rw [ends_park]
  exact ⟨same, (position, number) :: left, List.perm_middle.symm.trans perm, detached⟩

theorem InOrder.releaseAll (inOrder : InOrder first forgotten handles leaving (world, host)) :
    Ends (leaving.forM fun entry => WithHost.host (Host.release entry.2)) (world, host)
      (fun _ next => InOrder first forgotten handles [] next) fun _ _ => False := by
  refine Ends.forM (fun entries state => InOrder first forgotten handles entries state) ?_ inOrder
  rintro ⟨position, number⟩ rest ⟨now, host⟩ holds
  exact Ends.mono holds.release (fun _ _ released => released.2) fun _ _ => id

theorem InOrder.shut (inOrder : InOrder first forgotten handles [] (world, host)) :
    Ends (shut world.opened.entries) (world, host)
      (fun _ next => InOrder first forgotten handles [] next) fun _ _ => False := by
  unfold World.shut
  simp only [change, ends_bind, ends_modify]
  refine Ends.mono inOrder.parkAll ?_ fun _ _ => id
  rintro _ ⟨parking, parked⟩ ⟨same, left, perm, tracked⟩
  rw [List.append_nil] at perm
  have emptied : InOrder first forgotten handles world.opened.entries
      ({ parking with recency := [], opened := parking.opened.clear }, parked) := by
    unfold InOrder
    rw [same]
    exact tracked.perm perm
  refine Ends.mono emptied.releaseAll ?_ fun _ _ => id
  rintro _ ⟨cleared, released⟩ holds
  exact holds.forgetClosed

theorem InOrder.closeAll (inOrder : InOrder first forgotten handles [] (world, host)) :
    Ends closeAll (world, host) (fun _ next => InOrder first forgotten handles [] next)
      fun _ next => InOrder first forgotten handles [] next := by
  simp only [closeAll_eq, ends_bind, ends_get]
  refine Ends.mono (Ends.filterMapM (fun next => next.1 = world ∧ host.Alike next.2) ?_ _
    ⟨rfl, Host.Alike.refl host⟩) ?_ fun _ _ => False.elim
  · rintro ⟨position, number⟩ ⟨_, before⟩ ⟨rfl, alike⟩
    refine Ends.mono (tryFlush_alike _ before position number) ?_ fun _ _ => id
    rintro _ ⟨_, after⟩ ⟨rfl, still⟩
    exact ⟨rfl, alike.trans still⟩
  rintro failures ⟨world, flushed⟩ ⟨rfl, alike⟩
  refine Ends.mono (inOrder.alike alike).shut ?_ fun _ _ => False.elim
  intro _ closed done
  cases failures with
  | nil => exact done
  | cons failure rest => exact done

end

end RegionStore.World
