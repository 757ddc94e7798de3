import RegionStore.Proofs.World.Calls
import RegionStore.Proofs.World.Flushing
import RegionStore.Proofs.World.Recency

/-!
What failed operations leave of a world in use. A region that cannot be obtained changes nothing that is
open or remembered, a region that cannot be flushed is not closed, and closing everything gets through all
regions before it fails. A region that a caller holds is the one that is got again after that.
-/

set_option autoImplicit false

namespace RegionStore

open Disk

def Call.creates : Call → Bool
  | save _ _ _ => true
  | _ => false

theorem Call.run_of_obtain_fails [Codec] {call : Call} {state next : World × Host} {failure : Failure}
    (fails : World.obtain call.chunk.regionOf call.creates state = .error failure next) :
    call.run state = .error failure next := by
  have onChunk {Result : Type} [Inhabited Result] (absent : Result) (action : OnRegion Result) :
      Ends (World.onChunk call.chunk call.creates absent action) state (fun _ _ => False)
        fun reason after => reason = failure ∧ after = next := by
    unfold World.onChunk
    rw [ends_bind, ends_of_eq_error fails]
    exact ⟨rfl, rfl⟩
  apply Ends.eq_error
  cases call with
  | load chunk | has chunk | timestamp chunk | delete chunk =>
    rw [run, ends_map]
    exact onChunk _ _
  | save chunk payload tag =>
    rw [run, ends_map, World.saveChunk, ends_bind, ends_get]
    exact onChunk _ _

namespace World

/-- Closing a region only fails with its flush, and then the region has not left the table. -/
theorem closeRegion_fails (position : RegionPos) (world : World) (host : Host) :
    Ends (closeRegion position) (world, host) (fun _ _ => True) fun failure next =>
      ∃ number, world.opened.find? position = some number ∧
        outcome (flush number) (world, host) = .error failure ∧
        next.1 = { world with parked := erased world.parked position } ∧ host.Alike next.2 := by
  unfold closeRegion
  simp only [change, ends_bind, ends_modify, ends_get]
  cases found : world.opened.find? position with
  | none => exact trivial
  | some number =>
    rw [ends_bind]
    have flushed := (flush_alike { world with parked := erased world.parked position } host number).and
      (ends_outcome (flush number) ({ world with parked := erased world.parked position }, host))
    refine Ends.mono flushed ?_ ?_
    · intro _ next _
      have goesOn : Restful False _ := (restful_park position number).bind fun _ =>
        (restful_remove position).bind fun _ => (restful_release number).bind fun _ =>
          (restful_notify (.regionClosed position)).bind fun _ => restful_pure true
      exact Ends.mono (goesOn next) (fun _ _ _ => trivial) fun _ _ fails => fails.1.elim
    · rintro failure next ⟨⟨same, alike⟩, went⟩
      refine ⟨number, rfl, ?_, same, alike⟩
      rw [flush, outcome_host] at went ⊢
      exact went

end World

namespace Session

/-- The caller has the handle now and after each of the steps. -/
def StillHolds [Codec] (handle : RegionPos × Nat) : Session → List (Surroundings × Use) → Prop
  | session, [] => handle ∈ session.handles
  | session, step :: rest => handle ∈ session.handles ∧ StillHolds handle (session.step step) rest

def onHost (session : Session) (host : Host) : Session := { session with host := host }

def leaving (session : Session) (next : World × Host) : Session :=
  { session with world := next.1, host := next.2 }

/-- All regions have been flushed and put away, and the first failure of a flush is the one that is told.
A region that no caller holds is closed, and one that a caller holds is got again as long as nobody closes
at its position, whatever has become of the files. -/
structure AllClosed [Codec] (session : Session) (failure : Option Failure) (next : World × Host) : Prop where
  flushed : ∃ results flushed,
    World.Flushes session.world.opened.entries results session.state flushed ∧
      World.shut session.world.opened.entries flushed = .ok () next ∧
      results.reduceOption.head? = failure
  openCount : next.1.openCount = 0
  recency : next.1.recency = []
  closed : ∀ entry ∈ session.world.opened.entries, entry ∉ session.handles → ¬ next.2.IsOpen entry.2
  kept : ∀ position number, (position, number) ∈ session.handles →
    session.world.opened.find? position = some number ∨
      (position, number) ∈ World.remembered session.state →
    ∀ steps : List (Surroundings × Use), (∀ step ∈ steps, step.2 ≠ .close position) →
    (session.leaving next).StillHolds (position, number) steps →
    ∀ now, (steps.foldl Session.step (session.leaving next)).host.Alike now →
    Ends (World.obtain position true) ((steps.foldl Session.step (session.leaving next)).onHost now).state
      (fun result after => result = some number ∧ after.2.OpenAt number position) fun _ _ => False

section
variable {first : Nat} {forgotten : Nat → Prop} {config : WorldConfig} {recent : List RegionPos}
  {session : Session}

theorem InOrder.onHost (inOrder : InOrder first forgotten session) {now : Host}
    (alike : session.host.Alike now) : InOrder first forgotten (session.onHost now) :=
  World.InOrder.alike inOrder alike

/-- A region that has not been forgotten is got as long as a caller holds it and nobody closes it. -/
theorem InOrder.obtain_held [Codec] (inOrder : InOrder first forgotten session) {number : Nat}
    {position : RegionPos} (remembered : ¬ forgotten number) (steps : List (Surroundings × Use))
    (unclosed : ∀ step ∈ steps, step.2 ≠ .close position)
    (held : session.StillHolds (position, number) steps) {now : Host}
    (alike : (steps.foldl Session.step session).host.Alike now) :
    Ends (World.obtain position true) ((steps.foldl Session.step session).onHost now).state
      (fun result after => result = some number ∧ after.2.OpenAt number position) fun _ _ => False := by
  induction steps generalizing session forgotten with
  | nil =>
    refine Ends.mono ((inOrder.onHost alike).obtain held) ?_ fun _ _ => remembered
    rintro _ after ⟨isOpen, other, rfl, _, same⟩
    exact ⟨congrArg some (same.2 remembered), isOpen⟩
  | cons step rest ih =>
    obtain ⟨here, unclosed⟩ := List.forall_mem_cons.1 unclosed
    obtain ⟨isHandle, held⟩ := held
    -- Closing at another position does not forget this region.
    have notNow : ¬ session.Forgets first step.2 number := by
      rintro ⟨place, isClose, _, _, isOpen⟩
      rw [isOpen.unique (inOrder.handle isHandle).2] at isClose
      exact here isClose
    exact ih (inOrder.step step) (not_or.2 ⟨remembered, notNow⟩) unclosed held alike

theorem InOrder.areOpen (inOrder : InOrder first forgotten session) :
    ∀ entry ∈ session.world.opened.entries, first ≤ entry.2 ∧ session.host.OpenAt entry.2 entry.1 :=
  fun entry member =>
    inOrder.inTable entry.1 entry.2 (inOrder.single.find?_eq_some_iff.2 member)

theorem InOrder.not_forgotten (inOrder : InOrder first forgotten session) {position : RegionPos}
    {number : Nat} (kept : session.world.opened.find? position = some number ∨
      (position, number) ∈ World.remembered session.state) : ¬ forgotten number := by
  intro isForgotten
  obtain ⟨_, notInTable, notParked⟩ := inOrder.lost number isForgotten
  rcases kept with inTable | isParked
  · exact notInTable position inTable
  · exact notParked _ (List.mem_filter.1 isParked).1 rfl

theorem InOrder.closeAll_contained [Codec] (inOrder : InOrder first forgotten session)
    (now : Recent config recent session) :
    Ends World.closeAll session.state (fun _ next => session.AllClosed none next)
      fun failure next => session.AllClosed (some failure) next := by
  have areOpen : ∀ entry ∈ session.world.opened.entries, session.host.IsOpen entry.2 :=
    fun entry member => Host.isOpen_iff_openAt.2 ⟨entry.1, (inOrder.areOpen entry member).2⟩
  obtain ⟨results, flushed, flushes, ends⟩ := World.closeAll_ends areOpen
  have contained {failure : Option Failure} {next : World × Host}
      (told : results.reduceOption.head? = failure)
      (shut : World.shut session.world.opened.entries flushed = .ok () next)
      (after : World.InOrder first forgotten session.handles [] next)
      (lists : World.Lists config [] next.1) : session.AllClosed failure next := by
    have empty (position : RegionPos) : next.1.opened.find? position = none := by
      rw [World.OpenTable.find?_eq_none_iff, ← lists.keys.mem_iff]
      exact List.not_mem_nil
    refine ⟨⟨results, flushed, flushes, shut, told⟩, lists.openCount, lists.recency, ?_, ?_⟩
    · intro entry member noHandle isOpen
      obtain ⟨own, wasOpen⟩ := inOrder.areOpen entry member
      obtain ⟨place, isOpen⟩ := Host.isOpen_iff_openAt.1 isOpen
      have isHandle := World.InOrder.mem_handles after own isOpen (by simp [empty])
      obtain rfl : entry.1 = place := wasOpen.unique (inOrder.handle isHandle).2
      exact noHandle isHandle
    · intro position number isHandle kept steps unclosed held now alike
      have left : InOrder first forgotten (session.leaving next) := after
      exact left.obtain_held (inOrder.not_forgotten kept) steps unclosed held alike
  refine Ends.mono ((ends.and (World.InOrder.closeAll inOrder)).and (now.lists.closeAll session.host)) ?_ ?_
  · rintro _ next ⟨⟨⟨told, shut⟩, after⟩, lists⟩
    exact contained told shut after lists
  · rintro failure next ⟨⟨⟨told, shut⟩, after⟩, lists⟩
    exact contained told shut after lists

end

/-- In every run from a new world, whatever becomes of the files and however their calls turn out: when a
region cannot be obtained, for a caller or for one of its chunks, what is open and what is remembered stays
as it was; when a region cannot be flushed, closing it leaves it open where it was; closing everything
flushes all open regions and closes them before it fails; and an eviction only notes that its flush has
failed. -/
theorem failures_contained [Codec] (config : WorldConfig) {host now : Host} (fresh : host.Fresh)
    (steps : List (Surroundings × Use)) (alike : (steps.foldl step (start config host)).host.Alike now) :
    let session := (steps.foldl step (start config host)).onHost now
    (∀ position create, Ends (World.obtain position create) session.state (fun _ _ => True)
      fun failure next => World.Unmoved session.state next ∧
        ∀ call : Call, call.chunk.regionOf = position → call.creates = create →
          call.run session.state = .error failure next) ∧
    (∀ position, Ends (World.closeRegion position) session.state (fun _ _ => True)
      fun failure next => ∃ number, session.world.opened.find? position = some number ∧
        outcome (World.flush number) session.state = .error failure ∧
        next.1.opened = session.world.opened ∧ next.1.recency = session.world.recency ∧
        next.2.OpenAt number position) ∧
    Ends World.closeAll session.state (fun _ next => session.AllClosed none next)
      (fun failure next => session.AllClosed (some failure) next) ∧
    (∀ position, World.Unhindered (World.evict position)) ∧ World.Unhindered World.evictExcess ∧
    (∀ position number, World.Unhindered (World.admitRegion position number)) ∧
    ∀ (world : World) (host : Host) (position : RegionPos) (number : Nat) (entry : OpenRegion),
      world.opened.find? position = some number → host.region? number = some entry →
      Ends (World.evict position) (world, host)
        (fun _ next => ∃ told, (∀ notice ∈ told, notice.OfClosing entry.handle.path) ∧
          next.2.around.notices = told ++ .regionEvicted position ::
            World.flushNotice position (outcome (World.flush number) (world, host)) ++
              host.around.notices)
        fun _ _ => False := by
  intro session
  have starts : InOrder host.nextRegion (fun _ => False) (start config host) := World.tracked_new fresh
  have inOrder : InOrder host.nextRegion _ session := (starts.run steps).onHost alike
  have recent : Recent config [] (start config host) := ⟨World.lists_ofConfig config, Nat.zero_le _⟩
  have recent : Recent config _ session := ⟨(recent.run steps).lists, (recent.run steps).short⟩
  refine ⟨fun position create => ?_, fun position => ?_, inOrder.closeAll_contained recent,
    World.unhindered_evict, World.unhindered_evictExcess, World.unhindered_admitRegion,
    fun _ _ _ _ _ => World.evict_notes⟩
  · have ends := (World.InOrder.obtain inOrder position create).and
      (ends_run (World.obtain position create) session.state)
    refine Ends.mono ends (fun _ _ _ => trivial) ?_
    rintro failure next ⟨⟨_, unmoved, _⟩, ran⟩
    refine ⟨unmoved, ?_⟩
    rintro call rfl rfl
    exact Call.run_of_obtain_fails ran
  · refine Ends.mono (World.closeRegion_fails position session.world session.host) (fun _ _ => id) ?_
    rintro failure ⟨_, next⟩ ⟨number, found, went, rfl, alike⟩
    refine ⟨number, found, went, rfl, rfl, ?_⟩
    rw [alike.openAt]
    exact (inOrder.inTable position number found).2

/-- A region whose sync is refused when everything is closed is closed all the same, and its holder gets
it again. -/
theorem failures_contained_refused :
    let start := start { directory := "." } Host.initial
    let steps := [(Surroundings.initial, Use.get ⟨0, 0⟩)]
    let refusing : Surroundings := { Surroundings.initial with
      schedule := Schedule.calm.disturb .syncing (.refused ⟨5⟩) 0 1 }
    let session := (steps.foldl step start).inSurroundings refusing
    Host.initial.Fresh ∧ (steps.foldl step start).host.Alike session.host ∧
      session.world.opened.find? ⟨0, 0⟩ = some 0 ∧
      Ends World.closeAll session.state (fun _ _ => False) fun _ next => next.1.openCount = 0 ∧
        Ends (World.obtain ⟨0, 0⟩ true) next (fun result _ => result = some 0) fun _ _ => False := by
  intro start steps refusing session
  obtain ⟨next, got, opened⟩ := step_get_initial start.world.config rfl
  have first : start.step (Surroundings.initial, .get ⟨0, 0⟩) = ⟨next.1, next.2, [(⟨0, 0⟩, 0)]⟩ := got
  have only : next.1.opened.entries = [(⟨0, 0⟩, 0)] := by
    rw [opened]
    decide
  have isSession : session = ⟨next.1, { next.2 with around := refusing }, [(⟨0, 0⟩, 0)]⟩ :=
    congrArg (fun session : Session => session.inSurroundings refusing) first
  have found : session.world.opened.find? ⟨0, 0⟩ = some 0 := by
    rw [isSession, World.OpenTable.find?, only]
    rfl
  have isHandle : (⟨0, 0⟩, 0) ∈ session.handles := by
    rw [isSession]
    exact List.mem_cons_self
  have alike : (steps.foldl step start).host.Alike session.host :=
    (Host.abreast_inSurroundings (steps.foldl step start).host refusing).alike
  have contained : Ends World.closeAll session.state (fun _ next => session.AllClosed none next)
      fun failure next => session.AllClosed (some failure) next :=
    (failures_contained { directory := "." } Host.fresh_initial steps alike).2.2.1
  refine ⟨Host.fresh_initial, alike, found, Ends.mono contained ?_ ?_⟩
  · -- The only flush has failed, so closing everything has not got through.
    rintro _ closed ⟨⟨results, flushed, flushes, _, noFailure⟩, _⟩
    have entries : session.world.opened.entries = [(⟨0, 0⟩, 0)] := by rw [isSession, only]
    have reason : (session.state.2.around.turns .syncing).settle.refusal = some ⟨5⟩ := rfl
    rw [entries] at flushes
    cases flushes with
    | cons isOpen flushRan _ _ later =>
      have failed : Ends (World.tryFlush ⟨0, 0⟩ 0) session.state (fun result _ => result.isSome = true)
        fun _ _ => False := World.tryFlush_of_refused isOpen reason
      rw [ends_of_eq_ok flushRan] at failed
      obtain ⟨failure, rfl⟩ := Option.isSome_iff_exists.1 failed
      cases noFailure
  · rintro failure closed ⟨_, openCount, _, _, kept⟩
    have again := kept ⟨0, 0⟩ 0 isHandle (.inl found) [] (List.forall_mem_nil _) isHandle closed.2
      (Host.Alike.refl closed.2)
    exact ⟨openCount, Ends.mono again (fun _ _ => And.left) fun _ _ => id⟩

end Session
end RegionStore
