import RegionStore.Proofs.Host.Opening
import RegionStore.Proofs.Region.Requests
import RegionStore.Proofs.World.Obtaining

/-!
A world in use by callers, who get regions, copy and drop handles of them, and close regions, in any
order and under any schedule. While a region is open, getting it again gives the same one, unless it has
been forgotten: closing at its position found it open, but not in the table.
-/

set_option autoImplicit false

namespace RegionStore

open Disk

theorem Request.steady_run [Codec] (request : Request) : Region.Steady request.run := by
  cases request with
  | save chunk payload tag => exact (Region.steady_saveChunk chunk payload tag).map _
  | delete chunk => exact (Region.steady_deleteChunk chunk).map _
  | load chunk => exact (Region.steady_loadChunk chunk).map _
  | has chunk => exact (Region.steady_ask _).map _
  | timestamp chunk => exact (Region.steady_ask _).map _
  | count => exact (Region.steady_ask _).map _
  | list => exact (Region.steady_ask _).map _
  | flush => exact Region.steady_flush.map _

structure Session where
  world : World
  host : Host
  /-- The regions that callers have, each as often as they have handles of it. -/
  handles : List (RegionPos × Nat)

/-- What callers do. Of a region, they can only do something with a handle that they have. -/
inductive Use where
  | get (position : RegionPos)
  | close (position : RegionPos)
  | closeAll
  | load (chunk : ChunkPos)
  | save (chunk : ChunkPos) (payload : Bytes) (tag : Option UInt8)
  | delete (chunk : ChunkPos)
  | has (chunk : ChunkPos)
  | timestamp (chunk : ChunkPos)
  | request (handle : RegionPos × Nat) (request : Request)
  | copy (handle : RegionPos × Nat)
  | drop (handle : RegionPos × Nat)

namespace Session

def start (config : WorldConfig) (host : Host) : Session := ⟨World.ofConfig config, host, []⟩

def state (session : Session) : World × Host := (session.world, session.host)

def inSurroundings (session : Session) (around : Surroundings) : Session :=
  { session with host := { session.host with around := around } }

def after {Result : Type} (session : Session) (action : OnWorld Result) : Session :=
  { session with
    world := (final action session.state).1
    host := (final action session.state).2 }

def get (session : Session) (position : RegionPos) : Session :=
  match World.obtain position true session.state with
  | .ok result (world, host) => ⟨world, host, World.received position result session.handles⟩
  | .error _ (world, host) => ⟨world, host, session.handles⟩

section
variable [Codec]

def use (session : Session) : Use → Session
  | .get position => session.get position
  | .close position => session.after (World.closeRegion position)
  | .closeAll => session.after World.closeAll
  | .load chunk => session.after (World.loadChunk chunk)
  | .save chunk payload tag => session.after (World.saveChunk chunk payload tag)
  | .delete chunk => session.after (World.deleteChunk chunk)
  | .has chunk => session.after (World.hasChunk chunk)
  | .timestamp chunk => session.after (World.timestamp? chunk)
  | .request handle request =>
    if handle ∈ session.handles then
      session.after (WithHost.host (Host.onRegion handle.2 request.run))
    else session
  | .copy handle =>
    if handle ∈ session.handles then
      { session.after (WithHost.host (Host.hold handle.2)) with handles := handle :: session.handles }
    else session
  | .drop handle =>
    if handle ∈ session.handles then
      { session.after (WithHost.host (Host.release handle.2)) with
        handles := session.handles.erase handle }
    else session

def step (session : Session) (step : Surroundings × Use) : Session :=
  (session.inSurroundings step.1).use step.2

/-- A use makes the world forget a region that was made for it, with a number from `first` on. -/
def Forgets (first : Nat) (session : Session) (use : Use) (number : Nat) : Prop :=
  ∃ position, use = .close position ∧ World.Forgets first session.state position number

def Forgotten (first : Nat) : Session → List (Surroundings × Use) → Nat → Prop
  | _, [], _ => False
  | session, step :: rest, number =>
    session.Forgets first step.2 number ∨ Forgotten first (session.step step) rest number

theorem handles_close (session : Session) (around : Surroundings) (position : RegionPos) :
    (session.step (around, .close position)).handles = session.handles := rfl

end

theorem not_forgets {first number : Nat} {session : Session} {use : Use}
    (other : ∀ position, use ≠ .close position) : ¬ session.Forgets first use number :=
  fun ⟨position, isClose, _⟩ => other position isClose

section
variable {first : Nat} {forgotten : Nat → Prop} {session : Session}

def InOrder (first : Nat) (forgotten : Nat → Prop) (session : Session) : Prop :=
  World.InOrder first forgotten session.handles [] session.state

theorem inOrder_after {Result : Type} {handles : List (RegionPos × Nat)} {action : OnWorld Result}
    (ends : Ends action session.state (fun _ next => World.InOrder first forgotten handles [] next)
      fun _ next => World.InOrder first forgotten handles [] next) :
    InOrder first forgotten { session.after action with handles := handles } :=
  ends.final fun next => World.InOrder first forgotten handles [] next

theorem inOrder_after_host {Result : Type} {handles : List (RegionPos × Nat)} {action : OnHost Result}
    (ends : Ends action session.host
      (fun _ next => World.InOrder first forgotten handles [] (session.world, next))
      fun _ next => World.InOrder first forgotten handles [] (session.world, next)) :
    InOrder first forgotten { session.after (WithHost.host action) with handles := handles } := by
  apply inOrder_after
  rw [state, ends_host]
  exact ends

variable (inOrder : InOrder first forgotten session)
include inOrder

theorem InOrder.get (position : RegionPos) : InOrder first forgotten (session.get position) := by
  have ends := World.InOrder.obtain inOrder position true
  unfold Session.get
  unfold Ends at ends
  unfold Session.state
  split at ends
  · next ran =>
    rw [ran]
    exact ends.1.inOrder
  · next ran =>
    rw [ran]
    exact ends.1

section
variable [Codec]

theorem InOrder.close (position : RegionPos) :
    InOrder first (fun number => forgotten number ∨ session.Forgets first (.close position) number)
      (session.use (.close position)) := by
  have same : (fun number => forgotten number ∨ session.Forgets first (.close position) number) =
      fun number => forgotten number ∨ World.Forgets first session.state position number := by
    funext number
    rw [eq_iff_iff]
    refine or_congr_right ⟨?_, fun forgets => ⟨position, rfl, forgets⟩⟩
    rintro ⟨_, ⟨⟩, forgets⟩
    exact forgets
  rw [same]
  exact inOrder_after (World.InOrder.closeRegion inOrder position)

omit [Codec] in
theorem InOrder.handle {handle : RegionPos × Nat} (isHandle : handle ∈ session.handles) :
    first ≤ handle.2 ∧ session.host.OpenAt handle.2 handle.1 :=
  inOrder.live handle.1 handle.2 (.inl isHandle)

omit [Codec] in
theorem InOrder.copy {handle : RegionPos × Nat} (isHandle : handle ∈ session.handles) :
    InOrder first forgotten { session.after (WithHost.host (Host.hold handle.2)) with
      handles := handle :: session.handles } := by
  apply inOrder_after_host
  exact Ends.mono (Host.hold_gains inOrder.fresh (inOrder.handle isHandle).2)
    (fun _ _ gains => World.Tracked.gained inOrder gains (.inr isHandle)) fun _ _ => False.elim

theorem InOrder.request {handle : RegionPos × Nat} (request : Request) :
    InOrder first forgotten (session.after (WithHost.host (Host.onRegion handle.2 request.run))) := by
  apply inOrder_after_host
  exact Ends.mono (Host.onRegion_alike request.steady_run handle.2 session.host)
    (fun _ _ alike => World.InOrder.alike inOrder alike) fun _ _ alike => World.InOrder.alike inOrder alike

/-- Only closing at a position can forget something. -/
theorem InOrder.use {use : Use} (other : ∀ position, use ≠ .close position) :
    InOrder first forgotten (session.use use) := by
  have onChunk {Result : Type} [Inhabited Result] {action : OnRegion Result}
      (steady : Region.Steady action) (chunk : ChunkPos) (create : Bool) (absent : Result) :
      InOrder first forgotten (session.after (World.onChunk chunk create absent action)) :=
    inOrder_after (World.InOrder.onChunk inOrder steady chunk create absent)
  cases use with
  | get position => exact inOrder.get position
  | close position => exact absurd rfl (other position)
  | closeAll => exact inOrder_after (World.InOrder.closeAll inOrder)
  | load chunk => exact onChunk (Region.steady_loadChunk chunk) chunk false none
  | save chunk payload tag =>
    refine inOrder_after ?_
    unfold World.saveChunk
    simp only [ends_bind, ends_get]
    exact World.InOrder.onChunk inOrder (Region.steady_saveChunk chunk payload _) chunk true ()
  | delete chunk => exact onChunk (Region.steady_deleteChunk chunk) chunk false ()
  | has chunk => exact onChunk (Region.steady_ask _) chunk false false
  | timestamp chunk => exact onChunk (Region.steady_ask _) chunk false none
  | request handle request =>
    simp only [Session.use]
    split
    · exact inOrder.request request
    · exact inOrder
  | copy handle =>
    simp only [Session.use]
    split
    · next isHandle => exact inOrder.copy isHandle
    · exact inOrder
  | drop handle =>
    simp only [Session.use]
    split
    · next isHandle =>
      exact inOrder_after ((World.InOrder.giveUp inOrder isHandle).mono (fun _ _ given => given.2)
        fun _ _ => False.elim)
    · exact inOrder

theorem InOrder.step (step : Surroundings × Use) :
    InOrder first (fun number => forgotten number ∨ session.Forgets first step.2 number)
      (session.step step) := by
  obtain ⟨around, use⟩ := step
  have moved : InOrder first forgotten (session.inSurroundings around) :=
    World.InOrder.alike inOrder ⟨fun _ => rfl, rfl⟩
  by_cases isClose : ∃ position, use = .close position
  · obtain ⟨position, rfl⟩ := isClose
    exact moved.close position
  · rw [not_exists] at isClose
    have same : (fun number => forgotten number ∨ session.Forgets first use number) = forgotten :=
      funext fun number => propext (or_iff_left (not_forgets isClose))
    rw [same]
    exact moved.use isClose

theorem InOrder.run (steps : List (Surroundings × Use)) :
    InOrder first (fun number => forgotten number ∨ session.Forgotten first steps number)
      (steps.foldl Session.step session) := by
  induction steps generalizing session forgotten with
  | nil => simpa only [Forgotten, or_false, List.foldl_nil] using inOrder
  | cons step rest ih =>
    simpa only [Forgotten, or_assoc, List.foldl_cons] using ih (inOrder.step step)

end

/-- Only callers hold a region that has been forgotten. -/
theorem InOrder.handle_of_forgotten {number : Nat} {position : RegionPos} (own : first ≤ number)
    (isOpen : session.host.OpenAt number position) (isForgotten : forgotten number) :
    (position, number) ∈ session.handles :=
  World.InOrder.mem_handles inOrder own isOpen ((inOrder.lost number isForgotten).2.1 position)

theorem InOrder.eq_of_remembered {a b : Nat} {position : RegionPos} (ownA : first ≤ a) (ownB : first ≤ b)
    (rememberedA : ¬ forgotten a) (rememberedB : ¬ forgotten b)
    (openA : session.host.OpenAt a position) (openB : session.host.OpenAt b position) : a = b := by
  rcases inOrder.known a position ownA rememberedA openA with tableA | ⟨absentA, parkedA | ⟨leaves, _⟩⟩
  · rcases inOrder.known b position ownB rememberedB openB with tableB | ⟨absentB, _⟩
    · exact Option.some.inj (tableA.symm.trans tableB)
    · rw [tableA] at absentB
      cases absentB
  · rcases inOrder.known b position ownB rememberedB openB with tableB | ⟨_, parkedB | ⟨leaves, _⟩⟩
    · rw [tableB] at absentA
      cases absentA
    · exact Option.some.inj (parkedA.symm.trans parkedB)
    · cases leaves
  · cases leaves

theorem InOrder.obtain {number : Nat} {position : RegionPos}
    (isHandle : (position, number) ∈ session.handles) :
    Ends (World.obtain position true) session.state
      (fun result next => next.2.OpenAt number position ∧ ∃ other, result = some other ∧
        next.2.OpenAt other position ∧ (other = number ↔ ¬ forgotten number))
      fun _ _ => forgotten number := by
  obtain ⟨own, isOpen⟩ := inOrder.handle isHandle
  refine Ends.mono (World.InOrder.obtain inOrder position true) ?_ ?_
  · rintro result next ⟨obtained, found⟩
    obtain ⟨other, rfl⟩ := obtained.exists_of_create rfl
    have live := obtained.inOrder.live position
    refine ⟨(live number (.inl (List.mem_cons_of_mem _ isHandle))).2, other, rfl,
      (live other (.inl List.mem_cons_self)).2, ?_, ?_⟩
    · rintro rfl
      exact obtained.remembered other rfl
    · intro remembered
      exact Option.some.inj (found number own remembered isOpen)
  · rintro _ _ ⟨_, _, vacant⟩
    by_contra remembered
    exact vacant number own remembered isOpen

end

/-- In every run from a new world, two open regions of one position are only there if one of them is
held by a caller though it has been forgotten, and getting the position of a handle fails or gives
another region only if that has happened to the region of the handle; then there are two. -/
theorem obtain_eq_iff_not_forgotten [Codec] (config : WorldConfig) {host : Host} (fresh : host.Fresh)
    (steps : List (Surroundings × Use)) :
    let first := host.nextRegion
    let session := steps.foldl step (start config host)
    let isForgotten := (start config host).Forgotten first steps
    (∀ position a b, first ≤ a → first ≤ b → a ≠ b → session.host.OpenAt a position →
      session.host.OpenAt b position →
      ∃ number, (number = a ∨ number = b) ∧ (position, number) ∈ session.handles ∧ isForgotten number) ∧
    ∀ position number, (position, number) ∈ session.handles → ∀ around,
      Ends (World.obtain position true) (session.inSurroundings around).state
        (fun result next => next.2.OpenAt number position ∧ ∃ other, result = some other ∧
          next.2.OpenAt other position ∧ (other = number ↔ ¬ isForgotten number))
        fun _ _ => isForgotten number := by
  intro first session isForgotten
  have starts : InOrder first (fun _ => False) (start config host) := World.tracked_new fresh
  have inOrder : InOrder first isForgotten session := by
    simpa only [false_or] using starts.run steps
  refine ⟨?_, ?_⟩
  · intro position a b ownA ownB different openA openB
    by_cases forgottenA : isForgotten a
    · exact ⟨a, .inl rfl, inOrder.handle_of_forgotten ownA openA forgottenA, forgottenA⟩
    by_cases forgottenB : isForgotten b
    · exact ⟨b, .inr rfl, inOrder.handle_of_forgotten ownB openB forgottenB, forgottenB⟩
    exact absurd (inOrder.eq_of_remembered ownA ownB forgottenA forgottenB openA openB) different
  · intro position number isHandle around
    have moved : InOrder first isForgotten (session.inSurroundings around) :=
      World.InOrder.alike inOrder ⟨fun _ => rfl, rfl⟩
    exact moved.obtain isHandle

theorem step_get_initial [Codec] (config : WorldConfig) (here : config.directory = ".") :
    ∃ next : World × Host, (start config Host.initial).step (Surroundings.initial, .get ⟨0, 0⟩) =
        ⟨next.1, next.2, [(⟨0, 0⟩, 0)]⟩ ∧
      next.1.opened = ([⟨0, 0⟩].drop config.maxOpen.toNat).reverse.foldl World.OpenTable.erase
        (World.OpenTable.empty.insert ⟨0, 0⟩ 0) := by
  obtain ⟨directory, maxOpen, method, sync⟩ := config
  obtain rfl : directory = "." := here
  have path : (World.ofConfig ⟨".", maxOpen, method, sync⟩).filePath ⟨0, 0⟩ = "./r.0.0.mca" := by
    change Path.join "." (RegionPos.fileName ⟨0, 0⟩) = _
    decide +kernel
  have vacant : Host.initial.Vacant ((World.ofConfig ⟨".", maxOpen, method, sync⟩).filePath ⟨0, 0⟩) := by
    rw [path]
    exact .inl ⟨⟨Tree.home, "r.0.0.mca", false⟩, rfl⟩
  obtain ⟨_, next, ran, rfl, opened⟩ := (World.obtain_of_vacant _ Host.fresh_initial Host.sound_initial
    ⟨rfl, Schedule.calm_mild⟩ ⟨0, 0⟩ rfl vacant).exists_ok
  refine ⟨next, ?_, opened⟩
  have got : World.obtain ⟨0, 0⟩ true (start ⟨".", maxOpen, method, sync⟩ Host.initial).state =
    .ok (some 0) next := ran
  change (start _ Host.initial).get ⟨0, 0⟩ = _
  rw [Session.get, got]
  rfl

/-- A region that is evicted at once is forgotten when it is closed, and then a second one is opened. -/
theorem obtain_ne_of_evicted :
    let start := start { directory := ".", maxOpen := 0 } Host.initial
    let steps := [(Surroundings.initial, Use.get ⟨0, 0⟩), (Surroundings.initial, .close ⟨0, 0⟩)]
    let session := steps.foldl step start
    (⟨0, 0⟩, 0) ∈ session.handles ∧ start.Forgotten 0 steps 0 ∧
      Ends (World.obtain ⟨0, 0⟩ true) (session.inSurroundings Surroundings.initial).state
        (fun result next => next.2.OpenAt 0 ⟨0, 0⟩ ∧ ∃ other, result = some other ∧
          next.2.OpenAt other ⟨0, 0⟩ ∧ other ≠ 0)
        fun _ _ => True := by
  intro start steps session
  -- The first region has number 0, and a table for no regions has let it go at once.
  obtain ⟨next, got, opened⟩ := step_get_initial start.world.config rfl
  have first : start.step (Surroundings.initial, .get ⟨0, 0⟩) = ⟨next.1, next.2, [(⟨0, 0⟩, 0)]⟩ := got
  have isHandle : (⟨0, 0⟩, 0) ∈ (start.step (Surroundings.initial, .get ⟨0, 0⟩)).handles := by
    rw [first]
    exact List.mem_cons_self
  have notOpen : ¬ (start.step (Surroundings.initial, .get ⟨0, 0⟩)).world.IsOpen ⟨0, 0⟩ := by
    have evicted : ¬ ((([⟨0, 0⟩].drop (0 : UInt32).toNat).reverse.foldl World.OpenTable.erase
        (World.OpenTable.empty.insert ⟨0, 0⟩ 0)).find? ⟨0, 0⟩).isSome = true := by decide
    rw [first, World.IsOpen, opened]
    exact evicted
  have starts : InOrder 0 (fun _ => False) start := World.tracked_new Host.fresh_initial
  have isForgotten : start.Forgotten 0 steps 0 :=
    .inr (.inl ⟨⟨0, 0⟩, rfl, notOpen, (starts.step _).handle isHandle⟩)
  have last : session = (start.step (Surroundings.initial, .get ⟨0, 0⟩)).step
      (Surroundings.initial, .close ⟨0, 0⟩) := rfl
  have stays : (⟨0, 0⟩, 0) ∈ session.handles := by
    rw [last, handles_close]
    exact isHandle
  refine ⟨stays, isForgotten, ?_⟩
  have obtains := (obtain_eq_iff_not_forgotten { directory := ".", maxOpen := 0 } Host.fresh_initial
    steps).2 ⟨0, 0⟩ 0 stays Surroundings.initial
  refine Ends.mono obtains ?_ fun _ _ _ => trivial
  rintro result _ ⟨isOpen, other, got, isOpenOther, same⟩
  exact ⟨isOpen, other, got, isOpenOther, fun equal => same.1 equal isForgotten⟩

end Session
end RegionStore
