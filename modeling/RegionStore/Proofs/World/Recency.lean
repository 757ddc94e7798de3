import RegionStore.Proofs.World.OpenTable
import RegionStore.Proofs.World.Resting
import RegionStore.Proofs.World.Session

/-!
The open regions of a world as a list of those used last. A region that is obtained comes to the front
and pushes the one at the end out, a region that is closed leaves; the list and the table of open regions
always have the same positions, however the calls of their files end.
-/

set_option autoImplicit false

namespace RegionStore

open Disk

namespace World

/-- The position comes to the front, and only so many positions stay. -/
def touched (capacity : Nat) (position : RegionPos) (recent : List RegionPos) : List RegionPos :=
  (position :: recent.erase position).take capacity

theorem length_touched_le (capacity : Nat) (position : RegionPos) (recent : List RegionPos) :
    (touched capacity position recent).length ≤ capacity := by
  simp [touched]

theorem touched_of_mem {capacity : Nat} {position : RegionPos} {recent : List RegionPos}
    (member : position ∈ recent) (short : recent.length ≤ capacity) :
    touched capacity position recent = position :: recent.erase position := by
  have positive := List.length_pos_of_mem member
  refine List.take_of_length_le ?_
  simp only [List.length_cons, List.length_erase_of_mem member]
  omega

theorem touched_of_not_mem {capacity : Nat} {position : RegionPos} {recent : List RegionPos}
    (absent : position ∉ recent) :
    touched capacity position recent = (position :: recent).take capacity := by
  rw [touched, List.erase_of_not_mem absent]

/-- The open regions are these, the one used last in front. -/
structure Lists (config : WorldConfig) (recent : List RegionPos) (world : World) : Prop where
  config : world.config = config
  recency : world.recency = recent
  nodup : recent.Nodup
  keys : recent.Perm (world.opened.entries.map Prod.fst)

section
variable {config : WorldConfig} {recent : List RegionPos} {world : World}

theorem lists_ofConfig (config : WorldConfig) : Lists config [] (ofConfig config) :=
  ⟨rfl, rfl, .nil, .nil⟩

theorem Lists.isOpen_iff (lists : Lists config recent world) (position : RegionPos) :
    world.IsOpen position ↔ position ∈ recent := by
  rw [IsOpen, Option.isSome_iff_ne_none, ne_eq, OpenTable.find?_eq_none_iff, not_not, lists.keys.mem_iff]

theorem Lists.openCount (lists : Lists config recent world) : world.openCount = recent.length := by
  rw [World.openCount, lists.keys.length_eq, List.length_map]

theorem Lists.parking (lists : Lists config recent world) (parked : List (RegionPos × Nat)) :
    Lists config recent { world with parked := parked } :=
  ⟨lists.config, lists.recency, lists.nodup, lists.keys⟩

theorem Lists.remove (lists : Lists config recent world) (position : RegionPos) :
    Lists config (recent.erase position)
      { world with
        recency := world.recency.erase position
        opened := world.opened.erase position } := by
  refine ⟨lists.config, congrArg (·.erase position) lists.recency, lists.nodup.erase position, ?_⟩
  have filtered : (world.opened.erase position).entries.map Prod.fst =
      (world.opened.entries.map Prod.fst).filter (· != position) := by
    rw [List.filter_map]
    refine congrArg _ (List.filter_congr fun entry _ => ?_)
    simp [bne, beq_eq_decide]
  rw [filtered, lists.nodup.erase_eq_filter]
  exact lists.keys.filter _

theorem Lists.insert (lists : Lists config recent world) {position : RegionPos}
    (absent : position ∉ recent) (number : Nat) :
    Lists config (position :: recent)
      { world with
        recency := position :: world.recency
        opened := world.opened.insert position number } := by
  refine ⟨lists.config, congrArg (position :: ·) lists.recency, List.nodup_cons.2 ⟨absent, lists.nodup⟩, ?_⟩
  exact (lists.keys.cons position).trans ((world.opened.insert_perm position number).map Prod.fst).symm

theorem Lists.raise (lists : Lists config recent world) {position : RegionPos}
    (member : position ∈ recent) :
    Lists config (position :: recent.erase position)
      { world with recency := position :: world.recency.erase position } := by
  have same := List.perm_cons_erase member
  exact ⟨lists.config, congrArg (position :: ·.erase position) lists.recency, same.nodup lists.nodup,
    same.symm.trans lists.keys⟩

end

section
variable {Result : Type}

theorem host_ends (action : OnHost Result) (world : World) (host : Host) :
    Ends (WithHost.host action) (world, host) (fun _ next => next.1 = world)
      fun _ next => next.1 = world := by
  rw [ends_host]
  exact Ends.mono (ends_somehow action host) (fun _ _ _ => rfl) fun _ _ _ => rfl

section
variable {world : World} {host : Host} {failed : Failure → World × Host → Prop}

theorem ends_host_of_rests {action : OnHost Result} {done : Result → World × Host → Prop}
    (rests : ∀ host, Ends action host (fun _ next => host.Rests next) fun _ _ => False)
    (next : ∀ result later, done result (world, later)) :
    Ends (WithHost.host action) (world, host) done failed := by
  rw [ends_host]
  exact Ends.mono (rests host) (fun result later _ => next result later) fun _ _ => False.elim

theorem ends_notify {done : Unit → World × Host → Prop} (notice : Notice)
    (next : ∀ later, done () (world, later)) : Ends (notify notice) (world, host) done failed :=
  ends_host_of_rests (Host.notify_rests notice) fun _ => next

end

variable {config : WorldConfig} {recent : List RegionPos} {world : World}

theorem Lists.letGo (lists : Lists config recent world) (position : RegionPos) (number : Nat)
    (notice : Notice) (host : Host) :
    Ends (do
        park position number
        notify notice
        WithHost.host (Host.release number)) (world, host)
      (fun _ next => Lists config recent next.1) fun _ _ => False := by
  rw [ends_bind, ends_park, ends_bind]
  refine ends_notify notice fun _ => ?_
  exact ends_host_of_rests (Host.release_rests number) fun _ _ => lists.parking _

theorem Lists.evict (lists : Lists config recent world) (position : RegionPos) (host : Host) :
    Ends (evict position) (world, host) (fun _ next => Lists config (recent.erase position) next.1)
      fun _ _ => False := by
  unfold World.evict
  simp only [ends_bind, ends_get]
  cases found : world.opened.find? position with
  | none =>
    have absent : position ∉ recent := by
      rwa [lists.keys.mem_iff, ← OpenTable.find?_eq_none_iff]
    rw [List.erase_of_not_mem absent]
    exact lists
  | some number =>
    have letGo := (lists.remove position).letGo position number (.regionEvicted position)
    simp only [ends_bind] at letGo
    simp only [World.remove, change, ends_bind, ends_modify, ends_tryCatch]
    refine Ends.mono (host_ends _ _ host) ?_ ?_
    · rintro _ ⟨_, flushed⟩ rfl
      exact letGo flushed
    · rintro failure ⟨_, flushed⟩ rfl
      exact ends_notify _ letGo

theorem Lists.forgetClosed (lists : Lists config recent world) (host : Host) :
    Ends forgetClosed (world, host) (fun _ next => Lists config recent next.1) fun _ _ => False :=
  lists.parking _

/-- The regions that are too many are those at the end. -/
theorem Lists.evictExcess (lists : Lists config recent world) (host : Host) :
    Ends evictExcess (world, host)
      (fun _ next => Lists config (recent.take config.maxOpen.toNat) next.1) fun _ _ => False := by
  unfold World.evictExcess
  simp only [ends_bind, ends_get, lists.recency, lists.config]
  -- The regions still to be evicted stand at the end of the list, the next one last.
  refine Ends.mono (Ends.forM
    (fun rest state => Lists config (recent.take config.maxOpen.toNat ++ rest.reverse) state.1)
    ?_ ?_) ?_ fun _ _ => id
  · rintro position rest ⟨world, host⟩ holds
    have last : position ∉ recent.take config.maxOpen.toNat ++ rest.reverse := by
      have nodup := holds.nodup
      rw [List.reverse_cons, ← List.append_assoc] at nodup
      exact fun member => List.disjoint_of_nodup_append nodup member List.mem_cons_self
    refine Ends.mono (holds.evict position host) (fun _ next evicted => ?_) fun _ _ => id
    rwa [List.reverse_cons, ← List.append_assoc, List.erase_append_right _ last, List.erase_cons_head,
      List.append_nil] at evicted
  · rwa [List.reverse_reverse, List.take_append_drop]
  · rintro _ ⟨world, host⟩ holds
    rw [List.reverse_nil, List.append_nil] at holds
    exact holds.forgetClosed host

theorem Lists.admitRegion (lists : Lists config recent world) {position : RegionPos}
    (absent : position ∉ recent) (number : Nat) (host : Host) :
    Ends (admitRegion position number) (world, host)
      (fun _ next => Lists config (touched config.maxOpen.toNat position recent) next.1)
      fun _ _ => False := by
  rw [touched_of_not_mem absent]
  unfold World.admitRegion
  rw [ends_bind]
  refine ends_host_of_rests (Host.hold_rests number) fun _ held => ?_
  rw [change, ends_bind, ends_modify]
  exact (lists.insert absent number).evictExcess held

end

/-- The host once the file of a region may be opened: its directory has been made, or there is a file. -/
def ready? (world : World) (host : Host) (position : RegionPos) (create : Bool) : Option Host :=
  if create then
    let directory := world.config.directory
    match Host.onTree .making directory (OnTree.makeDirectories directory) host with
    | .ok _ made => some made
    | .error _ _ => none
  else
    let path := world.filePath position
    match Host.onTree .examining path (OnTree.examine path) host with
    | .ok (some _) examined => some examined
    | _ => none

theorem makeDirectory_ready (world : World) (host : Host) (position : RegionPos) :
    Ends makeDirectory (world, host)
      (fun _ next => next.1 = world ∧ world.ready? host position true = some next.2)
      fun _ next => next.1 = world ∧ world.ready? host position true = none := by
  rw [ends_makeDirectory]
  refine Ends.mono (ends_run _ _) (fun _ made ran => ⟨rfl, ?_⟩) fun _ left ran => ⟨rfl, ?_⟩
  · simp only [ready?, Host.onTree, ran, if_true]
  · simp only [ready?, Host.onTree, ran, if_true]

theorem fileExists_ready (world : World) (host : Host) (position : RegionPos) :
    Ends (fileExists (world.filePath position)) (world, host)
      (fun found next => next.1 = world ∧
        world.ready? host position false = if found then some next.2 else none)
      fun _ next => next.1 = world ∧ world.ready? host position false = none := by
  rw [ends_fileExists]
  refine Ends.mono (ends_run _ _) (fun found examined ran => ⟨rfl, ?_⟩) fun _ left ran => ⟨rfl, ?_⟩
  · simp only [ready?, Host.onTree, ran, Bool.false_eq_true, if_false]
    cases found <;> rfl
  · simp only [ready?, Host.onTree, ran, Bool.false_eq_true, if_false]

def Opens (world : World) (host : Host) (position : RegionPos) (create : Bool) : Prop :=
  ∃ ready number after, world.ready? host position create = some ready ∧
    Host.openRegion (world.filePath position) position world.config.sync ready = .ok number after

/-- The region is open, or it has been put away and somebody still holds it, or its file can be opened. -/
def Obtains (state : World × Host) (position : RegionPos) (create : Bool) : Prop :=
  state.1.IsOpen position ∨
    (∃ number, state.1.parked.lookup position = some number ∧ state.2.IsOpen number) ∨
    state.1.Opens state.2 position create

section
variable {config : WorldConfig} {recent : List RegionPos} {world : World}

/-- There is a region in the end exactly if it may be obtained, and then it comes to the front. -/
def Attempts (config : WorldConfig) (recent : List RegionPos) (position : RegionPos) (obtains : Prop)
    (action : OnWorld (Option Nat)) (state : World × Host) : Prop :=
  Ends action state
    (fun result next => (result.isSome = true ↔ obtains) ∧ Lists config
      (if result.isSome = true then touched config.maxOpen.toNat position recent else recent) next.1)
    fun _ next => ¬ obtains ∧ Lists config recent next.1

theorem not_opens_of_not_ready {host : Host} {position : RegionPos} {create : Bool}
    (none : world.ready? host position create = none) : ¬ world.Opens host position create := by
  rintro ⟨_, _, _, some, _⟩
  cases none.symm.trans some

theorem Lists.openReady (lists : Lists config recent world) {position : RegionPos}
    (absent : position ∉ recent) {create : Bool} {host ready : Host}
    (found : world.ready? host position create = some ready) :
    Attempts config recent position (world.Opens host position create) (do
      let number ← WithHost.host (Host.openRegion (world.filePath position) position world.config.sync)
      World.admitRegion position number
      return some number) (world, ready) := by
  unfold Attempts
  simp only [ends_bind, ends_host, ends_pure]
  cases opening : Host.openRegion (world.filePath position) position world.config.sync ready with
  | error failure after =>
    rw [ends_of_eq_error opening]
    refine ⟨?_, lists⟩
    rintro ⟨_, number, opened, same, ran⟩
    cases found.symm.trans same
    cases opening.symm.trans ran
  | ok number after =>
    rw [ends_of_eq_ok opening]
    refine Ends.mono (lists.admitRegion absent number after) ?_ fun _ _ => False.elim
    exact fun _ next admitted => ⟨iff_of_true rfl ⟨ready, number, after, found, opening⟩, admitted⟩

theorem Lists.openFresh (lists : Lists config recent world) {position : RegionPos}
    (absent : position ∉ recent) (create : Bool) (host : Host) :
    Attempts config recent position (world.Opens host position create) (openFresh position create)
      (world, host) := by
  have goesOn {ready : Host} (found : world.ready? host position create = some ready) :=
    lists.openReady absent found
  unfold World.openFresh
  cases create with
  | true =>
    simp only [Attempts, ends_bind, ends_get, if_true] at goesOn ⊢
    refine Ends.mono (makeDirectory_ready world host position) ?_ ?_
    · rintro _ ⟨_, made⟩ ⟨rfl, found⟩
      exact goesOn found
    · rintro _ ⟨_, made⟩ ⟨rfl, none⟩
      exact ⟨not_opens_of_not_ready none, lists⟩
  | false =>
    simp only [Attempts, ends_bind, ends_get, Bool.false_eq_true, if_false] at goesOn ⊢
    refine Ends.mono (fileExists_ready world host position) ?_ ?_
    · rintro (_ | _) ⟨_, examined⟩ ⟨rfl, found⟩
      · exact ⟨iff_of_false Bool.false_ne_true (not_opens_of_not_ready found), lists⟩
      · simpa only [Bool.not_true, Bool.false_eq_true, if_false, ends_bind] using goesOn found
    · rintro _ ⟨_, examined⟩ ⟨rfl, none⟩
      exact ⟨not_opens_of_not_ready none, lists⟩

/-- Obtaining a region brings it to the front, wherever it is found. -/
theorem Lists.obtain (lists : Lists config recent world)
    (short : recent.length ≤ config.maxOpen.toNat) (position : RegionPos) (create : Bool) (host : Host) :
    Attempts config recent position (Obtains (world, host) position create) (obtain position create)
      (world, host) := by
  unfold World.obtain
  simp only [Attempts, ends_bind, ends_get]
  cases found : world.opened.find? position with
  | some number =>
    have isOpen : world.IsOpen position := by
      rw [IsOpen, found]
      rfl
    have member := (lists.isOpen_iff position).1 isOpen
    simp only [change, ends_bind, ends_modify, ends_pure]
    refine ends_host_of_rests (Host.hold_rests number) fun _ held => ?_
    rw [touched_of_mem member short]
    exact ⟨iff_of_true rfl (.inl isOpen), lists.raise member⟩
  | none =>
    have closed : ¬ world.IsOpen position := by simp [IsOpen, found]
    have absent : position ∉ recent := fun member => closed ((lists.isOpen_iff position).2 member)
    -- If nobody holds the region, it depends on its file.
    have fresh {changed : World} (same : Lists config recent changed)
        (opens : changed.Opens host position create ↔ world.Opens host position create)
        (unparked : ¬ ∃ number, world.parked.lookup position = some number ∧ host.IsOpen number) :
        Attempts config recent position (Obtains (world, host) position create)
          (World.openFresh position create) (changed, host) := by
      have alike : Obtains (world, host) position create ↔ changed.Opens host position create := by
        simp only [Obtains, closed, unparked, false_or, opens]
      rw [alike]
      exact same.openFresh absent create host
    cases remembered : world.parked.lookup position with
    | none =>
      refine fresh lists Iff.rfl ?_
      rintro ⟨_, some, _⟩
      cases remembered.symm.trans some
    | some number =>
      simp only [change, ends_bind, ends_modify, ends_ite, ends_pure]
      split
      · next live =>
        have obtains : Obtains (world, host) position create := .inr (.inl ⟨number, remembered, live⟩)
        refine ends_host_of_rests (Host.hold_rests number) fun _ held => ?_
        refine Ends.mono ((lists.parking _).admitRegion absent number held) ?_ fun _ _ => False.elim
        exact fun _ _ admitted => ⟨iff_of_true rfl obtains, admitted⟩
      · next dead =>
        refine fresh (lists.parking _) Iff.rfl ?_
        rintro ⟨_, some, live⟩
        cases remembered.symm.trans some
        exact dead live

open scoped Classical in
noncomputable def attempted (state : World × Host) (position : RegionPos) (create : Bool)
    (recent : List RegionPos) : List RegionPos :=
  if Obtains state position create then touched state.1.config.maxOpen.toNat position recent else recent

theorem Lists.attempt (lists : Lists config recent world)
    (short : recent.length ≤ config.maxOpen.toNat) (position : RegionPos) (create : Bool) (host : Host) :
    Ends (World.obtain position create) (world, host)
      (fun _ next => Lists config (attempted (world, host) position create recent) next.1)
      fun _ next => Lists config (attempted (world, host) position create recent) next.1 := by
  unfold attempted
  refine Ends.mono (lists.obtain short position create host) ?_ ?_
  · rintro result next ⟨obtains, listed⟩
    by_cases can : Obtains (world, host) position create
    · simpa only [if_pos can, if_pos (obtains.2 can), lists.config] using listed
    · simpa only [if_neg can, if_neg (can ∘ obtains.1)] using listed
  · rintro failure next ⟨fails, listed⟩
    rwa [if_neg fails]

theorem Lists.onChunk {Result : Type} [Inhabited Result] (lists : Lists config recent world)
    (short : recent.length ≤ config.maxOpen.toNat) (chunk : ChunkPos) (create : Bool) (absent : Result)
    (action : OnRegion Result) (host : Host) :
    Ends (World.onChunk chunk create absent action) (world, host)
      (fun _ next => Lists config (attempted (world, host) chunk.regionOf create recent) next.1)
      fun _ next => Lists config (attempted (world, host) chunk.regionOf create recent) next.1 := by
  unfold World.onChunk
  rw [ends_bind]
  refine Ends.mono (lists.attempt short chunk.regionOf create host) ?_ fun _ _ => id
  rintro (_ | number) ⟨between, opened⟩ listed
  · exact listed
  · have releases (used : Host) : Ends (WithHost.host (Host.release number)) (between, used)
        (fun _ next => Lists config (attempted (world, host) chunk.regionOf create recent) next.1)
        fun _ _ => False :=
      ends_host_of_rests (Host.release_rests number) fun _ _ => listed
    simp only [ends_tryCatch, ends_bind, ends_throw]
    refine Ends.mono (host_ends (Host.onRegion number action) between opened) ?_ ?_
    · rintro result ⟨_, used⟩ rfl
      exact Ends.mono (releases used) (fun _ _ => id) fun _ _ => False.elim
    · rintro failure ⟨_, used⟩ rfl
      exact Ends.mono (releases used) (fun _ _ => id) fun _ _ => False.elim

def closes (state : World × Host) (position : RegionPos) : Bool :=
  match outcome (closeRegion position) state with
  | .ok closed => closed
  | .error _ => false

/-- A region that is closed leaves the list, and nothing else happens to it. -/
theorem Lists.closeRegion (lists : Lists config recent world) (position : RegionPos) (host : Host) :
    Ends (closeRegion position) (world, host)
      (fun closed next => Lists config (if closed = true then recent.erase position else recent) next.1)
      fun _ next => Lists config recent next.1 := by
  unfold World.closeRegion
  simp only [change, ends_bind, ends_modify, ends_get]
  cases world.opened.find? position with
  | none => exact lists.parking _
  | some number =>
    simp only [ends_bind]
    refine Ends.mono (host_ends _ _ host) ?_ ?_
    · rintro _ ⟨_, flushed⟩ rfl
      rw [ends_park]
      simp only [World.remove, change, ends_modify]
      refine ends_host_of_rests (Host.release_rests number) fun _ released => ?_
      refine ends_notify _ fun noted => ?_
      rw [ends_pure, if_pos rfl]
      exact (lists.remove position).parking _
    · rintro failure ⟨_, flushed⟩ rfl
      exact lists.parking _

theorem Lists.close (lists : Lists config recent world) (position : RegionPos) (host : Host) :
    let left := if closes (world, host) position = true then recent.erase position else recent
    Ends (World.closeRegion position) (world, host) (fun _ next => Lists config left next.1)
      fun _ next => Lists config left next.1 := by
  intro left
  have ends := lists.closeRegion position host
  unfold Ends
  cases ran : World.closeRegion position (world, host) with
  | ok closed next =>
    have told : closes (world, host) position = closed := by simp [closes, outcome, ran]
    rw [ends_of_eq_ok ran] at ends
    simpa only [left, told] using ends
  | error failure next =>
    have told : closes (world, host) position = false := by simp [closes, outcome, ran]
    rw [ends_of_eq_error ran] at ends
    simpa only [left, told, Bool.false_eq_true, if_false] using ends

theorem Lists.shut (lists : Lists config recent world) (entries : List (RegionPos × Nat)) (host : Host) :
    Ends (shut entries) (world, host) (fun _ next => Lists config [] next.1) fun _ _ => False := by
  unfold World.shut
  simp only [change, ends_bind, ends_modify]
  refine Ends.mono (restful_forM ?_ _ (world, host)) ?_ fun _ _ => And.left
  · exact fun entry => restful_park entry.1 entry.2
  rintro _ ⟨parking, parked⟩ rests
  have empty : Lists config [] { parking with recency := [], opened := parking.opened.clear } :=
    ⟨rests.config.trans lists.config, rfl, .nil, .nil⟩
  refine Ends.mono (Ends.forM (fun _ state => Lists config [] state.1) ?_ empty) ?_ fun _ _ => id
  · rintro ⟨_, number⟩ _ ⟨between, released⟩ listed
    exact ends_host_of_rests (Host.release_rests number) fun _ _ => listed
  · rintro _ ⟨between, released⟩ listed
    exact listed.forgetClosed released

/-- Nothing is listed after everything has been closed, also when a flush has failed. -/
theorem Lists.closeAll (lists : Lists config recent world) (host : Host) :
    Ends closeAll (world, host) (fun _ next => Lists config [] next.1)
      fun _ next => Lists config [] next.1 := by
  simp only [closeAll_eq, ends_bind, ends_get]
  refine Ends.mono (Ends.filterMapM (fun next => next.1 = world) ?_ _ rfl) ?_ fun _ _ => False.elim
  · rintro ⟨position, number⟩ ⟨_, before⟩ rfl
    exact Ends.mono (tryFlush_alike _ before position number) (fun _ _ => And.left) fun _ _ => id
  rintro failures ⟨_, flushed⟩ rfl
  refine Ends.mono (lists.shut _ flushed) (fun _ next listed => ?_) fun _ _ => False.elim
  cases failures with
  | nil => exact listed
  | cons failure _ => exact listed

end

end World

namespace Session

noncomputable def listAfter (session : Session) (recent : List RegionPos) : Use → List RegionPos
  | .get position => World.attempted session.state position true recent
  | .close position =>
    if World.closes session.state position = true then recent.erase position else recent
  | .closeAll => []
  | .load chunk | .delete chunk | .has chunk | .timestamp chunk =>
    World.attempted session.state chunk.regionOf false recent
  | .save chunk _ _ => World.attempted session.state chunk.regionOf true recent
  | .request _ _ | .copy _ | .drop _ => recent

/-- The list of open regions, from the one used last on, as a run makes it. -/
noncomputable def listed [Codec] : Session → List RegionPos → List (Surroundings × Use) → List RegionPos
  | _, recent, [] => recent
  | session, recent, step :: rest =>
    (session.step step).listed ((session.inSurroundings step.1).listAfter recent step.2) rest

structure Recent (config : WorldConfig) (recent : List RegionPos) (session : Session) : Prop where
  lists : World.Lists config recent session.world
  short : recent.length ≤ config.maxOpen.toNat

section
variable {config : WorldConfig} {recent next : List RegionPos} {session : Session}

theorem lists_after {Result : Type} {action : OnWorld Result}
    (ends : Ends action session.state (fun _ state => World.Lists config next state.1)
      fun _ state => World.Lists config next state.1) :
    World.Lists config next (session.after action).world :=
  ends.final fun state : World × Host => World.Lists config next state.1

variable (now : Recent config recent session)
include now

theorem Recent.short_attempted (position : RegionPos) (create : Bool) :
    (World.attempted session.state position create recent).length ≤ config.maxOpen.toNat := by
  unfold World.attempted
  split
  · rw [← now.lists.config]
    exact World.length_touched_le ..
  · exact now.short

theorem Recent.host {Result : Type} (action : OnHost Result) :
    World.Lists config recent (session.after (WithHost.host action)).world :=
  lists_after (Ends.mono (World.host_ends action session.world session.host)
    (fun _ _ same => same ▸ now.lists) fun _ _ same => same ▸ now.lists)

theorem Recent.get (position : RegionPos) :
    World.Lists config (World.attempted session.state position true recent) (session.get position).world := by
  have ends := now.lists.attempt now.short position true session.host
  unfold Session.get
  unfold Ends at ends
  split at ends
  · next ran =>
    rw [state, ran]
    exact ends
  · next ran =>
    rw [state, ran]
    exact ends

variable [Codec]

theorem Recent.close (position : RegionPos) :
    Recent config (session.listAfter recent (.close position)) (session.use (.close position)) := by
  refine ⟨lists_after (now.lists.close position session.host), ?_⟩
  rw [listAfter]
  split
  · exact List.length_erase_le.trans now.short
  · exact now.short

theorem Recent.use (use : Use) : Recent config (session.listAfter recent use) (session.use use) := by
  have onChunk {Result : Type} [Inhabited Result] (chunk : ChunkPos) (create : Bool) (absent : Result)
      (action : OnRegion Result) :
      Recent config (World.attempted session.state chunk.regionOf create recent)
        (session.after (World.onChunk chunk create absent action)) :=
    ⟨lists_after (now.lists.onChunk now.short chunk create absent action session.host),
      now.short_attempted chunk.regionOf create⟩
  cases use with
  | get position => exact ⟨now.get position, now.short_attempted position true⟩
  | close position => exact now.close position
  | closeAll => exact ⟨lists_after (now.lists.closeAll session.host), Nat.zero_le _⟩
  | load chunk => exact onChunk chunk false none _
  | save chunk payload tag =>
    refine ⟨lists_after ?_, now.short_attempted chunk.regionOf true⟩
    unfold World.saveChunk
    simp only [ends_bind, ends_get]
    exact now.lists.onChunk now.short chunk true () _ session.host
  | delete chunk => exact onChunk chunk false () _
  | has chunk => exact onChunk chunk false false _
  | timestamp chunk => exact onChunk chunk false none _
  | request handle request =>
    simp only [Session.use]
    split
    · exact ⟨now.host _, now.short⟩
    · exact now
  | copy handle =>
    simp only [Session.use]
    split
    · exact ⟨now.host _, now.short⟩
    · exact now
  | drop handle =>
    simp only [Session.use]
    split
    · exact ⟨now.host _, now.short⟩
    · exact now

theorem Recent.run (steps : List (Surroundings × Use)) :
    Recent config (session.listed recent steps) (steps.foldl Session.step session) := by
  induction steps generalizing session recent with
  | nil => exact now
  | cons step rest ih =>
    have moved : Recent config recent (session.inSurroundings step.1) := ⟨now.lists, now.short⟩
    exact ih (moved.use step.2)

end

/-- In every run from a new world the open regions are those of the list, in its order: an operation that
obtains a region brings it to the front, and so many regions as the configuration allows stay open. -/
theorem recency_eq_listed [Codec] (config : WorldConfig) (host : Host) (steps : List (Surroundings × Use)) :
    let session := steps.foldl step (start config host)
    let recent := (start config host).listed [] steps
    session.world.recency = recent ∧ recent.Nodup ∧
      recent.Perm (session.world.opened.entries.map Prod.fst) ∧
      session.world.openCount ≤ config.maxOpen.toNat ∧
      ∀ position, session.world.IsOpen position ↔ position ∈ recent := by
  intro session recent
  have starts : Recent config [] (start config host) := ⟨World.lists_ofConfig config, Nat.zero_le _⟩
  have now : Recent config recent session := starts.run steps
  have lists := now.lists
  exact ⟨lists.recency, lists.nodup, lists.keys, lists.openCount ▸ now.short, lists.isOpen_iff⟩

end Session
end RegionStore
