import RegionStore.Proofs.World.Lockstep

/-!
Programs that use worlds, and regions that they open themselves, while calls are interrupted and
transfers are cut short. Nothing that a program can find out tells how often a call had to be made again:
its replies, the failures among them, the notices, everything that is open and every file are the same as
when nothing is disturbed.
-/

set_option autoImplicit false

namespace RegionStore

open Disk

inductive WorldCall where
  | get (position : RegionPos)
  | load (chunk : ChunkPos)
  | save (chunk : ChunkPos) (payload : Bytes) (tag : Option UInt8)
  | delete (chunk : ChunkPos)
  | has (chunk : ChunkPos)
  | timestamp (chunk : ChunkPos)
  | isOpen (position : RegionPos)
  | openCount
  | close (position : RegionPos)
  | closeAll

/-- What a program does, one thing after the other. Worlds are counted from the oldest one that is still
there, and regions have the numbers that they got when they were opened. -/
inductive Deed where
  | setClock (time : Int)
  | openRegion (path : Bytes) (position : RegionPos) (sync : Bool)
  | request (number : Nat) (request : Request)
  /-- Saves with a tag that need not belong to any method. -/
  | save (number : Nat) (chunk : ChunkPos) (payload : Bytes) (tag : UInt8)
  | findExtent (number : Nat) (index : Nat)
  | copy (number : Nat)
  | drop (number : Nat)
  | makeWorld (config : WorldConfig)
  | call (world : Nat) (call : WorldCall)
  | destroy (world : Nat)

inductive Reply where
  | done
  | answer (answer : Answer)
  | opened (number : Nat)
  | received (found : Option Nat)
  | extent (found : Option Extent)
  | truth (holds : Bool)
  | count (number : Nat)
  deriving Inhabited

abbrev OnWorlds := WithHost (List World)

namespace World

def ask {Result : Type} (question : World → Result) : OnWorld Result := do
  return question (← get).1

def among {Result : Type} [Inhabited Result] (index : Nat) (action : OnWorld Result) :
    OnWorlds Result := fun (worlds, host) =>
  match worlds[index]? with
  | none => .ok default (worlds, host)
  | some world =>
    match action (world, host) with
    | .ok result (world, host) => .ok result (worlds.set index world, host)
    | .error failure (world, host) => .error failure (worlds.set index world, host)

end World

section
variable [Codec]

def WorldCall.run : WorldCall → OnWorld Reply
  | .get position => .received <$> World.obtain position true
  | .load chunk => (.answer ∘ .payload) <$> World.loadChunk chunk
  | .save chunk payload tag => (fun _ => .done) <$> World.saveChunk chunk payload tag
  | .delete chunk => (fun _ => .done) <$> World.deleteChunk chunk
  | .has chunk => .truth <$> World.hasChunk chunk
  | .timestamp chunk => (.answer ∘ .second) <$> World.timestamp? chunk
  | .isOpen position => .truth <$> World.ask fun world => decide (world.IsOpen position)
  | .openCount => .count <$> World.ask World.openCount
  | .close position => .truth <$> World.closeRegion position
  | .closeAll => (fun _ => .done) <$> World.closeAll

def Deed.run : Deed → OnWorlds Reply
  | .setClock time =>
    (fun _ => .done) <$> modify fun (worlds, host) =>
      (worlds, { host with around := { host.around with clock := time } })
  | .openRegion path position sync => .opened <$> WithHost.host (Host.openRegion path position sync)
  | .request number asked => .answer <$> WithHost.host (Host.onRegion number asked.run)
  | .save number chunk payload tag =>
    (fun _ => .done) <$> WithHost.host (Host.onRegion number (Region.saveChunk chunk payload tag))
  | .findExtent number index =>
    .extent <$> WithHost.host
      (Host.onRegion number (Region.ask fun region => region.findExtent index))
  | .copy number => (fun _ => .done) <$> WithHost.host (Host.hold number)
  | .drop number => (fun _ => .done) <$> WithHost.host (Host.release number)
  | .makeWorld config =>
    (fun _ => .done) <$> modify fun (worlds, host) => (worlds ++ [World.ofConfig config], host)
  | .call index used => World.among index used.run
  | .destroy index => do
    World.among index World.destroy
    modify fun (worlds, host) => (worlds.eraseIdx index, host)
    return .done

/-- What comes of the deeds of a program, which goes on after a failure, and the state that it leaves. -/
def perform : List Deed → List World × Host → List (Except Failure Reply) × (List World × Host)
  | [], state => ([], state)
  | deed :: rest, state =>
    let later := perform rest (final deed.run state)
    (outcome deed.run state :: later.1, later.2)

/-- All that can be found out about a program that has been run. -/
structure Findings where
  replies : List (Except Failure Reply)
  notices : List Notice
  clock : Int
  worlds : List World
  regions : OpenRegions
  nextRegion : Nat
  tree : Tree
  files : List Bytes

def Host.files (host : Host) : List Bytes :=
  (List.range host.contents.size).map fun number =>
    let content := host.content number
    content.read 0 content.size

def Host.scheduled (host : Host) (schedule : Schedule) : Host :=
  { host with around := { host.around with schedule := schedule } }

def findings (deeds : List Deed) (worlds : List World) (host : Host) : Findings :=
  let (replies, worlds, host) := perform deeds (worlds, host)
  ⟨replies, host.around.notices, host.around.clock, worlds, host.regions, host.nextRegion, host.tree,
    host.files⟩

namespace World

open Host

omit [Codec] in
theorem lockstep_ask {Result : Type} (question : World → Result) : InStep (Beside Twin) (ask question) :=
  Lockstep.get_beside fun _ _ _ _ => lockstep_pure _

omit [Codec] in
theorem lockstep_among {Result : Type} [Inhabited Result] (index : Nat) {action : OnWorld Result}
    (inStep : InStep (Beside Twin) action) : InStep (Beside Twin) (among index action) := by
  intro ⟨worlds, host⟩ ⟨worlds', host'⟩ ⟨same, twin⟩
  obtain rfl : worlds = worlds' := same
  simp only [among]
  cases worlds[index]? with
  | none => exact .ok default ⟨rfl, twin⟩
  | some world =>
    have hosts : Beside Twin (world, host) (world, host') := ⟨rfl, twin⟩
    have agree := inStep hosts
    simp only
    generalize action (world, host) = result, action (world, host') = result' at agree
    cases agree with
    | ok result states => exact .ok result ⟨congrArg (worlds.set index) states.1, states.2⟩
    | error failure states => exact .error failure ⟨congrArg (worlds.set index) states.1, states.2⟩

end World

open Host

theorem WorldCall.lockstep_run (call : WorldCall) : InStep (Beside Twin) call.run := by
  cases call with
  | get position => exact (World.lockstep_obtain position true).map _
  | load chunk => exact (World.lockstep_loadChunk chunk).map _
  | save chunk payload tag => exact (World.lockstep_saveChunk chunk payload tag).map _
  | delete chunk => exact (World.lockstep_deleteChunk chunk).map _
  | has chunk => exact (World.lockstep_hasChunk chunk).map _
  | timestamp chunk => exact (World.lockstep_timestamp? chunk).map _
  | isOpen position => exact (World.lockstep_ask _).map _
  | openCount => exact (World.lockstep_ask _).map _
  | close position => exact (World.lockstep_closeRegion position).map _
  | closeAll => exact World.lockstep_closeAll.map _

theorem Deed.lockstep_run (deed : Deed) : InStep (Beside Twin) deed.run := by
  cases deed with
  | setClock time =>
    apply Lockstep.map
    apply lockstep_modify_beside
    intro worlds host host' twin
    exact ⟨rfl, twin.tree, twin.files, twin.content,
      ⟨rfl, twin.around.ceiling, twin.around.notices, twin.around.mild, twin.around.mild'⟩,
      twin.regions, twin.nextRegion⟩
  | openRegion path position sync => exact (lockstep_openRegion path position sync).host.map _
  | request number request => exact (lockstep_onRegion number request.lockstep_run).host.map _
  | save number chunk payload tag =>
    exact (lockstep_onRegion number (Region.lockstep_saveChunk chunk payload tag)).host.map _
  | findExtent number index => exact (lockstep_onRegion number (Region.lockstep_ask _)).host.map _
  | copy number => exact (lockstep_hold number).host.map _
  | drop number => exact (lockstep_release number).host.map _
  | makeWorld config => exact (lockstep_modify_beside fun _ _ _ twin => ⟨rfl, twin⟩).map _
  | call index call => exact World.lockstep_among index call.lockstep_run
  | destroy index =>
    apply (World.lockstep_among index World.lockstep_destroy).bind
    intro _
    exact (lockstep_modify_beside fun _ _ _ twin => ⟨rfl, twin⟩).bind fun _ => lockstep_pure _

theorem perform_alike (deeds : List Deed) {first second : List World × Host}
    (states : Beside Twin first second) :
    (perform deeds first).1 = (perform deeds second).1 ∧
      Beside Twin (perform deeds first).2 (perform deeds second).2 := by
  induction deeds generalizing first second with
  | nil => exact ⟨rfl, states⟩
  | cons deed rest ih =>
    have step := deed.lockstep_run
    obtain ⟨replies, left⟩ := ih (step.final states)
    refine ⟨?_, left⟩
    simp only [perform, step.outcome states, replies]

omit [Codec] in
theorem Host.Twin.files_eq {first second : Host} (twin : first.Twin second) :
    first.files = second.files := by
  unfold Host.files
  rw [twin.files]
  apply List.map_congr_left
  intro number _
  have same := twin.content number
  simp only [same.size, same.read]

omit [Codec] in
theorem Host.twin_scheduled (host : Host) {schedule : Schedule} (mild : schedule.Mild) :
    (host.scheduled schedule).Twin (host.scheduled Schedule.calm) :=
  ⟨rfl, rfl, fun _ => Content.Same.refl _, ⟨rfl, rfl, rfl, mild, Schedule.calm_mild⟩, rfl, rfl⟩

/-- Interruptions and short transfers, any number of them, make no difference to a program. -/
theorem findings_scheduled {schedule : Schedule} (mild : schedule.Mild) (deeds : List Deed)
    (worlds : List World) (host : Host) :
    findings deeds worlds (host.scheduled schedule) =
      findings deeds worlds (host.scheduled Schedule.calm) := by
  have hosts : Beside Twin (worlds, host.scheduled schedule) (worlds, host.scheduled Schedule.calm) :=
    ⟨rfl, host.twin_scheduled mild⟩
  obtain ⟨replies, sameWorlds, twin⟩ := perform_alike deeds hosts
  unfold findings
  simp only [replies, sameWorlds, twin.around.notices, twin.around.clock, twin.regions, twin.nextRegion,
    twin.tree, twin.files_eq]

end

/-- A world that is made, written to and closed while all calls are interrupted at first and transfers are
cut to a few bytes. -/
theorem findings_scheduled_first_save :
    let schedule : Schedule :=
      { Schedule.calm with
        opening := [⟨.refused .interrupted, 2⟩]
        reading := [⟨.short 1, 3⟩, ⟨.refused .interrupted, 1⟩, ⟨.short 4095, 2⟩]
        writing := [⟨.refused .interrupted, 1⟩, ⟨.short 3, 2⟩, ⟨.undisturbed, 1⟩, ⟨.short 1, 6⟩]
        resizing := [⟨.refused .interrupted, 5⟩]
        syncing := [⟨.undisturbed, 1⟩, ⟨.refused .interrupted, 3⟩] }
    let deeds : List Deed :=
      [.makeWorld {}, .call 0 (.save ⟨-1, 40⟩ ⟨#[1, 2, 3]⟩ none), .call 0 (.load ⟨-1, 40⟩),
        .call 0 .closeAll, .destroy 0]
    schedule.Mild ∧
      findings deeds [] (Host.initial.scheduled schedule) =
        findings deeds [] (Host.initial.scheduled Schedule.calm) :=
  ⟨by decide, findings_scheduled (by decide) _ [] Host.initial⟩

end RegionStore
