import RegionStore.Proofs.Deflate.Container
import RegionStore.Proofs.World.Shelves

/-!
A world in use by callers who keep no handles: they call for chunks by their coordinates, and close regions
whenever they like. No call is answered by what happens to be open. The answers are those of one map
from chunks to payloads with the seconds they were saved in.
-/

set_option autoImplicit false

namespace RegionStore

open Disk

inductive Call where
  | load (chunk : ChunkPos)
  | has (chunk : ChunkPos)
  | timestamp (chunk : ChunkPos)
  | delete (chunk : ChunkPos)
  | save (chunk : ChunkPos) (payload : Bytes) (tag : Option UInt8)

section
variable [Codec]

namespace Call

def chunk : Call → ChunkPos
  | load chunk | has chunk | timestamp chunk | delete chunk | save chunk _ _ => chunk

def IsSave : Call → Prop
  | save _ _ _ => True
  | _ => False

def run : Call → OnWorld Answer
  | load chunk => .payload <$> World.loadChunk chunk
  | has chunk => .presence <$> World.hasChunk chunk
  | timestamp chunk => .second <$> World.timestamp? chunk
  | delete chunk => (fun _ => .done) <$> World.deleteChunk chunk
  | save chunk payload tag => (fun _ => .done) <$> World.saveChunk chunk payload tag

end Call

namespace Chunks

variable (chunks : Chunks) (method : UInt8)

def reply : Call → Answer
  | .load chunk => .payload ((chunks chunk).map SavedChunk.payload)
  | .has chunk => .presence (chunks chunk).isSome
  | .timestamp chunk => .second ((chunks chunk).map SavedChunk.second)
  | .delete _ => .done
  | .save _ payload tag => (saveRefusal? payload (tag.getD method)).elim .done .failed

def called (second : Int32) : Call → Chunks
  | .delete chunk => chunks.put chunk none
  | .save chunk payload tag =>
    if saveRefusal? payload (tag.getD method) = none then chunks.put chunk (some ⟨payload, second⟩)
    else chunks
  | _ => chunks

end Chunks

/-- What callers do who keep no handles. -/
inductive Errand where
  | ask (call : Call)
  | close (position : RegionPos)
  | closeAll

namespace Errand

def run : Errand → OnWorld Answer
  | ask call => call.run
  | close position => .presence <$> World.closeRegion position
  | closeAll => (fun _ => .done) <$> World.closeAll

def chunk? : Errand → Option ChunkPos
  | ask call => some call.chunk
  | _ => none

def IsSave : Errand → Prop
  | ask call => call.IsSave
  | _ => False

end Errand

def Answer.ofOutcome : Except Failure Answer → Answer
  | .ok answer => answer
  | .error failure => .failed failure

omit [Codec] in
theorem answered_of_ends {σ : Type} {action : EStateM Failure σ Answer} {state : σ} {answer : Answer}
    {holds : σ → Prop}
    (ends : Ends action state (fun result next => result = answer ∧ holds next)
      fun failure next => .failed failure = answer ∧ holds next) :
    Answer.ofOutcome (outcome action state) = answer ∧ holds (final action state) := by
  unfold Ends at ends
  unfold outcome final
  cases ran : action state with
  | ok result next =>
    rw [ran] at ends
    exact ends
  | error failure next =>
    rw [ran] at ends
    exact ends

/-- The answers to the calls among errands in given surroundings, each with the chunk it is about. -/
def World.replies : World × Host → List (Surroundings × Errand) → List (ChunkPos × Answer)
  | _, [] => []
  | (world, host), (around, errand) :: rest =>
    let state := (world, { host with around := around })
    let later := replies (final errand.run state) rest
    match errand.chunk? with
    | some chunk => (chunk, .ofOutcome (outcome errand.run state)) :: later
    | none => later

def Chunks.replies (method : UInt8) : Chunks → List (Surroundings × Errand) → List (ChunkPos × Answer)
  | _, [] => []
  | chunks, (around, .ask call) :: rest =>
    (call.chunk, chunks.reply method call) ::
      replies method (chunks.called method around.timestamp call) rest
  | chunks, (_, _) :: rest => replies method chunks rest

/-! A map answers a call by what it has of one chunk, and changes only there. -/

section
variable {a b : Chunks} {method : UInt8} {call : Call}

theorem Chunks.reply_congr (same : a call.chunk = b call.chunk) :
    a.reply method call = b.reply method call := by
  cases call with
  | load chunk | has chunk | timestamp chunk =>
    change a chunk = b chunk at same
    simp only [reply, same]
  | delete chunk | save chunk payload tag => rfl

theorem Chunks.called_congr (second : Int32) (same : a call.chunk = b call.chunk) :
    a.called method second call call.chunk = b.called method second call call.chunk := by
  cases call with
  | load chunk | has chunk | timestamp chunk => exact same
  | delete chunk => exact (if_pos rfl).trans (if_pos rfl).symm
  | save chunk payload tag =>
    simp only [called]
    split
    · exact (if_pos rfl).trans (if_pos rfl).symm
    · exact same

theorem Chunks.called_of_ne (second : Int32) {chunk : ChunkPos} (different : chunk ≠ call.chunk) :
    a.called method second call chunk = a chunk := by
  cases call with
  | load _ | has _ | timestamp _ => rfl
  | delete _ => exact if_neg different
  | save _ payload tag =>
    simp only [called]
    split
    · exact if_neg different
    · rfl

/-- The answers about one chunk are those to the calls for it alone. -/
theorem Chunks.filter_replies {chunk : ChunkPos} (same : a chunk = b chunk)
    (steps : List (Surroundings × Errand)) :
    (a.replies method steps).filter (fun reply => reply.1 = chunk) =
      b.replies method (steps.filter fun step => step.2.chunk? = some chunk) := by
  induction steps generalizing a b with
  | nil => rfl
  | cons step rest ih =>
    obtain ⟨around, call | position | _⟩ := step
    · by_cases here : call.chunk = chunk
      · subst here
        rw [List.filter_cons_of_pos (by simp [Errand.chunk?]), replies, replies,
          List.filter_cons_of_pos (by simp), ih (called_congr around.timestamp same), reply_congr same]
      · rw [List.filter_cons_of_neg (by simpa [Errand.chunk?] using here), replies,
          List.filter_cons_of_neg (by simpa using here)]
        exact ih ((called_of_ne around.timestamp (Ne.symm here)).trans same)
    · rw [List.filter_cons_of_neg (by simp [Errand.chunk?]), replies]
      · exact ih same
      · exact nofun
    · rw [List.filter_cons_of_neg (by simp [Errand.chunk?]), replies]
      · exact ih same
      · exact nofun

end

end

namespace World

section
variable [Codec]

section
variable {config : WorldConfig} {folder first : Nat} {chunks : Chunks} {world : World} {host : Host}
  (inOrder : InOrder first (fun _ => False) [] [] (world, host)) (same : world.config = config)
  (provided : Provided config.directory folder first chunks host)
include inOrder same provided

theorem onChunk_request [LawfulCodec] {Result : Type} [Inhabited Result] {chunk : ChunkPos} {create : Bool}
    {absent : Result} {action : OnRegion Result} {form : Result → Answer} (request : Request)
    (isForm : request.run = form <$> action) {answer : Answer} {after : Chunks}
    (answers : (chunks.within chunk.regionOf).answer chunk.regionOf request = answer)
    (changes : (chunks.within chunk.regionOf).after chunk.regionOf host.around.timestamp request =
      after.within chunk.regionOf)
    (others : ∀ other ≠ chunk.regionOf, after.within other = chunks.within other)
    (missing : create = false → chunks.within chunk.regionOf = Chunks.empty →
      form absent = answer ∧ after = chunks) :
    Ends (form <$> onChunk chunk create absent action) (world, host)
      (fun result next => result = answer ∧ next.1.config = config ∧
        Provided config.directory folder first after next.2)
      fun failure next => .failed failure = answer ∧ next.1.config = config ∧
        Provided config.directory folder first after next.2 := by
  rw [ends_map]
  refine onChunk_provided inOrder same provided others missing ?_
  intro region file isPosition represents untroubled timestamp
  have serves := represents.serve untroubled request
  rw [isForm, ends_map] at serves
  have left {answered : Answer} {state : Region × Device}
      (served : Region.Served (chunks.within chunk.regionOf) request region file answered state) :
      answered = answer ∧ state.1.position = region.position ∧
        Region.Represents (after.within chunk.regionOf) state.1 state.2 ∧ file.Continues state.2 := by
    obtain ⟨isAnswer, changed, samePosition, continues⟩ := served
    rw [isPosition, answers] at isAnswer
    rw [isPosition, timestamp, changes] at changed
    exact ⟨isAnswer, samePosition, changed, continues⟩
  exact Ends.mono serves (fun _ _ => left) fun _ _ => left

theorem onChunk_question [LawfulCodec] {Result : Type} [Inhabited Result] {chunk : ChunkPos} {absent : Result}
    {action : OnRegion Result} {form : Result → Answer} (request : Request)
    (isForm : request.run = form <$> action) (known : Option SavedChunk → Answer)
    (answers : (chunks.within chunk.regionOf).answer chunk.regionOf request =
      Chunks.about chunk.regionOf chunk (known (chunks.within chunk.regionOf chunk)))
    (keeps : (chunks.within chunk.regionOf).after chunk.regionOf host.around.timestamp request =
      chunks.within chunk.regionOf) (isAbsent : form absent = known none) :
    Ends (form <$> onChunk chunk false absent action) (world, host)
      (fun result next => result = known (chunks chunk) ∧ next.1.config = config ∧
        Provided config.directory folder first chunks next.2)
      fun failure next => .failed failure = known (chunks chunk) ∧ next.1.config = config ∧
        Provided config.directory folder first chunks next.2 := by
  rw [Chunks.within_own, Chunks.about, if_pos rfl] at answers
  refine onChunk_request inOrder same provided request isForm answers keeps (fun _ _ => rfl)
    fun _ empty => ?_
  rw [isAbsent, chunks.eq_none_of_within_empty empty]
  exact ⟨rfl, rfl⟩

theorem onChunk_save [LawfulCodec] (chunk : ChunkPos) (payload : Bytes) (tag : UInt8) :
    Ends (onChunk chunk true () (Region.saveChunk chunk payload tag)) (world, host)
      (fun _ next => Answer.done = (saveRefusal? payload tag).elim .done .failed ∧ next.1.config = config ∧
        Provided config.directory folder first
          (if saveRefusal? payload tag = none then
            chunks.put chunk (some ⟨payload, host.around.timestamp⟩) else chunks) next.2)
      fun failure next => Answer.failed failure = (saveRefusal? payload tag).elim .done .failed ∧
        next.1.config = config ∧ Provided config.directory folder first
          (if saveRefusal? payload tag = none then
            chunks.put chunk (some ⟨payload, host.around.timestamp⟩) else chunks) next.2 := by
  have saves := @onChunk_request _ _ _ _ chunks world host inOrder same provided _ _ _ chunk true () _
    (fun _ => Answer.done) (.save chunk payload tag) rfl
  simp only [ends_map] at saves
  have makes {result : Prop} : true = false → result := Bool.noConfusion
  have answers : (chunks.within chunk.regionOf).answer chunk.regionOf (.save chunk payload tag) =
      (saveRefusal? payload tag).elim .done .failed := by
    simp only [Chunks.answer, Chunks.about, if_true]
  by_cases taken : saveRefusal? payload tag = none
  · rw [if_pos taken]
    refine saves answers ?_ (fun _ foreign => chunks.within_put_of_ne foreign _) makes
    simp only [Chunks.after, true_and, if_pos taken]
    exact (chunks.within_put chunk _).symm
  · rw [if_neg taken]
    refine saves answers ?_ (fun _ _ => rfl) makes
    simp only [Chunks.after, true_and, if_neg taken]

theorem run_call [LawfulCodec] (call : Call) :
    Ends call.run (world, host)
      (fun answer next => answer = chunks.reply config.method call ∧ next.1.config = config ∧
        Provided config.directory folder first
          (chunks.called config.method host.around.timestamp call) next.2)
      fun failure next => .failed failure = chunks.reply config.method call ∧ next.1.config = config ∧
        Provided config.directory folder first
          (chunks.called config.method host.around.timestamp call) next.2 := by
  cases call with
  | load chunk =>
    exact onChunk_question inOrder same provided (.load chunk) rfl
      (fun known => .payload (known.map SavedChunk.payload)) rfl rfl rfl
  | has chunk =>
    exact onChunk_question inOrder same provided (.has chunk) rfl (fun known => .presence known.isSome)
      rfl rfl rfl
  | timestamp chunk =>
    exact onChunk_question inOrder same provided (.timestamp chunk) rfl
      (fun known => .second (known.map SavedChunk.second)) rfl rfl rfl
  | delete chunk =>
    refine onChunk_request inOrder same provided (.delete chunk) rfl ?_ ?_
      (fun _ foreign => chunks.within_put_of_ne foreign none) fun _ empty => ⟨rfl, ?_⟩
    · exact if_pos rfl
    · exact (chunks.within_put chunk none).symm
    · funext other
      by_cases here : other = chunk
      · exact (if_pos here).trans (here ▸ (chunks.eq_none_of_within_empty empty).symm)
      · exact if_neg here
  | save chunk payload tag =>
    simp only [Call.run, saveChunk, ends_map, ends_bind, ends_get, same]
    exact onChunk_save inOrder same provided chunk payload _

end

theorem InOrder.call {first : Nat} {forgotten : Nat → Prop} {handles : List (RegionPos × Nat)}
    {world : World} {host : Host} (inOrder : InOrder first forgotten handles [] (world, host))
    (call : Call) :
    Ends call.run (world, host) (fun _ next => InOrder first forgotten handles [] next)
      fun _ next => InOrder first forgotten handles [] next := by
  cases call with
  | load chunk =>
    exact (ends_map _ _ _ _ _).2 (inOrder.onChunk (Region.steady_loadChunk chunk) chunk false none)
  | has chunk => exact (ends_map _ _ _ _ _).2 (inOrder.onChunk (Region.steady_ask _) chunk false false)
  | timestamp chunk => exact (ends_map _ _ _ _ _).2 (inOrder.onChunk (Region.steady_ask _) chunk false none)
  | delete chunk =>
    exact (ends_map _ _ _ _ _).2 (inOrder.onChunk (Region.steady_deleteChunk chunk) chunk false ())
  | save chunk payload tag =>
    simp only [Call.run, saveChunk, ends_map, ends_bind, ends_get]
    exact inOrder.onChunk (Region.steady_saveChunk chunk payload _) chunk true ()

/-- The world stands for the map. No caller has a handle, so the table holds all that is open. -/
structure InUse (config : WorldConfig) (folder first : Nat) (chunks : Chunks) (state : World × Host) :
    Prop where
  inOrder : InOrder first (fun _ => False) [] [] state
  same : state.1.config = config
  provided : Provided config.directory folder first chunks state.2

section
variable {config : WorldConfig} {folder first : Nat} {chunks : Chunks} {world : World} {host : Host}
  (inUse : InUse config folder first chunks (world, host))
include inUse

theorem InUse.inSurroundings {around : Surroundings} (calm : around.Untroubled) :
    InUse config folder first chunks (world, { host with around := around }) :=
  ⟨inUse.inOrder.alike ⟨fun _ => rfl, rfl⟩, inUse.same,
    inUse.provided.stays (Host.stays_inSurroundings host around) calm⟩

theorem InUse.ask [LawfulCodec] (call : Call) :
    Ends call.run (world, host)
      (fun answer next => answer = chunks.reply config.method call ∧
        InUse config folder first (chunks.called config.method host.around.timestamp call) next)
      fun failure next => .failed failure = chunks.reply config.method call ∧
        InUse config folder first (chunks.called config.method host.around.timestamp call) next := by
  have ends := (run_call inUse.inOrder inUse.same inUse.provided call).and (inUse.inOrder.call call)
  refine Ends.mono ends ?_ ?_
  · rintro answer next ⟨⟨isAnswer, same, provided⟩, inOrder⟩
    exact ⟨isAnswer, inOrder, same, provided⟩
  · rintro failure next ⟨⟨isAnswer, same, provided⟩, inOrder⟩
    exact ⟨isAnswer, inOrder, same, provided⟩

theorem InUse.rests {Result : Type} {action : OnWorld Result} (restful : Restful True action)
    (inOrder : Ends action (world, host) (fun _ next => InOrder first (fun _ => False) [] [] next)
      fun _ next => InOrder first (fun _ => False) [] [] next) :
    InUse config folder first chunks (final action (world, host)) := by
  refine Ends.final _ (Ends.mono ((restful (world, host)).and inOrder) ?_ ?_)
  · rintro _ next ⟨rests, inOrder⟩
    exact ⟨inOrder, rests.config.trans inUse.same, inUse.provided.rests rests.host⟩
  · rintro _ next ⟨⟨_, rests⟩, inOrder⟩
    exact ⟨inOrder, rests.config.trans inUse.same, inUse.provided.rests rests.host⟩

theorem InUse.close (position : RegionPos) :
    InUse config folder first chunks (final (closeRegion position) (world, host)) := by
  refine inUse.rests (restful_closeRegion position) ?_
  have nothing : (fun number => False ∨ Forgets first (world, host) position number) = fun _ => False := by
    funext number
    rw [eq_iff_iff, iff_false, false_or]
    rintro ⟨absent, own, isOpen⟩
    exact inUse.inOrder.closed (Option.not_isSome_iff_eq_none.1 absent) number own isOpen
  have closes := inUse.inOrder.closeRegion position
  rwa [nothing] at closes

theorem InUse.closeAll : InUse config folder first chunks (final World.closeAll (world, host)) :=
  inUse.rests restful_closeAll inUse.inOrder.closeAll

end

theorem InUse.replies [LawfulCodec] {config : WorldConfig} {folder first : Nat} {chunks : Chunks}
    {state : World × Host}
    (inUse : InUse config folder first chunks state) (steps : List (Surroundings × Errand))
    (calm : ∀ step ∈ steps, step.1.Untroubled) :
    World.replies state steps = chunks.replies config.method steps := by
  -- each step keeps the world standing for the map as the map is after that step
  induction steps generalizing chunks state with
  | nil => rfl
  | cons step rest ih =>
    obtain ⟨around, errand⟩ := step
    obtain ⟨world, host⟩ := state
    have now := inUse.inSurroundings (calm _ List.mem_cons_self)
    have later : ∀ step ∈ rest, step.1.Untroubled := fun step member =>
      calm step (List.mem_cons_of_mem _ member)
    cases errand with
    | ask call =>
      obtain ⟨answer, next⟩ := answered_of_ends (now.ask call)
      exact congrArg₂ List.cons (congrArg (Prod.mk call.chunk) answer) (ih next later)
    | close position =>
      have next := now.close position
      rw [← final_map _ Answer.presence] at next
      exact ih next later
    | closeAll =>
      have next := now.closeAll
      rw [← final_map _ fun _ => Answer.done] at next
      exact ih next later

/-- Whatever is asked but a save, under any schedule, no file and no directory is made. -/
theorem sameFiles_of_not_save {errand : Errand} (asks : ¬ errand.IsSave) (state : World × Host) :
    state.2.SameFiles (final errand.run state).2 := by
  have ends : Ends errand.run state (fun _ next => state.2.SameFiles next.2)
      fun _ next => state.2.SameFiles next.2 := by
    have rests {Result : Type} {action : OnWorld Result} (restful : Restful True action) :
        Ends action state (fun _ next => state.2.SameFiles next.2)
          fun _ next => state.2.SameFiles next.2 :=
      Ends.mono (restful state) (fun _ _ rests => rests.host.sameFiles)
        fun _ _ rests => rests.2.host.sameFiles
    cases errand with
    | ask call =>
      cases call with
      | load chunk | has chunk | timestamp chunk | delete chunk =>
        exact (ends_map _ _ _ _ _).2 (onChunk_sameFiles chunk _ _ state)
      | save _ _ _ => exact absurd trivial asks
    | close position => exact (ends_map _ _ _ _ _).2 (rests (restful_closeRegion position))
    | closeAll => exact (ends_map _ _ _ _ _).2 (rests restful_closeAll)
  exact Ends.final (fun next : World × Host => state.2.SameFiles next.2) ends

end

end World
end RegionStore
