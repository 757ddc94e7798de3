import RegionStore.Proofs.Deflate.Container
import RegionStore.Proofs.Host.Opening
import RegionStore.Proofs.Region.Requests

/-!
A region file in use over any number of requests, closed and opened again between them. The answers are
those of a map from chunks to payloads, from the moment when the file was made.
-/

set_option autoImplicit false

namespace RegionStore

open Disk

inductive Step where
  | request (request : Request)
  | reopen

section
variable [Codec]

namespace Host

section
variable (path : Bytes) (position : RegionPos) (sync : Bool)

def step (number : Nat) : Step → OnHost (Nat × Answer)
  | .request request => (fun answer => (number, answer)) <$> onRegion number request.run
  | .reopen => do
    release number
    let number ← openRegion path position sync
    return (number, .done)

def serve (state : Nat × Host) (step : Surroundings × Step) : Answer × (Nat × Host) :=
  match Host.step path position sync state.1 step.2 { state.2 with around := step.1 } with
  | .ok (number, answer) host => (answer, (number, host))
  | .error failure host => (.failed failure, (state.1, host))

def answers : Nat × Host → List (Surroundings × Step) → List Answer
  | _, [] => []
  | state, step :: rest =>
    let served := serve path position sync state step
    served.1 :: answers served.2 rest

end

end Host

/-- What a map answers to the same steps; it does not notice that a file is opened again. -/
def Chunks.answers (position : RegionPos) : Chunks → List (Surroundings × Step) → List Answer
  | _, [] => []
  | chunks, (around, .request request) :: rest =>
    chunks.answer position request ::
      answers position (chunks.after position around.timestamp request) rest
  | chunks, (_, .reopen) :: rest => .done :: answers position chunks rest

end

namespace Host

section
variable [Codec]

def Serves (path : Bytes) (position : RegionPos) (chunks : Chunks) (number : Nat) (host : Host) : Prop :=
  ∃ file region, Opened path file number region host ∧ region.position = position ∧
    Region.Represents chunks region (host.device ⟨path, some file⟩)

section
variable {path : Bytes} {position : RegionPos} {chunks : Chunks} {number : Nat} {host : Host}

theorem Serves.inSurroundings (serves : Serves path position chunks number host)
    {around : Surroundings} (untroubled : around.Untroubled) :
    Serves path position chunks number { host with around := around } := by
  obtain ⟨file, region, opened, isPosition, represents⟩ := serves
  exact ⟨file, region, ⟨⟨opened.leads.place, opened.leads.inside⟩, opened.region, untroubled⟩,
    isPosition, represents.congr rfl⟩

theorem Serves.request [LawfulCodec] (serves : Serves path position chunks number host) (sync : Bool)
    (request : Request) :
    Ends (step path position sync number (.request request)) host
      (fun result next => result.2 = chunks.answer position request ∧
        Serves path position (chunks.after position host.around.timestamp request) result.1 next)
      fun failure next => .failed failure = chunks.answer position request ∧
        Serves path position (chunks.after position host.around.timestamp request) number next := by
  obtain ⟨file, region, opened, rfl, represents⟩ := serves
  -- What is left of the device after a request is kept by the host.
  have kept {answer : Answer} {left : Region × Device}
      (served : Region.Served chunks request region (host.device ⟨path, some file⟩) answer left) :
      answer = chunks.answer region.position request ∧
        Serves path region.position (chunks.after region.position host.around.timestamp request) number
          ((host.keep ⟨path, some file⟩ left.2).setRegion number ⟨left.1, ⟨path, some file⟩, 1⟩) := by
    have same := device_keep opened.leads.inside served.continues
    have leads := opened.leads.keep ⟨path, some file⟩ left.2
    refine ⟨served.answer, file, left.1, ⟨⟨leads.place, leads.inside⟩, region?_setRegion _ _ _,
      (served.continues.untroubled opened.device).around⟩, served.position, ?_⟩
    exact same.symm ▸ served.represents
  simp only [step, ends_map, ends_onRegion opened.region]
  exact Ends.mono (represents.serve opened.device request) (fun _ _ => kept) fun _ _ => kept

omit [Codec] in
theorem release_ends {file : Nat} {region : Region} (opened : Opened path file number region host) :
    Ends (release number) host
      (fun _ next => next.Leads path file ∧ next.around.Untroubled ∧
        next.content file = host.content file)
      fun _ _ => False := by
  have closes : Ends (onRegion number Region.close) host
      (fun _ next => next.Leads path file ∧ next.around.Untroubled ∧
        next.content file = host.content file)
      fun _ _ => False := by
    rw [ends_onRegion opened.region]
    refine Ends.mono (Region.close_ends region (host.device ⟨path, some file⟩)) ?_ fun _ _ => id
    rintro _ ⟨_, closed⟩ ⟨_, keeps⟩
    have same := device_keep opened.leads.inside keeps.continues
    have leads := opened.leads.keep ⟨path, some file⟩ closed
    refine ⟨⟨leads.place, leads.inside⟩, (keeps.continues.untroubled opened.device).around, ?_⟩
    exact (congrArg Device.content same).trans keeps.content
  unfold release
  simp only [ends_bind, ends_get, opened.region, Nat.lt_irrefl, if_false]
  refine Ends.mono closes ?_ fun _ _ => id
  rintro _ next ⟨leads, untroubled, content⟩
  exact ⟨⟨leads.place, leads.inside⟩, untroubled, content⟩

theorem Serves.reopen (serves : Serves path position chunks number host) (sync : Bool) :
    Ends (step path position sync number .reopen) host
      (fun result next => result.2 = .done ∧ Serves path position chunks result.1 next)
      fun _ _ => False := by
  obtain ⟨file, region, opened, rfl, represents⟩ := serves
  simp only [step, ends_bind, ends_pure]
  refine Ends.mono (release_ends opened) ?_ fun _ _ => id
  rintro _ closed ⟨leads, untroubled, content⟩
  have admissible : Region.Admissible (closed.content file).size := by
    rw [content]
    refine represents.faithful.admissible (Nat.le_trans represents.short ?_)
    decide
  obtain ⟨again, regionAgain, after, ran, openedAgain, loaded⟩ :=
    openRegion_of_openFile (openFile_of_leads untroubled leads) ⟨leads.place, leads.inside⟩
      (untroubled_afterOpening untroubled) admissible region.position sync
  rw [ends_of_eq_ok ran]
  refine ⟨trivial, file, regionAgain, openedAgain, loaded.position, ?_⟩
  exact (represents.congr content).reopened ⟨rfl, untroubled_afterOpening untroubled⟩ loaded

theorem serve_of_ends (sync : Bool) (around : Surroundings) (step : Step)
    (condition : Answer → Nat → Host → Prop)
    (ends : Ends (Host.step path position sync number step) { host with around := around }
      (fun result next => condition result.2 result.1 next)
      fun failure next => condition (.failed failure) number next) :
    condition (serve path position sync (number, host) (around, step)).1
      (serve path position sync (number, host) (around, step)).2.1
      (serve path position sync (number, host) (around, step)).2.2 := by
  unfold Ends at ends
  unfold serve
  dsimp only
  cases ran : Host.step path position sync number step { host with around := around } with
  | ok result next =>
    rw [ran] at ends
    exact ends
  | error failure next =>
    rw [ran] at ends
    exact ends

theorem Serves.answers [LawfulCodec] (serves : Serves path position chunks number host) (sync : Bool)
    (steps : List (Surroundings × Step)) (untroubled : ∀ step ∈ steps, step.1.Untroubled) :
    answers path position sync (number, host) steps = chunks.answers position steps := by
  induction steps generalizing chunks number host with
  | nil => rfl
  | cons first rest ih =>
    obtain ⟨around, step⟩ := first
    have calm : around.Untroubled := untroubled _ List.mem_cons_self
    have now := serves.inSurroundings calm
    have later : ∀ step ∈ rest, step.1.Untroubled :=
      fun step member => untroubled step (List.mem_cons_of_mem _ member)
    cases step with
    | request request =>
      obtain ⟨answer, next⟩ := serve_of_ends sync around (.request request)
        (fun answer number host => answer = chunks.answer position request ∧
          Serves path position (chunks.after position around.timestamp request) number host)
        (now.request sync request)
      exact congrArg₂ List.cons answer (ih next later)
    | reopen =>
      obtain ⟨answer, next⟩ := serve_of_ends sync around .reopen
        (fun answer number host => answer = .done ∧ Serves path position chunks number host)
        ((now.reopen sync).mono (fun _ _ => id) fun _ _ => False.elim)
      exact congrArg₂ List.cons answer (ih next later)

end

end

end Host
end RegionStore
