import RegionStore.Proofs.Disk.Directories
import RegionStore.Proofs.Host.Opening
import RegionStore.Proofs.Region.Lockstep

/-!
What is done with a host does not depend on how often its file calls have to be made again, from opening
a file on to closing the last region.
-/

set_option autoImplicit false

namespace RegionStore

open Disk

theorem Request.lockstep_run [Codec] (request : Request) : InStep (Beside Device.Alike) request.run := by
  cases request with
  | save chunk payload tag => exact (Region.lockstep_saveChunk chunk payload tag).map _
  | delete chunk => exact (Region.lockstep_deleteChunk chunk).map _
  | load chunk => exact (Region.lockstep_loadChunk chunk).map _
  | has chunk => exact (Region.lockstep_ask _).map _
  | timestamp chunk => exact (Region.lockstep_ask _).map _
  | count => exact (Region.lockstep_ask _).map _
  | list => exact (Region.lockstep_ask _).map _
  | flush => exact Region.lockstep_flush.map _

namespace Host

/-- The same names, the same bytes in all files and the same open regions. -/
structure Twin (first second : Host) : Prop where
  tree : first.tree = second.tree
  files : first.contents.size = second.contents.size
  content : ∀ number, (first.content number).Same (second.content number)
  around : first.around.Alike second.around
  regions : first.regions = second.regions
  nextRegion : first.nextRegion = second.nextRegion

section
variable {first second : Host} (twin : first.Twin second)
include twin

theorem Twin.region? (number : Nat) : first.region? number = second.region? number := by
  unfold Host.region?
  rw [twin.regions]

theorem Twin.setRegion (number : Nat) (entry : OpenRegion) :
    (first.setRegion number entry).Twin (second.setRegion number entry) :=
  ⟨twin.tree, twin.files, twin.content, twin.around,
    congrArg (fun regions : OpenRegions => regions.insert number entry) twin.regions, twin.nextRegion⟩

theorem Twin.device (handle : Handle) : (first.device handle).Alike (second.device handle) := by
  unfold Host.device
  cases handle.file with
  | none => exact ⟨rfl, rfl, Content.Same.refl _, twin.around⟩
  | some number => exact ⟨rfl, rfl, twin.content number, twin.around⟩

theorem Twin.keep (handle : Handle) {device device' : Device} (alike : device.Alike device') :
    (first.keep handle device).Twin (second.keep handle device') := by
  unfold Host.keep
  cases handle.file with
  | none => exact ⟨twin.tree, twin.files, twin.content, alike.around, twin.regions, twin.nextRegion⟩
  | some number =>
    refine ⟨twin.tree, ?_, ?_, alike.around, twin.regions, twin.nextRegion⟩
    · simpa using twin.files
    · intro other
      have untouched := twin.content other
      unfold Host.content at untouched ⊢
      simp only [Array.getD_eq_getD_getElem?, Array.getElem?_setIfInBounds] at untouched ⊢
      rw [twin.files]
      split
      · split
        · exact alike.content
        · exact Content.Same.refl _
      · exact untouched

theorem Twin.withFile (place : Tree.Place) : (first.withFile place).Twin (second.withFile place) := by
  refine ⟨?_, ?_, ?_, twin.around, twin.regions, twin.nextRegion⟩
  · simp only [Host.withFile, twin.tree, twin.files]
  · simp only [Host.withFile, Array.size_push, twin.files]
  · intro number
    have untouched := twin.content number
    unfold Host.content at untouched ⊢
    simp only [Host.withFile, Array.getD_eq_getD_getElem?, Array.getElem?_push] at untouched ⊢
    rw [twin.files]
    split
    · exact Content.Same.refl _
    · exact untouched

theorem Twin.fileAt (place : Tree.Place) (node : Option Node) :
    (first.fileAt place node).1 = (second.fileAt place node).1 ∧
      (first.fileAt place node).2.Twin (second.fileAt place node).2 := by
  cases node with
  | none => exact ⟨congrArg some twin.files, twin.withFile place⟩
  | some node =>
    cases node with
    | file number => exact ⟨rfl, twin⟩
    | directory number => exact ⟨rfl, twin⟩
    | full => exact ⟨rfl, twin⟩

theorem Twin.afterOpening :
    Twin { first with around := first.afterOpening } { second with around := second.afterOpening } :=
  ⟨twin.tree, twin.files, twin.content,
    ⟨twin.around.clock, twin.around.ceiling, twin.around.notices, mild_afterOpening twin.around.mild,
      mild_afterOpening twin.around.mild'⟩,
    twin.regions, twin.nextRegion⟩

end

theorem lockstep_notify (notice : Notice) : InStep Twin (notify notice) := by
  apply lockstep_modify
  intro host host' twin
  exact ⟨twin.tree, twin.files, twin.content, twin.around.notify notice, twin.regions, twin.nextRegion⟩

theorem lockstep_onTree {Result : Type} (call : FileCall) (path : Bytes) {action : OnTree Result}
    (inStep : InStep OnTree.Alike action) : InStep Twin (onTree call path action) := by
  intro host host' twin
  have states : OnTree.Alike (host.tree, host.around.schedule) (host'.tree, host'.around.schedule) :=
    ⟨twin.tree, twin.around.mild, twin.around.mild'⟩
  have kept {next next' : Tree × Schedule} (left : OnTree.Alike next next') :
      Twin (host.keepTree next.1 next.2) (host'.keepTree next'.1 next'.2) :=
    ⟨left.1, twin.files, twin.content,
      ⟨twin.around.clock, twin.around.ceiling, twin.around.notices, left.2.1, left.2.2⟩,
      twin.regions, twin.nextRegion⟩
  have agree := inStep states
  simp only [onTree]
  generalize action (host.tree, host.around.schedule) = result,
    action (host'.tree, host'.around.schedule) = result' at agree
  cases agree with
  | ok result left => exact .ok result (kept left)
  | error reason left => exact .error _ (kept left)

theorem lockstep_openFile (path : Bytes) : InStep Twin (openFile path) := by
  intro host host' twin
  have opened := twin.afterOpening
  have accepted : (host.around.turns .opening).settle.refusal = none :=
    Turns.refusal_settle twin.around.mild.opening
  have accepted' : (host'.around.turns .opening).settle.refusal = none :=
    Turns.refusal_settle twin.around.mild'.opening
  have found : host.tree.filePlace path = host'.tree.filePlace path := by rw [twin.tree]
  simp only [openFile, accepted, accepted', found]
  cases host'.tree.filePlace path with
  | error reason => exact .error _ opened
  | ok located =>
    obtain ⟨place, node⟩ := located
    obtain ⟨file, made⟩ := opened.fileAt place node
    simp only [afterOpening] at file made
    simp only [file]
    exact .ok _ made

section
variable {State Result : Type}

theorem lockstep_onFile (handle : Handle) {action : OnFile State Result}
    (inStep : InStep (Beside Device.Alike) action) : InStep (Beside Twin) (onFile handle action) := by
  intro ⟨state, host⟩ ⟨state', host'⟩ ⟨same, twin⟩
  obtain rfl : state = state' := same
  have files : Beside Device.Alike (state, host.device handle) (state, host'.device handle) :=
    ⟨rfl, twin.device handle⟩
  have agree := inStep files
  simp only [onFile]
  generalize action (state, host.device handle) = result,
    action (state, host'.device handle) = result' at agree
  cases agree with
  | ok result states => exact .ok result ⟨states.1, twin.keep handle states.2⟩
  | error failure states => exact .error failure ⟨states.1, twin.keep handle states.2⟩

theorem lockstep_onDevice (handle : Handle) {action : OnDevice Result}
    (inStep : InStep Device.Alike action) : InStep Twin (onDevice handle action) := by
  intro host host' twin
  have hosts : Beside Twin ((), host) ((), host') := ⟨rfl, twin⟩
  have agree := lockstep_onFile handle inStep.device hosts
  simp only [onDevice]
  generalize onFile handle (OnFile.device action) ((), host) = result,
    onFile handle (OnFile.device action) ((), host') = result' at agree
  cases agree with
  | ok result states => exact .ok result states.2
  | error failure states => exact .error failure states.2

theorem lockstep_onRegion [Inhabited Result] (number : Nat) {action : OnRegion Result}
    (inStep : InStep (Beside Device.Alike) action) : InStep Twin (onRegion number action) := by
  intro host host' twin
  simp only [onRegion, twin.region?]
  cases host'.region? number with
  | none => exact .ok default twin
  | some entry =>
    have hosts : Beside Twin (entry.region, host) (entry.region, host') := ⟨rfl, twin⟩
    have agree := lockstep_onFile entry.handle inStep hosts
    have left {state state' : Region × Host} (states : Beside Twin state state') :
        (state.2.setRegion number { entry with region := state.1 }).Twin
          (state'.2.setRegion number { entry with region := state'.1 }) := by
      rw [states.1]
      exact states.2.setRegion number _
    simp only
    generalize onFile entry.handle action (entry.region, host) = result,
      onFile entry.handle action (entry.region, host') = result' at agree
    cases agree with
    | ok result states => exact .ok result (left states)
    | error failure states => exact .error failure (left states)

end

theorem lockstep_openRegion (path : Bytes) (position : RegionPos) (sync : Bool) :
    InStep Twin (openRegion path position sync) := by
  apply (lockstep_openFile path).bind
  intro handle
  apply Lockstep.tryCatch
  · apply (lockstep_onDevice handle (Region.lockstep_load position sync)).bind
    intro region
    apply lockstep_modifyGet
    intro host host' twin
    have opened := twin.setRegion host'.nextRegion ⟨region, handle, 1⟩
    simp only [twin.nextRegion]
    refine ⟨trivial, opened.tree, opened.files, opened.content, opened.around, opened.regions, rfl⟩
  · intro failure
    exact (lockstep_onDevice handle Device.lockstep_close).bind fun _ => lockstep_throw failure

theorem lockstep_hold (number : Nat) : InStep Twin (hold number) := by
  apply lockstep_modify
  intro host host' twin
  simp only [twin.region?]
  cases host'.region? number with
  | none => exact twin
  | some entry => exact twin.setRegion number _

theorem lockstep_release (number : Nat) : InStep Twin (release number) := by
  apply Lockstep.get_bind
  intro host host' twin
  simp only [twin.region?]
  cases host'.region? number with
  | none => exact lockstep_pure _
  | some entry =>
    simp only
    apply Lockstep.ite
    · exact lockstep_set (twin.setRegion number _)
    · apply (lockstep_onRegion number Region.lockstep_close).bind
      intro _
      apply lockstep_modify
      intro host host' twin
      exact ⟨twin.tree, twin.files, twin.content, twin.around,
        congrArg (fun regions : OpenRegions => regions.erase number) twin.regions, twin.nextRegion⟩

end Host
end RegionStore
