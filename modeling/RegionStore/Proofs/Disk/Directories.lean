import RegionStore.Proofs.Disk.Device
import RegionStore.Proofs.Disk.Path
import RegionStore.Proofs.Lockstep

/-!
Looking for names and making directories, call by call. Whatever becomes of the calls, looking changes
nothing and making leaves a sound tree; and if none of them is refused, it comes to the same as if none
had been disturbed.
-/

set_option autoImplicit false

namespace RegionStore.Disk.OnTree

section
variable {tree : Tree} {schedule : Schedule}

theorem attempt_ends (call : FileCall) :
    Ends (attempt call) (tree, schedule) (fun _ next => next.1 = tree) fun _ next => next.1 = tree := by
  simp only [Ends, attempt]
  cases (schedule.turns call).next.1.refusal? <;> rfl

theorem examine_ends (path : Bytes) :
    Ends (examine path) (tree, schedule)
      (fun found next => next.1 = tree ∧ ∀ node, found = some node → tree.look path = .ok node)
      fun _ next => next.1 = tree := by
  have nothing (node : Node) (isNone : none = some node) : tree.look path = .ok node := by cases isNone
  simp only [examine, ends_tryCatch, ends_bind, ends_get, ends_map, ends_ofExcept]
  refine Ends.mono (attempt_ends .examining) ?_ ?_
  · rintro _ ⟨_, later⟩ rfl
    cases looked : Tree.look _ path with
    | ok node =>
      refine ⟨rfl, ?_⟩
      rintro _ ⟨⟩
      rfl
    | error reason =>
      rw [looked] at nothing
      dsimp only
      split
      · exact ⟨rfl, nothing⟩
      · exact ⟨rfl, nothing⟩
      · rfl
  · rintro reason ⟨_, later⟩ rfl
    split
    · exact ⟨rfl, nothing⟩
    · exact ⟨rfl, nothing⟩
    · rfl

theorem missingPaths_ends (path : Bytes) (names : List (Nat × Bytes)) (missing : List Bytes) :
    Ends (missingPaths path names missing) (tree, schedule) (fun _ next => next.1 = tree)
      fun _ next => next.1 = tree := by
  induction names generalizing missing schedule with
  | nil => rfl
  | cons entry above ih =>
    unfold missingPaths
    dsimp only
    generalize (if Path.IsDots entry.2 then missing else path.extract 0 entry.1 :: missing) = longer
    split
    · rfl
    · cases above with
      | nil => rfl
      | cons next above =>
        rw [ends_bind]
        refine Ends.mono (examine_ends _) ?_ fun _ _ => id
        rintro found ⟨_, later⟩ ⟨rfl, _⟩
        split
        · rfl
        · rfl
        · exact ih _

theorem makeDirectory_sound (sound : tree.Sound) (path : Bytes) :
    Ends (makeDirectory path) (tree, schedule) (fun _ next => next.1.Sound) fun _ next => next.1.Sound := by
  simp only [makeDirectory, ends_bind, ends_get, ends_ofExcept, ends_set, ends_pure]
  refine Ends.mono (attempt_ends .making) ?_ ?_
  · rintro _ ⟨_, later⟩ rfl
    cases makes : Tree.makeDirectory _ path with
    | ok made => exact sound.makeDirectory makes
    | error reason => exact sound
  · rintro _ ⟨_, later⟩ rfl
    exact sound

theorem makeEach_sound (sound : tree.Sound) (paths : List Bytes) (created : Bool) :
    Ends (makeEach paths created) (tree, schedule) (fun _ next => next.1.Sound)
      fun _ next => next.1.Sound := by
  induction paths generalizing tree schedule created with
  | nil => exact sound
  | cons path paths ih =>
    rw [makeEach, ends_bind]
    exact Ends.mono (makeDirectory_sound sound path) (fun made next soundNext => ih soundNext made)
      fun _ _ => id

/-- Directories that were made before a call is refused stay, in a sound tree. -/
theorem makeDirectories_sound (sound : tree.Sound) (path : Bytes) :
    Ends (makeDirectories path) (tree, schedule) (fun _ next => next.1.Sound)
      fun _ next => next.1.Sound := by
  unfold makeDirectories
  split
  · exact sound
  rw [ends_bind]
  refine Ends.mono (examine_ends path) ?_ ?_
  · rintro found ⟨_, later⟩ ⟨rfl, _⟩
    split
    · exact sound
    · exact sound
    · rw [ends_bind]
      refine Ends.mono (missingPaths_ends path _ _) ?_ ?_
      · rintro missing ⟨_, ready⟩ rfl
        exact makeEach_sound sound missing false
      · rintro _ ⟨_, ready⟩ rfl
        exact sound
  · rintro _ ⟨_, later⟩ rfl
    exact sound

end

/-- Only the turns ahead differ, and they are mild. -/
abbrev Alike : Tree × Schedule → Tree × Schedule → Prop :=
  Beside fun first second => first.Mild ∧ second.Mild

def Unrefused (call : FileCall) : Prop :=
  ∀ schedule : Schedule, schedule.Mild → (schedule.turns call).All Turn.Unrefused

theorem unrefused_examining : Unrefused .examining := fun _ => Schedule.Mild.examining

theorem unrefused_making : Unrefused .making := fun _ => Schedule.Mild.making

section
variable {call : FileCall} (unrefused : Unrefused call)
include unrefused

theorem attempt_of_mild (tree : Tree) {schedule : Schedule} (mild : schedule.Mild) :
    ∃ next : Schedule, attempt call (tree, schedule) = .ok () (tree, next) ∧ next.Mild := by
  have accepted : (schedule.turns call).next.1.refusal? = none :=
    (Turns.all_next (unrefused schedule mild) rfl).1
  refine ⟨schedule.setTurns call (schedule.turns call).next.2, ?_, Device.mild_next mild call⟩
  simp only [attempt, accepted]

theorem lockstep_attempt : InStep Alike (attempt call) := by
  rintro ⟨tree, schedule⟩ ⟨_, schedule'⟩ ⟨rfl, mild, mild'⟩
  obtain ⟨next, ran, left⟩ := attempt_of_mild unrefused tree mild
  obtain ⟨next', ran', left'⟩ := attempt_of_mild unrefused tree mild'
  rw [ran, ran']
  exact .ok () ⟨rfl, left, left'⟩

end

theorem lockstep_examine (path : Bytes) : InStep Alike (examine path) := by
  apply Lockstep.tryCatch
  · apply (lockstep_attempt unrefused_examining).bind
    intro _
    apply Lockstep.get_beside
    intro tree _ _ _
    exact (lockstep_ofExcept (tree.look path)).map some
  · intro reason
    split
    · exact lockstep_pure none
    · exact lockstep_pure none
    · exact lockstep_throw _

theorem lockstep_makeDirectory (path : Bytes) : InStep Alike (makeDirectory path) := by
  apply (lockstep_attempt unrefused_making).bind
  intro _
  apply Lockstep.get_beside
  intro tree schedule schedule' mild
  apply (lockstep_ofExcept (tree.makeDirectory path)).bind
  intro made
  have left : Alike (made.2, schedule) (made.2, schedule') := ⟨rfl, mild⟩
  exact (lockstep_set left).bind fun _ => lockstep_pure made.1

theorem lockstep_missingPaths (path : Bytes) (names : List (Nat × Bytes)) (missing : List Bytes) :
    InStep Alike (missingPaths path names missing) := by
  induction names generalizing missing with
  | nil => exact lockstep_pure missing
  | cons entry above ih =>
    unfold missingPaths
    apply Lockstep.ite (lockstep_throw _)
    cases above with
    | nil => exact lockstep_pure _
    | cons next above =>
      apply (lockstep_examine _).bind
      intro found
      split
      · exact lockstep_pure _
      · exact lockstep_throw _
      · exact ih _

theorem lockstep_makeEach (paths : List Bytes) (created : Bool) : InStep Alike (makeEach paths created) := by
  induction paths generalizing created with
  | nil => exact lockstep_pure created
  | cons path paths ih => exact (lockstep_makeDirectory path).bind ih

theorem lockstep_makeDirectories (path : Bytes) : InStep Alike (makeDirectories path) := by
  apply Lockstep.ite (lockstep_throw _)
  apply (lockstep_examine path).bind
  intro found
  split
  · exact lockstep_pure false
  · exact lockstep_throw _
  · exact (lockstep_missingPaths path _ _).bind fun missing => lockstep_makeEach missing false

section
variable {tree : Tree} {schedule : Schedule} (mild : schedule.Mild)
include mild

/-- What undisturbed calls make is made by calls that are not refused. -/
theorem makes_of_calm {path : Bytes} {made : Bool} {after : Tree} {ahead : Schedule}
    (makes : makeDirectories path (tree, Schedule.calm) = .ok made (after, ahead)) :
    ∃ left : Schedule, makeDirectories path (tree, schedule) = .ok made (after, left) ∧ left.Mild := by
  have states : Alike (tree, schedule) (tree, Schedule.calm) := ⟨rfl, mild, Schedule.calm_mild⟩
  have agree := lockstep_makeDirectories path states
  rw [makes] at agree
  generalize makeDirectories path (tree, schedule) = result at agree
  cases agree with
  | ok _ states =>
    obtain ⟨rfl, left, _⟩ := states
    exact ⟨_, rfl, left⟩

theorem examine_of_mild (path : Bytes) :
    Ends (examine path) (tree, schedule)
      (fun found next => tree.exists? path = .ok found.isSome ∧ next.1 = tree ∧ next.2.Mild)
      fun reason next => tree.exists? path = .error reason ∧ next.1 = tree ∧ next.2.Mild := by
  obtain ⟨later, goesOn, left⟩ := attempt_of_mild unrefused_examining tree mild
  simp only [examine, ends_tryCatch, ends_bind, ends_get, ends_map, ends_ofExcept, Tree.exists?]
  rw [ends_of_eq_ok goesOn]
  dsimp only
  cases tree.look path with
  | ok node => exact ⟨rfl, rfl, left⟩
  | error reason =>
    dsimp only
    split
    · exact ⟨rfl, rfl, left⟩
    · exact ⟨rfl, rfl, left⟩
    · next notEntry notDirectory =>
      refine ⟨?_, rfl, left⟩
      split
      · next found => cases found
      · next same => exact absurd (Except.error.inj same) notEntry
      · next same => exact absurd (Except.error.inj same) notDirectory
      · next _ _ same => exact congrArg Except.error (Except.error.inj same).symm

theorem makeDirectories_of_look {path : Bytes} {number : Nat}
    (there : tree.look path = .ok (.directory number)) :
    Ends (makeDirectories path) (tree, schedule) (fun _ next => next.1 = tree ∧ next.2.Mild)
      fun _ _ => False := by
  rw [makeDirectories, if_neg (Tree.size_ne_zero_of_look there), ends_bind]
  refine Ends.mono ((examine_ends path).and (examine_of_mild mild path)) ?_ ?_
  · rintro found next ⟨⟨_, looked⟩, present, same⟩
    rw [Tree.exists?, there] at present
    cases found with
    | none => cases present
    | some node =>
      cases there.symm.trans (looked node rfl)
      exact same
  · rintro reason next ⟨_, absent, _⟩
    rw [Tree.exists?, there] at absent
    cases absent

/-- Directories are made only where nothing is. -/
theorem makeDirectories_cases (path : Bytes) :
    Ends (makeDirectories path) (tree, schedule)
      (fun _ next => path.size ≠ 0 ∧ (next.1 = tree ∨ tree.exists? path = .ok false))
      fun _ _ => True := by
  unfold makeDirectories
  split
  · trivial
  next nonempty =>
  rw [ends_bind]
  refine Ends.mono (examine_of_mild mild path) ?_ fun _ _ _ => trivial
  rintro found next ⟨present, same, _⟩
  split
  · exact ⟨nonempty, .inl same⟩
  · trivial
  · exact Ends.mono (ends_somehow _ _) (fun _ _ _ => ⟨nonempty, .inr present⟩) fun _ _ _ => trivial

end

end RegionStore.Disk.OnTree
