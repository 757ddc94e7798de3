import RegionStore.Placement

/-!
How an action with a state and failures ends. `Ends` gives one condition for the results and one for
the failures; the lemmas take an action apart step by step, so a condition on a whole operation is
pushed back to its first step.
-/

set_option autoImplicit false

namespace RegionStore

open Disk

section
variable {ε σ α β : Type}

/-- Run in the given state, the action gives a result for which `done` holds, or fails with a failure
for which `failed` holds; both look at the state that is left. -/
def Ends (action : EStateM ε σ α) (state : σ) (done : α → σ → Prop) (failed : ε → σ → Prop) : Prop :=
  match action state with
  | .ok result next => done result next
  | .error failure next => failed failure next

theorem Ends.mono {action : EStateM ε σ α} {state : σ} {done done' : α → σ → Prop}
    {failed failed' : ε → σ → Prop} (ends : Ends action state done failed)
    (weaker : ∀ result next, done result next → done' result next)
    (weakerFailed : ∀ failure next, failed failure next → failed' failure next) :
    Ends action state done' failed' := by
  unfold Ends at ends ⊢
  cases ran : action state with
  | ok result next =>
    rw [ran] at ends
    exact weaker result next ends
  | error failure next =>
    rw [ran] at ends
    exact weakerFailed failure next ends

theorem Ends.and {action : EStateM ε σ α} {state : σ} {done done' : α → σ → Prop}
    {failed failed' : ε → σ → Prop} (ends : Ends action state done failed)
    (ends' : Ends action state done' failed') :
    Ends action state (fun result next => done result next ∧ done' result next)
      fun failure next => failed failure next ∧ failed' failure next := by
  unfold Ends at ends ends' ⊢
  cases ran : action state with
  | ok result next =>
    rw [ran] at ends ends'
    exact ⟨ends, ends'⟩
  | error failure next =>
    rw [ran] at ends ends'
    exact ⟨ends, ends'⟩

theorem ends_of_eq_ok {action : EStateM ε σ α} {state next : σ} {result : α}
    {done : α → σ → Prop} {failed : ε → σ → Prop} (ran : action state = .ok result next) :
    Ends action state done failed ↔ done result next := by
  rw [Ends, ran]

theorem ends_of_eq_error {action : EStateM ε σ α} {state next : σ} {failure : ε}
    {done : α → σ → Prop} {failed : ε → σ → Prop} (ran : action state = .error failure next) :
    Ends action state done failed ↔ failed failure next := by
  rw [Ends, ran]

def final (action : EStateM ε σ α) (state : σ) : σ :=
  match action state with
  | .ok _ next => next
  | .error _ next => next

theorem final_map (action : EStateM ε σ α) (change : α → β) (state : σ) :
    final (change <$> action) state = final action state := by
  simp only [final, Functor.map, EStateM.map]
  cases action state <;> rfl

def outcome (action : EStateM ε σ α) (state : σ) : Except ε α :=
  match action state with
  | .ok result _ => .ok result
  | .error failure _ => .error failure

theorem Ends.outcome {action : EStateM ε σ α} {state : σ} {expected : Except ε α}
    (ends : Ends action state (fun result _ => expected = .ok result)
      fun failure _ => expected = .error failure) : outcome action state = expected := by
  unfold Ends at ends
  unfold RegionStore.outcome
  cases ran : action state with
  | ok result next =>
    rw [ran] at ends
    exact ends.symm
  | error failure next =>
    rw [ran] at ends
    exact ends.symm

theorem ends_run (action : EStateM ε σ α) (state : σ) :
    Ends action state (fun result next => action state = .ok result next)
      fun failure next => action state = .error failure next := by
  unfold Ends
  cases action state <;> rfl

theorem ends_outcome (action : EStateM ε σ α) (state : σ) :
    Ends action state (fun result _ => RegionStore.outcome action state = .ok result)
      fun failure _ => RegionStore.outcome action state = .error failure := by
  refine Ends.mono (ends_run action state) ?_ ?_
  · intro result next ran
    rw [RegionStore.outcome, ran]
  · intro failure next ran
    rw [RegionStore.outcome, ran]

theorem Ends.final {action : EStateM ε σ α} {state : σ} (condition : σ → Prop)
    (ends : Ends action state (fun _ next => condition next) fun _ next => condition next) :
    condition (final action state) := by
  unfold Ends at ends
  unfold RegionStore.final
  cases ran : action state with
  | ok result next =>
    rw [ran] at ends
    exact ends
  | error failure next =>
    rw [ran] at ends
    exact ends

theorem Ends.exists_ok {action : EStateM ε σ α} {state : σ} {done : α → σ → Prop}
    (ends : Ends action state done fun _ _ => False) :
    ∃ result next, action state = .ok result next ∧ done result next := by
  unfold Ends at ends
  cases ran : action state with
  | ok result next =>
    rw [ran] at ends
    exact ⟨result, next, rfl, ends⟩
  | error failure next =>
    rw [ran] at ends
    exact ends.elim

theorem Ends.exists_error {action : EStateM ε σ α} {state : σ} {failed : ε → σ → Prop}
    (ends : Ends action state (fun _ _ => False) failed) :
    ∃ failure next, action state = .error failure next ∧ failed failure next := by
  unfold Ends at ends
  cases ran : action state with
  | ok result next =>
    rw [ran] at ends
    exact ends.elim
  | error failure next =>
    rw [ran] at ends
    exact ⟨failure, next, rfl, ends⟩

theorem Ends.eq_error {action : EStateM ε σ α} {state next : σ} {failure : ε}
    (ends : Ends action state (fun _ _ => False) fun reason after => reason = failure ∧ after = next) :
    action state = .error failure next := by
  obtain ⟨_, _, ran, rfl, rfl⟩ := ends.exists_error
  exact ran

theorem ends_somehow (action : EStateM ε σ α) (state : σ) :
    Ends action state (fun _ _ => True) fun _ _ => True := by
  unfold Ends
  split <;> trivial

@[simp] theorem ends_pure (value : α) (state : σ) (done : α → σ → Prop) (failed : ε → σ → Prop) :
    Ends (pure value) state done failed ↔ done value state := Iff.rfl

@[simp] theorem ends_throw (failure : ε) (state : σ) (done : α → σ → Prop)
    (failed : ε → σ → Prop) : Ends (throw failure) state done failed ↔ failed failure state := Iff.rfl

@[simp] theorem ends_get (state : σ) (done : σ → σ → Prop) (failed : ε → σ → Prop) :
    Ends get state done failed ↔ done state state := Iff.rfl

@[simp] theorem ends_set (state next : σ) (done : PUnit → σ → Prop) (failed : ε → σ → Prop) :
    Ends (set next) state done failed ↔ done ⟨⟩ next := Iff.rfl

@[simp] theorem ends_modify (update : σ → σ) (state : σ) (done : PUnit → σ → Prop)
    (failed : ε → σ → Prop) : Ends (modify update) state done failed ↔ done ⟨⟩ (update state) :=
  Iff.rfl

@[simp] theorem ends_bind (action : EStateM ε σ α) (rest : α → EStateM ε σ β) (state : σ)
    (done : β → σ → Prop) (failed : ε → σ → Prop) :
    Ends (action >>= rest) state done failed ↔
      Ends action state (fun result next => Ends (rest result) next done failed) failed := by
  simp only [Ends, bind, EStateM.bind]
  cases action state <;> rfl

@[simp] theorem ends_map (action : EStateM ε σ α) (change : α → β) (state : σ)
    (done : β → σ → Prop) (failed : ε → σ → Prop) :
    Ends (change <$> action) state done failed ↔
      Ends action state (fun result next => done (change result) next) failed := by
  simp only [Ends, Functor.map, EStateM.map]
  cases action state <;> rfl

@[simp] theorem ends_tryCatch (action : EStateM ε σ α) (handle : ε → EStateM ε σ α) (state : σ)
    (done : α → σ → Prop) (failed : ε → σ → Prop) :
    Ends (tryCatch action handle) state done failed ↔
      Ends action state done fun failure next => Ends (handle failure) next done failed := by
  have run : tryCatch action handle state =
      match action state with
      | .ok result next => .ok result next
      | .error failure next => handle failure next := by
    change EStateM.tryCatch action handle state = _
    delta EStateM.tryCatch
    cases action state <;> rfl
  unfold Ends
  rw [run]
  cases action state <;> rfl

@[simp] theorem ends_ofExcept (value : Except ε α) (state : σ) (done : α → σ → Prop)
    (failed : ε → σ → Prop) :
    Ends (MonadExcept.ofExcept value) state done failed ↔
      match value with
      | .ok result => done result state
      | .error failure => failed failure state := by
  cases value <;> rfl

/-- An action for each entry of a list, with a condition on the entries that remain. -/
theorem Ends.forM {action : α → EStateM ε σ PUnit} {failed : ε → σ → Prop}
    (condition : List α → σ → Prop)
    (each : ∀ entry rest state, condition (entry :: rest) state →
      Ends (action entry) state (fun _ next => condition rest next) failed)
    {entries : List α} {state : σ} (starts : condition entries state) :
    Ends (entries.forM action) state (fun _ next => condition [] next) failed := by
  induction entries generalizing state with
  | nil => exact starts
  | cons entry rest ih =>
    rw [List.forM, ends_bind]
    exact Ends.mono (each entry rest state starts) (fun _ _ => ih) fun _ _ => id

theorem Ends.filterMapM {action : α → EStateM ε σ (Option β)} {failed : ε → σ → Prop}
    (condition : σ → Prop)
    (each : ∀ entry state, condition state →
      Ends (action entry) state (fun _ next => condition next) failed)
    (entries : List α) {state : σ} (starts : condition state) :
    Ends (entries.filterMapM action) state (fun _ next => condition next) failed := by
  unfold List.filterMapM
  generalize ([] : List β) = found
  induction entries generalizing state found with
  | nil => exact starts
  | cons entry rest ih =>
    unfold List.filterMapM.loop
    rw [ends_bind]
    refine Ends.mono (each entry state starts) ?_ fun _ _ => id
    rintro (_ | result) next holds
    · exact ih holds found
    · exact ih holds (result :: found)

theorem ends_ite (condition : Prop) [Decidable condition] (yes no : EStateM ε σ α) (state : σ)
    (done : α → σ → Prop) (failed : ε → σ → Prop) :
    Ends (if condition then yes else no) state done failed ↔
      if condition then Ends yes state done failed else Ends no state done failed := by
  split <;> rfl

end

@[simp] theorem ends_device {State Result : Type} (action : OnDevice Result) (state : State)
    (file : Device) (done : Result → State × Device → Prop)
    (failed : Failure → State × Device → Prop) :
    Ends (OnFile.device action) (state, file) done failed ↔
      Ends action file (fun result next => done result (state, next))
        fun failure next => failed failure (state, next) := by
  simp only [Ends, OnFile.device]
  cases action file <;> rfl

end RegionStore
