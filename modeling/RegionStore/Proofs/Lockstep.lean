import RegionStore.Host.Basic
import RegionStore.Proofs.Outcome

/-!
Two runs side by side. Started in states that are alike, they give the same result or fail for the same
reason, and the states they leave are alike again. What is composed of actions that run in lockstep runs
in lockstep, so only what looks at the difference of the states has to be gone into.
-/

set_option autoImplicit false

namespace RegionStore

open Disk

section
variable {ε σ ρ α β : Type}

inductive Agree (alike : σ → σ → Prop) : EStateM.Result ε σ α → EStateM.Result ε σ α → Prop where
  | ok (result : α) {first second : σ} (states : alike first second) :
    Agree alike (.ok result first) (.ok result second)
  | error (failure : ε) {first second : σ} (states : alike first second) :
    Agree alike (.error failure first) (.error failure second)

def Lockstep (alike : σ → σ → Prop) (first second : EStateM ε σ α) : Prop :=
  ∀ ⦃before before' : σ⦄, alike before before' → Agree alike (first before) (second before')

/-- An action that cannot tell states that are alike from each other. -/
abbrev InStep (alike : σ → σ → Prop) (action : EStateM ε σ α) : Prop := Lockstep alike action action

variable {alike : σ → σ → Prop}

theorem Agree.symm (symm : ∀ a b, alike a b → alike b a) {first second : EStateM.Result ε σ α}
    (agree : Agree alike first second) : Agree alike second first := by
  cases agree with
  | ok result states => exact .ok result (symm _ _ states)
  | error failure states => exact .error failure (symm _ _ states)

theorem Agree.trans (trans : ∀ a b c, alike a b → alike b c → alike a c)
    {first second third : EStateM.Result ε σ α} (earlier : Agree alike first second)
    (later : Agree alike second third) : Agree alike first third := by
  cases earlier with
  | ok result states =>
    cases later with
    | ok _ others => exact .ok result (trans _ _ _ states others)
  | error failure states =>
    cases later with
    | error _ others => exact .error failure (trans _ _ _ states others)

section
variable {first second : EStateM ε σ α} (lockstep : Lockstep alike first second) {before before' : σ}
  (states : alike before before')
include lockstep states

theorem Lockstep.outcome : outcome first before = outcome second before' := by
  have agree := lockstep states
  unfold RegionStore.outcome
  generalize first before = result, second before' = result' at agree
  cases agree with
  | ok result states => rfl
  | error failure states => rfl

theorem Lockstep.final : alike (final first before) (final second before') := by
  have agree := lockstep states
  unfold RegionStore.final
  generalize first before = result, second before' = result' at agree
  cases agree with
  | ok result states => exact states
  | error failure states => exact states

end

theorem lockstep_pure (result : α) : InStep alike (pure result : EStateM ε σ α) :=
  fun _ _ states => .ok result states

theorem lockstep_throw (failure : ε) : InStep alike (throw failure : EStateM ε σ α) :=
  fun _ _ states => .error failure states

theorem lockstep_ofExcept (value : Except ε α) :
    InStep alike (MonadExcept.ofExcept value : EStateM ε σ α) := by
  cases value with
  | ok result => exact lockstep_pure result
  | error failure => exact lockstep_throw failure

theorem lockstep_set {first second : σ} (states : alike first second) :
    Lockstep alike (set first : EStateM ε σ PUnit) (set second) :=
  fun _ _ _ => .ok PUnit.unit states

theorem lockstep_modify {update update' : σ → σ}
    (updates : ∀ before before', alike before before' → alike (update before) (update' before')) :
    Lockstep alike (modify update : EStateM ε σ PUnit) (modify update') := by
  intro before before' states
  change Agree alike (.ok PUnit.unit (update before)) (.ok PUnit.unit (update' before'))
  exact .ok PUnit.unit (updates before before' states)

theorem lockstep_modifyGet {update update' : σ → α × σ}
    (updates : ∀ before before', alike before before' →
      (update before).1 = (update' before').1 ∧ alike (update before).2 (update' before').2) :
    Lockstep alike (modifyGet update : EStateM ε σ α) (modifyGet update') := by
  intro before before' states
  obtain ⟨result, states⟩ := updates before before' states
  change Agree alike (.ok (update before).1 (update before).2)
    (.ok (update' before').1 (update' before').2)
  rw [result]
  exact .ok _ states

theorem lockstep_of_ends (equivalence : Equivalence alike) {action : EStateM ε σ PUnit}
    (ends : ∀ state, Ends action state (fun _ next => alike state next) fun _ _ => False) :
    InStep alike action := by
  intro before before' states
  obtain ⟨_, next, ran, stays⟩ := (ends before).exists_ok
  obtain ⟨_, next', ran', stays'⟩ := (ends before').exists_ok
  rw [ran, ran']
  exact .ok PUnit.unit (equivalence.trans (equivalence.symm stays) (equivalence.trans states stays'))

theorem Lockstep.bind {first second : EStateM ε σ α} {rest rest' : α → EStateM ε σ β}
    (lockstep : Lockstep alike first second)
    (rests : ∀ result, Lockstep alike (rest result) (rest' result)) :
    Lockstep alike (first >>= rest) (second >>= rest') := by
  intro before before' states
  have agree := lockstep states
  change Agree alike (EStateM.bind first rest before) (EStateM.bind second rest' before')
  unfold EStateM.bind
  generalize first before = result, second before' = result' at agree
  cases agree with
  | ok result states => exact rests result states
  | error failure states => exact .error failure states

/-- The states that are got differ, so whatever is done with them has to be gone into. -/
theorem Lockstep.get_bind {rest rest' : σ → EStateM ε σ β}
    (rests : ∀ before before', alike before before' → Lockstep alike (rest before) (rest' before')) :
    Lockstep alike (get >>= rest) (get >>= rest') :=
  fun before before' states => rests before before' states states

theorem Lockstep.map {first second : EStateM ε σ α} (lockstep : Lockstep alike first second)
    (change : α → β) : Lockstep alike (change <$> first) (change <$> second) := by
  intro before before' states
  have agree := lockstep states
  change Agree alike (EStateM.map change first before) (EStateM.map change second before')
  unfold EStateM.map
  generalize first before = result, second before' = result' at agree
  cases agree with
  | ok result states => exact .ok _ states
  | error failure states => exact .error failure states

theorem Lockstep.tryCatch {first second : EStateM ε σ α} {handle handle' : ε → EStateM ε σ α}
    (lockstep : Lockstep alike first second)
    (handles : ∀ failure, Lockstep alike (handle failure) (handle' failure)) :
    Lockstep alike (tryCatch first handle) (tryCatch second handle') := by
  intro before before' states
  have agree := lockstep states
  change Agree alike (EStateM.tryCatch first handle before) (EStateM.tryCatch second handle' before')
  delta EStateM.tryCatch
  simp only
  generalize first before = result, second before' = result' at agree
  cases agree with
  | ok result states => exact .ok result states
  | error failure states => exact handles failure states

theorem Lockstep.early {first second : EStateM ε σ (Except ρ α)} {leave leave' : ρ → EStateM ε σ β}
    {rest rest' : α → EStateM ε σ β} (lockstep : Lockstep alike first second)
    (leaves : ∀ result, Lockstep alike (leave result) (leave' result))
    (rests : ∀ result, Lockstep alike (rest result) (rest' result)) :
    Lockstep alike (first >>= fun result => EarlyReturn.runK result leave rest)
      (second >>= fun result => EarlyReturn.runK result leave' rest') := by
  apply lockstep.bind
  intro result
  cases result with
  | error returned => exact leaves returned
  | ok value => exact rests value

theorem Lockstep.ite {condition : Prop} [Decidable condition] {first second other other' : EStateM ε σ α}
    (pos : Lockstep alike first second) (neg : Lockstep alike other other') :
    Lockstep alike (if condition then first else other) (if condition then second else other') := by
  split
  · exact pos
  · exact neg

theorem Lockstep.forM {action action' : α → EStateM ε σ PUnit}
    (each : ∀ entry, Lockstep alike (action entry) (action' entry)) (entries : List α) :
    Lockstep alike (entries.forM action) (entries.forM action') := by
  induction entries with
  | nil => exact lockstep_pure PUnit.unit
  | cons entry rest ih => exact (each entry).bind fun _ => ih

theorem Lockstep.filterMapM {action action' : α → EStateM ε σ (Option β)}
    (each : ∀ entry, Lockstep alike (action entry) (action' entry)) (entries : List α) :
    Lockstep alike (entries.filterMapM action) (entries.filterMapM action') := by
  unfold List.filterMapM
  generalize ([] : List β) = found
  induction entries generalizing found with
  | nil => exact lockstep_pure found.reverse
  | cons entry rest ih =>
    unfold List.filterMapM.loop
    apply (each entry).bind
    intro result
    cases result with
    | none => exact ih found
    | some value => exact ih (value :: found)

end

def Beside {γ σ : Type} (alike : σ → σ → Prop) (first second : γ × σ) : Prop :=
  first.1 = second.1 ∧ alike first.2 second.2

theorem Beside.equivalence {γ σ : Type} {alike : σ → σ → Prop} (equivalence : Equivalence alike) :
    Equivalence (Beside alike : γ × σ → γ × σ → Prop) where
  refl state := ⟨rfl, equivalence.refl state.2⟩
  symm states := ⟨states.1.symm, equivalence.symm states.2⟩
  trans earlier later := ⟨earlier.1.trans later.1, equivalence.trans earlier.2 later.2⟩

section
variable {γ Result : Type}

theorem Lockstep.get_beside {ε σ β : Type} {alike : σ → σ → Prop}
    {rest rest' : γ × σ → EStateM ε (γ × σ) β}
    (rests : ∀ own before before', alike before before' →
      Lockstep (Beside alike) (rest (own, before)) (rest' (own, before'))) :
    Lockstep (Beside alike) (get >>= rest) (get >>= rest') := by
  apply Lockstep.get_bind
  intro ⟨own, before⟩ ⟨own', before'⟩ ⟨same, states⟩
  obtain rfl : own = own' := same
  exact rests own before before' states

theorem lockstep_modify_beside {ε σ : Type} {alike : σ → σ → Prop} {update update' : γ × σ → γ × σ}
    (updates : ∀ own before before', alike before before' →
      Beside alike (update (own, before)) (update' (own, before'))) :
    Lockstep (Beside alike) (modify update : EStateM ε (γ × σ) PUnit) (modify update') := by
  apply lockstep_modify
  intro ⟨own, before⟩ ⟨own', before'⟩ ⟨same, states⟩
  obtain rfl : own = own' := same
  exact updates own before before' states

theorem Lockstep.device {alike : Device → Device → Prop} {action action' : OnDevice Result}
    (lockstep : Lockstep alike action action') :
    Lockstep (Beside alike) (OnFile.device action : OnFile γ Result) (OnFile.device action') := by
  intro ⟨own, file⟩ ⟨own', file'⟩ ⟨same, states⟩
  obtain rfl : own = own' := same
  have agree := lockstep states
  simp only [OnFile.device]
  generalize action file = result, action' file' = result' at agree
  cases agree with
  | ok result states => exact .ok result ⟨rfl, states⟩
  | error failure states => exact .error failure ⟨rfl, states⟩

theorem Lockstep.host {alike : Host → Host → Prop} {action action' : OnHost Result}
    (lockstep : Lockstep alike action action') :
    Lockstep (Beside alike) (WithHost.host action : WithHost γ Result) (WithHost.host action') := by
  intro ⟨own, host⟩ ⟨own', host'⟩ ⟨same, states⟩
  obtain rfl : own = own' := same
  have agree := lockstep states
  simp only [WithHost.host]
  generalize action host = result, action' host' = result' at agree
  cases agree with
  | ok result states => exact .ok result ⟨rfl, states⟩
  | error failure states => exact .error failure ⟨rfl, states⟩

end
end RegionStore
