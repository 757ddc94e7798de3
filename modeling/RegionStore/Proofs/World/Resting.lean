import RegionStore.Proofs.Disk.Directories
import RegionStore.Proofs.Host.Resting
import RegionStore.World.Basic

/-!
What putting regions away and closing them does to the files of a world, under any schedule: nothing. A
region leaves the table and may be closed, and everything that was written stays where it is.
-/

set_option autoImplicit false

namespace RegionStore.World

open Disk

/-- Puts the regions of these entries away, which are all that are open. -/
def shut (entries : List (RegionPos × Nat)) : OnWorld Unit := do
  entries.forM fun (position, number) => park position number
  change fun world => { world with recency := [], opened := world.opened.clear }
  entries.forM fun (_, number) => WithHost.host (Host.release number)
  forgetClosed

/-- All regions are flushed before the first one is put away, and the first failure comes at the end. -/
theorem closeAll_eq : closeAll = (do
    let (world, _) ← get
    let failures ← world.opened.entries.filterMapM fun (position, number) => tryFlush position number
    shut world.opened.entries
    failures.head?.elim (pure ()) throw) := by
  simp only [closeAll, shut, bind_assoc]
  refine bind_congr fun state => bind_congr fun failures => ?_
  cases failures <;> rfl

structure Rests (before after : World × Host) : Prop where
  config : after.1.config = before.1.config
  host : before.2.Rests after.2

theorem Rests.refl (state : World × Host) : Rests state state := ⟨rfl, Host.Rests.refl state.2⟩

theorem Rests.trans {a b c : World × Host} (first : Rests a b) (second : Rests b c) : Rests a c :=
  ⟨second.config.trans first.config, first.host.trans second.host⟩

/-- However the action ends, the host has rested; and it only fails if it may. -/
def Restful {Result : Type} (mayFail : Prop) (action : OnWorld Result) : Prop :=
  ∀ state, Ends action state (fun _ next => Rests state next) fun _ next => mayFail ∧ Rests state next

section
variable {Result Other : Type} {mayFail : Prop}

theorem Restful.exists_ok {action : OnWorld Result} (restful : Restful False action)
    (state : World × Host) : ∃ result next, action state = .ok result next := by
  obtain ⟨result, next, ran, _⟩ := ((restful state).mono (fun _ _ => id) fun _ _ => And.left).exists_ok
  exact ⟨result, next, ran⟩

theorem restful_pure (result : Result) : Restful mayFail (pure result) := Rests.refl

theorem restful_throw (failure : Failure) : Restful True (throw failure : OnWorld Result) := fun state =>
  ⟨trivial, Rests.refl state⟩

theorem restful_get : Restful mayFail (get : OnWorld (World × Host)) := Rests.refl

theorem restful_change {update : World → World} (same : ∀ world, (update world).config = world.config) :
    Restful mayFail (change update) := fun state => ⟨same state.1, Host.Rests.refl state.2⟩

theorem restful_host {action : OnHost Result}
    (rests : ∀ host, Ends action host (fun _ next => host.Rests next) fun _ _ => False) :
    Restful mayFail (WithHost.host action) := by
  rintro ⟨world, host⟩
  rw [ends_host]
  exact Ends.mono (rests host) (fun _ _ rests => ⟨rfl, rests⟩) fun _ _ => False.elim

theorem Restful.bind {action : OnWorld Result} {rest : Result → OnWorld Other}
    (first : Restful mayFail action) (second : ∀ result, Restful mayFail (rest result)) :
    Restful mayFail (action >>= rest) := by
  intro state
  rw [ends_bind]
  refine Ends.mono (first state) (fun result next rests => ?_) fun _ _ => id
  exact Ends.mono (second result next) (fun _ _ => rests.trans) fun _ _ => And.imp_right rests.trans

theorem Restful.tryCatch {action : OnWorld Result} {handle : Failure → OnWorld Result}
    (first : Restful True action) (second : ∀ failure, Restful mayFail (handle failure)) :
    Restful mayFail (tryCatch action handle) := by
  intro state
  rw [ends_tryCatch]
  refine Ends.mono (first state) (fun _ _ => id) fun failure next rests => ?_
  exact Ends.mono (second failure next) (fun _ _ => rests.2.trans) fun _ _ => And.imp_right rests.2.trans

theorem restful_forM {action : Result → OnWorld PUnit} (each : ∀ entry, Restful mayFail (action entry))
    (entries : List Result) : Restful mayFail (entries.forM action) := by
  induction entries with
  | nil => exact restful_pure _
  | cons entry rest ih => exact (each entry).bind fun _ => ih

theorem restful_filterMapM {action : Result → OnWorld (Option Other)}
    (each : ∀ entry, Restful mayFail (action entry)) (entries : List Result) :
    Restful mayFail (entries.filterMapM action) := by
  unfold List.filterMapM
  generalize ([] : List Other) = found
  induction entries generalizing found with
  | nil => exact restful_pure _
  | cons entry rest ih =>
    refine (each entry).bind ?_
    rintro (_ | result)
    · exact ih found
    · exact ih (result :: found)

theorem restful_notify (notice : Notice) : Restful mayFail (notify notice) :=
  restful_host (Host.notify_rests notice)

theorem restful_hold (number : Nat) : Restful mayFail (WithHost.host (Host.hold number)) :=
  restful_host (Host.hold_rests number)

theorem restful_release (number : Nat) : Restful mayFail (WithHost.host (Host.release number)) :=
  restful_host (Host.release_rests number)

theorem restful_park (position : RegionPos) (number : Nat) : Restful mayFail (park position number) := by
  refine restful_get.bind fun state => ?_
  split
  · exact restful_change fun _ => rfl
  · exact restful_pure _

theorem restful_remove (position : RegionPos) : Restful mayFail (remove position) :=
  restful_change fun _ => rfl

theorem restful_forgetClosed : Restful mayFail forgetClosed := fun state => ⟨rfl, Host.Rests.refl state.2⟩

theorem restful_flush (number : Nat) : Restful True (flush number) := by
  rintro ⟨world, host⟩
  unfold flush
  rw [ends_host]
  exact Ends.mono (Host.flush_rests number host) (fun _ _ rests => ⟨rfl, rests⟩)
    fun _ _ rests => ⟨trivial, rfl, rests⟩

theorem restful_evict (position : RegionPos) : Restful mayFail (evict position) := by
  refine restful_get.bind fun state => ?_
  split
  · exact restful_pure _
  · next number _ =>
    refine (restful_remove position).bind fun _ => Restful.bind ?_ fun _ =>
      (restful_park position number).bind fun _ => (restful_notify _).bind fun _ => restful_release number
    exact (restful_flush number).tryCatch fun _ => restful_notify _

theorem restful_evictExcess : Restful mayFail evictExcess :=
  restful_get.bind fun _ => (restful_forM restful_evict _).bind fun _ => restful_forgetClosed

theorem restful_admitRegion (position : RegionPos) (number : Nat) :
    Restful mayFail (admitRegion position number) := by
  refine (restful_hold number).bind fun _ => (restful_change ?_).bind fun _ => restful_evictExcess
  exact fun _ => rfl

theorem restful_closeRegion (position : RegionPos) : Restful True (closeRegion position) := by
  refine (restful_change ?_).bind fun _ => restful_get.bind fun state => ?_
  · exact fun _ => rfl
  split
  · exact restful_pure _
  · next number _ =>
    exact (restful_flush number).bind fun _ => (restful_park position number).bind fun _ =>
      (restful_remove position).bind fun _ => (restful_release number).bind fun _ =>
        (restful_notify _).bind fun _ => restful_pure _

theorem restful_tryFlush (position : RegionPos) (number : Nat) :
    Restful mayFail (tryFlush position number) := by
  intro state
  unfold tryFlush
  simp only [ends_tryCatch, ends_bind]
  refine Ends.mono (restful_flush number state) (fun _ _ => id) fun failure flushed rests => ?_
  exact Ends.mono (restful_notify _ flushed) (fun _ _ => rests.2.trans)
    fun _ _ => And.imp_right rests.2.trans

theorem restful_shut (entries : List (RegionPos × Nat)) : Restful mayFail (shut entries) := by
  refine (restful_forM ?_ _).bind fun _ => (restful_change ?_).bind fun _ =>
    (restful_forM ?_ _).bind fun _ => restful_forgetClosed
  · exact fun entry => restful_park entry.1 entry.2
  · exact fun _ => rfl
  · exact fun entry => restful_release entry.2

theorem restful_closeAll : Restful True closeAll := by
  rw [closeAll_eq]
  refine restful_get.bind fun state => (restful_filterMapM ?_ _).bind fun failures =>
    (restful_shut _).bind fun _ => ?_
  · exact fun entry => restful_tryFlush entry.1 entry.2
  · cases failures with
    | nil => exact restful_pure _
    | cons failure _ => exact restful_throw failure

end

section
variable {world : World} {host : Host} {failed : Failure → World × Host → Prop}

theorem ends_makeDirectory {done : Unit → World × Host → Prop} :
    Ends makeDirectory (world, host) done failed ↔
      Ends (OnTree.makeDirectories world.config.directory) (host.tree, host.around.schedule)
        (fun _ next => done () (world, host.keepTree next.1 next.2))
        fun reason next => failed (.refused .making world.config.directory reason)
          (world, host.keepTree next.1 next.2) := by
  refine (ends_map _ _ _ _ _).trans ?_
  exact (ends_host _ world host _ _).trans (ends_onTree _ _ _ host _ _)

theorem ends_fileExists {path : Bytes} {done : Bool → World × Host → Prop} :
    Ends (fileExists path) (world, host) done failed ↔
      Ends (OnTree.examine path) (host.tree, host.around.schedule)
        (fun found next => done found.isSome (world, host.keepTree next.1 next.2))
        fun reason next => failed (.refused .examining path reason) (world, host.keepTree next.1 next.2) := by
  refine (ends_map _ _ _ _ _).trans ?_
  exact (ends_host _ world host _ _).trans (ends_onTree _ _ _ host _ _)

end

theorem obtain_sameFiles (position : RegionPos) (state : World × Host) :
    Ends (obtain position false) state (fun _ next => state.2.SameFiles next.2)
      fun _ next => state.2.SameFiles next.2 := by
  obtain ⟨world, host⟩ := state
  have fresh (world : World) : Ends (openFresh position false) (world, host)
      (fun _ next => host.SameFiles next.2) fun _ next => host.SameFiles next.2 := by
    unfold openFresh
    simp only [ends_bind, ends_get, Bool.false_eq_true, if_false, ends_fileExists]
    refine Ends.mono (OnTree.examine_ends _) ?_ fun _ _ same => ⟨same, rfl⟩
    rintro found ⟨_, ahead⟩ ⟨rfl, looked⟩
    have examined : host.SameFiles (host.keepTree host.tree ahead) := ⟨rfl, rfl⟩
    cases found with
    | none => exact examined
    | some node =>
      simp only [Option.isSome_some, Bool.not_true, Bool.false_eq_true, if_false, ends_bind, ends_host]
      have present : (host.keepTree host.tree ahead).tree.look (world.filePath position) = .ok node :=
        looked node rfl
      refine Ends.mono (Host.openRegion_sameFiles present position _) ?_ fun _ _ => examined.trans
      intro number opened same
      exact Ends.mono (restful_admitRegion position number (world, opened))
        (fun _ _ rests => (examined.trans same).trans rests.host.sameFiles)
        fun _ _ fails => False.elim fails.1
  unfold obtain
  simp only [ends_bind, ends_get]
  cases world.opened.find? position with
  | some number =>
    simp only [change, ends_bind, ends_modify, ends_pure]
    exact Ends.mono (restful_hold number _) (fun _ _ rests => rests.host.sameFiles)
      fun _ _ fails => False.elim fails.1
  | none =>
    dsimp only
    cases world.parked.lookup position with
    | none => exact fresh world
    | some number =>
      dsimp only
      rw [change, ends_bind, ends_modify, ends_ite]
      split
      · simp only [ends_bind, ends_pure]
        refine Ends.mono (restful_hold number _) (fun _ held rests => ?_)
          fun _ _ fails => False.elim fails.1
        exact Ends.mono (restful_admitRegion position number held)
          (fun _ _ later => (rests.host.trans later.host).sameFiles) fun _ _ fails => False.elim fails.1
      · exact fresh _

theorem onChunk_sameFiles {Result : Type} [Inhabited Result] (chunk : ChunkPos) (absent : Result)
    (action : OnRegion Result) (state : World × Host) :
    Ends (onChunk chunk false absent action) state (fun _ next => state.2.SameFiles next.2)
      fun _ next => state.2.SameFiles next.2 := by
  unfold onChunk
  rw [ends_bind]
  refine Ends.mono (obtain_sameFiles chunk.regionOf state) ?_ fun _ _ => id
  rintro (_ | number) ⟨between, opened⟩ same
  · exact same
  · have releases {used : Host} (still : opened.SameFiles used) :
        Ends (WithHost.host (Host.release number)) (between, used)
          (fun _ next => state.2.SameFiles next.2) fun _ _ => False :=
      Ends.mono (restful_release number (between, used))
        (fun _ _ rests => (same.trans still).trans rests.host.sameFiles) fun _ _ => And.left
    simp only [ends_tryCatch, ends_bind, ends_throw]
    rw [ends_host]
    refine Ends.mono (Host.onRegion_sameFiles number action opened) ?_ ?_
    · exact fun _ _ still => Ends.mono (releases still) (fun _ _ => id) fun _ _ => False.elim
    · exact fun _ _ still => Ends.mono (releases still) (fun _ _ => id) fun _ _ => False.elim

end RegionStore.World
