import RegionStore.Proofs.Host.Resting
import RegionStore.Proofs.Lockstep

/-!
Hosts that differ in nothing but their surroundings. Regions get and lose holders, are flushed and closed,
and however the file calls for it turn out, that shows in the surroundings and nowhere else.
-/

set_option autoImplicit false

namespace RegionStore.Host

open Disk

/-- The same files and the same open regions, in surroundings that may be others. -/
structure Abreast (first second : Host) : Prop where
  tree : second.tree = first.tree
  contents : second.contents = first.contents
  region? : ∀ number, second.region? number = first.region? number
  nextRegion : second.nextRegion = first.nextRegion

theorem Abreast.refl (host : Host) : host.Abreast host := ⟨rfl, rfl, fun _ => rfl, rfl⟩

theorem Abreast.symm {first second : Host} (abreast : first.Abreast second) : second.Abreast first :=
  ⟨abreast.tree.symm, abreast.contents.symm, fun number => (abreast.region? number).symm,
    abreast.nextRegion.symm⟩

theorem Abreast.trans {a b c : Host} (first : a.Abreast b) (second : b.Abreast c) : a.Abreast c :=
  ⟨second.tree.trans first.tree, second.contents.trans first.contents,
    fun number => (second.region? number).trans (first.region? number),
    second.nextRegion.trans first.nextRegion⟩

theorem abreast_equivalence : Equivalence Abreast := ⟨Abreast.refl, Abreast.symm, Abreast.trans⟩

theorem Abreast.alike {first second : Host} (abreast : first.Abreast second) : first.Alike second :=
  ⟨fun number => by rw [holding, holding, abreast.region?], abreast.nextRegion⟩

theorem abreast_inSurroundings (host : Host) (around : Surroundings) :
    host.Abreast { host with around := around } := ⟨rfl, rfl, fun _ => rfl, rfl⟩

theorem Abreast.setRegion {first second : Host} (abreast : first.Abreast second) (number : Nat)
    (entry : OpenRegion) : (first.setRegion number entry).Abreast (second.setRegion number entry) :=
  ⟨abreast.tree, abreast.contents, fun other => by rw [region?_insert, region?_insert, abreast.region?],
    abreast.nextRegion⟩

theorem Abreast.erase {first second : Host} (abreast : first.Abreast second) (number : Nat) :
    Abreast { first with regions := first.regions.erase number }
      { second with regions := second.regions.erase number } :=
  ⟨abreast.tree, abreast.contents, fun other => by rw [region?_erase, region?_erase, abreast.region?],
    abreast.nextRegion⟩

theorem abreast_used {host : Host} {number : Nat} {entry : OpenRegion}
    (found : host.region? number = some entry) {state : Region × Device}
    (kept : state.1 = entry.region ∧ (host.device entry.handle).Keeps state.2) :
    host.Abreast
      ((host.keep entry.handle state.2).setRegion number { entry with region := state.1 }) := by
  have regions (other : Nat) := region?_keep host entry.handle state.2 other
  refine ⟨?_, contents_keep kept.2.content, fun other => ?_, ?_⟩
  · exact (sameFiles_keep host entry.handle state.2).tree
  · rw [region?_insert, kept.1, regions]
    split
    · next here => rw [here, found]
    · rfl
  · exact (alike_keep host entry.handle state.2).next

theorem onRegion_abreast {Result : Type} [Inhabited Result] {action : OnRegion Result} (mayFail : Prop)
    (number : Nat) (host : Host) (keeps : ∀ region file, Ends action (region, file)
      (fun _ state => state.1 = region ∧ file.Keeps state.2)
      fun _ state => mayFail ∧ state.1 = region ∧ file.Keeps state.2) :
    Ends (onRegion number action) host (fun _ next => host.Abreast next)
      fun _ next => mayFail ∧ host.Abreast next := by
  cases found : host.region? number with
  | none =>
    simp only [Ends, onRegion, found]
    exact Abreast.refl host
  | some entry =>
    rw [ends_onRegion found]
    exact Ends.mono (keeps _ _) (fun _ _ => abreast_used found) fun _ _ => And.imp_right (abreast_used found)

theorem flush_abreast (number : Nat) (host : Host) :
    Ends (onRegion number Region.flush) host (fun _ next => host.Abreast next)
      fun _ next => host.Abreast next := by
  have flushed := onRegion_abreast True number host fun region file =>
    Ends.mono (Region.flush_ends region file) (fun _ _ => id)
      fun _ _ ⟨same, keeps, _⟩ => ⟨trivial, same, keeps⟩
  exact Ends.mono flushed (fun _ _ => id) fun _ _ => And.right

theorem notify_abreast (notice : Notice) (host : Host) :
    Ends (notify notice) host (fun _ next => host.Abreast next) fun _ _ => False :=
  abreast_inSurroundings host _

theorem abreast_notify (notice : Notice) : InStep Abreast (notify notice) :=
  lockstep_of_ends abreast_equivalence (notify_abreast notice)

theorem abreast_hold (number : Nat) : InStep Abreast (hold number) := by
  apply lockstep_modify
  intro host host' abreast
  simp only [abreast.region?]
  cases host.region? number with
  | none => exact abreast
  | some entry => exact abreast.setRegion number _

theorem abreast_close (number : Nat) : InStep Abreast (onRegion number Region.close) := by
  refine lockstep_of_ends abreast_equivalence fun host => ?_
  have closed := onRegion_abreast False number host fun region file =>
    Ends.mono (Region.close_ends region file) (fun _ _ => id) fun _ _ => False.elim
  exact Ends.mono closed (fun _ _ => id) fun _ _ => And.left

theorem abreast_release (number : Nat) : InStep Abreast (release number) := by
  apply Lockstep.get_bind
  intro host host' abreast
  simp only [abreast.region?]
  cases host.region? number with
  | none => exact lockstep_pure _
  | some entry =>
    apply Lockstep.ite
    · exact lockstep_set (abreast.setRegion number _)
    · exact (abreast_close number).bind fun _ => lockstep_modify fun _ _ between => between.erase number

end RegionStore.Host
