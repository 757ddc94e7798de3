import RegionStore.Proofs.Host.Holding

/-!
Actions on the host that do nothing to files. Flushing a region, giving it a holder and taking one away, to
the point that it is closed, leave all files and whatever region is still open as they were.
-/

set_option autoImplicit false

namespace RegionStore.Host

open Disk

/-- No file or directory has been made or taken away. -/
structure SameFiles (before after : Host) : Prop where
  tree : after.tree = before.tree
  count : after.contents.size = before.contents.size

theorem SameFiles.refl (host : Host) : host.SameFiles host := ⟨rfl, rfl⟩

theorem SameFiles.trans {a b c : Host} (first : a.SameFiles b) (second : b.SameFiles c) : a.SameFiles c :=
  ⟨second.tree.trans first.tree, second.count.trans first.count⟩

/-- Nothing has become of the files, and the regions that are still open are what they were. -/
structure Stays (before after : Host) : Prop where
  tree : after.tree = before.tree
  contents : after.contents = before.contents
  regions : ∀ number entry, after.region? number = some entry →
    ∃ old, before.region? number = some old ∧ old.region = entry.region ∧ old.handle = entry.handle

/-- As before, and nothing fails that did not fail before. -/
structure Rests (before after : Host) : Prop extends Stays before after where
  timestamp : after.around.timestamp = before.around.timestamp
  untroubled : before.around.Untroubled → after.around.Untroubled

theorem stays_inSurroundings (host : Host) (around : Surroundings) :
    host.Stays { host with around := around } :=
  ⟨rfl, rfl, fun _ entry found => ⟨entry, found, rfl, rfl⟩⟩

theorem Stays.sameFiles {before after : Host} (stays : before.Stays after) : before.SameFiles after :=
  ⟨stays.tree, congrArg Array.size stays.contents⟩

theorem Rests.refl (host : Host) : host.Rests host := ⟨stays_inSurroundings host host.around, rfl, id⟩

theorem Rests.trans {a b c : Host} (first : a.Rests b) (second : b.Rests c) : a.Rests c := by
  refine ⟨⟨second.tree.trans first.tree, second.contents.trans first.contents, fun number entry found => ?_⟩,
    second.timestamp.trans first.timestamp, second.untroubled ∘ first.untroubled⟩
  obtain ⟨between, foundBetween, sameRegion, sameHandle⟩ := second.regions number entry found
  obtain ⟨old, foundOld, again, againHandle⟩ := first.regions number between foundBetween
  exact ⟨old, foundOld, again.trans sameRegion, againHandle.trans sameHandle⟩

section
variable {host : Host}

theorem region?_keep (host : Host) (handle : Handle) (device : Device) (number : Nat) :
    (host.keep handle device).region? number = host.region? number := by
  obtain ⟨_, _ | _⟩ := handle <;> rfl

theorem sameFiles_keep (host : Host) (handle : Handle) (device : Device) :
    host.SameFiles (host.keep handle device) := by
  obtain ⟨_, _ | number⟩ := handle
  · exact ⟨rfl, rfl⟩
  · exact ⟨rfl, Array.size_setIfInBounds⟩

theorem contents_keep {handle : Handle} {device : Device}
    (same : device.content = (host.device handle).content) :
    (host.keep handle device).contents = host.contents := by
  obtain ⟨path, _ | number⟩ := handle
  · rfl
  · have same : device.content = host.contents.getD number Content.empty := same
    change host.contents.setIfInBounds number device.content = host.contents
    rw [same]
    apply Array.ext
    · exact Array.size_setIfInBounds
    · intro index _ inside
      rw [Array.getElem_setIfInBounds]
      split
      · next here =>
        subst here
        rw [Array.getD_eq_getD_getElem?, Array.getElem?_eq_getElem inside]
        rfl
      · rfl

theorem rests_keep {handle : Handle} {device : Device} (keeps : (host.device handle).Keeps device) :
    host.Rests (host.keep handle device) := by
  have continues := keeps.continues
  have contents := contents_keep keeps.content
  have timestamp := continues.timestamp
  obtain ⟨path, _ | number⟩ := handle
  all_goals exact ⟨⟨rfl, contents, fun _ entry found => ⟨entry, found, rfl, rfl⟩⟩, timestamp,
    fun untroubled => ⟨continues.ceiling.trans untroubled.ceiling, continues.mild untroubled.schedule⟩⟩

theorem rests_setRegion {number : Nat} {entry : OpenRegion} (found : host.region? number = some entry)
    (holders : Nat) : host.Rests (host.setRegion number { entry with holders := holders }) := by
  refine ⟨⟨rfl, rfl, fun other still there => ?_⟩, rfl, id⟩
  rw [region?_insert] at there
  split at there
  · next here =>
    cases there
    exact ⟨entry, here ▸ found, rfl, rfl⟩
  · exact ⟨still, there, rfl, rfl⟩

theorem rests_erase (host : Host) (number : Nat) :
    host.Rests { host with regions := host.regions.erase number } := by
  refine ⟨⟨rfl, rfl, fun other still there => ?_⟩, rfl, id⟩
  rw [region?_erase] at there
  split at there
  · cases there
  · exact ⟨still, there, rfl, rfl⟩

end

theorem rests_used {host : Host} {number : Nat} {entry : OpenRegion}
    (found : host.region? number = some entry) {state : Region × Device}
    (kept : state.1 = entry.region ∧ (host.device entry.handle).Keeps state.2) :
    host.Rests ((host.keep entry.handle state.2).setRegion number { entry with region := state.1 }) := by
  have same := (region?_keep host entry.handle state.2 number).trans found
  rw [kept.1]
  exact (rests_keep kept.2).trans (rests_setRegion same entry.holders)

/-- An action on a region that leaves the region and its file as they are. -/
theorem onRegion_rests {Result : Type} [Inhabited Result] {action : OnRegion Result} (number : Nat)
    (host : Host) (keeps : ∀ region file, Ends action (region, file)
      (fun _ state => state.1 = region ∧ file.Keeps state.2)
      fun _ state => state.1 = region ∧ file.Keeps state.2) :
    Ends (onRegion number action) host (fun _ next => host.Rests next) fun _ next => host.Rests next := by
  cases found : host.region? number with
  | none =>
    simp only [Ends, onRegion, found]
    exact Rests.refl host
  | some entry =>
    rw [ends_onRegion found]
    exact Ends.mono (keeps _ _) (fun _ _ => rests_used found) fun _ _ => rests_used found

theorem flush_rests (number : Nat) (host : Host) :
    Ends (onRegion number Region.flush) host (fun _ next => host.Rests next)
      fun _ next => host.Rests next :=
  onRegion_rests number host fun region file =>
    Ends.mono (Region.flush_ends region file) (fun _ _ => id) fun _ _ ⟨same, keeps, _⟩ => ⟨same, keeps⟩

theorem notify_rests (notice : Notice) (host : Host) :
    Ends (notify notice) host (fun _ next => host.Rests next) fun _ _ => False :=
  ⟨stays_inSurroundings host _, rfl, fun untroubled => ⟨untroubled.ceiling, untroubled.schedule⟩⟩

theorem hold_rests (number : Nat) (host : Host) :
    Ends (hold number) host (fun _ next => host.Rests next) fun _ _ => False := by
  unfold hold
  rw [ends_modify]
  split
  · next entry found => exact rests_setRegion found _
  · exact Rests.refl host

theorem release_rests (number : Nat) (host : Host) :
    Ends (release number) host (fun _ next => host.Rests next) fun _ _ => False := by
  unfold release
  simp only [ends_bind, ends_get]
  split
  · exact Rests.refl host
  · next entry found =>
    split
    · exact rests_setRegion found _
    · have closes := ends_onRegion found Region.close (fun _ next => host.Rests next) fun _ _ => False
      rw [ends_bind]
      refine Ends.mono (closes.2 ?_) (fun _ closed rests => ?_) fun _ _ => id
      · refine Ends.mono (Region.close_ends _ _) (fun _ state kept => ?_) fun _ _ => id
        exact rests_used found kept
      · exact rests.trans (rests_erase closed number)

theorem onRegion_sameFiles {Result : Type} [Inhabited Result] (number : Nat) (action : OnRegion Result)
    (host : Host) :
    Ends (onRegion number action) host (fun _ next => host.SameFiles next)
      fun _ next => host.SameFiles next := by
  cases found : host.region? number with
  | none =>
    simp only [Ends, onRegion, found]
    exact SameFiles.refl host
  | some entry =>
    rw [ends_onRegion found]
    have kept (state : Region × Device) : host.SameFiles
        ((host.keep entry.handle state.2).setRegion number { entry with region := state.1 }) :=
      (sameFiles_keep host entry.handle state.2).trans ⟨rfl, rfl⟩
    exact Ends.mono (ends_somehow _ _) (fun _ state _ => kept state) fun _ state _ => kept state

theorem onDevice_sameFiles {Result : Type} (handle : Handle) (action : OnDevice Result) (host : Host) :
    Ends (onDevice handle action) host (fun _ next => host.SameFiles next)
      fun _ next => host.SameFiles next := by
  rw [ends_onDevice]
  exact Ends.mono (ends_somehow _ _) (fun _ next _ => sameFiles_keep host handle next)
    fun _ next _ => sameFiles_keep host handle next

theorem openFile_sameFiles {path : Bytes} {host : Host} {node : Node}
    (present : host.tree.look path = .ok node) :
    Ends (openFile path) host (fun _ next => host.SameFiles next) fun _ next => host.SameFiles next := by
  have untouched (around : Surroundings) : host.SameFiles { host with around := around } := ⟨rfl, rfl⟩
  simp only [Ends, openFile]
  cases (host.around.turns .opening).settle.refusal with
  | some reason => exact untouched _
  | none =>
    cases found : host.tree.filePlace path with
    | error reason => exact untouched _
    | ok place =>
      obtain ⟨place, node⟩ := place
      cases node with
      | none =>
        cases (Tree.look_of_filePlace found).symm.trans present
      | some node => cases node <;> exact untouched _

theorem openRegion_sameFiles {path : Bytes} {host : Host} {node : Node}
    (present : host.tree.look path = .ok node) (position : RegionPos) (sync : Bool) :
    Ends (openRegion path position sync) host (fun _ next => host.SameFiles next)
      fun _ next => host.SameFiles next := by
  unfold openRegion
  rw [ends_bind]
  refine Ends.mono (openFile_sameFiles present) ?_ fun _ _ => id
  intro handle opened same
  rw [ends_tryCatch, ends_bind]
  refine Ends.mono (onDevice_sameFiles handle _ opened) ?_ ?_
  · intro region loaded still
    exact (same.trans still).trans ⟨rfl, rfl⟩
  · intro failure loaded still
    simp only [ends_bind, ends_throw]
    exact Ends.mono (onDevice_sameFiles handle Device.close loaded)
      (fun _ _ => (same.trans still).trans) fun _ _ => (same.trans still).trans

end RegionStore.Host
