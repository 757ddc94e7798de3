import RegionStore.Proofs.Preferences.Saving

/-!
Settings that are edited, saved and loaded again. What comes back is what the lines of the file can hold:
an edited value survives exactly if its key is not empty and no newline is in it or in its key.
-/

set_option autoImplicit false

namespace RegionStore.Preferences

inductive Edit where
  | setString (key value : Bytes)
  | setInteger (key : Bytes) (value : Int)
  | getOrSetString (key default : Bytes)
  | getOrSetInteger (key : Bytes) (default : Int)

namespace Edit

def run : Edit → OnPreferences Unit
  | .setString key value => change fun preferences => preferences.set key value
  | .setInteger key value => change fun preferences => preferences.setInteger key value
  | .getOrSetString key default => do let _ ← Preferences.getOrSetString key default
  | .getOrSetInteger key default => do let _ ← Preferences.getOrSetInteger key default

def entry : Edit → Bytes × Bytes
  | .setString key value | .getOrSetString key value => (key, value)
  | .setInteger key value | .getOrSetInteger key value => (key, Decimal.print value)

end Edit

def edited (edits : List Edit) (state : Preferences × Host) : Preferences × Host :=
  final (edits.forM Edit.run) state

/-- The files of the host are as before, and each value is an old one or that of one of the entries. -/
structure Edited (entries : List (Bytes × Bytes)) (before after : Preferences × Host) : Prop where
  path : after.1.path = before.1.path
  tree : after.2.tree = before.2.tree
  contents : after.2.contents = before.2.contents
  origin : ∀ key value, after.1.get? key = some value →
    before.1.get? key = some value ∨ (key, value) ∈ entries

section
variable (preferences : Preferences) (host : Host)

theorem get?_set (key value other : Bytes) :
    (preferences.set key value).get? other = if key = other then some value else preferences.get? other := by
  simp only [get?, set, Std.TreeMap.getElem?_insert, Std.LawfulEqCmp.compare_eq_iff_eq]

theorem edited_set (key value : Bytes) :
    Edited [(key, value)] (preferences, host) (preferences.set key value, host) := by
  refine ⟨rfl, rfl, rfl, fun other found is => ?_⟩
  rw [get?_set] at is
  split at is
  · next same => simp [← same, Option.some.inj is]
  · exact .inl is

theorem edited_setDefault (key value : Bytes) :
    Edited [(key, value)] (preferences, host) (preferences.setDefault key value, host) := by
  refine ⟨rfl, rfl, rfl, fun other found is => ?_⟩
  simp only [get?, setDefault, Std.TreeMap.getElem?_insertIfNew, Std.LawfulEqCmp.compare_eq_iff_eq] at is
  split at is
  · next same => simp [← same.1, Option.some.inj is]
  · exact .inl is

end

theorem Edited.refl (entries : List (Bytes × Bytes)) (state : Preferences × Host) :
    Edited entries state state := ⟨rfl, rfl, rfl, fun _ _ => .inl⟩

theorem Edited.trans {first second : List (Bytes × Bytes)} {a b c : Preferences × Host}
    (earlier : Edited first a b) (later : Edited second b c) : Edited (first ++ second) a c := by
  refine ⟨later.path.trans earlier.path, later.tree.trans earlier.tree,
    later.contents.trans earlier.contents, fun key value found => ?_⟩
  rcases later.origin key value found with before | put
  · exact (earlier.origin key value before).imp_right (List.mem_append_left second)
  · exact .inr (List.mem_append_right first put)

theorem Edit.run_ends (edit : Edit) (preferences : Preferences) (host : Host) :
    Ends edit.run (preferences, host) (fun _ next => Edited [edit.entry] (preferences, host) next)
      fun _ _ => False := by
  cases edit with
  | setString key value => exact edited_set preferences host key value
  | setInteger key value => exact edited_set preferences host key (Decimal.print value)
  | getOrSetString key default =>
    simp only [run, Preferences.getOrSetString, change, ends_bind, ends_get, ends_modify, ends_pure]
    exact edited_setDefault preferences host key default
  | getOrSetInteger key default =>
    simp only [run, Preferences.getOrSetInteger, change, ends_bind, ends_get]
    split
    · simp only [ends_bind, ends_modify, ends_pure]
      exact edited_set preferences host key (Decimal.print default)
    · split
      · exact Edited.refl _ _
      · next text _ _ _ =>
        simp only [ends_bind, ends_host, Host.notify, ends_modify, ends_pure]
        have noted := edited_set preferences
          { host with around := host.around.notify (.badInteger text key) } key (Decimal.print default)
        exact ⟨noted.path, noted.tree, noted.contents, noted.origin⟩

theorem edited_run (edits : List Edit) (preferences : Preferences) (host : Host) :
    Edited (edits.map Edit.entry) (preferences, host) (edited edits (preferences, host)) := by
  have ends : Ends (edits.forM Edit.run) (preferences, host)
      (fun _ next => Edited (edits.map Edit.entry) (preferences, host) next)
      fun _ next => Edited (edits.map Edit.entry) (preferences, host) next := by
    induction edits generalizing preferences host with
    | nil => exact Edited.refl [] _
    | cons edit rest ih =>
      rw [List.forM, ends_bind]
      refine (edit.run_ends preferences host).mono ?_ fun _ _ => False.elim
      rintro _ ⟨between, hostBetween⟩ first
      exact (ih between hostBetween).mono (fun _ _ => first.trans) fun _ _ => first.trans
  exact ends.final _

/-- However settings are edited, if they are then saved, loading them again gives the same values under
the same keys exactly if every value can be stored with its key; and no values are saved but the ones that
were there and those that the edits have put there. -/
theorem reload_eq_iff_storable (edits : List Edit) (preferences : Preferences) {host after : Host}
    (sound : host.Sound)
    (saved : save (edited edits (preferences, host)).1 (edited edits (preferences, host)).2 =
      .ok true after) :
    ∃ reloaded, load preferences.path after = .ok reloaded after ∧
      ((∀ key, reloaded.get? key = (edited edits (preferences, host)).1.get? key) ↔
        (edited edits (preferences, host)).1.values.Storable) ∧
      ∀ key value, (edited edits (preferences, host)).1.get? key = some value →
        preferences.get? key = some value ∨ (key, value) ∈ edits.map Edit.entry := by
  have run := edited_run edits preferences host
  generalize edited edits (preferences, host) = state at run saved
  obtain ⟨current, hostAfter⟩ := state
  obtain ⟨path, tree, contents, origin⟩ := run
  have soundAfter : hostAfter.Sound := by
    refine ⟨?_, ?_⟩
    · rw [tree]
      exact sound.tree
    · rw [tree, contents]
      exact sound.files
  have whole := Host.readWhole_of_replaceFile _ soundAfter (save_eq_ok_true_iff.1 saved)
  rw [path] at whole
  exact ⟨_, load_of_readWhole whole, getElem?_parse_print_iff, origin⟩

/-- A value with a newline in it puts another key into the settings. -/
theorem reload_ne_of_newline :
    let current := edited [.setString "a" "1\nb 2 "] (⟨"s.cfg", ∅⟩, Host.initial)
    ∃ after reloaded, save current.1 current.2 = .ok true after ∧
      load "s.cfg" after = .ok reloaded after ∧ current.1.get? "b" = none ∧
      reloaded.get? "b" = some ("2" : String).toUTF8 ∧ ¬ ∀ key, reloaded.get? key = current.1.get? key := by
  intro current
  have found : current.2.tree.filePlace "s.cfg" = .ok (⟨Disk.Tree.home, "s.cfg", false⟩, none) := rfl
  obtain ⟨after, done, _, whole⟩ :=
    (Host.sound_initial.leads_withFile found).replaceFile (print current.1.values)
  have replaced : Host.initial.replaceFile "s.cfg" (print current.1.values) = (.done, after) :=
    (Host.replaceFile_of_absent _ found (by decide)).trans done
  have saved : save current.1 current.2 = .ok true after := save_eq_ok_true_iff.2 replaced
  obtain ⟨reloaded, loaded, same, _⟩ := reload_eq_iff_storable _ _ Host.sound_initial saved
  cases loaded.symm.trans (load_of_readWhole whole)
  have absent : current.1.get? "b" = none := by decide +kernel
  have added : (parse (print current.1.values))[("b" : String).toUTF8]? = some ("2" : String).toUTF8 := by
    rw [getElem?_parse]
    decide +kernel
  refine ⟨after, _, saved, loaded, absent, added, fun equal => ?_⟩
  have kept : current.1.get? "a" = some ("1\nb 2 " : String).toUTF8 := by decide +kernel
  exact ((same.1 equal) _ _ kept).value (by decide +kernel)

end RegionStore.Preferences
