import RegionStore.Proofs.Host.Creation
import RegionStore.Proofs.Preferences.Values

/-!
Settings in their file. What is saved is what the file has afterwards, so loading it again gives the values
that can be stored; and since values that were loaded can, the text that they are saved as is a normal form
of the text they came from.
-/

set_option autoImplicit false

namespace RegionStore

open Disk

namespace Host

theorem read_written (data : Bytes) :
    (Content.empty.write 0 data).read 0 (Content.empty.write 0 data).size = data := by
  have size : (Content.empty.write 0 data).size = data.size := by
    have nothing : Content.empty.size = 0 := rfl
    rw [Content.size_write, nothing]
    split <;> omega
  rw [size, Content.read_write]

section
variable {host : Host} {path : Bytes} {file : Nat} (data : Bytes)

theorem Leads.replaceFile (leads : host.Leads path file) :
    ∃ after, host.replaceFile path data = (.done, after) ∧ after.Leads path file ∧
      after.readWhole? path = some data := by
  obtain ⟨place, found⟩ := leads.place
  have inside : file < (host.contents.modify file fun _ => Content.empty.write 0 data).size := by
    simpa using leads.inside
  have replaced : Leads { host with
      contents := host.contents.modify file fun _ => Content.empty.write 0 data } path file :=
    ⟨⟨place, found⟩, inside⟩
  refine ⟨_, by simp only [Host.replaceFile, found, fileAt], replaced, ?_⟩
  have content : Host.content { host with
      contents := host.contents.modify file fun _ => Content.empty.write 0 data } file =
      Content.empty.write 0 data := by
    simp [Host.content, leads.inside, Array.getElem_modify]
  rw [replaced.readWhole, content, read_written]

theorem replaceFile_of_absent {place : Tree.Place} (found : host.tree.filePlace path = .ok (place, none))
    (inside : place.directory < host.tree.directories.size) :
    host.replaceFile path data = (host.withFile place).replaceFile path data := by
  have made := Tree.filePlace_put inside found host.contents.size
  simp only [replaceFile, found, fileAt, withFile, made]

theorem replaceFile_of_other {place : Tree.Place} {node : Node}
    (found : host.tree.filePlace path = .ok (place, some node)) (other : ∀ number, node ≠ .file number) :
    host.replaceFile path data = (if data.size = 0 then .done else .notWritten, host) ∧
      host.readWhole? path = some ByteArray.empty := by
  have look := Tree.look_of_filePlace found
  cases node with
  | file number => exact absurd rfl (other number)
  | directory number => simp only [replaceFile, found, fileAt, readWhole?, look, and_self]
  | full => simp only [replaceFile, found, fileAt, readWhole?, look, and_self]

theorem readWhole_of_replaceFile (sound : host.Sound) {after : Host}
    (done : host.replaceFile path data = (.done, after)) : after.readWhole? path = some data := by
  have of_leads {host : Host} {file : Nat} (leads : host.Leads path file)
      (done : host.replaceFile path data = (.done, after)) : after.readWhole? path = some data := by
    obtain ⟨_, ran, _, whole⟩ := leads.replaceFile data
    rw [done] at ran
    cases ran
    exact whole
  have of_other {place : Tree.Place} {node : Node}
      (found : host.tree.filePlace path = .ok (place, some node))
      (other : ∀ number, node ≠ .file number) : after.readWhole? path = some data := by
    obtain ⟨ran, nothing⟩ := host.replaceFile_of_other data found other
    rw [done, Prod.mk.injEq] at ran
    obtain ⟨taken, rfl⟩ := ran
    split at taken
    · next empty => rw [nothing, ByteArray.size_eq_zero_iff.1 empty]
    · cases taken
  cases found : host.tree.filePlace path with
  | error reason =>
    simp only [replaceFile, found] at done
    cases done
  | ok reached =>
    obtain ⟨place, node⟩ := reached
    cases node with
    | none =>
      have inside := sound.tree.of_locate (Tree.locate_of_filePlace found)
      exact of_leads (sound.leads_withFile found) (replaceFile_of_absent data found inside ▸ done)
    | some node =>
      cases node with
      | file number => exact of_leads (sound.leads found) done
      | directory number => exact of_other found nofun
      | full => exact of_other found nofun

end

end Host

namespace Preferences

theorem load_of_readWhole {host : Host} {path text : Bytes} (found : host.readWhole? path = some text) :
    load path host = .ok ⟨path, parse text⟩ host := by
  simp only [load, bind, EStateM.bind, get, getThe, MonadStateOf.get]
  delta EStateM.get
  simp only [found]
  rfl

/-- Saving goes well exactly if the file has been replaced by the text of the values. -/
theorem save_eq_ok_true_iff {preferences : Preferences} {host after : Host} :
    save preferences host = .ok true after ↔
      host.replaceFile preferences.path (print preferences.values) = (.done, after) := by
  unfold save
  simp only [bind, EStateM.bind, modifyGet, MonadStateOf.modifyGet]
  delta EStateM.modifyGet
  dsimp only
  generalize host.replaceFile preferences.path (print preferences.values) = replacement
  obtain ⟨replaced, next⟩ := replacement
  cases replaced with
  | done => simp [pure, EStateM.pure]
  | notOpened | notWritten =>
    constructor
    · rintro ⟨⟩
    · rintro ⟨⟩

theorem save_of_leads (preferences : Preferences) {host : Host} {file : Nat}
    (leads : host.Leads preferences.path file) :
    ∃ after, save preferences host = .ok true after ∧ after.Leads preferences.path file ∧
      after.readWhole? preferences.path = some (print preferences.values) := by
  obtain ⟨after, done, again, whole⟩ := leads.replaceFile (print preferences.values)
  exact ⟨after, save_eq_ok_true_iff.2 done, again, whole⟩

/-- Whatever text a file has, the values loaded from it are those of the first lines of their keys. They
are saved as a text with one line for each key, in ascending order, from which the same values are loaded
again; and these are saved as the same text. -/
theorem normal_form_of_load {host : Host} {path text : Bytes} {file : Nat} (leads : host.Leads path file)
    (readable : host.readWhole? path = some text) :
    ∃ values saved, load path host = .ok ⟨path, values⟩ host ∧
      (∀ key : Bytes, values[key]? =
        if key = ByteArray.empty then none else (textEntries text).lookup key) ∧
      save ⟨path, values⟩ host = .ok true saved ∧ saved.readWhole? path = some (print values) ∧
      (lines (print values).list = values.toList.map fun entry => entryText entry.1.list entry.2.list) ∧
      (values.toList.Pairwise fun first second => Bytes.compare first.1 second.1 = .lt) ∧
      ∃ reloaded again, load path saved = .ok ⟨path, reloaded⟩ saved ∧
        (∀ key : Bytes, reloaded[key]? = values[key]?) ∧
        save ⟨path, reloaded⟩ saved = .ok true again ∧ again.readWhole? path = some (print values) := by
  have storable := storable_parse text
  obtain ⟨saved, ran, leadsSaved, whole⟩ := save_of_leads ⟨path, parse text⟩ leads
  have same := getElem?_parse_print storable
  obtain ⟨again, ranAgain, _, wholeAgain⟩ :=
    save_of_leads ⟨path, parse (print (parse text))⟩ leadsSaved
  rw [print_congr same] at wholeAgain
  exact ⟨parse text, saved, load_of_readWhole readable, getElem?_parse text, ran, whole,
    lines_print storable, Std.TreeMap.ordered_keys_toList, parse (print (parse text)), again,
    load_of_readWhole whole, same, ranAgain, wholeAgain⟩

/-- A text with an unquoted line, an unfinished word and two lines of one key. -/
theorem normal_form_of_load_lenient :
    ∃ host values saved, host.readWhole? "s.cfg" = some ("b 2\n\"a\" \"1\na 3" : String).toUTF8 ∧
      load "s.cfg" host = .ok ⟨"s.cfg", values⟩ host ∧
      values[("a" : String).toUTF8]? = some ("1" : String).toUTF8 ∧
      values[("b" : String).toUTF8]? = some ("2" : String).toUTF8 ∧
      save ⟨"s.cfg", values⟩ host = .ok true saved ∧ saved.readWhole? "s.cfg" = some (print values) := by
  have found : Host.initial.tree.filePlace "s.cfg" = .ok (⟨Tree.home, "s.cfg", false⟩, none) := rfl
  obtain ⟨host, _, leads, readable⟩ := (Host.sound_initial.leads_withFile found).replaceFile
    ("b 2\n\"a\" \"1\na 3" : String).toUTF8
  obtain ⟨values, saved, loaded, value, ran, whole, _⟩ := normal_form_of_load leads readable
  refine ⟨host, values, saved, readable, loaded, ?_, ?_, ran, whole⟩
  · rw [value]
    decide +kernel
  · rw [value]
    decide +kernel

end Preferences

end RegionStore
