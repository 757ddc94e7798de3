import RegionStore.Proofs.Decimal
import RegionStore.Proofs.Preferences.Edits

/-!
Integers in settings. A text stands for an integer exactly if it is a decimal text of one that fits in 64
bits; asking for it with a default leaves such a text behind, so all later questions have one answer; and
an integer that is put into settings is the answer afterwards, also when they have been saved and loaded.
-/

set_option autoImplicit false

namespace RegionStore

namespace Preferences

theorem integer?_eq_some_iff {text : Bytes} {value : Int} :
    integer? text = some value ↔
      Decimal.Denotes text.list value ∧ minInteger ≤ value ∧ value ≤ maxInteger := by
  unfold integer?
  rw [Option.filter_eq_some_iff, Decimal.parse?_eq_some_iff, decide_eq_true_eq]
  constructor
  · rintro ⟨⟨denotes, _⟩, inside⟩
    exact ⟨denotes, inside⟩
  · rintro ⟨denotes, inside⟩
    refine ⟨⟨denotes, ?_⟩, inside⟩
    unfold minInteger maxInteger at *
    omega

theorem integer?_print {value : Int} (low : minInteger ≤ value) (high : value ≤ maxInteger) :
    integer? (Decimal.print value) = some value :=
  integer?_eq_some_iff.2 ⟨Decimal.denotes_signed value, low, high⟩

theorem minInteger_le (value : Int64) : minInteger ≤ value.toInt := value.le_toInt

theorem le_maxInteger (value : Int64) : value.toInt ≤ maxInteger := Int.le_of_lt_add_one value.toInt_lt

theorem exists_int64 {value : Int} (low : minInteger ≤ value) (high : value ≤ maxInteger) :
    ∃ number : Int64, number.toInt = value := by
  refine ⟨Int64.ofInt value, Int64.toInt_ofInt_of_le low ?_⟩
  unfold maxInteger at high
  omega

end Preferences

/-- The host, with these notices added in the order they were given. -/
def Host.logged (host : Host) (notices : List Notice) : Host :=
  { host with around.notices := notices.reverse ++ host.around.notices }

theorem Host.logged_append (host : Host) (first second : List Notice) :
    (host.logged first).logged second = host.logged (first ++ second) := by
  unfold logged
  rw [List.reverse_append, List.append_assoc]

namespace Preferences

/-- A key has got this value, and no other key a different one. -/
structure Put (key text : Bytes) (before after : Preferences) : Prop where
  path : after.path = before.path
  values : ∀ other, after.get? other = if key = other then some text else before.get? other

section
variable {key text : Bytes} {before after : Preferences}

theorem Put.here (put : Put key text before after) : after.get? key = some text := by
  rw [put.values, if_pos rfl]

theorem Put.elsewhere (put : Put key text before after) {other : Bytes} (different : key ≠ other) :
    after.get? other = before.get? other := by
  rw [put.values, if_neg different]

theorem Put.entries {Holds : Bytes → Bytes → Prop} (put : Put key text before after)
    (kept : ∀ other value, before.get? other = some value → Holds other value) (holds : Holds key text)
    (other value : Bytes) (found : after.get? other = some value) : Holds other value := by
  rw [put.values] at found
  split at found
  · next same =>
    cases found
    exact same ▸ holds
  · exact kept other value found

end

section
variable (preferences : Preferences) (host : Host) (key : Bytes)

theorem put_set (text : Bytes) : Put key text preferences (preferences.set key text) :=
  ⟨rfl, get?_set preferences key text⟩

theorem put_setDefault (default : Bytes) :
    Put key (preferences.getString key default) preferences (preferences.setDefault key default) := by
  refine ⟨rfl, fun other => ?_⟩
  simp only [getString, get?, setDefault, Std.TreeMap.getElem?_insertIfNew,
    Std.LawfulEqCmp.compare_eq_iff_eq]
  by_cases same : key = other
  · subst same
    cases found : preferences.values[key]? with
    | none => simp [Std.TreeMap.mem_iff_isSome_getElem?, found]
    | some text => simp [Std.TreeMap.mem_iff_isSome_getElem?, found]
  · simp [same]

theorem getOrSetString_ends (default : Bytes) :
    Ends (getOrSetString key default) (preferences, host)
      (fun value next => value = preferences.getString key default ∧
        Put key value preferences next.1 ∧ next.2 = host) fun _ _ => False := by
  simp only [getOrSetString, change, ends_bind, ends_get, ends_modify, ends_pure, true_and, and_true]
  exact put_setDefault preferences key default

/-- The text under the key if it is that of an integer, otherwise the one of the default. -/
def integerText (default : Int) : Bytes :=
  ((preferences.get? key).filter fun text => (integer? text).isSome).getD (Decimal.print default)

def integerNotices : List Notice :=
  ((preferences.get? key).filter fun text => (integer? text).isNone).toList.map fun text =>
    .badInteger text key

variable {preferences key}

theorem getInteger_of_some {text : Bytes} (found : preferences.get? key = some text) {value : Int}
    (read : integer? text = some value) (default : Int) : preferences.getInteger key default = value := by
  rw [getInteger, found, Option.bind_some, read, Option.getD_some]

theorem getInteger_of_none {text : Bytes} (found : preferences.get? key = some text)
    (bad : integer? text = none) (default : Int) : preferences.getInteger key default = default := by
  rw [getInteger, found, Option.bind_some, bad, Option.getD_none]

theorem integerText_of_some {text : Bytes} (found : preferences.get? key = some text) {value : Int}
    (read : integer? text = some value) (default : Int) : preferences.integerText key default = text := by
  rw [integerText, found, Option.filter_some_pos (by rw [read, Option.isSome_some]), Option.getD_some]

theorem integerText_of_none {text : Bytes} (found : preferences.get? key = some text)
    (bad : integer? text = none) (default : Int) :
    preferences.integerText key default = Decimal.print default := by
  rw [integerText, found, Option.filter_some_neg (by rw [bad]; decide), Option.getD_none]

theorem integer?_integerText {default : Int} (low : minInteger ≤ default) (high : default ≤ maxInteger) :
    integer? (preferences.integerText key default) = some (preferences.getInteger key default) := by
  have own := integer?_print low high
  cases found : preferences.get? key with
  | none => simp [integerText, getInteger, found, own]
  | some text =>
    cases read : integer? text with
    | none => rw [integerText_of_none found read, getInteger_of_none found read, own]
    | some value => rw [integerText_of_some found read, getInteger_of_some found read, read]

theorem getOrSetInteger_ends (default : Int) :
    Ends (getOrSetInteger key default) (preferences, host)
      (fun result next => result = preferences.getInteger key default ∧
        Put key (preferences.integerText key default) preferences next.1 ∧
        next.2 = host.logged (preferences.integerNotices key)) fun _ _ => False := by
  simp only [getOrSetInteger, change, ends_bind, ends_get]
  cases found : preferences.get? key with
  | none =>
    have text : preferences.integerText key default = Decimal.print default := by
      simp [integerText, found]
    simp only [ends_bind, ends_modify, ends_pure, getInteger, found, Option.bind_none, Option.getD_none,
      true_and, text, integerNotices, Option.filter_none, Option.toList_none, List.map_nil]
    exact ⟨put_set preferences key (Decimal.print default), rfl⟩
  | some text =>
    cases read : integer? text with
    | none =>
      simp only [read, ends_bind, ends_host, Host.notify, ends_modify, ends_pure]
      rw [integerText_of_none found read, getInteger_of_none found read, integerNotices, found,
        Option.filter_some_pos (by rw [read, Option.isNone_none])]
      exact ⟨rfl, put_set preferences key (Decimal.print default), rfl⟩
    | some value =>
      simp only [read, ends_pure]
      rw [integerText_of_some found read, getInteger_of_some found read, integerNotices, found,
        Option.filter_some_neg (by rw [read, Option.isNone_some])]
      refine ⟨rfl, ⟨rfl, fun other => ?_⟩, rfl⟩
      split
      · next same => rw [← same, found]
      · rfl

end

/-- What is put into settings is found in them, and also after they were saved and loaded, unless a line
of their file is broken or the key is empty. -/
theorem getInteger_reloaded {preferences : Preferences} {key text : Bytes}
    (found : preferences.get? key = some text) {value : Int} (read : integer? text = some value)
    (named : key ≠ ByteArray.empty) (unbroken : preferences.values.Unbroken) {host after : Host}
    (sound : host.Sound) (saved : save preferences host = .ok true after) :
    ∃ reloaded, load preferences.path after = .ok reloaded after ∧
      ∀ default : Int, reloaded.getInteger key default = value := by
  have whole := Host.readWhole_of_replaceFile _ sound (save_eq_ok_true_iff.1 saved)
  have kept : (⟨preferences.path, parse (print preferences.values)⟩ : Preferences).get? key = some text := by
    rw [get?, unbroken.getElem?_parse_print key, if_neg named]
    exact found
  exact ⟨_, load_of_readWhole whole, getInteger_of_some kept read⟩

/-- The integer under a key is the one whose decimal text is there, as a whole, if it has 64 bits;
otherwise it is the default, whichever that is. Asking for it so that the default is put there answers the
same, and from then on the answer does not depend on the default. An integer that was put there is the
answer, also after saving and loading. -/
theorem integers_exact (preferences : Preferences) (host : Host) (key : Bytes) :
    (∀ text, preferences.get? key = some text →
      (∀ value : Int64, (∀ default : Int64, preferences.getInteger key default.toInt = value.toInt) ↔
        Decimal.Denotes text.list value.toInt) ∧
      ((∀ value : Int64, ¬ Decimal.Denotes text.list value.toInt) →
        ∀ default : Int64, preferences.getInteger key default.toInt = default.toInt)) ∧
    (∀ default : Int64, ∃ asked next, getOrSetInteger key default.toInt (preferences, host) =
        .ok (preferences.getInteger key default.toInt) (asked, next) ∧
      ∀ other : Int64, asked.getInteger key other.toInt = preferences.getInteger key default.toInt) ∧
    ∀ value : Int64,
      (∀ default : Int64,
        (preferences.setInteger key value.toInt).getInteger key default.toInt = value.toInt) ∧
      (key ≠ ByteArray.empty → (preferences.setInteger key value.toInt).values.Unbroken →
        ∀ before after : Host, before.Sound →
          save (preferences.setInteger key value.toInt) before = .ok true after →
        ∃ reloaded, load preferences.path after = .ok reloaded after ∧
          ∀ default : Int64, reloaded.getInteger key default.toInt = value.toInt) := by
  refine ⟨fun text found => ?_, fun default => ?_, fun value => ?_⟩
  · have refused (none : ∀ value : Int64, ¬ Decimal.Denotes text.list value.toInt) :
        integer? text = .none := by
      apply Option.eq_none_iff_forall_ne_some.2
      intro value read
      obtain ⟨denotes, low, high⟩ := integer?_eq_some_iff.1 read
      obtain ⟨number, rfl⟩ := exists_int64 low high
      exact none number denotes
    refine ⟨fun value => ⟨fun always => ?_, fun denotes default => ?_⟩, fun none default => ?_⟩
    · cases read : integer? text with
      | none =>
        -- Then the answer is the default, of which there are several.
        have zero := always 0
        have one := always 1
        rw [getInteger_of_none found read] at zero one
        exact absurd (zero.trans one.symm) (by decide)
      | some number =>
        have same := always 0
        rw [getInteger_of_some found read] at same
        exact same ▸ (integer?_eq_some_iff.1 read).1
    · exact getInteger_of_some found
        (integer?_eq_some_iff.2 ⟨denotes, minInteger_le value, le_maxInteger value⟩) default.toInt
    · exact getInteger_of_none found (refused none) default.toInt
  · have low := minInteger_le default
    have high := le_maxInteger default
    obtain ⟨_, ⟨asked, next⟩, ran, rfl, put, _⟩ := (getOrSetInteger_ends host default.toInt).exists_ok
    exact ⟨asked, next, ran, fun other => getInteger_of_some put.here (integer?_integerText low high) _⟩
  · have read := integer?_print (minInteger_le value) (le_maxInteger value)
    have found : (preferences.setInteger key value.toInt).get? key = some (Decimal.print value.toInt) :=
      (put_set preferences key (Decimal.print value.toInt)).here
    refine ⟨fun default => getInteger_of_some found read _, fun named unbroken before after sound saved => ?_⟩
    obtain ⟨reloaded, loaded, same⟩ := getInteger_reloaded found read named unbroken sound saved
    exact ⟨reloaded, loaded, fun default => same default.toInt⟩

/-- The least integer with zeros in front, and another one that is put in its place and saved. -/
theorem integers_exact_least :
    let text : Bytes := "-009223372036854775808"
    let preferences : Preferences := ⟨"s.cfg", Std.TreeMap.empty.insert "n" text⟩
    preferences.get? "n" = some text ∧ Decimal.Denotes text.list Int64.minValue.toInt ∧
      preferences.getInteger "n" (5 : Int64).toInt = Int64.minValue.toInt ∧
      ∃ after reloaded, save (preferences.setInteger "n" (-7 : Int64).toInt) Host.initial = .ok true after ∧
        load "s.cfg" after = .ok reloaded after ∧
        reloaded.getInteger "n" (5 : Int64).toInt = (-7 : Int64).toInt := by
  intro text preferences
  obtain ⟨grammar, _, putting⟩ := integers_exact preferences Host.initial "n"
  have found : preferences.get? "n" = some text := by decide +kernel
  have read : Decimal.parse? (2 ^ 63) text.list = some Int64.minValue.toInt := by decide +kernel
  have least := (Decimal.parse?_eq_some_iff.1 read).1
  have unbroken : (preferences.setInteger "n" (-7 : Int64).toInt).values.Unbroken := by
    refine (put_set preferences "n" _).entries ?_ (by decide +kernel)
    refine (put_set ⟨"s.cfg", ∅⟩ "n" text).entries ?_ (by decide +kernel)
    exact fun other value found => absurd found (by simp [get?])
  have place : Host.initial.tree.filePlace "s.cfg" = .ok (⟨Disk.Tree.home, "s.cfg", false⟩, none) := rfl
  obtain ⟨after, done, _⟩ := (Host.sound_initial.leads_withFile place).replaceFile
    (print (preferences.setInteger "n" (-7 : Int64).toInt).values)
  have saved : save (preferences.setInteger "n" (-7 : Int64).toInt) Host.initial = .ok true after :=
    save_eq_ok_true_iff.2 ((Host.replaceFile_of_absent _ place (by decide)).trans done)
  obtain ⟨reloaded, loaded, same⟩ :=
    (putting (-7)).2 (by decide) unbroken Host.initial after Host.sound_initial saved
  exact ⟨found, least, ((grammar _ found).1 Int64.minValue).2 least 5, after, reloaded, saved, loaded,
    same 5⟩

end Preferences
end RegionStore
