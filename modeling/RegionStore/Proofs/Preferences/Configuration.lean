import RegionStore.Preferences.Config
import RegionStore.Proofs.Entries
import RegionStore.Proofs.FileName
import RegionStore.Proofs.Preferences.Integers

/-!
The configuration in settings. Reading it leaves settings behind that are normal: under each of its keys
there is a value that can be used as it stands, and it is the one that was used. Reading normal settings
gives the same configuration again, and neither the settings nor the host show that they were read.
-/

set_option autoImplicit false

namespace RegionStore

namespace Method

theorem ofName?_name (method : Method) : ofName? method.name.toUTF8 = some method := by
  cases method <;> decide +kernel

theorem eq_name_of_ofName? {name : Bytes} {method : Method} (known : ofName? name = some method) :
    name = method.name.toUTF8 := by
  have found := List.find?_some known
  exact (of_decide_eq_true found).symm

end Method

namespace Preferences

section
variable {key other old text : Bytes} {a b c : Preferences}

theorem Put.again (first : Put key old a b) (second : Put key text b c) : Put key text a c := by
  refine ⟨second.path.trans first.path, fun other => ?_⟩
  rw [second.values]
  split
  · rfl
  · next different => rw [first.elsewhere different]

theorem put_of_get? (found : a.get? key = some text) : Put key text a a := by
  refine ⟨rfl, fun other => ?_⟩
  split
  · next same => rw [← same, found]
  · rfl

/-- Each key of an entry has got the value of the first one with it, and no other key a different one. -/
structure Puts (entries : List (Bytes × Bytes)) (before after : Preferences) : Prop where
  path : after.path = before.path
  values : ∀ key, after.get? key = (entries.lookup key).or (before.get? key)

variable {entries : List (Bytes × Bytes)}

theorem Puts.refl (preferences : Preferences) : Puts [] preferences preferences :=
  ⟨rfl, fun _ => rfl⟩

theorem Puts.elsewhere (puts : Puts entries a b) (absent : key ∉ entries.map Prod.fst) :
    b.get? key = a.get? key := by
  have none : entries.lookup key = none := by
    rw [List.lookup_eq_none_iff]
    intro entry member
    rw [bne_iff_ne]
    rintro rfl
    exact absent (List.mem_map_of_mem member)
  rw [puts.values, none, Option.none_or]

theorem Puts.here (puts : Puts entries a b) (single : (entries.map Prod.fst).Nodup)
    {entry : Bytes × Bytes} (member : entry ∈ entries) : b.get? entry.1 = some entry.2 := by
  rw [puts.values, (lookup_eq_some_iff_mem single).2 member, Option.some_or]

theorem Puts.unchanged (puts : Puts entries a b)
    (settled : ∀ entry ∈ entries, a.get? entry.1 = some entry.2) (key : Bytes) :
    b.get? key = a.get? key := by
  rw [puts.values]
  cases found : entries.lookup key with
  | none => rw [Option.none_or]
  | some value => rw [settled _ (mem_of_lookup found), Option.some_or]

theorem Puts.put (puts : Puts entries a b) (put : Put key text b c) :
    Puts ((key, text) :: entries) a c := by
  refine ⟨put.path.trans puts.path, fun other => ?_⟩
  rw [put.values, puts.values, List.lookup_cons]
  by_cases same : key = other
  · simp [same]
  · simp [same, beq_eq_false_iff_ne.2 (Ne.symm same)]

theorem Puts.origin (puts : Puts entries a b) {value : Bytes} (found : b.get? key = some value) :
    (key, value) ∈ entries ∨ a.get? key = some value := by
  rw [puts.values, Option.or_eq_some_iff] at found
  exact found.imp mem_of_lookup And.right

end

/-- How many regions the settings keep open: what they say, moved into the limits. -/
def openLimit (preferences : Preferences) : Int :=
  max 1 (min (preferences.getInteger maxOpenKey 64) maxOpenLimit)

def method (preferences : Preferences) : Method :=
  (Method.ofName? (preferences.getString methodKey Method.zlib.name)).getD .zlib

def configured (preferences : Preferences) : WorldConfig where
  directory := preferences.getString directoryKey "world/region"
  maxOpen := preferences.openLimit.toNat.toUInt32
  method := preferences.method.tag
  sync := preferences.getInteger syncKey 1 ≠ 0

/-- The values that are used, each under its key. -/
def normalEntries (preferences : Preferences) : List (Bytes × Bytes) :=
  [(syncKey, preferences.integerText syncKey 1),
    (methodKey, preferences.method.name),
    (maxOpenKey, Decimal.print preferences.openLimit),
    (directoryKey, preferences.getString directoryKey "world/region")]

def methodNotices (preferences : Preferences) : List Notice :=
  ((preferences.get? methodKey).filter fun name => (Method.ofName? name).isNone).toList.map fun name =>
    .unknownMethodName name Method.zlib.name

/-- What is said of values that cannot be used, in the order in which they are read. -/
def complaints (preferences : Preferences) : List Notice :=
  preferences.integerNotices maxOpenKey ++ preferences.methodNotices ++
    preferences.integerNotices syncKey

/-- The values that are used are those that are there. -/
def Normal (preferences : Preferences) : Prop :=
  ∀ entry ∈ preferences.normalEntries, preferences.get? entry.1 = some entry.2

section
variable {preferences other : Preferences}

theorem getString_of_some {key text : Bytes} (found : preferences.get? key = some text) (default : Bytes) :
    preferences.getString key default = text := by
  rw [getString, found, Option.getD_some]

theorem getString_congr {key : Bytes} (same : other.get? key = preferences.get? key) (default : Bytes) :
    other.getString key default = preferences.getString key default := by
  rw [getString, same, getString]

theorem getInteger_congr {key : Bytes} (same : other.get? key = preferences.get? key) (default : Int) :
    other.getInteger key default = preferences.getInteger key default := by
  rw [getInteger, same, getInteger]

theorem integerText_congr {key : Bytes} (same : other.get? key = preferences.get? key) (default : Int) :
    other.integerText key default = preferences.integerText key default := by
  rw [integerText, same, integerText]

theorem integerNotices_congr {key : Bytes} (same : other.get? key = preferences.get? key) :
    other.integerNotices key = preferences.integerNotices key := by
  rw [integerNotices, same, integerNotices]

theorem integerNotices_of_some {key text : Bytes} (found : preferences.get? key = some text) {value : Int}
    (read : integer? text = some value) : preferences.integerNotices key = [] := by
  rw [integerNotices, found, Option.filter_some_neg (by rw [read, Option.isNone_some]), Option.toList_none,
    List.map_nil]

theorem openLimit_congr (same : other.get? maxOpenKey = preferences.get? maxOpenKey) :
    other.openLimit = preferences.openLimit := by
  rw [openLimit, getInteger_congr same, openLimit]

theorem method_congr (same : other.get? methodKey = preferences.get? methodKey) :
    other.method = preferences.method := by
  rw [method, getString_congr same, method]

theorem methodNotices_of_known {method : Method}
    (found : preferences.get? methodKey = some method.name.toUTF8) : preferences.methodNotices = [] := by
  rw [methodNotices, found, Option.filter_some_neg (by rw [Method.ofName?_name, Option.isNone_some]), Option.toList_none,
    List.map_nil]

theorem methodNotices_congr (same : other.get? methodKey = preferences.get? methodKey) :
    other.methodNotices = preferences.methodNotices := by
  rw [methodNotices, same, methodNotices]

end

section
variable (preferences : Preferences)

theorem openLimit_bounds : 1 ≤ preferences.openLimit ∧ preferences.openLimit ≤ maxOpenLimit := by
  unfold openLimit maxOpenLimit
  omega

theorem integer?_openLimit : integer? (Decimal.print preferences.openLimit) = some preferences.openLimit := by
  obtain ⟨low, high⟩ := preferences.openLimit_bounds
  apply integer?_print
  · unfold minInteger
    omega
  · unfold maxOpenLimit at high
    unfold maxInteger
    omega

theorem toNat_maxOpen_configured : preferences.configured.maxOpen.toNat = preferences.openLimit := by
  obtain ⟨low, high⟩ := preferences.openLimit_bounds
  unfold maxOpenLimit at high
  have small : preferences.openLimit.toNat < 2 ^ 32 := by omega
  rw [configured, Nat.toUInt32_eq, UInt32.toNat_ofNat_of_lt' small]
  omega

variable (host : Host)

theorem maxOpen_ends :
    Ends (getOrSetInteger maxOpenKey 64) (preferences, host)
      (fun wanted next => max 1 (min wanted maxOpenLimit) = preferences.openLimit ∧
        Put maxOpenKey (Decimal.print preferences.openLimit) preferences
          (next.1.setInteger maxOpenKey preferences.openLimit) ∧
        next.2 = host.logged (preferences.integerNotices maxOpenKey)) fun _ _ => False := by
  refine (getOrSetInteger_ends host 64).mono ?_ fun _ _ => id
  rintro wanted ⟨asked, noted⟩ ⟨rfl, put, said⟩
  exact ⟨rfl, put.again (put_set asked maxOpenKey _), said⟩

theorem namedMethod_ends {name : Bytes} (found : preferences.get? methodKey = some name) :
    Ends (namedMethod name) (preferences, host)
      (fun tag next => tag = ((Method.ofName? name).getD .zlib).tag ∧
        Put methodKey ((Method.ofName? name).getD .zlib).name preferences next.1 ∧
        next.2 = host.logged preferences.methodNotices)
      fun _ _ => False := by
  unfold namedMethod methodNotices
  rw [found]
  cases known : Method.ofName? name with
  | some method =>
    rw [Option.filter_some_neg (by rw [known, Option.isNone_some])]
    exact ⟨rfl, put_of_get? (Method.eq_name_of_ofName? known ▸ found), rfl⟩
  | none =>
    rw [Option.filter_some_pos (by rw [known, Option.isNone_none])]
    simp only [ends_bind, ends_host, Host.notify, change, ends_modify, ends_pure]
    exact ⟨rfl, put_set preferences methodKey Method.zlib.name, rfl⟩

/-- The name of the default is known, so putting it gives no cause for complaint. -/
theorem methodNotices_of_put {asked : Preferences}
    (put : Put methodKey (preferences.getString methodKey Method.zlib.name) preferences asked) :
    asked.methodNotices = preferences.methodNotices := by
  cases found : preferences.get? methodKey with
  | some name =>
    apply methodNotices_congr
    rw [put.here, getString_of_some found, found]
  | none =>
    have here := put.here
    rw [getString, found, Option.getD_none] at here
    rw [methodNotices_of_known here, methodNotices, found]
    rfl

theorem method_ends :
    Ends (getOrSetString methodKey Method.zlib.name >>= namedMethod) (preferences, host)
      (fun tag next => tag = preferences.method.tag ∧
        Put methodKey preferences.method.name preferences next.1 ∧
        next.2 = host.logged preferences.methodNotices) fun _ _ => False := by
  rw [ends_bind]
  refine (getOrSetString_ends preferences host methodKey _).mono ?_ fun _ _ => id
  rintro name ⟨asked, noted⟩ ⟨rfl, put, rfl⟩
  refine (namedMethod_ends asked noted put.here).mono ?_ fun _ _ => id
  rintro tag next ⟨rfl, named, said⟩
  exact ⟨rfl, put.again named, said.trans (by rw [methodNotices_of_put preferences put])⟩

/-- Reading the configuration puts the values that are used under their keys, complains of those that
cannot be used, and does nothing else. -/
theorem loadConfig_ends :
    Ends loadConfig (preferences, host)
      (fun config next => config = preferences.configured ∧
        Puts preferences.normalEntries preferences next.1 ∧
        next.2 = host.logged preferences.complaints) fun _ _ => False := by
  unfold loadConfig
  rw [ends_bind]
  refine (getOrSetString_ends preferences host directoryKey _).mono ?_ fun _ _ => id
  rintro directory ⟨first, noted⟩ ⟨rfl, put, rfl⟩
  have puts := (Puts.refl preferences).put put
  have same := puts.elsewhere (show maxOpenKey ∉ [directoryKey] by decide +kernel)
  rw [ends_bind]
  refine (maxOpen_ends first noted).mono ?_ fun _ _ => id
  rintro wanted ⟨asked, heard⟩ ⟨limit, put, rfl⟩
  simp only [limit, change, ends_bind, ends_modify]
  generalize asked.setInteger maxOpenKey first.openLimit = second at put ⊢
  rw [integerNotices_congr same]
  rw [openLimit_congr same] at put ⊢
  replace puts := puts.put put
  have same := puts.elsewhere (show methodKey ∉ [maxOpenKey, directoryKey] by decide +kernel)
  refine (ends_bind _ namedMethod _ _ _).1 ((method_ends second _).mono ?_ fun _ _ => id)
  rintro tag ⟨third, heard⟩ ⟨rfl, put, rfl⟩
  rw [method_congr same] at put ⊢
  rw [methodNotices_congr same, Host.logged_append]
  replace puts := puts.put put
  have same := puts.elsewhere (show syncKey ∉ [methodKey, maxOpenKey, directoryKey] by decide +kernel)
  refine (getOrSetInteger_ends _ 1).mono ?_ fun _ _ => id
  rintro sync ⟨last, heard⟩ ⟨rfl, put, rfl⟩
  rw [integerText_congr same] at put
  rw [ends_pure, getInteger_congr same, integerNotices_congr same, Host.logged_append]
  exact ⟨rfl, puts.put put, rfl⟩

end

section
variable {preferences other : Preferences}

theorem Normal.congr (normal : preferences.Normal) (same : ∀ key, other.get? key = preferences.get? key) :
    other.Normal ∧ other.configured = preferences.configured := by
  have entries : other.normalEntries = preferences.normalEntries := by
    rw [normalEntries, normalEntries, integerText_congr (same _), method_congr (same _),
      openLimit_congr (same _), getString_congr (same _)]
  constructor
  · intro entry member
    rw [same]
    exact normal entry (entries ▸ member)
  · rw [configured, configured, getString_congr (same _), openLimit_congr (same _),
      method_congr (same _), getInteger_congr (same _)]

theorem Puts.holds {start settled : Preferences} (puts : Puts start.normalEntries start settled) :
    ∀ entry ∈ start.normalEntries, settled.get? entry.1 = some entry.2 := fun _ =>
  puts.here (show [syncKey, methodKey, maxOpenKey, directoryKey].Nodup by decide +kernel)

theorem Puts.normal {start settled : Preferences} (puts : Puts start.normalEntries start settled) :
    settled.Normal ∧ settled.configured = start.configured := by
  have here := puts.holds
  obtain ⟨sync, name, limit, directory, _⟩ := by simpa only [normalEntries, List.forall_mem_cons] using here
  have readSync : integer? (start.integerText syncKey 1) = some (start.getInteger syncKey 1) :=
    integer?_integerText (by decide) (by decide)
  have sameLimit : settled.openLimit = start.openLimit := by
    have bounds := start.openLimit_bounds
    rw [openLimit, getInteger_of_some limit start.integer?_openLimit]
    omega
  have sameMethod : settled.method = start.method := by
    rw [method, getString_of_some name, Method.ofName?_name, Option.getD_some]
  have sameDirectory : settled.getString directoryKey "world/region" =
      start.getString directoryKey "world/region" := getString_of_some directory _
  have entries : settled.normalEntries = start.normalEntries := by
    rw [normalEntries, normalEntries, sameLimit, sameMethod, sameDirectory,
      integerText_of_some sync readSync]
  constructor
  · intro entry member
    exact here entry (entries ▸ member)
  · rw [configured, configured, sameLimit, sameMethod, sameDirectory, getInteger_of_some sync readSync]

theorem Normal.complaints_eq_nil (normal : preferences.Normal) : preferences.complaints = [] := by
  obtain ⟨sync, name, limit, _, _⟩ := by
    simpa only [Normal, normalEntries, List.forall_mem_cons] using normal
  have readSync : integer? (preferences.integerText syncKey 1) = some (preferences.getInteger syncKey 1) :=
    integer?_integerText (by decide) (by decide)
  rw [complaints, integerNotices_of_some limit preferences.integer?_openLimit, methodNotices_of_known name,
    integerNotices_of_some sync readSync]
  rfl

theorem Normal.loadConfig (normal : preferences.Normal) (host : Host) :
    ∃ again, Preferences.loadConfig (preferences, host) = .ok preferences.configured (again, host) ∧
      ∀ key, again.get? key = preferences.get? key := by
  obtain ⟨_, ⟨again, heard⟩, ran, rfl, puts, said⟩ := (loadConfig_ends preferences host).exists_ok
  rw [normal.complaints_eq_nil] at said
  obtain rfl : heard = host := said
  exact ⟨again, ran, puts.unchanged normal⟩

theorem newline_not_mem_print (value : Int) : newline ∉ (Decimal.print value).list := fun member =>
  Decimal.ne_of_mem_signed member (by decide) (by decide) rfl

theorem storable_of_mem_normalEntries (storable : preferences.values.Storable) :
    ∀ entry ∈ preferences.normalEntries, Storable entry.1 entry.2 := by
  have kept {key value : Bytes} (found : preferences.get? key = some value) : newline ∉ value.list :=
    (storable key value found).value
  simp only [normalEntries, List.forall_mem_cons]
  refine ⟨⟨by decide +kernel, by decide +kernel, ?_⟩, ⟨by decide +kernel, by decide +kernel, ?_⟩,
    ⟨by decide +kernel, by decide +kernel, newline_not_mem_print _⟩,
    ⟨by decide +kernel, by decide +kernel, ?_⟩, nofun⟩
  · rw [integerText]
    cases usable : (preferences.get? syncKey).filter fun text => (integer? text).isSome with
    | none => exact newline_not_mem_print 1
    | some text => exact kept (Option.filter_eq_some_iff.1 usable).1
  · cases preferences.method <;> decide +kernel
  · rw [getString]
    cases found : preferences.get? directoryKey with
    | none => decide +kernel
    | some directory => exact kept found

end

theorem storable_of_load {path : Bytes} {preferences : Preferences} {host after : Host}
    (loaded : load path host = .ok preferences after) : preferences.values.Storable := by
  have ends : Ends (load path) host (fun loaded _ => loaded.values.Storable) fun _ _ => True := by
    simp only [load, ends_bind, ends_get]
    split
    · next text _ => exact storable_parse text
    · intro key value found
      cases Std.TreeMap.getElem?_emptyc.symm.trans found
  exact (ends_of_eq_ok loaded).1 ends

/-- Whatever the settings are, reading the configuration from them gives one that can be used, in which at
least one and at most 65536 regions stay open and chunks are saved with a method that there is. The values
that are used are put under their keys, those that cannot be used are complained of, and no other value is
changed. Reading the configuration once more gives the same one, changes no value and logs nothing. That
goes for settings that came from a file also after they were saved and loaded again. -/
theorem loadConfig_settles (preferences : Preferences) (host : Host) :
    ∃ settled noted, loadConfig (preferences, host) = .ok preferences.configured (settled, noted) ∧
      (∀ entry ∈ preferences.normalEntries, settled.get? entry.1 = some entry.2) ∧
      noted = host.logged preferences.complaints ∧
      (1 ≤ preferences.configured.maxOpen.toNat ∧ preferences.configured.maxOpen.toNat ≤ 65536) ∧
      (∃ method : Method, preferences.configured.method = method.tag) ∧
      settled.path = preferences.path ∧
      (∀ key, key ≠ directoryKey → key ≠ maxOpenKey → key ≠ methodKey → key ≠ syncKey →
        settled.get? key = preferences.get? key) ∧
      (∀ later, ∃ again, loadConfig (settled, later) = .ok preferences.configured (again, later) ∧
        ∀ key, again.get? key = settled.get? key) ∧
      ∀ path opening opened, load path opening = .ok preferences opened →
        ∀ before after : Host, before.Sound → save settled before = .ok true after →
          ∃ reloaded, load settled.path after = .ok reloaded after ∧
            (∀ key, reloaded.get? key = settled.get? key) ∧
            ∀ later, ∃ again, loadConfig (reloaded, later) = .ok preferences.configured (again, later) ∧
              ∀ key, again.get? key = reloaded.get? key := by
  obtain ⟨_, ⟨settled, noted⟩, ran, rfl, puts, said⟩ := (loadConfig_ends preferences host).exists_ok
  obtain ⟨normal, same⟩ := puts.normal
  have bounds := preferences.openLimit_bounds
  rw [← toNat_maxOpen_configured, maxOpenLimit] at bounds
  refine ⟨settled, noted, ran, puts.holds, said, by omega, ⟨preferences.method, rfl⟩, puts.path,
    ?_, ?_, ?_⟩
  · intro key notDirectory notMaxOpen notMethod notSync
    refine puts.elsewhere (show key ∉ [syncKey, methodKey, maxOpenKey, directoryKey] from ?_)
    simp [notDirectory, notMaxOpen, notMethod, notSync]
  · exact fun later => same ▸ normal.loadConfig later
  · intro path opening opened loaded before after sound saved
    have stored := storable_of_load loaded
    have storable : settled.values.Storable := fun key value found =>
      (puts.origin found).elim (storable_of_mem_normalEntries stored _) (stored key value)
    have whole := Host.readWhole_of_replaceFile _ sound (save_eq_ok_true_iff.1 saved)
    let reloaded : Preferences := ⟨settled.path, parse (print settled.values)⟩
    have kept : ∀ key, reloaded.get? key = settled.get? key := getElem?_parse_print storable
    obtain ⟨normalAgain, sameAgain⟩ := normal.congr kept
    exact ⟨_, load_of_readWhole whole, kept,
      fun later => (sameAgain.trans same) ▸ normalAgain.loadConfig later⟩

/-- A file with a number that does not fit, an unknown method and a value of something else. What is
settled from it is saved where there was no file. -/
theorem loadConfig_settles_broken :
    let text : Bytes := "g_region_max_open -99999999999999999999\ng_region_compression lz4\nseed 7"
    ∃ host preferences settled noted saved reloaded again,
      host.readWhole? "s.cfg" = some text ∧ load "s.cfg" host = .ok preferences host ∧
      loadConfig (preferences, host) = .ok {} (settled, noted) ∧
      settled.get? maxOpenKey = some ("64" : String).toUTF8 ∧
      settled.get? methodKey = some ("zlib" : String).toUTF8 ∧
      noted = host.logged [.badInteger "-99999999999999999999" maxOpenKey,
        .unknownMethodName "lz4" "zlib"] ∧
      settled.get? "seed" = some ("7" : String).toUTF8 ∧
      save settled Host.initial = .ok true saved ∧ load settled.path saved = .ok reloaded saved ∧
      loadConfig (reloaded, saved) = .ok {} (again, saved) ∧
      ∀ key, again.get? key = settled.get? key := by
  intro text
  have place : Host.initial.tree.filePlace "s.cfg" = .ok (⟨Disk.Tree.home, "s.cfg", false⟩, none) := rfl
  obtain ⟨host, _, leads, readable⟩ := (Host.sound_initial.leads_withFile place).replaceFile text
  have loaded := load_of_readWhole readable
  obtain ⟨settled, noted, ran, holds, said, _, _, path, others, _, reload⟩ :=
    loadConfig_settles ⟨"s.cfg", parse text⟩ host
  have entries : normalEntries ⟨"s.cfg", parse text⟩ = [(syncKey, ("1" : String).toUTF8),
      (methodKey, ("zlib" : String).toUTF8), (maxOpenKey, ("64" : String).toUTF8),
      (directoryKey, ("world/region" : String).toUTF8)] := by decide +kernel
  rw [entries] at holds
  simp only [List.forall_mem_cons] at holds
  have complained : complaints ⟨"s.cfg", parse text⟩ = [.badInteger "-99999999999999999999" maxOpenKey,
      .unknownMethodName "lz4" "zlib"] := by decide +kernel
  rw [complained] at said
  have config : configured ⟨"s.cfg", parse text⟩ = {} := by decide +kernel
  have seed : (parse text)[("seed" : String).toUTF8]? = some ("7" : String).toUTF8 := by decide +kernel
  have other := others "seed" (by decide +kernel) (by decide +kernel) (by decide +kernel) (by decide +kernel)
  obtain ⟨saved, done, _⟩ := (Host.sound_initial.leads_withFile place).replaceFile (print settled.values)
  have saves : save settled Host.initial = .ok true saved := by
    rw [save_eq_ok_true_iff, path, Host.replaceFile_of_absent _ place (by decide), done]
  obtain ⟨reloaded, reloads, kept, same⟩ := reload _ _ _ loaded _ _ Host.sound_initial saves
  obtain ⟨again, ranAgain, unchanged⟩ := same saved
  rw [config] at ran ranAgain
  exact ⟨host, _, settled, noted, saved, reloaded, again, readable, loaded, ran, holds.2.2.1, holds.2.1,
    said, other.trans seed, saves, reloads, ranAgain, fun key => (unchanged key).trans (kept key)⟩

end Preferences
end RegionStore
