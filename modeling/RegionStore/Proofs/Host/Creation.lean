import RegionStore.Host.Files
import RegionStore.Proofs.Disk.Turns
import RegionStore.Proofs.Host.Opening
import RegionStore.Proofs.Region.History
import RegionStore.Proofs.Region.Listing

/-!
Making a region file that fails. The header of a new file is one write of zeros, and whatever has got
through of it stays in the file. Opening the file again works if that is nothing or all of the header;
a part of it is taken for a region file that is too short, as often as it is tried.
-/

set_option autoImplicit false

namespace RegionStore

open Disk

namespace Disk

theorem Device.Wrote.zeros {before after : Device} {count limit : Nat}
    (wrote : before.Wrote 0 ((Bytes.zeros limit).extract 0 count) after)
    (empty : before.content.size = 0) : after.content.Zeros (min count limit) := by
  constructor
  · rw [wrote.content.size, Content.size_write, ByteArray.size_extract, Bytes.size_zeros]
    split <;> omega
  · intro position
    rw [wrote.content.byte, Content.byteAt_write, Bytes.get_extract, Bytes.get_zeros, ite_self,
      (Content.zeros_of_empty empty).zero, ite_self]

/-- No write is cut short: one that is not refused gets through. -/
structure Surroundings.Undivided (around : Surroundings) : Prop where
  ceiling : around.ceiling = none
  whole : (around.turns .writing).All fun turn => ∀ count, turn ≠ .short count

theorem Device.Continues.undivided {before after : Device} (continues : before.Continues after)
    (undivided : before.around.Undivided) : after.around.Undivided :=
  ⟨continues.ceiling.trans undivided.ceiling, continues.ahead .writing _ nofun undivided.whole⟩

theorem Surroundings.Undivided.eq_of_attemptWrite {device next : Device}
    (undivided : device.around.Undivided) {position done count : Nat} {data : Bytes}
    (attempt : device.attemptWrite position data done = (.ok count, next)) :
    count = data.size - done := by
  have got : device.writeOutcome (device.turns .writing).next.1 (position + done)
      (data.size - done) = .ok count := congrArg Prod.fst attempt
  have notShort := (Turns.all_next undivided.whole nofun).1
  change ∀ count, (device.turns .writing).next.1 ≠ .short count at notShort
  generalize (device.turns .writing).next.1 = turn at got notShort
  generalize data.size - done = size at got ⊢
  have allowed : turn.allowance size = size := by
    cases turn with
    | undisturbed => rfl
    | refused reason => rfl
    | short limit => exact absurd rfl (notShort limit)
  unfold Device.writeOutcome at got
  rw [undivided.ceiling] at got
  split at got
  · cases got
  · simp only [allowed] at got
    repeat' split at got
    all_goals cases got
    · next nothing => exact nothing.symm
    · rfl

/-- Without short turns a write that fails has written nothing. -/
theorem Device.writeAt_undivided (position : Nat) (data : Bytes) (device : Device) :
    Ends (writeAt position data) device (fun _ _ => True)
      fun _ next => device.around.Undivided → device.Keeps next := by
  unfold writeAt Ends
  generalize 0 = done
  fun_induction writeFrom position data done device with
  | case1 done device finished => trivial
  | case2 done device unfinished next attempt ih =>
    obtain ⟨_, _, keeps⟩ | ⟨_, impossible, _⟩ := attemptWrite_cases attempt
    · exact Ends.mono ih (fun _ _ => id) fun _ _ later undivided =>
        keeps.trans (later (keeps.continues.undivided undivided))
    · cases impossible
  | case3 done device unfinished reason next notInterrupted attempt =>
    obtain ⟨_, _, keeps⟩ | ⟨_, impossible, _⟩ := attemptWrite_cases attempt
    · exact fun _ => keeps
    · cases impossible
  | case4 done device unfinished next attempt =>
    intro undivided
    have whole := undivided.eq_of_attemptWrite attempt
    omega
  | case5 done device unfinished count next attempt some ih =>
    by_cases undivided : device.around.Undivided
    · have whole := undivided.eq_of_attemptWrite attempt
      rw [writeFrom, if_pos (by omega)]
      trivial
    · exact Ends.mono ih (fun _ _ => id) fun _ _ _ whole => absurd whole undivided

end Disk

namespace Region

/-- What a failed attempt to make the region file leaves: a beginning of the header, which is nothing or
all of it unless a write was cut short. -/
structure Unfinished (file : Device) (count : Nat) (after : Device) : Prop where
  continues : file.Continues after
  zeros : after.content.Zeros count
  atMost : count ≤ headerSize
  whole : file.around.Undivided → count = 0 ∨ count = headerSize

theorem Unfinished.keeps {file after again : Device} {count : Nat} (unfinished : Unfinished file count after)
    (keeps : after.Keeps again) : Unfinished file count again := by
  refine ⟨unfinished.continues.trans keeps.continues, ?_, unfinished.atMost, unfinished.whole⟩
  rw [keeps.content]
  exact unfinished.zeros

theorem readTables_keeps (file : Device) (isFile : file.full = false) :
    Ends readTables file (fun _ after => file.Keeps after) fun _ after => file.Keeps after := by
  simp only [readTables, ends_bind]
  refine Ends.mono (Device.readAt_ends 0 headerSize file isFile) ?_ fun _ _ failed => failed.1
  rintro header after ⟨keeps, _⟩
  by_cases short : header.size ≠ headerSize
  · simp only [if_pos short, ends_bind, ends_get, ends_throw]
    exact keeps
  · simp only [if_neg short, ends_pure]
    exact keeps

section
variable {file : Device} (empty : file.content.size = 0)
include empty

theorem prepare_ends_of_empty : Ends prepare file (fun _ after => Unfinished file headerSize after)
    fun _ after => ∃ count, Unfinished file count after := by
  have nothing {after : Device} (keeps : file.Keeps after) : Unfinished file 0 after :=
    ⟨keeps.continues, keeps.content ▸ Content.zeros_of_empty empty, Nat.zero_le _, fun _ => .inl rfl⟩
  simp only [prepare, ends_bind, ends_get]
  refine Ends.mono (Device.measure_ends file) ?_ fun _ after failed => ⟨0, nothing failed.1⟩
  rintro _ measured ⟨keeps, rfl⟩
  have emptyNow : measured.content.size = 0 := keeps.content ▸ empty
  have size : (Bytes.zeros headerSize).size = headerSize := Bytes.size_zeros _
  simp only [if_pos empty, ends_bind, ends_pure]
  refine Ends.mono ((Device.writeAt_ends 0 (Bytes.zeros headerSize) measured).and
    (Device.writeAt_undivided 0 (Bytes.zeros headerSize) measured)) ?_ ?_
  · rintro _ written ⟨wrote, _⟩
    rw [← ByteArray.extract_zero_size (b := Bytes.zeros headerSize), size] at wrote
    have finished : Unfinished file headerSize written :=
      ⟨keeps.continues.trans wrote.continues, wrote.zeros emptyNow, Nat.le_refl _, fun _ => .inr rfl⟩
    refine Ends.mono (Device.sync_ends written) ?_ fun _ synced failed => ⟨_, finished.keeps failed.1⟩
    exact fun _ synced keepsSynced =>
      finished.keeps (keepsSynced.trans (Device.keeps_notify (.fileCreated measured.path) synced))
  · rintro _ after ⟨⟨⟨count, short, wrote⟩, _⟩, whole⟩
    by_cases undivided : file.around.Undivided
    · exact ⟨0, nothing (keeps.trans (whole (keeps.continues.undivided undivided)))⟩
    · exact ⟨min count headerSize, keeps.continues.trans wrote.continues, wrote.zeros emptyNow,
        Nat.min_le_right count headerSize, fun whole => absurd whole undivided⟩

theorem load_ends_of_empty (position : RegionPos) (sync : Bool) (isFile : file.full = false) :
    Ends (load position sync) file (fun _ _ => True)
      fun _ after => ∃ count, Unfinished file count after := by
  simp only [load, ends_bind, ends_get, ends_pure]
  refine Ends.mono (prepare_ends_of_empty empty) (fun sectors ready unfinished => ?_) fun _ _ => id
  refine Ends.mono (readTables_keeps ready (unfinished.continues.full.trans isFile)) ?_
    fun _ read keeps => ⟨_, unfinished.keeps keeps⟩
  intro tables read _
  generalize tables.survey sectors = survey
  refine Ends.mono (forM_notify_ends survey.dropped _ read) ?_ fun _ _ => False.elim
  intro _ noted _
  rw [Device.notify, ends_modify]
  trivial

end

theorem load_of_tooShort (position : RegionPos) (sync : Bool) {file : Device}
    (untroubled : file.Untroubled) (nonempty : file.content.size ≠ 0)
    (short : file.content.size < headerSize) :
    Ends (load position sync) file (fun _ _ => False) fun failure after =>
      failure = .fileTooShort file.path file.content.size ∧ file.Keeps after := by
  simp only [load, prepare, ends_bind, ends_get]
  refine Ends.mono (Device.measure_ends file) ?_ fun _ _ failed => absurd untroubled failed.2
  rintro size measured ⟨keeps, rfl⟩
  rw [if_neg nonempty, if_pos short, ends_bind, ends_throw, keeps.continues.path]
  exact ⟨rfl, keeps⟩

theorem load_of_cut {file : Device} (empty : file.content.size = 0) (isFile : file.full = false)
    (unlimited : file.around.ceiling = none)
    (measured : (file.turns .measuring).next.1.refusal? = none) {count : Nat}
    (cut : (file.turns .writing).Cut count) (short : count < headerSize) (position : RegionPos)
    (sync : Bool) :
    Ends (load position sync) file (fun _ _ => False) fun _ after =>
      file.Continues after ∧ after.content.Zeros count := by
  have size : (Bytes.zeros headerSize).size = headerSize := Bytes.size_zeros _
  have continues := Device.continues_next file .measuring
  have turns := (Device.leaves_setTurns file .measuring (file.turns .measuring).next.2).others .writing
    (by decide)
  have measures : Device.measure file = .ok file.content.size
      (file.setTurns .measuring (file.turns .measuring).next.2) := by
    simp only [Device.measure, measured]
    rfl
  simp only [load, prepare, ends_bind, ends_get]
  rw [ends_of_eq_ok measures, if_pos empty, ends_bind]
  refine Ends.mono (Device.writeAt_of_cut (continues.full.trans isFile)
    (continues.ceiling.trans unlimited) (by rw [size]; decide) (turns ▸ cut) (by rwa [size]))
    (fun _ _ => False.elim) ?_
  rintro _ after ⟨wrote, _⟩
  have zeros := Device.Wrote.zeros wrote empty
  rw [Nat.min_eq_left (Nat.le_of_lt short)] at zeros
  exact ⟨continues.trans wrote.continues, zeros⟩

end Region

namespace Host

/-- What a failed creation has left at a path: nothing, or a file with so many zeros. -/
inductive Left (path : Bytes) (count : Nat) (host : Host) : Prop where
  | nothing (zero : count = 0) (sound : host.Sound) {place : Tree.Place}
    (found : host.tree.filePlace path = .ok (place, none))
  | file {file : Nat} (leads : host.Leads path file) (zeros : (host.content file).Zeros count)

theorem Leads.readWhole {path : Bytes} {file : Nat} {host : Host} (leads : host.Leads path file) :
    host.readWhole? path = some ((host.content file).read 0 (host.content file).size) := by
  obtain ⟨place, found⟩ := leads.place
  rw [readWhole?, Tree.look_of_filePlace found]

theorem Left.readWhole {path : Bytes} {count : Nat} {host : Host} (left : Left path count host) :
    host.readWhole? path = some (Bytes.zeros count) ∨ count = 0 ∧ host.readWhole? path = none := by
  cases left with
  | nothing zero sound found =>
    right
    rw [readWhole?, Tree.look_of_filePlace found]
    exact ⟨zero, rfl⟩
  | file leads zeros =>
    left
    rw [leads.readWhole, zeros.read]

theorem openFile_left (path : Bytes) {host : Host} (sound : host.Sound) (vacant : host.Vacant path) :
    Ends (openFile path) host
      (fun handle opened => ∃ file, handle = ⟨path, some file⟩ ∧ opened.Leads path file ∧
        (opened.content file).size = 0 ∧ opened.around = host.afterOpening)
      fun _ after => Left path 0 after := by
  cases refused : (host.around.turns .opening).settle.refusal with
  | none =>
    obtain ⟨file, opened, ran, leads, empty, around⟩ := vacant.openFile refused sound
    rw [ends_of_eq_ok ran]
    exact ⟨file, rfl, leads, empty, around⟩
  | some reason =>
    simp only [Ends, openFile, refused]
    rcases vacant with ⟨place, found⟩ | ⟨place, file, found, empty⟩
    · exact .nothing rfl ⟨sound.tree, sound.files⟩ found
    · have leads := sound.leads found
      exact .file ⟨leads.place, leads.inside⟩ (Content.zeros_of_empty empty)

theorem Leads.close {path : Bytes} {file : Nat} {host : Host} (leads : host.Leads path file)
    {failed : Device} (continues : (host.device ⟨path, some file⟩).Continues failed) :
    Ends (onDevice ⟨path, some file⟩ Device.close) (host.keep ⟨path, some file⟩ failed)
      (fun _ after => after.Leads path file ∧ after.content file = failed.content) fun _ _ => False := by
  have leadsFailed := leads.keep ⟨path, some file⟩ failed
  have same := device_keep leads.inside continues
  rw [ends_onDevice, same]
  refine Ends.mono (Device.close_ends failed) (fun _ closed keeps => ?_) fun _ _ => False.elim
  have sameClosed := device_keep leadsFailed.inside (same.symm ▸ keeps.continues)
  exact ⟨leadsFailed.keep _ closed, (congrArg Device.content sameClosed).trans keeps.content⟩

theorem undivided_afterOpening {host : Host} (undivided : host.around.Undivided) :
    host.afterOpening.Undivided :=
  (Device.continues_setTurns ⟨ByteArray.empty, Content.empty, false, host.around⟩ .opening
    fun _ _ all => Turns.all_settle all).undivided undivided

theorem openRegion_left (path : Bytes) (position : RegionPos) (sync : Bool) {host : Host}
    (sound : host.Sound) (vacant : host.Vacant path) :
    Ends (openRegion path position sync) host (fun _ _ => True) fun _ after =>
      ∃ count ≤ headerSize, Left path count after ∧
        (host.around.Undivided → count = 0 ∨ count = headerSize) := by
  unfold openRegion
  rw [ends_bind]
  refine Ends.mono (openFile_left path sound vacant) ?_ fun _ after left =>
    ⟨0, Nat.zero_le _, left, fun _ => .inl rfl⟩
  rintro _ opened ⟨file, rfl, leads, empty, around⟩
  have loads := @Region.load_ends_of_empty (opened.device ⟨path, some file⟩) empty position sync rfl
  rw [ends_tryCatch, ends_bind, ends_onDevice]
  refine loads.mono (fun _ _ _ => trivial) ?_
  rintro _ failed ⟨count, unfinished⟩
  rw [ends_bind]
  refine (leads.close unfinished.continues).mono (fun _ closed kept => ?_) fun _ _ => False.elim
  have undivided (whole : host.around.Undivided) : opened.around.Undivided :=
    around ▸ undivided_afterOpening whole
  exact ⟨count, unfinished.atMost, .file kept.1 (kept.2 ▸ unfinished.zeros),
    fun whole => unfinished.whole (undivided whole)⟩

structure Empty (path : Bytes) (position : RegionPos) (number : Nat) (host : Host) : Prop where
  region : ∃ entry, host.region? number = some entry ∧ entry.region.position = position ∧
    entry.region.count = 0 ∧ entry.region.space.sectors = headerSectors
  file : host.readWhole? path = some (Bytes.zeros headerSize)

/-- Opening a file that has nothing or all of a header. -/
theorem openRegion_of_blank {path : Bytes} {file : Nat} {host opened : Host}
    (ran : openFile path host = .ok ⟨path, some file⟩ opened) (leads : opened.Leads path file)
    (untroubled : opened.around.Untroubled) {count : Nat} (zeros : (opened.content file).Zeros count)
    (blank : count = 0 ∨ count = headerSize) (position : RegionPos) (sync : Bool) :
    ∃ number again, openRegion path position sync host = .ok number again ∧
      Empty path position number again := by
  have isBlank : Region.Blank (opened.device ⟨path, some file⟩) :=
    ⟨rfl, zeros.size ▸ blank, zeros.zero⟩
  have admissible : Region.Admissible (opened.content file).size := by
    rw [zeros.size]
    rcases blank with rfl | rfl
    · exact .inl rfl
    · decide
  obtain ⟨number, region, again, openRan, isOpen, loaded⟩ :=
    openRegion_of_openFile ran leads untroubled admissible position sync
  have fresh := loaded.fresh isBlank
  refine ⟨number, again, openRan, ⟨_, isOpen.region, loaded.position, ?_, ?_⟩, ?_⟩
  · rw [Region.count, Tables.count_eq, List.countP_eq_zero]
    intro slot _
    simp only [fresh.absent slot, ne_eq, not_true_eq_false, decide_false, Bool.false_eq_true,
      not_false_eq_true]
  · exact UInt32.toNat_inj.1 fresh.sectors
  · rw [isOpen.leads.readWhole]
    exact congrArg some (loaded.zeros isBlank).read

theorem openRegion_of_part {path : Bytes} {file : Nat} {host : Host} (leads : host.Leads path file)
    (untroubled : host.around.Untroubled) {count : Nat} (zeros : (host.content file).Zeros count)
    (nonempty : count ≠ 0) (short : count < headerSize) (position : RegionPos) (sync : Bool) :
    ∃ again, openRegion path position sync host = .error (.fileTooShort path count) again ∧
      Left path count again := by
  obtain rfl := zeros.size
  have ran := openFile_of_leads untroubled leads
  have calm : Device.Untroubled ⟨path, host.content file, false, host.afterOpening⟩ :=
    ⟨rfl, untroubled_afterOpening untroubled⟩
  have ends : Ends (openRegion path position sync) host (fun _ _ => False) fun failure again =>
      failure = .fileTooShort path (host.content file).size ∧
        Left path (host.content file).size again := by
    unfold openRegion
    rw [ends_bind, ends_of_eq_ok ran, ends_tryCatch, ends_bind, ends_onDevice]
    refine Ends.mono (Region.load_of_tooShort position sync calm nonempty short) (fun _ _ => False.elim) ?_
    rintro _ failed ⟨rfl, keeps⟩
    have opened : ({ host with around := host.afterOpening } : Host).Leads path file :=
      ⟨leads.place, leads.inside⟩
    rw [ends_bind]
    refine (opened.close keeps.continues).mono (fun _ closed kept => ⟨rfl, ?_⟩) fun _ _ => False.elim
    exact .file kept.1 (kept.2 ▸ keeps.content.symm ▸ zeros)
  obtain ⟨_, again, failed, rfl, left⟩ := ends.exists_error
  exact ⟨again, failed, left⟩

/-- For every path to nothing or to an empty file and every schedule of failing and partial calls: if
making the region file fails, a number of zeros is left of the header, none or all of them unless a write
was cut short. When the same is tried again without failures, it gives an empty region if none or all of
the header was there. Otherwise the file is refused as too short and stays as it is. -/
theorem retry_of_failed_creation (path : Bytes) (position : RegionPos) (sync : Bool) {host after : Host}
    (sound : host.Sound) (vacant : host.Vacant path) {failure : Failure}
    (failed : openRegion path position sync host = .error failure after) :
    ∃ count ≤ headerSize,
      (after.readWhole? path = some (Bytes.zeros count) ∨ count = 0 ∧ after.readWhole? path = none) ∧
      (host.around.Undivided → count = 0 ∨ count = headerSize) ∧
      ∀ (later : Surroundings) (sync : Bool), later.Untroubled →
        if count = 0 ∨ count = headerSize then
          ∃ number again, openRegion path position sync { after with around := later } = .ok number again ∧
            Empty path position number again
        else
          ∃ again, openRegion path position sync { after with around := later } =
              .error (.fileTooShort path count) again ∧
            again.readWhole? path = some (Bytes.zeros count) := by
  obtain ⟨count, atMost, left, whole⟩ :=
    (ends_of_eq_error failed).1 (openRegion_left path position sync sound vacant)
  refine ⟨count, atMost, left.readWhole, whole, fun later sync calm => ?_⟩
  have accepted : (later.turns .opening).settle.refusal = none := Turns.refusal_settle calm.schedule.opening
  split
  · next blank =>
    cases left with
    | nothing zero soundAfter found =>
      have ready : ({ after with around := later } : Host).Sound := ⟨soundAfter.tree, soundAfter.files⟩
      obtain ⟨file, opened, ran, leads, empty, around⟩ :=
        Vacant.openFile accepted ready (.inl ⟨_, found⟩)
      have ready : opened.around.Untroubled := around ▸ untroubled_afterOpening calm
      exact openRegion_of_blank ran leads ready (Content.zeros_of_empty empty) (.inl rfl) position sync
    | file leads zeros =>
      have again : ({ after with around := later } : Host).Leads path _ := ⟨leads.place, leads.inside⟩
      exact openRegion_of_blank (openFile_of_leads calm again) ⟨again.place, again.inside⟩
        (untroubled_afterOpening calm) zeros blank position sync
  · next part =>
    cases left with
    | nothing zero _ _ => exact absurd (.inl zero) part
    | file leads zeros =>
      have again : ({ after with around := later } : Host).Leads path _ := ⟨leads.place, leads.inside⟩
      have short : count < headerSize := Nat.lt_of_le_of_ne atMost fun same => part (.inr same)
      obtain ⟨left, ran, stays⟩ := openRegion_of_part again calm zeros (fun zero => part (.inl zero)) short
        position sync
      refine ⟨left, ran, stays.readWhole.resolve_right fun both => part (.inl both.1)⟩

/-- A creation of which a hundred bytes get through: the file cannot be opened afterwards. -/
theorem retry_of_failed_creation_short :
    let broken : Surroundings := { Surroundings.initial with schedule :=
      { Schedule.calm with writing := [⟨.short 100, 1⟩, ⟨.refused ⟨5⟩, 1⟩] } }
    ∃ failure after, openRegion "r.0.0.mca" ⟨0, 0⟩ true { Host.initial with around := broken } =
        .error failure after ∧
      ∃ again, openRegion "r.0.0.mca" ⟨0, 0⟩ true { after with around := Surroundings.initial } =
          .error (.fileTooShort "r.0.0.mca" 100) again ∧
        again.readWhole? "r.0.0.mca" = some (Bytes.zeros 100) := by
  intro broken
  have sound : ({ Host.initial with around := broken } : Host).Sound :=
    ⟨sound_initial.tree, sound_initial.files⟩
  have vacant : ({ Host.initial with around := broken } : Host).Vacant "r.0.0.mca" :=
    .inl ⟨⟨Tree.home, "r.0.0.mca", false⟩, rfl⟩
  obtain ⟨file, opened, ran, leads, empty, around⟩ := vacant.openFile rfl sound
  have isAround : (opened.device ⟨"r.0.0.mca", some file⟩).around = _ := around
  have cut : ((opened.device ⟨"r.0.0.mca", some file⟩).turns .writing).Cut 100 := by
    rw [Device.turns, isAround]
    exact ⟨by decide, _, _, _, rfl, rfl, by decide⟩
  have ends : Ends (openRegion "r.0.0.mca" ⟨0, 0⟩ true) { Host.initial with around := broken }
      (fun _ _ => False) fun _ after => after.readWhole? "r.0.0.mca" = some (Bytes.zeros 100) := by
    unfold openRegion
    rw [ends_bind, ends_of_eq_ok ran, ends_tryCatch, ends_bind, ends_onDevice]
    have measured : ((opened.device ⟨"r.0.0.mca", some file⟩).turns .measuring).next.1.refusal? = none := by
      rw [Device.turns, isAround]
      rfl
    refine Ends.mono (Region.load_of_cut empty rfl (isAround ▸ rfl) measured cut (by decide) ⟨0, 0⟩ true)
      (fun _ _ => False.elim) ?_
    rintro _ failed ⟨continues, zeros⟩
    rw [ends_bind]
    refine (leads.close continues).mono (fun _ closed kept => ?_) fun _ _ => False.elim
    exact (Left.file kept.1 (kept.2 ▸ zeros)).readWhole.resolve_right fun both => nomatch both.1
  obtain ⟨failure, after, failed, content⟩ := ends.exists_error
  obtain ⟨count, _, found, _, retry⟩ := retry_of_failed_creation _ _ _ sound vacant failed
  obtain rfl : count = 100 := by
    rw [content] at found
    obtain same := found.resolve_right fun both => nomatch both.2
    have size := congrArg ByteArray.size (Option.some.inj same)
    rwa [Bytes.size_zeros, Bytes.size_zeros, eq_comm] at size
  exact ⟨failure, after, failed, retry Surroundings.initial true Region.untroubled_initial⟩

end Host

end RegionStore
