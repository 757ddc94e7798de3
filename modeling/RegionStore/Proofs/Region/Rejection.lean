import RegionStore.Proofs.Region.Addressing
import RegionStore.Proofs.Region.Growth
import RegionStore.Proofs.Region.Requests
import RegionStore.Proofs.Region.Retrieval
import RegionStore.Proofs.Region.Touching

/-!
Commands that are rejected: one about a chunk of another region, and a save also for a tag without a
method, for a record of too many sectors, or if no table word could tell where the record is. All of
this is decided from the region before the file is touched, so a rejected command can be struck out of
a run.
-/

set_option autoImplicit false

namespace RegionStore

open Disk

namespace FreeSpace

variable {space : FreeSpace} {file : Device} {record : Bytes} {old : Option Extent}

theorem place_of_declined {failure : Failure}
    (declined : Declined space old (sectorsOf record.size) file.path failure) (sync : Bool) :
    place record old sync (space, file) = .error failure (space, file) := by
  apply Ends.eq_error
  cases declined with
  | large tooLarge =>
    unfold place
    simp only [if_pos tooLarge, ends_bind, ends_throw, and_self]
  | full small moves noRoom beyond =>
    have nowhere : space.allocate? (sectorsOf record.size).toUInt32 = none :=
      allocate?_eq_none_iff.2 ⟨noRoom, beyond⟩
    rw [ends_place_of_moving small moves]
    unfold placeAnew
    simp only [ends_bind, ends_get, nowhere, ends_throw, and_self]

theorem place_fails (space : FreeSpace) (file : Device) (record : Bytes) (old : Option Extent)
    (sync : Bool) :
    Ends (place record old sync) (space, file) (fun _ _ => True)
      fun failure _ => failure.IsCall ∨
        Declined space old (sectorsOf record.size) file.path failure := by
  by_cases large : maxExtentSectors < sectorsOf record.size
  · rw [Ends, place_of_declined (.large large)]
    exact .inr (.large large)
  have small := Nat.le_of_not_lt large
  by_cases moves : ∀ place, old = some place → place.count.toNat < sectorsOf record.size
  · rw [ends_place_of_moving small moves]
    cases chosen : space.allocate? (sectorsOf record.size).toUInt32 with
    | none =>
      obtain ⟨noRoom, beyond⟩ := allocate?_eq_none_iff.1 chosen
      unfold placeAnew
      simp only [ends_bind, ends_get, chosen, ends_throw]
      exact .inr (.full small moves noRoom beyond)
    | some choice =>
      exact (placeAnew_reports chosen file record sync).mono (fun _ _ _ => trivial) fun _ _ => .inl
  · push Not at moves
    obtain ⟨extent, rfl, fits⟩ := moves
    rw [ends_place_of_staying small fits]
    exact (writeRecord_reports extent record sync file).mono (fun _ _ _ => trivial)
      fun _ _ reported => .inl reported.1

end FreeSpace

namespace Region

/-- What an open region is told to do. Any question is about the region alone. -/
inductive Command where
  | change (change : Change)
  | load (chunk : ChunkPos)
  | ask (question : Region → Except Failure Answer)

section
variable [Codec]

namespace Command

def run : Command → OnRegion Answer
  | change made => (fun _ => .done) <$> made.run
  | load chunk => .payload <$> loadChunk chunk
  | ask question => Region.ask question

def chunk? : Command → Option ChunkPos
  | change made => made.chunk?
  | load chunk => some chunk
  | ask _ => none

def IsSave : Command → Prop
  | change (.save _ _ _) => True
  | _ => False

def RejectedBy (command : Command) (failure : Failure) : Prop :=
  failure.kind = .invalidArgument ∨ command.IsSave ∧ failure.kind = .format

/-- What is wrong with a command for a region with a file of this path. -/
inductive Flawed (region : Region) (path : Bytes) : Command → Failure → Prop where
  | foreign {command : Command} {chunk : ChunkPos} {failure : Failure}
    (about : command.chunk? = some chunk) (elsewhere : region.slot chunk = .error failure) :
    Flawed region path command failure
  | unanswered {question : Region → Except Failure Answer} {failure : Failure}
    (answer : question region = .error failure) : Flawed region path (ask question) failure
  | refused {chunk : ChunkPos} {payload : Bytes} {tag : UInt8} {slot : Slot} {failure : Failure}
    (own : region.slot chunk = .ok slot) (why : Refused region path chunk payload tag failure) :
    Flawed region path (change (.save chunk payload tag)) failure

end Command

section
variable {region : Region} {file : Device}

omit [Codec] in
theorem flush_fails (region : Region) (file : Device) :
    Ends flush (region, file) (fun _ _ => True) fun failure _ => failure.IsCall := by
  rw [flush, ends_device]
  exact (Device.sync_reports file).mono (fun _ _ _ => trivial) fun _ _ => And.left

theorem saveChunk_fails (region : Region) (file : Device) (chunk : ChunkPos) (payload : Bytes)
    (tag : UInt8) :
    Ends (saveChunk chunk payload tag) (region, file) (fun _ _ => True)
      fun failure _ => failure.IsCall ∨
        (Command.change (.save chunk payload tag)).Flawed region file.path failure := by
  unfold saveChunk
  simp only [ends_bind, ends_get, ends_ofExcept]
  cases own : region.slot chunk with
  | error failure => exact .inr (.foreign rfl own)
  | ok slot =>
    cases accepted : encodeChunk payload tag with
    | error failure => exact .inr (.refused own (.unknown accepted))
    | ok data =>
      have placing := FreeSpace.place_fails region.space file (record data)
        (region.tables.extent? slot) region.sync
      dsimp only
      cases ran : FreeSpace.place (record data) (region.tables.extent? slot) region.sync
          (region.space, file) with
      | error failure after =>
        rw [ends_of_eq_error ran] at placing
        rw [← ends_saveChunk own accepted, ends_of_eq_error (saveChunk_of_unplaced own accepted ran)]
        exact placing.imp_right fun why => .refused own (.declined slot data own accepted why)
      | ok extent after =>
        obtain ⟨next, placed⟩ := after
        have wrote := writeEntry_reports slot extent.toWord placed.around.timestamp placed
        rw [ends_saveData ran]
        cases entry : writeEntry slot extent.toWord placed.around.timestamp placed with
        | error failure after => exact .inl ((ends_of_eq_error entry).1 wrote).1
        | ok _ written =>
          exact (syncChange_reports _ written).mono (fun _ _ _ => trivial) fun _ _ => .inl

theorem saveChunk_of_flawed {chunk : ChunkPos} {payload : Bytes} {tag : UInt8} {failure : Failure}
    (flawed : (Command.change (.save chunk payload tag)).Flawed region file.path failure) :
    saveChunk chunk payload tag (region, file) = .error failure (region, file) := by
  cases flawed with
  | foreign about elsewhere =>
    cases about
    apply Ends.eq_error
    simp only [saveChunk, ends_bind, ends_get, ends_ofExcept, elsewhere, and_self]
  | refused own why =>
    cases why with
    | foreign elsewhere => cases own.symm.trans elsewhere
    | unknown unencoded =>
      apply Ends.eq_error
      simp only [saveChunk, ends_bind, ends_get, ends_ofExcept, own, unencoded, and_self]
    | declined slot data own accepted why =>
      exact saveChunk_of_unplaced own accepted (FreeSpace.place_of_declined why region.sync)

theorem flawed_of_saveChunk {chunk : ChunkPos} {payload : Bytes} {tag : UInt8} {failure : Failure}
    {next : Region × Device} (untroubled : file.Untroubled)
    (ran : saveChunk chunk payload tag (region, file) = .error failure next) :
    next = (region, file) ∧
      (Command.change (.save chunk payload tag)).Flawed region file.path failure := by
  cases own : region.slot chunk with
  | error reason =>
    have flawed : (Command.change (.save chunk payload tag)).Flawed region file.path reason :=
      .foreign rfl own
    cases ran.symm.trans (saveChunk_of_flawed flawed)
    exact ⟨rfl, flawed⟩
  | ok slot =>
    obtain ⟨same, why⟩ := (ends_of_eq_error ran).1 (saveChunk_goes region untroubled chunk payload tag)
    exact ⟨same, .refused own why⟩

omit [Codec] in
theorem deleteChunk_fails (region : Region) (file : Device) (chunk : ChunkPos) :
    Ends (deleteChunk chunk) (region, file) (fun _ _ => True)
      fun failure _ => failure.IsCall ∨ region.slot chunk = .error failure := by
  unfold deleteChunk clearSlot
  simp only [ends_bind, ends_get, ends_ofExcept]
  cases region.slot chunk with
  | error failure => exact .inr rfl
  | ok slot =>
    simp only
    cases region.tables.extent? slot with
    | none => trivial
    | some extent =>
      simp only [ends_bind, ends_device]
      refine Ends.mono (writeEntry_reports slot 0 0 file) ?_ fun _ _ reported => .inl reported.1
      intro _ written _
      simp only [setEntry, release, ends_modify]
      exact (syncChange_reports _ written).mono (fun _ _ _ => trivial) fun _ _ => .inl

/-- What is wrong with a record is never the chunk that was asked for. -/
theorem recordData_fails {chunk : ChunkPos} {extent : Extent} {data : Bytes} {failure : Failure}
    (failed : recordData chunk extent data = .error failure) : failure.kind ≠ .invalidArgument := by
  have undecoded {part : Bytes} (failed : decodeChunk part = .error failure) :
      failure.kind ≠ .invalidArgument := by
    rcases decodeChunk_fails failed with rfl | ⟨_, rfl⟩ | ⟨_, rfl⟩ | ⟨_, rfl⟩
    all_goals exact nofun
  unfold recordData at failed
  simp only at failed
  repeat' split at failed
  all_goals first | exact undecoded failed | (cases failed; exact nofun)

theorem loadChunk_fails (region : Region) (file : Device) (chunk : ChunkPos) :
    Ends (loadChunk chunk) (region, file) (fun _ _ => True)
      fun failure _ => region.slot chunk = .error failure ∨ failure.kind ≠ .invalidArgument := by
  unfold loadChunk
  simp only [ends_bind, ends_get, ends_ofExcept]
  cases region.slot chunk with
  | error failure => exact .inl rfl
  | ok slot =>
    simp only
    cases region.tables.extent? slot with
    | none => trivial
    | some extent =>
      simp only [ends_bind, ends_device]
      refine Ends.mono (Device.readAt_reports extent.position extent.size file) ?_ ?_
      · intro data after _
        simp only [ends_map, ends_ofExcept]
        cases found : recordData (region.position.chunkAt slot) extent data with
        | ok payload => trivial
        | error failure => exact .inr (recordData_fails found)
      · rintro failure _ ⟨⟨code, isCall⟩, _⟩
        simp [isCall]

end

namespace Command

theorem run_rejected (command : Command) (region : Region) (file : Device) :
    Ends command.run (region, file) (fun _ _ => True)
      fun failure _ => command.RejectedBy failure → command.Flawed region file.path failure := by
  have call {failure : Failure} (isCall : failure.IsCall) : ¬ command.RejectedBy failure := by
    obtain ⟨code, isCall⟩ := isCall
    simp [RejectedBy, isCall]
  cases command with
  | change made =>
    rw [run, ends_map]
    cases made with
    | save chunk payload tag =>
      refine Ends.mono (saveChunk_fails region file chunk payload tag) (fun _ _ => id) ?_
      exact fun _ _ failed rejected => failed.resolve_left fun isCall => call isCall rejected
    | delete chunk =>
      refine Ends.mono (deleteChunk_fails region file chunk) (fun _ _ => id) ?_
      exact fun _ _ failed rejected =>
        .foreign rfl (failed.resolve_left fun isCall => call isCall rejected)
    | flush =>
      refine Ends.mono (flush_fails region file) (fun _ _ => id) ?_
      exact fun _ _ isCall rejected => absurd rejected (call isCall)
  | load chunk =>
    rw [run, ends_map]
    refine Ends.mono (loadChunk_fails region file chunk) (fun _ _ => id) ?_
    rintro failure _ failed (argument | ⟨isSave, _⟩)
    · exact .foreign rfl (failed.resolve_right fun other => other argument)
    · exact isSave.elim
  | ask question =>
    simp only [run, Region.ask, ends_bind, ends_get, ends_ofExcept]
    cases answer : question region with
    | ok result => trivial
    | error failure => exact fun _ => .unanswered answer

/-- A command with something wrong fails for that reason, whatever is in the file and whatever happens
around it, and leaves both as they are. -/
theorem run_of_flawed {command : Command} {region : Region} {file : Device} {failure : Failure}
    (flawed : command.Flawed region file.path failure) :
    command.run (region, file) = .error failure (region, file) := by
  apply Ends.eq_error
  cases command with
  | change made =>
    rw [run, ends_map]
    cases made with
    | save chunk payload tag =>
      rw [Change.run, ends_of_eq_error (saveChunk_of_flawed flawed)]
      exact ⟨rfl, rfl⟩
    | delete chunk =>
      cases flawed with
      | foreign about elsewhere =>
        cases about
        simp only [Change.run, deleteChunk, ends_bind, ends_get, ends_ofExcept, elsewhere, and_self]
    | flush =>
      cases flawed with
      | foreign about elsewhere => cases about
  | load chunk =>
    cases flawed with
    | foreign about elsewhere =>
      cases about
      simp only [run, loadChunk, ends_map, ends_bind, ends_get, ends_ofExcept, elsewhere, and_self]
  | ask question =>
    cases flawed with
    | foreign about elsewhere => cases about
    | unanswered answer =>
      simp only [run, Region.ask, ends_bind, ends_get, ends_ofExcept, answer, and_self]

end Command

/-- A save without compression is too large if the payload and the five bytes in front of it are more
than the largest extent holds. -/
theorem recordTooLarge_iff {region : Region} {chunk : ChunkPos} {slot : Slot}
    (own : region.slot chunk = .ok slot) (payload : Bytes) (file : Device) :
    (∃ sectors, outcome (saveChunk chunk payload Method.plain.tag) (region, file) =
        .error (.recordTooLarge sectors)) ↔
      255 * 4096 < payload.size + 5 := by
  have encoded := encodeChunk_plain payload
  have size : (record (Method.plain.tagged payload)).size = payload.size + 5 := by
    rw [size_record, Method.size_tagged]
    omega
  have large_iff : maxExtentSectors < sectorsOf (record (Method.plain.tagged payload)).size ↔
      255 * 4096 < payload.size + 5 := by
    have fits := sectorsOf_le_iff (record (Method.plain.tagged payload)).size maxExtentSectors
    rw [size, maxExtentSectors, sectorSize] at fits
    rw [size, maxExtentSectors]
    omega
  rw [← large_iff]
  constructor
  · rintro ⟨sectors, failed⟩
    have fails := saveChunk_fails region file chunk payload Method.plain.tag
    unfold outcome at failed
    split at failed
    · cases failed
    · next failure after ran =>
      cases failed
      rcases (ends_of_eq_error ran).1 fails with ⟨code, impossible⟩ | flawed
      · cases impossible
      · cases flawed with
        | foreign about elsewhere =>
          cases about
          cases own.symm.trans elsewhere
        | refused own' why =>
          cases why with
          | foreign elsewhere => cases own.symm.trans elsewhere
          | unknown unencoded => cases encoded.symm.trans unencoded
          | declined _ _ _ accepted why =>
            cases encoded.symm.trans accepted
            cases why with
            | large tooLarge => exact tooLarge
  · intro large
    have declined : FreeSpace.Declined region.space (region.tables.extent? slot) _ file.path _ :=
      .large large
    exact ⟨_, by rw [outcome, saveChunk_of_unplaced own encoded
      (FreeSpace.place_of_declined declined region.sync)]⟩

structure Entry where
  around : Surroundings
  command : Command
  outcome : Except Failure Answer

namespace Entry

def step (entry : Entry) : Surroundings × Command := (entry.around, entry.command)

def Rejected (entry : Entry) : Prop :=
  ∃ failure, entry.outcome = .error failure ∧ entry.command.RejectedBy failure

end Entry

def Command.apply (state : Region × Device) (step : Surroundings × Command) : Region × Device :=
  final step.2.run (state.1, state.2.under step.1)

def history : Region × Device → List (Surroundings × Command) → List Entry
  | _, [] => []
  | state, step :: rest =>
    ⟨step.1, step.2, outcome step.2.run (state.1, state.2.under step.1)⟩ ::
      history (Command.apply state step) rest

/-- Some of the entries, of which only rejected commands have been struck out. -/
inductive Struck : List Entry → List Entry → Prop where
  | nil : Struck [] []
  | keep {entries fewer : List Entry} (entry : Entry) (struck : Struck entries fewer) :
    Struck (entry :: entries) (entry :: fewer)
  | strike {entries fewer : List Entry} {entry : Entry} (rejected : entry.Rejected)
    (struck : Struck entries fewer) : Struck (entry :: entries) fewer

theorem Command.apply_of_rejected {state : Region × Device} {around : Surroundings} {command : Command}
    (rejected : Entry.Rejected
      ⟨around, command, outcome command.run (state.1, state.2.under around)⟩) :
    Command.apply state (around, command) = (state.1, state.2.under around) := by
  obtain ⟨failure, failed, isRejection⟩ := rejected
  have flaws := command.run_rejected state.1 (state.2.under around)
  unfold outcome at failed
  split at failed
  · cases failed
  · next reason next ran =>
    cases failed
    have flawed := (ends_of_eq_error ran).1 flaws isRejection
    simp only [Command.apply, final, run_of_flawed flawed]

theorem history_under (state : Region × Device) (around : Surroundings)
    (steps : List (Surroundings × Command)) :
    history (state.1, state.2.under around) steps = history state steps := by
  cases steps <;> rfl

theorem foldl_apply_under (state : Region × Device) (around : Surroundings)
    (steps : List (Surroundings × Command)) :
    (steps.foldl Command.apply (state.1, state.2.under around)).1 =
        (steps.foldl Command.apply state).1 ∧
      (steps.foldl Command.apply (state.1, state.2.under around)).2.content =
        (steps.foldl Command.apply state).2.content := by
  cases steps <;> exact ⟨rfl, rfl⟩

/-- A run without some of the commands that are rejected in it gives the other answers all the same, and
it ends with the same region and the same bytes. -/
theorem history_of_struck {state : Region × Device} {steps : List (Surroundings × Command)}
    {fewer : List Entry} (struck : Struck (history state steps) fewer) :
    history state (fewer.map Entry.step) = fewer ∧
      ((fewer.map Entry.step).foldl Command.apply state).1 = (steps.foldl Command.apply state).1 ∧
      ((fewer.map Entry.step).foldl Command.apply state).2.content =
        (steps.foldl Command.apply state).2.content := by
  induction steps generalizing state fewer with
  | nil =>
    cases struck
    exact ⟨rfl, rfl, rfl⟩
  | cons step rest ih =>
    cases struck with
    | keep _ struck =>
      obtain ⟨same, region, content⟩ := ih struck
      exact ⟨congrArg (List.cons _) same, region, content⟩
    | strike rejected struck =>
      obtain ⟨same, region, content⟩ := ih struck
      have unmoved := Command.apply_of_rejected rejected
      have later := foldl_apply_under state step.1 (fewer.map Entry.step)
      rw [List.foldl_cons]
      rw [unmoved] at same region content ⊢
      exact ⟨history_under state step.1 _ ▸ same, later.1.symm.trans region,
        later.2.symm.trans content⟩

/-- A rejected command is rejected for what it asks of the region, without a look at the file, and leaves
everything as it is. So a run goes on as if it had not been given. -/
theorem rejected_without_effect (region : Region) (file : Device) :
    (∀ command failure next, Command.run command (region, file) = .error failure next →
      command.RejectedBy failure → next = (region, file) ∧
        ∀ other : Device, other.path = file.path →
          command.run (region, other) = .error failure (region, other)) ∧
    (∀ steps fewer, Struck (history (region, file) steps) fewer →
      history (region, file) (fewer.map Entry.step) = fewer ∧
        ((fewer.map Entry.step).foldl Command.apply (region, file)).1 =
          (steps.foldl Command.apply (region, file)).1 ∧
        ((fewer.map Entry.step).foldl Command.apply (region, file)).2.content =
          (steps.foldl Command.apply (region, file)).2.content) ∧
    ∀ chunk slot payload, region.slot chunk = .ok slot →
      ((∃ sectors, outcome (saveChunk chunk payload Method.plain.tag) (region, file) =
          .error (.recordTooLarge sectors)) ↔
        255 * 4096 < payload.size + 5) := by
  refine ⟨?_, fun _ _ => history_of_struck, fun _ _ payload own => recordTooLarge_iff own payload file⟩
  intro command failure next ran rejected
  have flawed := (ends_of_eq_error ran).1 (command.run_rejected region file) rejected
  constructor
  · cases ran.symm.trans (Command.run_of_flawed flawed)
    rfl
  · intro other path
    exact Command.run_of_flawed (path ▸ flawed)

end

/-- The same chunk in a file that is too long for another record. -/
def oneChunkFull : Region := { oneChunk with space := ⟨16777216, [], []⟩ }

/-- A chunk that would have to move to where no table word can point, and a payload of one byte too
many. -/
theorem rejected_without_effect_full :
    (∀ other : Device, other.path = newFile.path →
      Command.run (.change (.save ⟨0, 0⟩ (Bytes.zeros 5000) Method.plain.tag)) (oneChunkFull, other) =
        .error (.regionFull newFile.path 16777216) (oneChunkFull, other)) ∧
    ∃ sectors, outcome (saveChunk ⟨0, 0⟩ (Bytes.zeros 1044476) Method.plain.tag)
      (oneChunkFull, newFile) = .error (.recordTooLarge sectors) := by
  have own : oneChunkFull.slot ⟨0, 0⟩ = .ok ⟨0, by decide⟩ := rfl
  have encoded := encodeChunk_plain (Bytes.zeros 5000)
  have found : oneChunkFull.tables.extent? ⟨0, by decide⟩ = some ⟨2, 1⟩ := extent?_oneChunk
  have size : sectorsOf (record (Method.plain.tagged (Bytes.zeros 5000))).size = 2 := by
    rw [size_record, Method.size_tagged, Bytes.size_zeros]
    rfl
  have declined : FreeSpace.Declined oneChunkFull.space (oneChunkFull.tables.extent? ⟨0, by decide⟩)
      (sectorsOf (record (Method.plain.tagged (Bytes.zeros 5000))).size) newFile.path
      (.regionFull newFile.path 16777216) := by
    rw [size, found]
    refine .full (by decide) ?_ rfl (by decide)
    rintro place same
    cases same
    decide
  obtain ⟨rejected, _, large⟩ := rejected_without_effect oneChunkFull newFile
  have flawed : (Command.change (.save ⟨0, 0⟩ (Bytes.zeros 5000) Method.plain.tag)).Flawed oneChunkFull
      newFile.path _ := .refused own (.declined _ _ own encoded declined)
  refine ⟨?_, (large _ _ _ own).2 (by rw [Bytes.size_zeros]; decide)⟩
  exact (rejected _ _ _ (Command.run_of_flawed flawed) (.inr ⟨trivial, rfl⟩)).2

end Region

end RegionStore
