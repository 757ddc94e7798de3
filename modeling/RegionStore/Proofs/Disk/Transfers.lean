import RegionStore.Proofs.Disk.Reports
import RegionStore.Proofs.Disk.Turns

/-!
Positional transfers under any schedule, byte by byte. However a write is disturbed, all of its data or a
proper beginning of it is at its position in the end, and nothing else has changed. A read gives what the
file has at the position. It gives all of it exactly if none of its calls gives nothing in front of the end
of the file, since that is how the end is recognised.
-/

set_option autoImplicit false

namespace RegionStore.Disk

/-- What a content has become by data that was written to a position. If it ended in front of the position,
zeros fill the gap; without any data it is not extended. -/
structure Content.Written (before : Content) (position : Nat) (data : Bytes) (after : Content) : Prop where
  size : after.size = if data.size = 0 then before.size else max before.size (position + data.size)
  inside : ∀ index < data.size, after.byteAt (position + index) = data.get index
  outside : ∀ place < before.size, place < position ∨ position + data.size ≤ place →
    after.byteAt place = before.byteAt place
  gap : ∀ place < position, before.size ≤ place → after.byteAt place = 0

theorem Content.Same.written {before after : Content} {position : Nat} {data : Bytes}
    (same : after.Same (before.write position data)) : before.Written position data after := by
  constructor
  · rw [same.size, size_write]
  · intro index inside
    rw [same.byte, byteAt_write, if_pos (by omega), Nat.add_sub_cancel_left]
  · intro place _ apart
    rw [same.byte, byteAt_write, if_neg (by omega)]
  · intro place front behind
    rw [same.byte, byteAt_write, if_neg (by omega), byteAt_of_size_le behind]

namespace Device

/-- A read after some of its calls, none of which has ended it: the bytes that it knows, and the file as it
is then. -/
inductive Reading (position size : Nat) (device : Device) : Bytes → Device → Prop where
  | start : Reading position size device ByteArray.empty device
  | again {known : Bytes} {now next : Device} (earlier : Reading position size device known now)
    (unfinished : known.size < size)
    (call : now.attemptRead (position + known.size) (size - known.size) = (.error .interrupted, next)) :
    Reading position size device known next
  | onward {known bytes : Bytes} {now next : Device} (earlier : Reading position size device known now)
    (unfinished : known.size < size)
    (call : now.attemptRead (position + known.size) (size - known.size) = (.ok bytes, next))
    (nonempty : bytes.size ≠ 0) : Reading position size device (known ++ bytes) next

/-- One of the calls of a read gives nothing in front of the end of the file. -/
def StopsShort (device : Device) (position size : Nat) : Prop :=
  ∃ known now nothing next, Reading position size device known now ∧ known.size < size ∧
    now.attemptRead (position + known.size) (size - known.size) = (.ok nothing, next) ∧
    nothing.size = 0 ∧ position + known.size < device.content.size

section
variable {device now next : Device} {position size : Nat} {known bytes : Bytes}

theorem readFrom_of_interrupted (unfinished : known.size < size)
    (call : now.attemptRead (position + known.size) (size - known.size) = (.error .interrupted, next)) :
    readFrom position size known now = readFrom position size known next := by
  fun_cases readFrom position size known now with
  | case1 finished => omega
  | case2 _ _ attempt =>
    cases call.symm.trans attempt
    rfl
  | case3 _ _ _ notInterrupted attempt =>
    cases call.symm.trans attempt
    exact absurd rfl notInterrupted
  | case4 _ _ _ attempt => cases call.symm.trans attempt
  | case5 _ _ _ attempt => cases call.symm.trans attempt

theorem readFrom_of_part (unfinished : known.size < size)
    (call : now.attemptRead (position + known.size) (size - known.size) = (.ok bytes, next)) :
    readFrom position size known now =
      if bytes.size = 0 then .ok known next else readFrom position size (known ++ bytes) next := by
  fun_cases readFrom position size known now with
  | case1 finished => omega
  | case2 _ _ attempt => cases call.symm.trans attempt
  | case3 _ _ _ _ attempt => cases call.symm.trans attempt
  | case4 _ _ _ attempt empty =>
    cases call.symm.trans attempt
    rw [if_pos empty]
  | case5 _ _ _ attempt nonempty =>
    cases call.symm.trans attempt
    rw [if_neg nonempty]

theorem Reading.resumes (reading : Reading position size device known now) :
    readAt position size device = readFrom position size known now := by
  induction reading with
  | start => rfl
  | again _ unfinished call ih => rw [ih, readFrom_of_interrupted unfinished call]
  | onward _ unfinished call nonempty ih => rw [ih, readFrom_of_part unfinished call, if_neg nonempty]

/-- A read that gives a result has come to its length, or its last call has given nothing. -/
theorem Reading.ends (reading : Reading position size device known now) :
    Ends (readFrom position size known) now
      (fun bytes next => ∃ last, Reading position size device bytes last ∧ (bytes.size < size →
        ∃ nothing, last.attemptRead (position + bytes.size) (size - bytes.size) = (.ok nothing, next) ∧
          nothing.size = 0))
      fun _ _ => True := by
  unfold Ends
  fun_induction readFrom position size known now with
  | case1 known now finished => exact ⟨now, reading, fun unfinished => by omega⟩
  | case2 known now unfinished next attempt ih => exact ih (reading.again (by omega) attempt)
  | case3 known now unfinished reason next notInterrupted attempt => trivial
  | case4 known now unfinished nothing next attempt empty =>
    exact ⟨now, reading, fun _ => ⟨nothing, attempt, empty⟩⟩
  | case5 known now unfinished bytes next attempt nonempty ih =>
    exact ih (reading.onward (by omega) attempt nonempty)

section
variable (isFile : device.full = false)
include isFile

theorem Reading.keeps (reading : Reading position size device known now) : device.Keeps now := by
  induction reading with
  | start => exact Keeps.refl device
  | again _ _ call ih => exact ih.trans (attemptRead_cases (ih.continues.full.trans isFile) call).1
  | onward _ _ call _ ih => exact ih.trans (attemptRead_cases (ih.continues.full.trans isFile) call).1

/-- What a read gives is what the file has there, and all of it unless one of the calls has stopped it
short. -/
theorem readAt_stops (position size : Nat) :
    Ends (readAt position size) device
      (fun bytes next => device.Keeps next ∧ bytes = device.content.read position bytes.size ∧
        bytes.size ≤ size ∧
        (bytes.size = min size (device.content.size - position) ↔ ¬ device.StopsShort position size))
      fun _ next => device.Keeps next ∧ (position + size ≤ maxOffset → ¬ device.around.Reads) := by
  have gives := readFrom_ends position size ByteArray.empty device isFile (Content.read_zero ..).symm
    (Nat.zero_le size)
  have exits := (Reading.start : Reading position size device _ _).ends
  refine Ends.mono ((gives.and exits).and (ends_run _ _)) ?_ fun _ _ failed => failed.1.1
  rintro bytes next ⟨⟨⟨keeps, within, same, _⟩, last, reading, gave⟩, ran⟩
  have there := congrArg ByteArray.size same
  rw [Content.size_read] at there
  refine ⟨keeps, same, within, ?_, ?_⟩
  · rintro whole ⟨known, now, nothing, after, earlier, unfinished, call, empty, early⟩
    -- that call was the last one, so the result is what was known in front of it
    have stopped := earlier.resumes
    rw [readFrom_of_part unfinished call, if_pos empty] at stopped
    cases ran.symm.trans stopped
    omega
  · intro through
    by_cases unfinished : bytes.size < size
    · obtain ⟨nothing, call, empty⟩ := gave unfinished
      have ended : device.content.size ≤ position + bytes.size := by
        apply Nat.le_of_not_lt
        intro early
        exact through ⟨bytes, last, nothing, next, reading, unfinished, call, empty, early⟩
      omega
    · omega

end

theorem size_readOutcome_ne_zero (isFile : device.full = false) {turn : Turn} (some : turn ≠ .short 0)
    (wanted : 0 < size) (early : position < device.content.size)
    (given : device.readOutcome turn position size = .ok bytes) : bytes.size ≠ 0 := by
  have allowed : turn.allowance size ≠ 0 := by
    cases turn with
    | undisturbed => exact Nat.ne_of_gt wanted
    | refused reason => exact Nat.ne_of_gt wanted
    | short count =>
      have positive : count ≠ 0 := fun none => some (congrArg Turn.short none)
      exact Nat.ne_of_gt (Nat.lt_min.2 ⟨Nat.pos_of_ne_zero positive, wanted⟩)
  unfold readOutcome at given
  split at given
  · cases given
  · simp only at given
    rw [if_neg allowed, isFile, if_neg Bool.false_ne_true] at given
    split at given
    · cases given
    · cases given
      rw [Content.size_read]
      omega

theorem not_stopsShort (isFile : device.full = false)
    (scheduled : (device.turns .reading).All (· ≠ .short 0)) (position size : Nat) :
    ¬ device.StopsShort position size := by
  rintro ⟨known, now, nothing, next, reading, unfinished, call, empty, early⟩
  have keeps := reading.keeps isFile
  have turns := keeps.continues.ahead .reading _ nofun scheduled
  have given : _ = Except.ok nothing := congrArg Prod.fst call
  rw [← keeps.content] at early
  exact size_readOutcome_ne_zero (keeps.continues.full.trans isFile) (Turns.all_next turns nofun).1
    (Nat.sub_pos_of_lt unfinished) early given empty

end

/-- Transfers under any schedule. A write leaves its data at the position, or a proper beginning of it if it
fails. A read leaves the file as it is; it gives the bytes that the file has at the position, and all that
are wanted and there exactly if no call stops it short. Both fail only with a call of the operating system,
and not if calls are at most interrupted or cut short. -/
theorem transfers_exact (device : Device) :
    (∀ position data, Ends (writeAt position data) device
      (fun _ next => device.content.Written position data next.content)
      fun failure next => failure.IsCall ∧
        (∃ count < data.size, device.content.Written position (data.extract 0 count) next.content) ∧
        (position + data.size ≤ maxOffset → ¬ device.Untroubled)) ∧
    (device.full = false → ∀ position size, Ends (readAt position size) device
      (fun bytes next => next.content = device.content ∧
        (bytes.size = min size (device.content.size - position) ↔ ¬ device.StopsShort position size) ∧
        bytes.size ≤ min size (device.content.size - position) ∧
        ∀ index < bytes.size, bytes.get index = device.content.byteAt (position + index))
      fun failure next => failure.IsCall ∧ next.content = device.content ∧
        (position + size ≤ maxOffset → ¬ device.around.Reads)) := by
  constructor
  · intro position data
    refine Ends.mono ((writeAt_ends position data device).and (writeAt_reports position data device)) ?_ ?_
    · rintro _ next ⟨wrote, _⟩
      exact wrote.content.written
    · rintro failure next ⟨⟨⟨count, short, wrote⟩, troubled⟩, isCall, _⟩
      exact ⟨isCall, ⟨count, short, wrote.content.written⟩, troubled⟩
  · intro isFile position size
    refine Ends.mono ((readAt_stops isFile position size).and (readAt_reports position size device)) ?_ ?_
    · rintro bytes next ⟨⟨keeps, same, within, whole⟩, _⟩
      have there := congrArg ByteArray.size same
      rw [Content.size_read] at there
      refine ⟨keeps.content, whole, by omega, fun index inside => ?_⟩
      rw [same, Content.get_read (by omega)]
    · rintro failure next ⟨⟨keeps, unreadable⟩, isCall, _⟩
      exact ⟨isCall, keeps.content, unreadable⟩

/-- A file of three bytes. The write of three more behind its end stops after two of them; the read from its
second byte on gets one byte, is interrupted, and gets the other one. -/
theorem transfers_exact_cut :
    let disturbed : Surroundings := { Surroundings.initial with schedule :=
      { Schedule.calm with
        reading := [⟨.short 1, 1⟩, ⟨.refused .interrupted, 1⟩]
        writing := [⟨.short 2, 1⟩, ⟨.refused ⟨5⟩, 1⟩] } }
    let file : Device := ⟨"a.mca", Content.empty.write 0 ⟨#[97, 98, 99]⟩, false, disturbed⟩
    file.full = false ∧ ¬ file.StopsShort 1 5 ∧
      (∃ failure next count, writeAt 5 ⟨#[120, 121, 122]⟩ file = .error failure next ∧ count < 3 ∧
        file.content.Written 5 (ByteArray.extract ⟨#[120, 121, 122]⟩ 0 count) next.content) ∧
      ∃ next, readAt 1 5 file = .ok ⟨#[98, 99]⟩ next := by
  intro disturbed file
  have isFile : file.full = false := rfl
  have through : ¬ file.StopsShort 1 5 := not_stopsShort isFile (by decide) 1 5
  obtain ⟨writes, reads⟩ := transfers_exact file
  refine ⟨isFile, through, ?_, ?_⟩
  · have cut : (file.turns .writing).Cut 2 := ⟨by decide, _, _, _, rfl, rfl, by decide⟩
    have stops : Ends (writeAt 5 ⟨#[120, 121, 122]⟩) file _ _ :=
      writeAt_of_cut isFile rfl (by decide) cut (by decide)
    obtain ⟨failure, next, ran, _⟩ := stops.exists_error
    obtain ⟨_, ⟨count, short, written⟩, _⟩ := (ends_of_eq_error ran).1 (writes 5 _)
    exact ⟨failure, next, count, ran, short, written⟩
  · have succeeds := (reads isFile 1 5).mono (fun _ _ => id)
      fun _ _ failed => failed.2.2 (by decide) (show file.around.Reads by decide)
    obtain ⟨bytes, next, ran, _, whole, _, same⟩ := succeeds.exists_ok
    have length : bytes.size = 2 := whole.2 through
    have known : bytes = ⟨#[98, 99]⟩ := by
      refine Bytes.ext_get length fun index inside => ?_
      rw [same index inside, Content.byteAt_write]
      match index, length ▸ inside with
      | 0, _ => rfl
      | 1, _ => rfl
    exact ⟨next, known ▸ ran⟩

/-- A write of no data behind the end of a file makes no call, and does not extend the file. -/
theorem nothing_written_behind_end :
    let file : Device := ⟨"a.mca", Content.empty, false, Surroundings.initial⟩
    file.content.size < 10 ∧ ∃ next, writeAt 10 ByteArray.empty file = .ok () next ∧
      next.around.events = [] ∧ next.content.size = 0 := by
  intro file
  refine ⟨by decide, file, ?_, rfl, rfl⟩
  rw [writeAt, writeFrom]
  exact if_pos (Nat.le_refl 0)

end Device
end RegionStore.Disk
