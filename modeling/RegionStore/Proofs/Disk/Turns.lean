import RegionStore.Proofs.Disk.Device

/-!
Calls of an open file whose turns are known. What a call can come to under any schedule is said elsewhere;
here its next turns tell what it does come to, and which turns are left after it.
-/

set_option autoImplicit false

namespace RegionStore.Disk

/-- The next attempts of a write come so far and are refused then. -/
def Turns.Cut (turns : Turns) (count : Nat) : Prop :=
  0 < count ∧ ∃ middle ahead reason, turns.next = (.short count, middle) ∧
    middle.next = (.refused reason, ahead) ∧ reason ≠ .interrupted

namespace Device

/-- One call has come to the given turns, and the others have not moved. -/
structure Leaves (before : Device) (call : FileCall) (ahead : Turns) (after : Device) : Prop where
  own : after.turns call = ahead
  others : ∀ other, other ≠ call → after.turns other = before.turns other

theorem leaves_setTurns (device : Device) (call : FileCall) (ahead : Turns) :
    device.Leaves call ahead (device.setTurns call ahead) :=
  ⟨turns_setTurns .., fun _ different => turns_setTurns_of_ne device ahead different⟩

theorem Leaves.trans {a b c : Device} {call : FileCall} {middle ahead : Turns}
    (first : a.Leaves call middle b) (second : b.Leaves call ahead c) : a.Leaves call ahead c :=
  ⟨second.own, fun other different => (second.others other different).trans (first.others other different)⟩

theorem leaves_attemptWrite {device next : Device} {position done : Nat} {data : Bytes}
    {outcome : Except Errno Nat} (attempt : device.attemptWrite position data done = (outcome, next)) :
    device.Leaves .writing (device.turns .writing).next.2 next := by
  rw [attemptWrite, Prod.mk.injEq] at attempt
  obtain ⟨rfl, rfl⟩ := attempt
  have taken := leaves_setTurns device .writing (device.turns .writing).next.2
  refine ⟨?_, fun other different => ?_⟩
  · rw [turns_applyWrite, taken.own]
  · rw [turns_applyWrite, taken.others other different]

section
variable {device : Device} {position : Nat} {data : Bytes}

theorem writeFrom_of_refused {done : Nat} (unfinished : done < data.size) {reason : Errno} {ahead : Turns}
    (turns : (device.turns .writing).next = (.refused reason, ahead)) (final : reason ≠ .interrupted) :
    Ends (writeFrom position data done) device (fun _ _ => False)
      fun _ after => device.Keeps after ∧ device.Leaves .writing ahead after := by
  have refused {outcome : Except Errno Nat} {next : Device}
      (attempt : device.attemptWrite position data done = (outcome, next)) :
      outcome = .error reason := by
    have first : _ = outcome := congrArg Prod.fst attempt
    rw [← first, attemptWrite, turns]
    rfl
  unfold Ends
  fun_cases writeFrom position data done device with
  | case1 finished => exact absurd unfinished (Nat.not_lt_of_le finished)
  | case2 _ next attempt => exact (final (Except.error.inj (refused attempt)).symm).elim
  | case3 _ why next _ attempt =>
    have left := leaves_attemptWrite attempt
    rw [turns] at left
    rcases attemptWrite_cases attempt with ⟨_, _, keeps⟩ | ⟨_, impossible, _⟩
    · exact ⟨keeps, left⟩
    · cases impossible
  | case4 _ next attempt => cases refused attempt
  | case5 _ count next attempt => cases refused attempt

/-- A turn that does not refuse a write brings it forward by what it allows. -/
theorem writeFrom_of_unrefused (done : Nat) (isFile : device.full = false)
    (unlimited : device.around.ceiling = none) (bounded : position + data.size ≤ maxOffset)
    {turn : Turn} {ahead : Turns} (turns : (device.turns .writing).next = (turn, ahead))
    (accepted : turn.Unrefused) {count : Nat} (allowed : turn.allowance (data.size - done) = count)
    (positive : 0 < count) (atMost : count ≤ data.size - done) :
    ∃ next, writeFrom position data done device = writeFrom position data (done + count) next ∧
      device.Wrote (position + done) (data.extract done (done + count)) next ∧
      device.Leaves .writing ahead next ∧
      next.around.events = .wrote (position + done) (data.size - done)
        (.ok (data.extract done (done + count))) :: device.around.events := by
  have through {outcome : Except Errno Nat} {next : Device}
      (attempt : device.attemptWrite position data done = (outcome, next)) : outcome = .ok count := by
    have first : _ = outcome := congrArg Prod.fst attempt
    rw [← first, attemptWrite, turns, ← allowed]
    apply writeOutcome_of_unrefused isFile unlimited accepted
    · rwa [allowed]
    · rw [allowed]
      omega
  fun_cases writeFrom position data done device with
  | case1 finished => omega
  | case2 _ next attempt => cases through attempt
  | case3 _ why next _ attempt => cases through attempt
  | case4 _ next attempt =>
    cases through attempt
    exact absurd positive (Nat.lt_irrefl 0)
  | case5 _ got next attempt =>
    obtain rfl : got = count := Except.ok.inj (through attempt)
    have left := leaves_attemptWrite attempt
    rw [turns] at left
    rcases attemptWrite_cases attempt with ⟨_, impossible, _⟩ | ⟨_, same, _, wrote⟩
    · cases impossible
    · cases same
      exact ⟨next, rfl, wrote, left, events_attemptWrite attempt⟩

theorem writeAt_of_undisturbed (isFile : device.full = false) (unlimited : device.around.ceiling = none)
    (bounded : position + data.size ≤ maxOffset) {ahead : Turns}
    (turns : (device.turns .writing).next = (.undisturbed, ahead)) (nonempty : 0 < data.size) :
    Ends (writeAt position data) device
      (fun _ after => device.Wrote position data after ∧ device.Leaves .writing ahead after ∧
        after.around.events = .wrote position data.size (.ok data) :: device.around.events)
      fun _ _ => False := by
  have whole : Turn.undisturbed.allowance (data.size - 0) = data.size := rfl
  obtain ⟨next, same, attempt⟩ := writeFrom_of_unrefused 0 isFile unlimited bounded turns rfl whole
    nonempty (Nat.le_refl _)
  rw [Nat.zero_add, Nat.add_zero, Nat.sub_zero, ByteArray.extract_zero_size] at attempt
  have finished : writeAt position data device = .ok () next := by
    rw [writeAt, same, writeFrom, if_pos (by omega)]
  rwa [ends_of_eq_ok finished]

theorem writeAt_of_cut (isFile : device.full = false) (unlimited : device.around.ceiling = none)
    (bounded : position + data.size ≤ maxOffset) {count : Nat} (cut : (device.turns .writing).Cut count)
    (short : count < data.size) :
    Ends (writeAt position data) device (fun _ _ => False) fun _ after =>
      device.Wrote position (data.extract 0 count) after ∧ ∃ ahead, device.Leaves .writing ahead after := by
  obtain ⟨positive, middle, ahead, reason, first, second, final⟩ := cut
  obtain ⟨next, same, wrote, left, _⟩ := writeFrom_of_unrefused 0 isFile unlimited bounded first rfl
    (Nat.min_eq_left (Nat.le_of_lt short)) positive (Nat.le_of_lt short)
  rw [Nat.zero_add, Nat.add_zero] at wrote
  rw [Nat.zero_add] at same
  rw [← left.own] at second
  have stops : Ends (writeFrom position data count) next _ _ := writeFrom_of_refused short second final
  obtain ⟨failure, after, ran, keeps, later⟩ := stops.exists_error
  have stopped : writeAt position data device = .error failure after := same.trans ran
  rw [ends_of_eq_error stopped]
  exact ⟨⟨wrote.continues.trans keeps.continues, keeps.content ▸ wrote.content⟩, ahead, left.trans later⟩

end

section
variable (device : Device)

theorem turns_noteInterruptions (event : Option Errno → Event) (count : Nat) (call : FileCall) :
    (noteInterruptions event count device).turns call = device.turns call := by
  induction count generalizing device with
  | zero => rfl
  | succ count ih => exact ih (device.note (event (some .interrupted)))

theorem leaves_settle (call : FileCall) (event : Option Errno → Event) :
    device.Leaves call (device.turns call).settle.ahead (device.settle call event).2 := by
  have taken := leaves_setTurns device call (device.turns call).settle.ahead
  refine ⟨?_, fun other different => ?_⟩
  · rw [settle, turns_noteInterruptions, taken.own]
  · rw [settle, turns_noteInterruptions, taken.others other different]

variable {device}

theorem sync_of_settled (isFile : device.full = false) {ahead : Turns}
    (accepted : (device.turns .syncing).settle.refusal = none)
    (turns : (device.turns .syncing).settle.ahead = ahead) :
    Ends sync device (fun _ after => device.Keeps after ∧ device.Leaves .syncing ahead after)
      fun _ _ => False := by
  have settled := keeps_settle device .syncing .synced
  have left := leaves_settle device .syncing .synced
  have outcome : (device.settle .syncing .synced).1 = none := accepted
  rw [turns] at left
  simp only [Ends, sync]
  generalize device.settle .syncing .synced = settlement at settled left outcome
  obtain ⟨refused, next⟩ := settlement
  obtain rfl : refused = none := outcome
  rw [settled.continues.full, isFile]
  exact ⟨⟨settled.continues.trans (continues_note _ _), settled.content⟩, left.own, left.others⟩

theorem sync_of_refused {reason : Errno}
    (refused : (device.turns .syncing).settle.refusal = some reason) :
    Ends sync device (fun _ _ => False) fun _ after => device.Keeps after := by
  have settled := keeps_settle device .syncing .synced
  have outcome : (device.settle .syncing .synced).1 = some reason := refused
  simp only [Ends, sync]
  generalize device.settle .syncing .synced = settlement at settled outcome
  obtain ⟨_, next⟩ := settlement
  obtain rfl := outcome
  exact ⟨settled.continues.trans (continues_note _ _), settled.content⟩

theorem resize_of_refused (size : Nat) {reason : Errno}
    (refused : (device.turns .resizing).settle.refusal = some reason) :
    Ends (resize size) device (fun _ _ => False) fun _ after => device.Keeps after := by
  have settled := keeps_settle device .resizing (.resized size)
  have outcome : (device.settle .resizing (.resized size)).1 = some reason := refused
  simp only [Ends, resize]
  generalize device.settle .resizing (.resized size) = settlement at settled outcome
  obtain ⟨_, next⟩ := settlement
  obtain rfl := outcome
  exact ⟨settled.continues.trans (continues_note _ _), settled.content⟩

end

end Device
end RegionStore.Disk
