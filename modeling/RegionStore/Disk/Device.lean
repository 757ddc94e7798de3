import RegionStore.Bytes
import RegionStore.Disk.Content
import RegionStore.Disk.Schedule
import RegionStore.Failure
import RegionStore.Notice

/-!
An open file with positional access, and what surrounds it: the clock, the schedule of disturbances
and the records of notices and of calls that change or sync files. `writeAt` and `readAt` go on after
partial transfers and interruptions. What has happened before a failure stays in the state.
-/

set_option autoImplicit false

namespace RegionStore.Disk

/-- One attempt of a call that changes a file or syncs it. -/
inductive Event where
  /-- A write of `size` bytes, and those that got through. -/
  | wrote (position size : Nat) (outcome : Except Errno Bytes)
  | resized (size : Nat) (refusal : Option Errno)
  | synced (refusal : Option Errno)

structure Surroundings where
  /-- Milliseconds since the epoch. -/
  clock : Int
  /-- Writes reach only up to this position. -/
  ceiling : Option Nat
  schedule : Schedule
  /-- The newest one first, as the events. -/
  notices : List Notice
  events : List Event

namespace Surroundings

def initial : Surroundings := ⟨1700000000000, none, Schedule.calm, [], []⟩

def notify (around : Surroundings) (notice : Notice) : Surroundings :=
  { around with notices := notice :: around.notices }

def note (around : Surroundings) (event : Event) : Surroundings :=
  { around with events := event :: around.events }

def turns (around : Surroundings) (call : FileCall) : Turns := around.schedule.turns call

def setTurns (around : Surroundings) (call : FileCall) (turns : Turns) : Surroundings :=
  { around with schedule := around.schedule.setTurns call turns }

/-- The current second, rounded toward the epoch, as a 32-bit number. -/
def timestamp (around : Surroundings) : Int32 := Int32.ofInt (around.clock.tdiv 1000)

end Surroundings

structure Device where
  path : Bytes
  content : Content
  /-- A full device is no file: it takes no data, it can be neither resized nor synced, and zeros are
  read from it without end. -/
  full : Bool
  around : Surroundings

abbrev OnDevice := EStateM Failure Device

def maxOffset : Nat := 9223372036854775807

namespace Device

def refusal (device : Device) (call : FileCall) (reason : Errno) : Failure :=
  .refused call device.path reason

def turns (device : Device) (call : FileCall) : Turns := device.around.turns call

def setTurns (device : Device) (call : FileCall) (turns : Turns) : Device :=
  { device with around := device.around.setTurns call turns }

def note (device : Device) (event : Event) : Device :=
  { device with around := device.around.note event }

/-- How much of a write of `size` bytes gets through. A write that crosses the ceiling is cut there. -/
def writeOutcome (device : Device) (turn : Turn) (position size : Nat) : Except Errno Nat :=
  match turn with
  | .refused reason => .error reason
  | turn =>
    let wanted := turn.allowance size
    if wanted = 0 then .ok 0
    else if maxOffset < position then .error .invalid
    else
      let count := match device.around.ceiling with
        | none => wanted
        | some ceiling => min wanted (ceiling - position)
      if count = 0 then .error .tooLarge
      else if maxOffset < position + count then .error .invalid
      else if device.full then .error .noSpace
      else .ok count

def applyWrite (device : Device) (start : Nat) (data : Bytes) (done : Nat) :
    Except Errno Nat → Device
  | .error reason => device.note (.wrote start (data.size - done) (.error reason))
  | .ok count =>
    let part := data.extract done (done + count)
    { device with content := device.content.write start part }.note
      (.wrote start (data.size - done) (.ok part))

def attemptWrite (device : Device) (position : Nat) (data : Bytes) (done : Nat) :
    Except Errno Nat × Device :=
  let next := (device.turns .writing).next
  let outcome := device.writeOutcome next.1 (position + done) (data.size - done)
  (outcome, (device.setTurns .writing next.2).applyWrite (position + done) data done outcome)

def readOutcome (device : Device) (turn : Turn) (position size : Nat) : Except Errno Bytes :=
  match turn with
  | .refused reason => .error reason
  | turn =>
    let wanted := turn.allowance size
    if wanted = 0 then .ok ByteArray.empty
    else if maxOffset < position + wanted then .error .invalid
    else if device.full then .ok (Bytes.zeros wanted)
    else .ok (device.content.read position wanted)

def attemptRead (device : Device) (position size : Nat) : Except Errno Bytes × Device :=
  let next := (device.turns .reading).next
  (device.readOutcome next.1 position size, device.setTurns .reading next.2)

theorem turns_setTurns (device : Device) (call : FileCall) (turns : Turns) :
    (device.setTurns call turns).turns call = turns := Schedule.turns_setTurns ..

theorem turns_setTurns_of_ne (device : Device) {call other : FileCall} (turns : Turns)
    (different : other ≠ call) : (device.setTurns call turns).turns other = device.turns other :=
  Schedule.turns_setTurns_of_ne _ _ different

theorem turns_applyWrite (device : Device) (start : Nat) (data : Bytes) (done : Nat)
    (outcome : Except Errno Nat) (call : FileCall) :
    (device.applyWrite start data done outcome).turns call = device.turns call := by
  cases outcome <;> rfl

theorem remaining_of_attemptWrite {device next : Device} {position done : Nat} {data : Bytes}
    {outcome : Except Errno Nat} (attempt : device.attemptWrite position data done = (outcome, next)) :
    (next.turns .writing).remaining = (device.turns .writing).remaining - 1 := by
  have last : (device.attemptWrite position data done).2 = next := congrArg Prod.snd attempt
  rw [← Turns.remaining_next, ← last, attemptWrite, turns_applyWrite, turns_setTurns]

theorem remaining_of_attemptRead {device next : Device} {position size : Nat}
    {outcome : Except Errno Bytes} (attempt : device.attemptRead position size = (outcome, next)) :
    (next.turns .reading).remaining = (device.turns .reading).remaining - 1 := by
  have last : (device.attemptRead position size).2 = next := congrArg Prod.snd attempt
  rw [← Turns.remaining_next, ← last, attemptRead, turns_setTurns]

theorem writeOutcome_undisturbed (device : Device) (position size : Nat) :
    device.writeOutcome .undisturbed position size ≠ .error .interrupted := by
  simp only [writeOutcome]
  repeat' split
  all_goals simp [Errno.interrupted, Errno.invalid, Errno.tooLarge, Errno.noSpace]

theorem readOutcome_undisturbed (device : Device) (position size : Nat) :
    device.readOutcome .undisturbed position size ≠ .error .interrupted := by
  simp only [readOutcome]
  repeat' split
  all_goals simp [Errno.interrupted, Errno.invalid]

/-- An attempt is interrupted only in its turn. -/
theorem remaining_pos_of_attemptWrite {device next : Device} {position done : Nat} {data : Bytes}
    (attempt : device.attemptWrite position data done = (.error .interrupted, next)) :
    0 < (device.turns .writing).remaining := by
  apply Nat.pos_of_ne_zero
  intro none
  have outcome := congrArg Prod.fst attempt
  rw [attemptWrite, Turns.next_of_remaining_eq_zero none] at outcome
  exact writeOutcome_undisturbed _ _ _ outcome

theorem remaining_pos_of_attemptRead {device next : Device} {position size : Nat}
    (attempt : device.attemptRead position size = (.error .interrupted, next)) :
    0 < (device.turns .reading).remaining := by
  apply Nat.pos_of_ne_zero
  intro none
  have outcome := congrArg Prod.fst attempt
  rw [attemptRead, Turns.next_of_remaining_eq_zero none] at outcome
  exact readOutcome_undisturbed _ _ _ outcome

/-- Writes the data from its byte `done` on, attempt by attempt. It comes to an end because an attempt
takes a turn, and one that has no turn left gets something through. -/
def writeFrom (position : Nat) (data : Bytes) (done : Nat) (device : Device) :
    EStateM.Result Failure Device Unit :=
  if data.size ≤ done then .ok () device
  else
    match _ : device.attemptWrite position data done with
    | (.error .interrupted, next) => writeFrom position data done next
    | (.error reason, next) => .error (next.refusal .writing reason) next
    | (.ok count, next) =>
      if count = 0 then .error (.noProgress next.path) next
      else writeFrom position data (done + count) next
termination_by ((device.turns .writing).remaining, data.size - done)
decreasing_by
  · have enough := remaining_pos_of_attemptWrite ‹_›
    have fewer := remaining_of_attemptWrite ‹_›
    apply Prod.Lex.left
    omega
  · have fewer := remaining_of_attemptWrite ‹_›
    rw [Prod.lex_def]
    simp only
    omega

def writeAt (position : Nat) (data : Bytes) : OnDevice Unit := writeFrom position data 0

def readFrom (position size : Nat) (known : Bytes) (device : Device) :
    EStateM.Result Failure Device Bytes :=
  if size ≤ known.size then .ok known device
  else
    match _ : device.attemptRead (position + known.size) (size - known.size) with
    | (.error .interrupted, next) => readFrom position size known next
    | (.error reason, next) => .error (next.refusal .reading reason) next
    | (.ok bytes, next) =>
      if bytes.size = 0 then .ok known next
      else readFrom position size (known ++ bytes) next
termination_by ((device.turns .reading).remaining, size - known.size)
decreasing_by
  · have enough := remaining_pos_of_attemptRead ‹_›
    have fewer := remaining_of_attemptRead ‹_›
    apply Prod.Lex.left
    omega
  · have fewer := remaining_of_attemptRead ‹_›
    rw [Prod.lex_def, ByteArray.size_append]
    simp only
    omega

/-- At most `size` bytes, fewer only where the file ends. -/
def readAt (position size : Nat) : OnDevice Bytes := readFrom position size ByteArray.empty

def measure : OnDevice Nat := fun device =>
  let (turn, ahead) := (device.turns .measuring).next
  let device := device.setTurns .measuring ahead
  match turn.refusal? with
  | some reason => .error (device.refusal .measuring reason) device
  | none => .ok device.content.size device

def noteInterruptions (event : Option Errno → Event) : Nat → Device → Device
  | 0, device => device
  | count + 1, device =>
    noteInterruptions event count (device.note (event (some .interrupted)))

/-- Makes a call until it is not interrupted, and gives the reason if it is refused in the end. -/
def settle (device : Device) (call : FileCall) (event : Option Errno → Event) :
    Option Errno × Device :=
  let settlement := (device.turns call).settle
  let device := device.setTurns call settlement.ahead
  (settlement.refusal, noteInterruptions event settlement.interruptions device)

def resize (size : Nat) : OnDevice Unit := fun device =>
  let (refused, device) := device.settle .resizing (.resized size)
  let unsuitable := if device.full ∨ maxOffset < size then some Errno.invalid else none
  match refused.or unsuitable with
  | some reason =>
    .error (device.refusal .resizing reason) (device.note (.resized size (some reason)))
  | none =>
    .ok () ({ device with content := device.content.resize size }.note (.resized size none))

def sync : OnDevice Unit := fun device =>
  let (refused, device) := device.settle .syncing .synced
  match refused.or (if device.full then some Errno.invalid else none) with
  | some reason => .error (device.refusal .syncing reason) (device.note (.synced (some reason)))
  | none => .ok () (device.note (.synced none))

def notify (notice : Notice) : OnDevice Unit :=
  modify fun device => { device with around := device.around.notify notice }

/-- The file is closed in any case; a refusal is only reported. -/
def close : OnDevice Unit := fun device =>
  let (turn, ahead) := (device.turns .closing).next
  let device := device.setTurns .closing ahead
  match turn.refusal? with
  | some _ => notify (.closeFailed device.path) device
  | none => .ok () device

end Device
end RegionStore.Disk
