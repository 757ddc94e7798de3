import RegionStore.Disk.Device
import RegionStore.Proofs.Disk.Content
import RegionStore.Proofs.Outcome

/-!
What the calls of an open file do, under any schedule. A write leaves all of its data or a proper
beginning of it, nothing else changes a content except a change of its size, and no call fails on a
file that is `Untroubled`: one where calls are at most interrupted or cut short, and so get through
when they are made again.
-/

set_option autoImplicit false

namespace RegionStore.Disk

/-- A turn after which the call can be made again and gets further. -/
def Turn.Mild : Turn → Prop
  | .undisturbed => True
  | .refused reason => reason = .interrupted
  | .short count => 0 < count

instance : DecidablePred Turn.Mild
  | .undisturbed => .isTrue trivial
  | .refused reason => inferInstanceAs (Decidable (reason = .interrupted))
  | .short count => inferInstanceAs (Decidable (0 < count))

def Turn.Unrefused (turn : Turn) : Prop := turn.refusal? = none

instance : DecidablePred Turn.Unrefused := fun turn =>
  inferInstanceAs (Decidable (turn.refusal? = none))

def Turns.All (kind : Turn → Prop) (turns : Turns) : Prop := ∀ stretch ∈ turns, kind stretch.turn

instance (kind : Turn → Prop) [DecidablePred kind] (turns : Turns) : Decidable (turns.All kind) :=
  inferInstanceAs (Decidable (∀ stretch ∈ turns, kind stretch.turn))

/-- No call fails in the end. Measuring, closing and what is done without an open file are not made again
after an interruption. -/
structure Schedule.Mild (schedule : Schedule) : Prop where
  examining : schedule.examining.All Turn.Unrefused
  making : schedule.making.All Turn.Unrefused
  opening : schedule.opening.All Turn.Mild
  closing : schedule.closing.All Turn.Unrefused
  reading : schedule.reading.All Turn.Mild
  writing : schedule.writing.All Turn.Mild
  measuring : schedule.measuring.All Turn.Unrefused
  resizing : schedule.resizing.All Turn.Mild
  syncing : schedule.syncing.All Turn.Mild

instance (schedule : Schedule) : Decidable schedule.Mild :=
  decidable_of_iff
    (schedule.examining.All Turn.Unrefused ∧ schedule.making.All Turn.Unrefused ∧
      schedule.opening.All Turn.Mild ∧ schedule.closing.All Turn.Unrefused ∧
      schedule.reading.All Turn.Mild ∧ schedule.writing.All Turn.Mild ∧
      schedule.measuring.All Turn.Unrefused ∧ schedule.resizing.All Turn.Mild ∧
      schedule.syncing.All Turn.Mild)
    ⟨fun ⟨examining, making, opening, closing, reading, writing, measuring, resizing, syncing⟩ =>
      ⟨examining, making, opening, closing, reading, writing, measuring, resizing, syncing⟩,
    fun mild => ⟨mild.examining, mild.making, mild.opening, mild.closing, mild.reading, mild.writing,
      mild.measuring, mild.resizing, mild.syncing⟩⟩

theorem Schedule.calm_mild : Schedule.calm.Mild := by
  constructor <;> exact fun _ impossible => nomatch impossible

structure Surroundings.Untroubled (around : Surroundings) : Prop where
  ceiling : around.ceiling = none
  schedule : around.schedule.Mild

def Surroundings.Resizes (around : Surroundings) : Prop := (around.turns .resizing).All Turn.Mild

def Surroundings.Reads (around : Surroundings) : Prop := (around.turns .reading).All Turn.Mild

instance (around : Surroundings) : Decidable around.Reads :=
  inferInstanceAs (Decidable ((around.turns .reading).All Turn.Mild))

theorem Schedule.Mild.reads {around : Surroundings} (mild : around.schedule.Mild) : around.Reads :=
  mild.reading

structure Device.Untroubled (device : Device) : Prop where
  full : device.full = false
  around : device.around.Untroubled

namespace Turns

theorem all_next {kind : Turn → Prop} {turns : Turns} (all : turns.All kind)
    (undisturbed : kind .undisturbed) : kind turns.next.1 ∧ Turns.All kind turns.next.2 := by
  fun_induction next turns with
  | case1 => exact ⟨undisturbed, all⟩
  | case2 turn rest ih => exact ih fun stretch member => all stretch (List.mem_cons_of_mem _ member)
  | case3 turn count rest =>
    have first : kind turn := all ⟨turn, count + 1⟩ List.mem_cons_self
    refine ⟨first, ?_⟩
    intro stretch member
    rcases List.mem_cons.1 member with rfl | later
    · exact first
    · exact all stretch (List.mem_cons_of_mem _ later)

theorem all_settle {kind : Turn → Prop} {turns : Turns} (all : turns.All kind) :
    Turns.All kind turns.settle.ahead := by
  fun_induction settle turns with
  | case1 => exact all
  | case2 turn rest ih => exact ih fun stretch member => all stretch (List.mem_cons_of_mem _ member)
  | case3 rest count later ih =>
    exact ih fun stretch member => all stretch (List.mem_cons_of_mem _ member)
  | case4 turn count rest =>
    intro stretch member
    rcases List.mem_cons.1 member with rfl | later
    · exact all ⟨turn, count + 1⟩ List.mem_cons_self
    · exact all stretch (List.mem_cons_of_mem _ later)

/-- A call that is made again after interruptions is not refused in the end. -/
theorem refusal_settle {turns : Turns} (mild : turns.All Turn.Mild) :
    turns.settle.refusal = none := by
  fun_induction settle turns with
  | case1 => rfl
  | case2 turn rest ih => exact ih fun stretch member => mild stretch (List.mem_cons_of_mem _ member)
  | case3 rest count later ih =>
    exact ih fun stretch member => mild stretch (List.mem_cons_of_mem _ member)
  | case4 turn count rest notInterrupted =>
    have first : turn.Mild := mild ⟨turn, count + 1⟩ List.mem_cons_self
    cases turn with
    | undisturbed => rfl
    | refused reason => exact absurd (congrArg Turn.refused first) notInterrupted
    | short count => rfl

end Turns

namespace Device

/-- The same open file after some of its calls, whatever has become of the content. -/
structure Continues (before after : Device) : Prop where
  path : after.path = before.path
  full : after.full = before.full
  clock : after.around.clock = before.around.clock
  ceiling : after.around.ceiling = before.around.ceiling
  ahead : ∀ (call : FileCall) (kind : Turn → Prop), kind .undisturbed →
    (before.turns call).All kind → (after.turns call).All kind

theorem Continues.refl (device : Device) : device.Continues device :=
  ⟨rfl, rfl, rfl, rfl, fun _ _ _ => id⟩

theorem Continues.trans {a b c : Device} (first : a.Continues b) (second : b.Continues c) :
    a.Continues c :=
  ⟨second.path.trans first.path, second.full.trans first.full, second.clock.trans first.clock,
    second.ceiling.trans first.ceiling,
    fun call kind undisturbed => second.ahead call kind undisturbed ∘ first.ahead call kind undisturbed⟩

theorem Continues.mild {before after : Device} (continues : before.Continues after)
    (mild : before.around.schedule.Mild) : after.around.schedule.Mild :=
  ⟨continues.ahead .examining _ rfl mild.examining, continues.ahead .making _ rfl mild.making,
    continues.ahead .opening _ trivial mild.opening, continues.ahead .closing _ rfl mild.closing,
    continues.ahead .reading _ trivial mild.reading, continues.ahead .writing _ trivial mild.writing,
    continues.ahead .measuring _ rfl mild.measuring, continues.ahead .resizing _ trivial mild.resizing,
    continues.ahead .syncing _ trivial mild.syncing⟩

theorem Continues.untroubled {before after : Device} (continues : before.Continues after)
    (untroubled : before.Untroubled) : after.Untroubled :=
  ⟨continues.full.trans untroubled.full,
    continues.ceiling.trans untroubled.around.ceiling, continues.mild untroubled.around.schedule⟩

theorem Continues.resizes {before after : Device} (continues : before.Continues after)
    (resizes : before.around.Resizes) : after.around.Resizes :=
  continues.ahead .resizing _ trivial resizes

theorem Continues.reads {before after : Device} (continues : before.Continues after)
    (reads : before.around.Reads) : after.around.Reads :=
  continues.ahead .reading _ trivial reads

theorem Continues.timestamp {before after : Device} (continues : before.Continues after) :
    after.around.timestamp = before.around.timestamp := by
  rw [Surroundings.timestamp, Surroundings.timestamp, continues.clock]

structure Keeps (before after : Device) : Prop where
  continues : before.Continues after
  content : after.content = before.content

theorem Keeps.refl (device : Device) : device.Keeps device := ⟨Continues.refl device, rfl⟩

theorem Keeps.trans {a b c : Device} (first : a.Keeps b) (second : b.Keeps c) : a.Keeps c :=
  ⟨first.continues.trans second.continues, second.content.trans first.content⟩

structure Wrote (before : Device) (position : Nat) (data : Bytes) (after : Device) : Prop where
  continues : before.Continues after
  content : after.content.Same (before.content.write position data)

theorem Wrote.size_le {before after : Device} {position : Nat} {data : Bytes}
    (wrote : before.Wrote position data after) : before.content.size ≤ after.content.size := by
  rw [wrote.content.size, Content.size_write]
  split
  · exact Nat.le_refl _
  · exact Nat.le_max_left ..

theorem Wrote.end_le {before after : Device} {position : Nat} {data : Bytes}
    (wrote : before.Wrote position data after) (nonempty : 0 < data.size) :
    position + data.size ≤ after.content.size := by
  rw [wrote.content.size, Content.size_write, if_neg (Nat.ne_of_gt nonempty)]
  exact Nat.le_max_right ..

theorem Wrote.size {before after : Device} {position : Nat} {data : Bytes}
    (wrote : before.Wrote position data after)
    (within : position + data.size ≤ before.content.size) :
    after.content.size = before.content.size := by
  rw [wrote.content.size, Content.size_write]
  split <;> omega

theorem Wrote.read_self {before after : Device} {position : Nat} {data : Bytes}
    (wrote : before.Wrote position data after) :
    after.content.read position data.size = data := by
  rw [wrote.content.read, Content.read_write]

theorem Wrote.read_other {before after : Device} {position : Nat} {data : Bytes}
    (wrote : before.Wrote position data after) {start count : Nat}
    (present : start + count ≤ before.content.size)
    (apart : start + count ≤ position ∨ position + data.size ≤ start) :
    after.content.read start count = before.content.read start count := by
  have longer := wrote.size_le
  apply Content.read_congr
  · omega
  · intro index inside
    rw [wrote.content.byte, Content.byteAt_write, if_neg (by omega)]

theorem continues_setTurns (device : Device) (call : FileCall) {turns : Turns}
    (ahead : ∀ kind : Turn → Prop, kind .undisturbed → (device.turns call).All kind →
      turns.All kind) :
    device.Continues (device.setTurns call turns) := by
  refine ⟨rfl, rfl, rfl, rfl, fun other kind undisturbed all => ?_⟩
  by_cases same : other = call
  · subst same
    rw [turns_setTurns]
    exact ahead kind undisturbed all
  · rw [turns_setTurns_of_ne device turns same]
    exact all

theorem continues_next (device : Device) (call : FileCall) :
    device.Continues (device.setTurns call (device.turns call).next.2) :=
  continues_setTurns device call fun _ undisturbed all => (Turns.all_next all undisturbed).2

theorem mild_next {schedule : Schedule} (mild : schedule.Mild) (call : FileCall) :
    (schedule.setTurns call (schedule.turns call).next.2).Mild :=
  (continues_next ⟨ByteArray.empty, Content.empty, false, { Surroundings.initial with schedule := schedule }⟩
    call).mild mild

theorem continues_note (device : Device) (event : Event) : device.Continues (device.note event) :=
  ⟨rfl, rfl, rfl, rfl, fun _ _ _ => id⟩

theorem le_of_writeOutcome_eq_ok {device : Device} {turn : Turn} {position size count : Nat}
    (got : device.writeOutcome turn position size = .ok count) : count ≤ size := by
  have allowed : turn.allowance size ≤ size := by
    cases turn with
    | undisturbed => exact Nat.le_refl _
    | refused reason => exact Nat.le_refl _
    | short limit => exact Nat.min_le_right ..
  unfold writeOutcome at got
  split at got
  · cases got
  · simp only at got
    repeat' split at got
    all_goals cases got
    all_goals omega

theorem writeOutcome_of_unrefused {device : Device} (isFile : device.full = false)
    (unlimited : device.around.ceiling = none) {turn : Turn} (accepted : turn.Unrefused)
    {position size : Nat} (some : 0 < turn.allowance size)
    (bounded : position + turn.allowance size ≤ maxOffset) :
    device.writeOutcome turn position size = .ok (turn.allowance size) := by
  unfold writeOutcome
  split
  · cases accepted
  · rw [unlimited, isFile]
    simp only
    rw [if_neg (by omega), if_neg (by omega), if_neg (by omega), if_neg (by omega),
      if_neg Bool.false_ne_true]

/-- On an untroubled file a mild turn lets something through, or the call is interrupted. -/
theorem writeOutcome_mild {device : Device} (untroubled : device.Untroubled) {turn : Turn}
    (mild : turn.Mild) {position size : Nat} (some : 0 < size) (bounded : position + size ≤ maxOffset) :
    device.writeOutcome turn position size = .error .interrupted ∨
      ∃ count, 0 < count ∧ device.writeOutcome turn position size = .ok count := by
  have through (accepted : turn.Unrefused) (positive : 0 < turn.allowance size)
      (atMost : turn.allowance size ≤ size) :
      ∃ count, 0 < count ∧ device.writeOutcome turn position size = .ok count :=
    ⟨_, positive, writeOutcome_of_unrefused untroubled.full untroubled.around.ceiling accepted positive
      (by omega)⟩
  cases turn with
  | undisturbed => exact .inr (through rfl some (Nat.le_refl _))
  | refused reason =>
    left
    rw [show reason = Errno.interrupted from mild]
    rfl
  | short count =>
    have positive : 0 < count := mild
    have allowed : 0 < min count size := by omega
    exact .inr (through rfl allowed (Nat.min_le_right ..))

/-- One attempt to write either lets a beginning of the rest through or leaves the content alone. -/
theorem attemptWrite_cases {device next : Device} {position done : Nat} {data : Bytes}
    {outcome : Except Errno Nat}
    (attempt : device.attemptWrite position data done = (outcome, next)) :
    (∃ reason, outcome = .error reason ∧ device.Keeps next) ∨
      ∃ count, outcome = .ok count ∧ count ≤ data.size - done ∧
        device.Wrote (position + done) (data.extract done (done + count)) next := by
  have continues := continues_next device .writing
  rw [attemptWrite, Prod.mk.injEq] at attempt
  obtain ⟨rfl, rfl⟩ := attempt
  cases got : device.writeOutcome (device.turns .writing).next.1 (position + done)
      (data.size - done) with
  | error reason =>
    exact .inl ⟨reason, rfl, continues.trans (continues_note _ _), rfl⟩
  | ok count =>
    refine .inr ⟨count, rfl, le_of_writeOutcome_eq_ok got, ?_, Content.Same.refl _⟩
    exact continues.trans ⟨rfl, rfl, rfl, rfl, fun _ _ _ => id⟩

theorem events_attemptWrite {device next : Device} {position done : Nat} {data : Bytes}
    {outcome : Except Errno Nat} (attempt : device.attemptWrite position data done = (outcome, next)) :
    next.around.events = .wrote (position + done) (data.size - done)
      (outcome.map fun count => data.extract done (done + count)) :: device.around.events := by
  have last : (device.attemptWrite position data done).2 = next := congrArg Prod.snd attempt
  have first : (device.attemptWrite position data done).1 = outcome := congrArg Prod.fst attempt
  rw [← last, attemptWrite]
  rw [attemptWrite] at first
  dsimp only at first ⊢
  rw [first]
  cases outcome <;> rfl

theorem attemptWrite_mild {device next : Device} (untroubled : device.Untroubled)
    {position done : Nat} {data : Bytes} {outcome : Except Errno Nat}
    (attempt : device.attemptWrite position data done = (outcome, next)) (unfinished : done < data.size)
    (bounded : position + data.size ≤ maxOffset) :
    outcome = .error .interrupted ∨ ∃ count, 0 < count ∧ outcome = .ok count := by
  have first : _ = outcome := congrArg Prod.fst attempt
  rw [← first]
  exact writeOutcome_mild untroubled (Turns.all_next untroubled.around.schedule.writing trivial).1
    (by omega) (by omega)

/-- How a write that has let the data up to its byte `done` through ends. -/
theorem writeFrom_ends (position : Nat) (data : Bytes) (done : Nat) (device : Device)
    (within : done ≤ data.size) :
    Ends (writeFrom position data done) device
      (fun _ next => device.Wrote (position + done) (data.extract done data.size) next)
      fun _ next =>
        (∃ count, done ≤ count ∧ count < data.size ∧
          device.Wrote (position + done) (data.extract done count) next) ∧
        (position + data.size ≤ maxOffset → ¬ device.Untroubled) := by
  unfold Ends
  fun_induction writeFrom position data done device with
  | case1 done device finished =>
    have nothing : (data.extract done data.size).size = 0 := by
      rw [ByteArray.size_extract]
      omega
    exact ⟨Continues.refl device, Content.write_of_size_eq_zero _ _ nothing ▸ Content.Same.refl _⟩
  | case2 done device unfinished next attempt ih =>
    rcases attemptWrite_cases attempt with ⟨_, _, kept⟩ | ⟨_, impossible, _⟩
    · refine Ends.mono (ih within) ?_ ?_
      · rintro _ after ⟨continues, content⟩
        exact ⟨kept.continues.trans continues, kept.content ▸ content⟩
      · rintro _ after ⟨⟨count, enough, short, continues, content⟩, troubled⟩
        refine ⟨⟨count, enough, short, kept.continues.trans continues, kept.content ▸ content⟩, ?_⟩
        exact fun bounded untroubled => troubled bounded (kept.continues.untroubled untroubled)
    · cases impossible
  | case3 done device unfinished reason next notInterrupted attempt =>
    rcases attemptWrite_cases attempt with ⟨_, _, kept⟩ | ⟨_, impossible, _⟩
    · have nothing : (data.extract done done).size = 0 := by
        rw [ByteArray.size_extract]
        omega
      refine ⟨⟨done, Nat.le_refl _, by omega, kept.continues, ?_⟩, ?_⟩
      · rw [Content.write_of_size_eq_zero _ _ nothing, kept.content]
        exact Content.Same.refl _
      · intro bounded untroubled
        rcases attemptWrite_mild untroubled attempt (by omega) bounded with
          interrupted | ⟨_, _, impossible⟩
        · exact notInterrupted (Except.error.inj interrupted)
        · cases impossible
    · cases impossible
  | case4 done device unfinished next attempt =>
    rcases attemptWrite_cases attempt with ⟨_, impossible, _⟩ | ⟨count, same, _, wrote⟩
    · cases impossible
    · cases same
      refine ⟨⟨done, Nat.le_refl _, by omega, wrote⟩, ?_⟩
      intro bounded untroubled
      rcases attemptWrite_mild untroubled attempt (by omega) bounded with impossible | ⟨_, some, none⟩
      · cases impossible
      · cases none
        exact absurd some (Nat.lt_irrefl 0)
  | case5 done device unfinished count next attempt some ih =>
    rcases attemptWrite_cases attempt with ⟨_, impossible, _⟩ | ⟨_, same, atMost, first⟩
    · cases impossible
    · cases same
      have joined : ∀ stop, done + count ≤ stop → stop ≤ data.size → ∀ after,
          next.Wrote (position + (done + count)) (data.extract (done + count) stop) after →
          device.Wrote (position + done) (data.extract done stop) after := by
        intro stop enough bounded after second
        refine ⟨first.continues.trans second.continues, second.content.trans ?_⟩
        exact (first.content.write _ _).trans
          (Content.write_write_same _ _ _ (by omega) enough bounded)
      refine Ends.mono (ih (by omega)) ?_ ?_
      · intro _ after second
        exact joined _ (by omega) (Nat.le_refl _) after second
      · rintro _ after ⟨⟨stop, enough, short, second⟩, troubled⟩
        refine ⟨⟨stop, by omega, short, joined stop enough (by omega) after second⟩, ?_⟩
        exact fun bounded untroubled => troubled bounded (first.continues.untroubled untroubled)

theorem writeAt_ends (position : Nat) (data : Bytes) (device : Device) :
    Ends (writeAt position data) device (fun _ next => device.Wrote position data next)
      fun _ next =>
        (∃ count < data.size, device.Wrote position (data.extract 0 count) next) ∧
        (position + data.size ≤ maxOffset → ¬ device.Untroubled) := by
  refine Ends.mono (writeFrom_ends position data 0 device (Nat.zero_le _)) ?_ ?_
  · intro _ next wrote
    rwa [ByteArray.extract_zero_size] at wrote
  · rintro _ next ⟨⟨count, _, short, wrote⟩, troubled⟩
    exact ⟨⟨count, short, wrote⟩, troubled⟩

theorem attemptRead_cases {device next : Device} (isFile : device.full = false) {position size : Nat}
    {outcome : Except Errno Bytes} (attempt : device.attemptRead position size = (outcome, next)) :
    device.Keeps next ∧
      ((∃ reason, outcome = .error reason) ∨
        ∃ count ≤ size, outcome = .ok (device.content.read position count)) := by
  have continues := continues_next device .reading
  rw [attemptRead, Prod.mk.injEq] at attempt
  obtain ⟨rfl, rfl⟩ := attempt
  refine ⟨⟨continues, rfl⟩, ?_⟩
  generalize (device.turns .reading).next.1 = turn
  have allowed : turn.allowance size ≤ size := by
    cases turn with
    | undisturbed => exact Nat.le_refl _
    | refused reason => exact Nat.le_refl _
    | short limit => exact Nat.min_le_right ..
  unfold readOutcome
  split
  · exact .inl ⟨_, rfl⟩
  · simp only
    split
    · exact .inr ⟨0, Nat.zero_le _, congrArg Except.ok (Content.read_zero ..).symm⟩
    · split
      · exact .inl ⟨_, rfl⟩
      · rw [isFile, if_neg Bool.false_ne_true]
        exact .inr ⟨_, allowed, rfl⟩

theorem attemptRead_mild {device next : Device} (isFile : device.full = false)
    (reads : device.around.Reads) {position size : Nat} {outcome : Except Errno Bytes}
    (attempt : device.attemptRead position size = (outcome, next)) (some : 0 < size)
    (bounded : position + size ≤ maxOffset) :
    outcome = .error .interrupted ∨
      ∃ count, 0 < count ∧ outcome = .ok (device.content.read position count) := by
  have first : _ = outcome := congrArg Prod.fst attempt
  rw [← first]
  have mild : ((device.turns .reading).next).1.Mild := (Turns.all_next reads trivial).1
  have through : ∀ turn : Turn, 0 < turn.allowance size → turn.allowance size ≤ size →
      (∀ reason, turn ≠ .refused reason) →
      device.readOutcome turn position size =
        .ok (device.content.read position (turn.allowance size)) := by
    intro turn positive atMost notRefused
    unfold readOutcome
    split
    · next reason => exact absurd rfl (notRefused reason)
    · simp only
      rw [isFile, if_neg (by omega), if_neg (by omega), if_neg Bool.false_ne_true]
  change device.readOutcome (device.turns .reading).next.1 position size = _ ∨
    ∃ count, _ ∧ device.readOutcome (device.turns .reading).next.1 position size = _
  cases taken : (device.turns .reading).next.1 with
  | undisturbed =>
    exact .inr ⟨size, some, through .undisturbed some (Nat.le_refl _) fun _ => nofun⟩
  | refused reason =>
    rw [taken] at mild
    left
    rw [show reason = Errno.interrupted from mild]
    rfl
  | short count =>
    rw [taken] at mild
    have positive : 0 < count := mild
    have allowed : 0 < min count size := by omega
    exact .inr ⟨min count size, allowed,
      through (.short count) allowed (Nat.min_le_right ..) fun _ => nofun⟩

/-- How a read that already knows the bytes in front ends. -/
theorem readFrom_ends (position size : Nat) (known : Bytes) (device : Device)
    (isFile : device.full = false) (prior : known = device.content.read position known.size)
    (within : known.size ≤ size) :
    Ends (readFrom position size known) device
      (fun bytes next => device.Keeps next ∧ bytes.size ≤ size ∧
        bytes = device.content.read position bytes.size ∧
        (device.around.Reads → position + size ≤ maxOffset →
          bytes.size = min size (device.content.size - position)))
      fun _ next => device.Keeps next ∧ (position + size ≤ maxOffset → ¬ device.around.Reads) := by
  have knownSize : known.size = min known.size (device.content.size - position) := by
    have := congrArg ByteArray.size prior
    rwa [Content.size_read] at this
  unfold Ends
  fun_induction readFrom position size known device with
  | case1 known device finished =>
    exact ⟨Keeps.refl device, within, prior, fun _ _ => by omega⟩
  | case2 known device unfinished next attempt ih =>
    obtain ⟨kept, _⟩ := attemptRead_cases isFile attempt
    have again := ih (kept.continues.full.trans isFile) (kept.content ▸ prior) within
      (kept.content ▸ knownSize)
    refine Ends.mono again ?_ ?_
    · rintro bytes after ⟨keeps, atMost, same, whole⟩
      rw [kept.content] at same whole
      refine ⟨⟨kept.continues.trans keeps.continues, keeps.content.trans kept.content⟩, atMost,
        same, fun reads => whole (kept.continues.reads reads)⟩
    · rintro _ after ⟨keeps, refused⟩
      refine ⟨⟨kept.continues.trans keeps.continues, keeps.content.trans kept.content⟩, ?_⟩
      exact fun bounded reads => refused bounded (kept.continues.reads reads)
  | case3 known device unfinished reason next notInterrupted attempt =>
    refine ⟨(attemptRead_cases isFile attempt).1, ?_⟩
    intro bounded reads
    rcases attemptRead_mild isFile reads attempt (by omega) (by omega) with
      interrupted | ⟨_, _, impossible⟩
    · exact notInterrupted (Except.error.inj interrupted)
    · cases impossible
  | case4 known device unfinished bytes next attempt empty =>
    refine ⟨(attemptRead_cases isFile attempt).1, within, prior, ?_⟩
    intro reads bounded
    rcases attemptRead_mild isFile reads attempt (by omega) (by omega) with
      impossible | ⟨count, some, same⟩
    · cases impossible
    · have size := congrArg ByteArray.size (Except.ok.inj same)
      rw [Content.size_read] at size
      omega
  | case5 known device unfinished bytes next attempt nonempty ih =>
    obtain ⟨kept, ⟨_, impossible⟩ | ⟨count, atMost, got⟩⟩ := attemptRead_cases isFile attempt
    · cases impossible
    · cases got
      have size : (device.content.read (position + known.size) count).size =
          min count (device.content.size - (position + known.size)) := Content.size_read ..
      have longer : known ++ device.content.read (position + known.size) count =
          device.content.read position (known ++
            device.content.read (position + known.size) count).size := by
        have full : position + known.size ≤ device.content.size := by omega
        have joined : known ++ device.content.read (position + known.size) count =
            device.content.read position (known.size + count) := by
          rw [← Content.read_append_read _ _ full, ← prior]
        rw [joined, Content.size_read, Content.read_min]
      have again := ih (kept.continues.full.trans isFile) (kept.content ▸ longer)
        (by rw [ByteArray.size_append]; omega)
        (by rw [ByteArray.size_append, kept.content]; omega)
      refine Ends.mono again ?_ ?_
      · rintro bytes after ⟨keeps, short, same, whole⟩
        rw [kept.content] at same whole
        refine ⟨⟨kept.continues.trans keeps.continues, keeps.content.trans kept.content⟩, short,
          same, fun reads => whole (kept.continues.reads reads)⟩
      · rintro _ after ⟨keeps, refused⟩
        refine ⟨⟨kept.continues.trans keeps.continues, keeps.content.trans kept.content⟩, ?_⟩
        exact fun bounded reads => refused bounded (kept.continues.reads reads)

/-- A read gives a beginning of what is there, and all of it if no call fails. -/
theorem readAt_ends (position size : Nat) (device : Device) (isFile : device.full = false) :
    Ends (readAt position size) device
      (fun bytes next => device.Keeps next ∧
        bytes = device.content.read position bytes.size ∧
        (device.around.Reads → position + size ≤ maxOffset →
          bytes = device.content.read position size))
      fun _ next => device.Keeps next ∧ (position + size ≤ maxOffset → ¬ device.around.Reads) := by
  refine Ends.mono (readFrom_ends position size ByteArray.empty device isFile
    (Content.read_zero ..).symm (Nat.zero_le _)) ?_ fun _ _ failed => failed
  rintro bytes next ⟨keeps, _, same, whole⟩
  refine ⟨keeps, same, fun reads bounded => ?_⟩
  rw [same, whole reads bounded, Content.read_min]

theorem measure_ends (device : Device) :
    Ends measure device (fun size next => device.Keeps next ∧ size = device.content.size)
      fun _ next => device.Keeps next ∧ ¬ device.Untroubled := by
  have continues := continues_next device .measuring
  simp only [Ends, measure]
  cases refusal : (device.turns .measuring).next.1.refusal? with
  | none => exact ⟨⟨continues, rfl⟩, rfl⟩
  | some reason =>
    refine ⟨⟨continues, rfl⟩, fun untroubled => ?_⟩
    have accepted := (Turns.all_next untroubled.around.schedule.measuring rfl).1
    cases refusal.symm.trans accepted

theorem keeps_noteInterruptions (event : Option Errno → Event) (count : Nat) (device : Device) :
    device.Keeps (noteInterruptions event count device) := by
  induction count generalizing device with
  | zero => exact Keeps.refl device
  | succ count ih =>
    have rest := ih (device.note (event (some .interrupted)))
    exact ⟨(continues_note _ _).trans rest.continues, rest.content⟩

theorem keeps_settle (device : Device) (call : FileCall) (event : Option Errno → Event) :
    device.Keeps (device.settle call event).2 := by
  have ahead := continues_setTurns device call fun _ _ all => Turns.all_settle all
  have noted := keeps_noteInterruptions event (device.turns call).settle.interruptions
    (device.setTurns call (device.turns call).settle.ahead)
  exact ⟨ahead.trans noted.continues, noted.content⟩

theorem resize_ends (size : Nat) (device : Device) :
    Ends (resize size) device
      (fun _ next => device.Continues next ∧ next.content = device.content.resize size)
      fun _ next => device.Keeps next ∧
        (size ≤ maxOffset → device.full = false → ¬ device.around.Resizes) := by
  have settled := keeps_settle device .resizing (.resized size)
  have accepted : device.around.Resizes → (device.settle .resizing (.resized size)).1 = none :=
    Turns.refusal_settle
  simp only [Ends, resize]
  generalize device.settle .resizing (.resized size) = settlement at settled accepted
  obtain ⟨refused, next⟩ := settlement
  cases outcome : refused.or (if next.full ∨ maxOffset < size then some Errno.invalid else none) with
  | none =>
    refine ⟨settled.continues.trans ⟨rfl, rfl, rfl, rfl, fun _ _ _ => id⟩, ?_⟩
    exact congrArg (fun content => Content.resize content size) settled.content
  | some reason =>
    refine ⟨⟨settled.continues.trans (continues_note _ _), settled.content⟩, ?_⟩
    intro bounded isFile resizes
    have fits : ¬ (next.full = true ∨ maxOffset < size) := by
      rw [settled.continues.full, isFile]
      simp [bounded]
    have notRefused : refused = none := accepted resizes
    rw [notRefused, if_neg fits] at outcome
    cases outcome

theorem sync_ends (device : Device) :
    Ends sync device (fun _ next => device.Keeps next)
      fun _ next => device.Keeps next ∧ ¬ device.Untroubled := by
  have settled := keeps_settle device .syncing .synced
  have accepted : device.Untroubled → (device.settle .syncing .synced).1 = none :=
    fun untroubled => Turns.refusal_settle untroubled.around.schedule.syncing
  simp only [Ends, sync]
  generalize device.settle .syncing .synced = settlement at settled accepted
  obtain ⟨refused, next⟩ := settlement
  cases outcome : refused.or (if next.full then some Errno.invalid else none) with
  | none => exact ⟨settled.continues.trans (continues_note _ _), settled.content⟩
  | some reason =>
    refine ⟨⟨settled.continues.trans (continues_note _ _), settled.content⟩, fun untroubled => ?_⟩
    have notRefused : refused = none := accepted untroubled
    have isFile : next.full = false := settled.continues.full.trans untroubled.full
    rw [notRefused, isFile] at outcome
    cases outcome

theorem keeps_notify (notice : Notice) (device : Device) :
    device.Keeps { device with around := device.around.notify notice } :=
  ⟨⟨rfl, rfl, rfl, rfl, fun _ _ _ => id⟩, rfl⟩

theorem close_ends (device : Device) :
    Ends close device (fun _ next => device.Keeps next) fun _ _ => False := by
  have continues := continues_next device .closing
  simp only [Ends, close]
  cases (device.turns .closing).next.1.refusal? with
  | none => exact ⟨continues, rfl⟩
  | some reason =>
    have noted := keeps_notify (.closeFailed device.path)
      (device.setTurns .closing (device.turns .closing).next.2)
    exact ⟨continues.trans noted.continues, noted.content⟩

end Device
end RegionStore.Disk
