import RegionStore.Proofs.Bytes
import RegionStore.Proofs.Disk.Device
import RegionStore.Proofs.Lockstep

/-!
Calls that are made again. Whatever mild turns are ahead of a call, it comes to what one undisturbed attempt
comes to, so two files that differ only in the turns that are ahead stay alike: a write that is cut short
goes on where it was cut, a read that is cut short is not taken for the end of the file, and neither is an
interruption taken for a failure.
-/

set_option autoImplicit false

namespace RegionStore.Disk

/-- No difference but in the turns ahead, which are mild, and in the attempts that have been recorded. -/
structure Surroundings.Alike (first second : Surroundings) : Prop where
  clock : first.clock = second.clock
  ceiling : first.ceiling = second.ceiling
  notices : first.notices = second.notices
  mild : first.schedule.Mild
  mild' : second.schedule.Mild

theorem Surroundings.Alike.notify {first second : Surroundings} (alike : first.Alike second)
    (notice : Notice) : (first.notify notice).Alike (second.notify notice) :=
  ⟨alike.clock, alike.ceiling, congrArg (List.cons notice) alike.notices, alike.mild, alike.mild'⟩

theorem Surroundings.Alike.timestamp {first second : Surroundings} (alike : first.Alike second) :
    first.timestamp = second.timestamp := by
  unfold Surroundings.timestamp
  rw [alike.clock]

namespace Device

/-- The same open file, as far as anything can be told of it. -/
structure Alike (first second : Device) : Prop where
  path : first.path = second.path
  full : first.full = second.full
  content : first.content.Same second.content
  around : first.around.Alike second.around

theorem Alike.symm {first second : Device} (alike : first.Alike second) : second.Alike first :=
  ⟨alike.path.symm, alike.full.symm, alike.content.symm, alike.around.clock.symm,
    alike.around.ceiling.symm, alike.around.notices.symm, alike.around.mild', alike.around.mild⟩

theorem Alike.trans {a b c : Device} (first : a.Alike b) (second : b.Alike c) : a.Alike c :=
  ⟨first.path.trans second.path, first.full.trans second.full, first.content.trans second.content,
    first.around.clock.trans second.around.clock, first.around.ceiling.trans second.around.ceiling,
    first.around.notices.trans second.around.notices, first.around.mild, second.around.mild'⟩

theorem Alike.refusal {first second : Device} (alike : first.Alike second) (call : FileCall)
    (reason : Errno) : first.refusal call reason = second.refusal call reason := by
  unfold Device.refusal
  rw [alike.path]

theorem Alike.note {first second : Device} (alike : first.Alike second) (event : Event) :
    first.Alike (second.note event) :=
  ⟨alike.path, alike.full, alike.content, alike.around.clock, alike.around.ceiling,
    alike.around.notices, alike.around.mild, alike.around.mild'⟩

theorem Alike.set {first second : Device} (alike : first.Alike second) {content content' : Content}
    (same : content.Same content') :
    Alike { first with content := content } { second with content := content' } :=
  ⟨alike.path, alike.full, same, alike.around⟩

section
variable {device : Device} (mild : device.around.schedule.Mild)
include mild

theorem alike_refl : device.Alike device := ⟨rfl, rfl, Content.Same.refl _, rfl, rfl, rfl, mild, mild⟩

theorem alike_next (call : FileCall) :
    device.Alike (device.setTurns call (device.turns call).next.2) :=
  ⟨rfl, rfl, Content.Same.refl _, rfl, rfl, rfl, mild, (continues_next device call).mild mild⟩

theorem alike_settle (call : FileCall) (event : Option Errno → Event) :
    device.Alike (device.settle call event).2 := by
  have ahead := continues_setTurns device call fun _ _ all => Turns.all_settle all
  have noted (count : Nat) (next : Device) (alike : device.Alike next) :
      device.Alike (noteInterruptions event count next) := by
    induction count generalizing next with
    | zero => exact alike
    | succ count ih => exact ih _ (alike.note _)
  exact noted _ _ ⟨rfl, rfl, Content.Same.refl _, rfl, rfl, rfl, mild, ahead.mild mild⟩

end

/-- An action runs in lockstep with itself if it comes to one that does, whatever mild turns are ahead. -/
theorem lockstep_of_agree {Result : Type} {action once : OnDevice Result} (same : InStep Alike once)
    (comes : ∀ device : Device, device.around.schedule.Mild → Agree Alike (action device) (once device)) :
    InStep Alike action := by
  intro device device' alike
  have symm : ∀ a b : Device, a.Alike b → b.Alike a := fun _ _ => Alike.symm
  have trans : ∀ a b c : Device, a.Alike b → b.Alike c → a.Alike c := fun _ _ _ => Alike.trans
  have first := comes device alike.around.mild
  have second := comes device' alike.around.mild'
  exact (first.trans trans (same alike)).trans trans (second.symm symm)

theorem lockstep_of_value {Result : Type} {action : OnDevice Result} (value : Device → Result)
    (same : ∀ first second : Device, first.Alike second → value first = value second)
    (gives : ∀ device : Device, device.around.schedule.Mild →
      Ends action device (fun result next => result = value device ∧ device.Alike next)
        fun _ _ => False) :
    InStep Alike action := by
  intro device device' alike
  obtain ⟨_, next, ran, rfl, left⟩ := (gives device alike.around.mild).exists_ok
  obtain ⟨_, next', ran', rfl, left'⟩ := (gives device' alike.around.mild').exists_ok
  rw [ran, ran', same device device' alike]
  exact .ok _ ((left.symm.trans alike).trans left')

def reach (device : Device) (position size : Nat) : Nat :=
  match device.around.ceiling with
  | none => size
  | some ceiling => min size (ceiling - position)

def writeAtOnce (position : Nat) (data : Bytes) : OnDevice Unit := fun device =>
  let reach := device.reach position data.size
  if data.size = 0 then .ok () device
  else if reach = 0 then .error (device.refusal .writing .tooLarge) device
  else if device.full then .error (device.refusal .writing .noSpace) device
  else
    let written := { device with content := device.content.write position (data.extract 0 reach) }
    if reach = data.size then .ok () written
    else .error (device.refusal .writing .tooLarge) written

theorem lockstep_writeAtOnce (position : Nat) (data : Bytes) :
    InStep Alike (writeAtOnce position data) := by
  intro device device' alike
  have reach : device.reach position data.size = device'.reach position data.size := by
    unfold Device.reach
    rw [alike.around.ceiling]
  have written := alike.set (alike.content.write position
    (data.extract 0 (device'.reach position data.size)))
  simp only [alike.full] at written
  simp only [writeAtOnce, reach, alike.full, alike.refusal]
  split
  · exact .ok () alike
  · split
    · exact .error _ alike
    · split
      · exact .error _ alike
      · split
        · exact .ok () written
        · exact .error _ written

inductive Attempt (device : Device) (position size : Nat) : Except Errno Nat → Prop where
  | interrupted : Attempt device position size (.error .interrupted)
  | tooLarge (nothing : device.reach position size = 0) : Attempt device position size (.error .tooLarge)
  | noSpace (something : device.reach position size ≠ 0) (full : device.full = true) :
    Attempt device position size (.error .noSpace)
  | part (isFile : device.full = false) (count : Nat) (positive : 0 < count)
    (fits : count ≤ device.reach position size) : Attempt device position size (.ok count)

section
variable (device : Device) (position : Nat)

theorem reach_mono {less more : Nat} (le : less ≤ more) :
    device.reach position less ≤ device.reach position more := by
  unfold reach
  cases device.around.ceiling with
  | none => exact le
  | some ceiling =>
    simp only
    omega

theorem reach_le (size : Nat) : device.reach position size ≤ size := by
  unfold reach
  cases device.around.ceiling with
  | none => exact Nat.le_refl size
  | some ceiling => exact Nat.min_le_left ..

/-- Whether anything fits does not depend on how much is wanted. -/
theorem reach_eq_zero_iff {size other : Nat} (wanted : 0 < size) (wanted' : 0 < other) :
    device.reach position size = 0 ↔ device.reach position other = 0 := by
  unfold reach
  cases device.around.ceiling with
  | none =>
    simp only
    omega
  | some ceiling =>
    simp only
    omega

theorem reach_add (done size : Nat) :
    device.reach (position + done) size = device.reach position (done + size) - done := by
  unfold reach
  cases device.around.ceiling with
  | none =>
    simp only
    omega
  | some ceiling =>
    simp only
    omega

theorem writeOutcome_eq {turn : Turn} (accepted : turn.Unrefused) {size : Nat}
    (wanted : 0 < turn.allowance size) (bounded : position + turn.allowance size ≤ maxOffset) :
    device.writeOutcome turn position size =
      if device.reach position (turn.allowance size) = 0 then .error .tooLarge
      else if device.full then .error .noSpace
      else .ok (device.reach position (turn.allowance size)) := by
  have atMost := device.reach_le position (turn.allowance size)
  unfold writeOutcome
  split
  · cases accepted
  · simp only
    rw [if_neg (Nat.ne_of_gt wanted), if_neg (by omega)]
    change (if device.reach position (turn.allowance size) = 0 then _ else if
      maxOffset < position + device.reach position (turn.allowance size) then _ else _) = _
    rw [if_neg (show ¬ maxOffset < position + _ by omega)]
    rfl

theorem attempt_of_mild {turn : Turn} (mild : turn.Mild) {size : Nat} (wanted : 0 < size)
    (bounded : position + size ≤ maxOffset) :
    Attempt device position size (device.writeOutcome turn position size) := by
  have through (accepted : turn.Unrefused) (positive : 0 < turn.allowance size)
      (atMost : turn.allowance size ≤ size) :
      Attempt device position size (device.writeOutcome turn position size) := by
    have same := device.reach_eq_zero_iff position wanted positive
    rw [device.writeOutcome_eq position accepted positive (by omega)]
    split
    · next nothing => exact .tooLarge (same.2 nothing)
    · next something =>
      cases full : device.full with
      | true => exact .noSpace (fun nothing => something (same.1 nothing)) full
      | false =>
        exact .part full _ (Nat.pos_of_ne_zero something) (device.reach_mono position atMost)
  cases turn with
  | undisturbed => exact through rfl wanted (Nat.le_refl _)
  | refused reason =>
    rw [show reason = Errno.interrupted from mild]
    exact .interrupted
  | short count =>
    have positive : 0 < min count size := Nat.lt_min.2 ⟨mild, wanted⟩
    exact through rfl positive (Nat.min_le_right ..)

end

section
variable {device next : Device} (mild : device.around.schedule.Mild) {position done : Nat} {data : Bytes}
include mild

theorem alike_of_attemptWrite_error {reason : Errno}
    (attempt : device.attemptWrite position data done = (.error reason, next)) : device.Alike next := by
  have taken := alike_next mild .writing
  rw [attemptWrite, Prod.mk.injEq] at attempt
  obtain ⟨outcome, rfl⟩ := attempt
  rw [outcome]
  exact taken.note _

theorem alike_of_attemptWrite_ok {count : Nat}
    (attempt : device.attemptWrite position data done = (.ok count, next)) :
    Alike { device with
      content := device.content.write (position + done) (data.extract done (done + count)) } next := by
  have taken := alike_next mild .writing
  rw [attemptWrite, Prod.mk.injEq] at attempt
  obtain ⟨outcome, rfl⟩ := attempt
  rw [outcome]
  exact (taken.set (Content.Same.refl _)).note _

theorem attempt_of_attemptWrite (bounded : position + data.size ≤ maxOffset) (unfinished : done < data.size)
    {outcome : Except Errno Nat} (attempt : device.attemptWrite position data done = (outcome, next)) :
    Attempt device (position + done) (data.size - done) outcome := by
  have first : _ = outcome := congrArg Prod.fst attempt
  rw [← first]
  exact attempt_of_mild device _ (Turns.all_next mild.writing trivial).1 (by omega) (by omega)

end

theorem writeAtOnce_of_file (device : Device) (isFile : device.full = false) (position : Nat)
    (data : Bytes) {reach : Nat} (reached : device.reach position data.size = reach) :
    writeAtOnce position data device =
      if reach = data.size then
        .ok () { device with content := device.content.write position (data.extract 0 reach) }
      else
        .error (device.refusal .writing .tooLarge)
          { device with content := device.content.write position (data.extract 0 reach) } := by
  have atMost := device.reach_le position data.size
  rw [reached] at atMost
  have nothing (none : reach = 0) :
      device = { device with content := device.content.write position (data.extract 0 reach) } := by
    have size : (data.extract 0 reach).size = 0 := by
      rw [ByteArray.size_extract]
      omega
    rw [Content.write_of_size_eq_zero _ _ size]
  simp only [writeAtOnce, reached]
  by_cases empty : data.size = 0
  · have none : reach = 0 := by omega
    rw [if_pos empty, if_pos (none.trans empty.symm), ← nothing none]
  · by_cases none : reach = 0
    · rw [if_neg empty, if_pos none, if_neg (by omega), ← nothing none]
    · rw [if_neg empty, if_neg none, isFile, if_neg Bool.false_ne_true]

/-- The rest of a write that has been cut short comes to what the whole of it comes to. -/
theorem writeAtOnce_rest {device : Device} (mild : device.around.schedule.Mild)
    (isFile : device.full = false) (position : Nat) (data : Bytes) {done count : Nat}
    (within : done ≤ data.size) (fits : count ≤ device.reach (position + done) (data.size - done)) :
    Agree Alike
      (writeAtOnce (position + (done + count)) (data.extract (done + count) data.size) { device with
        content := device.content.write (position + done) (data.extract done (done + count)) })
      (writeAtOnce (position + done) (data.extract done data.size) device) := by
  have atMost := device.reach_le (position + done) (data.size - done)
  have size (start : Nat) : (data.extract start data.size).size = data.size - start := by
    rw [ByteArray.size_extract, Nat.min_self]
  have front (start length : Nat) (inside : start + length ≤ data.size) :
      (data.extract start data.size).extract 0 length = data.extract start (start + length) := by
    rw [ByteArray.extract_extract, Nat.add_zero, Nat.min_eq_left inside]
  generalize reached : device.reach (position + done) (data.size - done) = reach at fits atMost
  have rest : device.reach (position + (done + count)) (data.size - (done + count)) = reach - count := by
    have split : count + (data.size - (done + count)) = data.size - done := by omega
    rw [← Nat.add_assoc, reach_add, split, reached]
  have whole := front done reach (by omega)
  have second := front (done + count) (reach - count) (by omega)
  have stop : done + count + (reach - count) = done + reach := by omega
  rw [stop] at second
  have ends : reach - count = data.size - (done + count) ↔ reach = data.size - done := by omega
  have written := (alike_refl mild).set (Content.write_write_same device.content position data
    (Nat.le_add_right done count) (by omega : done + count ≤ done + reach) (by omega))
  have once := writeAtOnce_of_file device isFile (position + done) (data.extract done data.size)
    ((congrArg _ (size done)).trans reached)
  have again := writeAtOnce_of_file { device with
      content := device.content.write (position + done) (data.extract done (done + count)) } isFile
    (position + (done + count)) (data.extract (done + count) data.size)
    ((congrArg _ (size (done + count))).trans rest)
  rw [once, again, size, size, whole, second]
  simp only [ends]
  split
  · exact .ok () written
  · exact .error _ written

/-- A write attempt by attempt comes to what the write at once comes to. -/
theorem writeFrom_at_once (position : Nat) (data : Bytes) (done : Nat) (device : Device)
    (mild : device.around.schedule.Mild) (bounded : position + data.size ≤ maxOffset)
    (within : done ≤ data.size) :
    Agree Alike (writeFrom position data done device)
      (writeAtOnce (position + done) (data.extract done data.size) device) := by
  have trans : ∀ a b c : Device, a.Alike b → b.Alike c → a.Alike c := fun _ _ _ => Alike.trans
  have left (done : Nat) : (data.extract done data.size).size = data.size - done := by
    rw [ByteArray.size_extract, Nat.min_self]
  fun_induction writeFrom position data done device with
  | case1 done device finished =>
    rw [writeAtOnce, left, if_pos (by omega)]
    exact .ok () (alike_refl mild)
  | case2 done device unfinished next attempt ih =>
    have alike := alike_of_attemptWrite_error mild attempt
    exact (ih alike.around.mild' within).trans trans (lockstep_writeAtOnce _ _ alike.symm)
  | case3 done device unfinished reason next notInterrupted attempt =>
    have alike := alike_of_attemptWrite_error mild attempt
    have nonempty : data.size - done ≠ 0 := by omega
    rw [writeAtOnce, left, if_neg nonempty, ← alike.refusal .writing reason]
    cases attempt_of_attemptWrite mild bounded (by omega) attempt with
    | interrupted => exact (notInterrupted rfl).elim
    | tooLarge nothing =>
      rw [if_pos nothing]
      exact .error _ alike.symm
    | noSpace something full =>
      rw [if_neg something, full]
      exact .error _ alike.symm
  | case4 done device unfinished next attempt =>
    cases attempt_of_attemptWrite mild bounded (by omega) attempt with
    | part isFile count positive fits => cases positive
  | case5 done device unfinished count next attempt some ih =>
    have alike := alike_of_attemptWrite_ok mild attempt
    cases attempt_of_attemptWrite mild bounded (by omega) attempt with
    | part isFile _ positive fits =>
      have atMost := device.reach_le (position + done) (data.size - done)
      have rest := ih alike.around.mild' (by omega)
      have moved := lockstep_writeAtOnce (position + (done + count))
        (data.extract (done + count) data.size) alike.symm
      exact (rest.trans trans moved).trans trans (writeAtOnce_rest mild isFile position data within fits)

theorem lockstep_writeAt {position : Nat} {data : Bytes} (bounded : position + data.size ≤ maxOffset) :
    InStep Alike (writeAt position data) := by
  apply lockstep_of_agree (lockstep_writeAtOnce position data)
  intro device mild
  have once := writeFrom_at_once position data 0 device mild bounded (Nat.zero_le _)
  rwa [Nat.add_zero, ByteArray.extract_zero_size] at once

def bytesAt (device : Device) (position size : Nat) : Bytes :=
  if device.full then Bytes.zeros size else device.content.read position size

theorem Alike.bytesAt {first second : Device} (alike : first.Alike second) (position size : Nat) :
    first.bytesAt position size = second.bytesAt position size := by
  unfold Device.bytesAt
  rw [alike.full, alike.content.read]

theorem alike_attemptRead {device next : Device} (mild : device.around.schedule.Mild) {start count : Nat}
    {outcome : Except Errno Bytes} (attempt : device.attemptRead start count = (outcome, next)) :
    device.Alike next := by
  have second : _ = next := congrArg Prod.snd attempt
  rw [← second]
  exact alike_next mild .reading

theorem alike_readFrom (position size : Nat) (known : Bytes) (device : Device)
    (mild : device.around.schedule.Mild) :
    Ends (readFrom position size known) device (fun _ next => device.Alike next)
      fun _ next => device.Alike next := by
  unfold Ends
  fun_induction readFrom position size known device with
  | case1 known device finished => exact alike_refl mild
  | case2 known device unfinished next attempt ih =>
    have alike := alike_attemptRead mild attempt
    exact Ends.mono (ih alike.around.mild') (fun _ _ => alike.trans) fun _ _ => alike.trans
  | case3 known device unfinished reason next notInterrupted attempt => exact alike_attemptRead mild attempt
  | case4 known device unfinished bytes next attempt empty => exact alike_attemptRead mild attempt
  | case5 known device unfinished bytes next attempt nonempty ih =>
    have alike := alike_attemptRead mild attempt
    exact Ends.mono (ih alike.around.mild') (fun _ _ => alike.trans) fun _ _ => alike.trans

theorem readOutcome_full {device : Device} (full : device.full = true) {turn : Turn} (mild : turn.Mild)
    {position size : Nat} (wanted : 0 < size) (bounded : position + size ≤ maxOffset) :
    device.readOutcome turn position size = .error .interrupted ∨
      ∃ count, 0 < count ∧ count ≤ size ∧ device.readOutcome turn position size = .ok (Bytes.zeros count) := by
  have gives (accepted : turn.Unrefused) (positive : 0 < turn.allowance size)
      (fits : turn.allowance size ≤ size) :
      device.readOutcome turn position size = .ok (Bytes.zeros (turn.allowance size)) := by
    unfold readOutcome
    split
    · cases accepted
    · simp only
      rw [if_neg (Nat.ne_of_gt positive), if_neg (by omega), full, if_pos rfl]
  cases turn with
  | undisturbed => exact .inr ⟨_, wanted, Nat.le_refl _, gives rfl wanted (Nat.le_refl _)⟩
  | refused reason =>
    rw [show reason = Errno.interrupted from mild]
    exact .inl rfl
  | short count =>
    have positive : 0 < min count size := Nat.lt_min.2 ⟨mild, wanted⟩
    exact .inr ⟨_, positive, Nat.min_le_right .., gives rfl positive (Nat.min_le_right ..)⟩

theorem readFrom_full (position size : Nat) (known : Bytes) (device : Device) (full : device.full = true)
    (mild : device.around.schedule.Mild) (bounded : position + size ≤ maxOffset)
    (zeros : known = Bytes.zeros known.size) (within : known.size ≤ size) :
    Ends (readFrom position size known) device (fun bytes _ => bytes = Bytes.zeros size)
      fun _ _ => False := by
  have outcomes {device next : Device} {known : Bytes} {outcome : Except Errno Bytes}
      (full : device.full = true) (mild : device.around.schedule.Mild) (unfinished : known.size < size)
      (attempt : device.attemptRead (position + known.size) (size - known.size) = (outcome, next)) :
      outcome = .error .interrupted ∨
        ∃ count, 0 < count ∧ count ≤ size - known.size ∧ outcome = .ok (Bytes.zeros count) := by
    have first : _ = outcome := congrArg Prod.fst attempt
    rw [← first]
    exact readOutcome_full full (Turns.all_next mild.reading trivial).1 (by omega) (by omega)
  unfold Ends
  fun_induction readFrom position size known device with
  | case1 known device finished => rw [zeros, Nat.le_antisymm within finished]
  | case2 known device unfinished next attempt ih =>
    have alike := alike_attemptRead mild attempt
    exact ih (alike.full.symm.trans full) alike.around.mild' zeros within
  | case3 known device unfinished reason next notInterrupted attempt =>
    rcases outcomes full mild (by omega) attempt with interrupted | ⟨_, _, _, impossible⟩
    · exact notInterrupted (Except.error.inj interrupted)
    · cases impossible
  | case4 known device unfinished bytes next attempt empty =>
    rcases outcomes full mild (by omega) attempt with impossible | ⟨count, some, _, same⟩
    · cases impossible
    · cases same
      rw [Bytes.size_zeros] at empty
      omega
  | case5 known device unfinished bytes next attempt nonempty ih =>
    have alike := alike_attemptRead mild attempt
    rcases outcomes full mild (by omega) attempt with impossible | ⟨count, some, fits, same⟩
    · cases impossible
    · cases same
      apply ih (alike.full.symm.trans full) alike.around.mild'
      · rw [ByteArray.size_append, Bytes.size_zeros, ← Bytes.zeros_append_zeros, ← zeros]
      · rw [ByteArray.size_append, Bytes.size_zeros]
        omega

theorem lockstep_readAt {position size : Nat} (bounded : position + size ≤ maxOffset) :
    InStep Alike (readAt position size) := by
  apply lockstep_of_value fun device => device.bytesAt position size
  · exact fun _ _ alike => alike.bytesAt position size
  · intro device mild
    have alike := alike_readFrom position size ByteArray.empty device mild
    unfold bytesAt
    cases full : device.full with
    | true =>
      have zeros := readFrom_full position size ByteArray.empty device full mild bounded rfl (Nat.zero_le _)
      exact (zeros.and alike).mono (fun _ _ => id) fun _ _ => And.left
    | false =>
      apply ((readAt_ends position size device full).and alike).mono
      · intro bytes next both
        exact ⟨both.1.2.2 mild.reads bounded, both.2⟩
      · intro failure next both
        exact both.1.2 bounded mild.reads

theorem lockstep_measure : InStep Alike measure := by
  apply lockstep_of_value fun device => device.content.size
  · exact fun _ _ alike => alike.content.size
  · intro device mild
    have accepted : (device.turns .measuring).next.1.refusal? = none :=
      (Turns.all_next mild.measuring rfl).1
    simp only [Ends, measure, accepted]
    exact ⟨rfl, alike_next mild .measuring⟩

theorem lockstep_close : InStep Alike close := by
  apply lockstep_of_value fun _ => ()
  · exact fun _ _ _ => rfl
  · intro device mild
    have accepted : (device.turns .closing).next.1.refusal? = none := (Turns.all_next mild.closing rfl).1
    simp only [Ends, close, accepted]
    exact ⟨trivial, alike_next mild .closing⟩

def resizeAtOnce (size : Nat) : OnDevice Unit := fun device =>
  if device.full ∨ maxOffset < size then .error (device.refusal .resizing .invalid) device
  else .ok () { device with content := device.content.resize size }

theorem lockstep_resize (size : Nat) : InStep Alike (resize size) := by
  have once : InStep Alike (resizeAtOnce size) := by
    intro device device' alike
    have resized := alike.set (alike.content.resize size)
    simp only [alike.full] at resized
    simp only [resizeAtOnce, alike.full, alike.refusal]
    split
    · exact .error _ alike
    · exact .ok () resized
  apply lockstep_of_agree once
  intro device mild
  have settled := (alike_settle mild .resizing (.resized size)).symm
  have accepted : (device.settle .resizing (.resized size)).1 = none := Turns.refusal_settle mild.resizing
  have resized := (settled.set (settled.content.resize size)).symm.note (.resized size none)
  simp only [settled.full] at resized
  unfold resize resizeAtOnce
  simp only [accepted, Option.none_or, settled.full, settled.refusal]
  by_cases unsuitable : device.full ∨ maxOffset < size
  · rw [if_pos unsuitable, if_pos unsuitable]
    exact .error _ (settled.symm.note _).symm
  · rw [if_neg unsuitable, if_neg unsuitable]
    exact .ok () resized.symm

def syncAtOnce : OnDevice Unit := fun device =>
  if device.full then .error (device.refusal .syncing .invalid) device else .ok () device

theorem lockstep_sync : InStep Alike sync := by
  have once : InStep Alike syncAtOnce := by
    intro device device' alike
    simp only [syncAtOnce, alike.full, alike.refusal]
    split
    · exact .error _ alike
    · exact .ok () alike
  apply lockstep_of_agree once
  intro device mild
  have settled := (alike_settle mild .syncing .synced).symm
  have accepted : (device.settle .syncing .synced).1 = none := Turns.refusal_settle mild.syncing
  unfold sync syncAtOnce
  simp only [accepted, Option.none_or, settled.full, settled.refusal]
  cases device.full with
  | true => exact .error _ (settled.symm.note _).symm
  | false => exact .ok () (settled.symm.note _).symm

theorem lockstep_notify (notice : Notice) : InStep Alike (notify notice) := by
  apply lockstep_modify
  intro device device' alike
  exact ⟨alike.path, alike.full, alike.content, alike.around.notify notice⟩

end Device
end RegionStore.Disk
