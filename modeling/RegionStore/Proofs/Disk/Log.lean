import RegionStore.Proofs.Disk.Device

/-!
The log of what was done to a file. The events that an action adds to it tell all that the action does to
the content: the content after any number of calls is the one before with these events replayed. So what
no event touches is the same at every moment of an action, whatever fails in it.
-/

set_option autoImplicit false

namespace RegionStore.Disk

/-- What an event has made of a content. A call that was refused has changed nothing. -/
def Event.apply (content : Content) : Event → Content
  | .wrote position _ (.ok part) => content.write position part
  | .resized size none => content.resize size
  | _ => content

/-- The content after events, of which the newest one stands in front. -/
def replay (start : Content) (events : List Event) : Content :=
  events.foldr (fun event content => event.apply content) start

/-- The event changes no byte from `first` to `last`, and does not let the file end in front of `last`. -/
def Event.Leaves (first last : Nat) : Event → Prop
  | .wrote position _ (.ok part) => position + part.size ≤ first ∨ last ≤ position
  | .resized size none => last ≤ size
  | _ => True

/-- In front of `limit`, the event changes nothing but bytes from `first` to `last`. -/
def Event.Confined (limit first last : Nat) : Event → Prop
  | .wrote position _ (.ok part) => first ≤ position ∧ position + part.size ≤ last
  | .resized size none => limit ≤ size
  | _ => True

theorem Event.Confined.leaves {event : Event} {limit first last start stop : Nat}
    (confined : event.Confined limit first last) (inside : stop ≤ limit)
    (apart : stop ≤ first ∨ last ≤ start) : event.Leaves start stop := by
  match event with
  | .wrote position _ (.ok part) =>
    obtain ⟨front, back⟩ := confined
    change _ ∨ _
    omega
  | .resized size none => exact Nat.le_trans inside confined
  | .wrote _ _ (.error _) => trivial
  | .resized _ (some _) => trivial
  | .synced _ => trivial

theorem Event.Leaves.apply {event : Event} {first last : Nat} {content : Content}
    (leaves : event.Leaves first last) (present : last ≤ content.size) :
    last ≤ (event.apply content).size ∧
      ∀ start count, first ≤ start → start + count ≤ last →
        (event.apply content).read start count = content.read start count := by
  match event with
  | .wrote position _ (.ok part) =>
    have longer : content.size ≤ (content.write position part).size := by
      rw [Content.size_write]
      split <;> omega
    refine ⟨Nat.le_trans present longer, fun start count front back => ?_⟩
    change (content.write position part).read start count = _
    have apart : position + part.size ≤ first ∨ last ≤ position := leaves
    apply Content.read_congr
    · omega
    · intro index inside
      rw [Content.byteAt_write, if_neg (by omega)]
  | .resized size none =>
    have enough : last ≤ size := leaves
    refine ⟨by rwa [Event.apply, Content.size_resize], fun start count front back => ?_⟩
    change (content.resize size).read start count = _
    apply Content.read_congr
    · rw [Content.size_resize]
      omega
    · intro index inside
      rw [Content.size_resize] at inside
      rw [Content.byteAt_resize, if_pos (by omega)]
  | .wrote _ _ (.error _) => exact ⟨present, fun _ _ _ _ => rfl⟩
  | .resized _ (some _) => exact ⟨present, fun _ _ _ _ => rfl⟩
  | .synced _ => exact ⟨present, fun _ _ _ _ => rfl⟩

theorem replay_append (start : Content) (later earlier : List Event) :
    replay start (later ++ earlier) = replay (replay start earlier) later := by
  rw [replay, List.foldr_append]
  rfl

theorem replay_of_leaves {events : List Event} {first last : Nat} {content : Content}
    (leave : ∀ event ∈ events, event.Leaves first last) (present : last ≤ content.size) :
    last ≤ (replay content events).size ∧
      ∀ start count, first ≤ start → start + count ≤ last →
        (replay content events).read start count = content.read start count := by
  induction events with
  | nil => exact ⟨present, fun _ _ _ _ => rfl⟩
  | cons event earlier ih =>
    obtain ⟨enough, same⟩ := ih fun other member => leave other (List.mem_cons_of_mem _ member)
    obtain ⟨enough', same'⟩ := (leave event List.mem_cons_self).apply enough
    exact ⟨enough', fun start count front back =>
      (same' start count front back).trans (same start count front back)⟩

namespace Device

structure Silent (before after : Device) : Prop where
  log : after.around.events = before.around.events
  content : after.content = before.content

theorem Silent.refl (device : Device) : device.Silent device := ⟨rfl, rfl⟩

theorem Silent.trans {a b c : Device} (first : a.Silent b) (second : b.Silent c) : a.Silent c :=
  ⟨second.log.trans first.log, second.content.trans first.content⟩

/-- The events of one kind that have been added to the log tell what has become of the content. -/
def Logs (kind : Event → Prop) (before after : Device) : Prop :=
  ∃ events, after.around.events = events ++ before.around.events ∧
    after.content = replay before.content events ∧ ∀ event ∈ events, kind event

theorem Logs.refl (kind : Event → Prop) (device : Device) : device.Logs kind device :=
  ⟨[], rfl, rfl, fun _ impossible => nomatch impossible⟩

theorem Logs.mono {kind kind' : Event → Prop} {before after : Device} (logs : before.Logs kind after)
    (weaker : ∀ event, kind event → kind' event) : before.Logs kind' after := by
  obtain ⟨events, log, content, all⟩ := logs
  exact ⟨events, log, content, fun event member => weaker event (all event member)⟩

theorem Logs.trans {kind : Event → Prop} {a b c : Device} (earlier : a.Logs kind b)
    (later : b.Logs kind c) : a.Logs kind c := by
  obtain ⟨first, log, content, all⟩ := earlier
  obtain ⟨second, log', content', all'⟩ := later
  refine ⟨second ++ first, ?_, ?_, fun event member => ?_⟩
  · rw [log', log, List.append_assoc]
  · rw [content', content, replay_append]
  · exact (List.mem_append.1 member).elim (all' event) (all event)

theorem Silent.logs {before after : Device} (silent : before.Silent after) (kind : Event → Prop) :
    before.Logs kind after :=
  ⟨[], silent.log, silent.content, fun _ impossible => nomatch impossible⟩

theorem logs_note {kind : Event → Prop} (device : Device) {event : Event} (holds : kind event)
    (idle : ∀ content, event.apply content = content) : device.Logs kind (device.note event) := by
  refine ⟨[event], rfl, (idle _).symm, fun other member => ?_⟩
  rwa [List.mem_singleton.1 member]

theorem silent_notify (notice : Notice) (device : Device) :
    device.Silent { device with around := device.around.notify notice } := ⟨rfl, rfl⟩

theorem silent_setTurns (device : Device) (call : FileCall) (turns : Turns) :
    device.Silent (device.setTurns call turns) := ⟨rfl, rfl⟩

theorem logs_attemptWrite (limit : Nat) {device next : Device} {position done : Nat} {data : Bytes}
    {outcome : Except Errno Nat} (attempt : device.attemptWrite position data done = (outcome, next))
    (within : done ≤ data.size) :
    device.Logs (Event.Confined limit position (position + data.size)) next := by
  rw [attemptWrite, Prod.mk.injEq] at attempt
  obtain ⟨got, rfl⟩ := attempt
  rw [got]
  refine ((silent_setTurns device .writing (device.turns .writing).next.2).logs _).trans ?_
  cases outcome with
  | error reason => exact logs_note _ trivial fun _ => rfl
  | ok count =>
    have atMost := le_of_writeOutcome_eq_ok got
    refine ⟨[_], rfl, rfl, fun event member => ?_⟩
    rw [List.mem_singleton.1 member, Event.Confined, ByteArray.size_extract]
    omega

theorem writeAt_logs (limit position : Nat) (data : Bytes) (device : Device) :
    Ends (writeAt position data) device
      (fun _ next => device.Logs (Event.Confined limit position (position + data.size)) next)
      fun _ next => device.Logs (Event.Confined limit position (position + data.size)) next := by
  unfold writeAt Ends
  generalize start : 0 = done
  have within : done ≤ data.size := start ▸ Nat.zero_le _
  clear start
  fun_induction writeFrom position data done device with
  | case1 done device finished => exact Logs.refl _ device
  | case2 done device unfinished next attempt ih =>
    have logs := logs_attemptWrite limit attempt within
    exact Ends.mono (ih within) (fun _ _ => logs.trans) fun _ _ => logs.trans
  | case3 done device unfinished reason next notInterrupted attempt =>
    exact logs_attemptWrite limit attempt within
  | case4 done device unfinished next attempt => exact logs_attemptWrite limit attempt within
  | case5 done device unfinished count next attempt some ih =>
    have logs := logs_attemptWrite limit attempt within
    rcases attemptWrite_cases attempt with ⟨_, impossible, _⟩ | ⟨_, same, atMost, _⟩
    · cases impossible
    · cases same
      exact Ends.mono (ih (by omega)) (fun _ _ => logs.trans) fun _ _ => logs.trans

theorem readAt_silent (position size : Nat) (device : Device) :
    Ends (readAt position size) device (fun _ next => device.Silent next)
      fun _ next => device.Silent next := by
  unfold readAt
  generalize ByteArray.empty = known
  have silent {position size : Nat} {device next : Device} {outcome : Except Errno Bytes}
      (attempt : device.attemptRead position size = (outcome, next)) : device.Silent next := by
    have last : (device.attemptRead position size).2 = next := congrArg Prod.snd attempt
    rw [← last]
    exact silent_setTurns device _ _
  unfold Ends
  fun_induction readFrom position size known device with
  | case1 known device finished => exact Silent.refl device
  | case2 known device unfinished next attempt ih =>
    exact Ends.mono ih (fun _ _ => (silent attempt).trans) fun _ _ => (silent attempt).trans
  | case3 known device unfinished reason next notInterrupted attempt => exact silent attempt
  | case4 known device unfinished bytes next attempt empty => exact silent attempt
  | case5 known device unfinished bytes next attempt nonempty ih =>
    exact Ends.mono ih (fun _ _ => (silent attempt).trans) fun _ _ => (silent attempt).trans

theorem measure_silent (device : Device) :
    Ends measure device (fun _ next => device.Silent next) fun _ next => device.Silent next := by
  have silent := silent_setTurns device .measuring (device.turns .measuring).next.2
  simp only [Ends, measure]
  cases (device.turns .measuring).next.1.refusal? with
  | none => exact silent
  | some reason => exact silent

theorem close_silent (device : Device) :
    Ends close device (fun _ next => device.Silent next) fun _ next => device.Silent next := by
  have silent := silent_setTurns device .closing (device.turns .closing).next.2
  simp only [Ends, close]
  cases (device.turns .closing).next.1.refusal? with
  | none => exact silent
  | some reason => exact silent.trans (silent_notify (.closeFailed device.path) _)

theorem logs_noteInterruptions {kind : Event → Prop} {event : Option Errno → Event}
    (holds : kind (event (some .interrupted)))
    (idle : ∀ content, (event (some .interrupted)).apply content = content) (count : Nat)
    (device : Device) : device.Logs kind (noteInterruptions event count device) := by
  induction count generalizing device with
  | zero => exact Logs.refl kind device
  | succ count ih => exact (logs_note device holds idle).trans (ih _)

theorem logs_settle {kind : Event → Prop} {event : Option Errno → Event} (call : FileCall)
    (holds : kind (event (some .interrupted)))
    (idle : ∀ content, (event (some .interrupted)).apply content = content) (device : Device) :
    device.Logs kind (device.settle call event).2 :=
  ((silent_setTurns device call _).logs kind).trans (logs_noteInterruptions holds idle _ _)

theorem resize_logs {kind : Event → Prop} (size : Nat) (device : Device)
    (holds : ∀ refusal, kind (.resized size refusal)) :
    Ends (resize size) device (fun _ next => device.Logs kind next)
      fun _ next => device.Logs kind next := by
  have settled : device.Logs kind (device.settle .resizing (.resized size)).2 :=
    logs_settle .resizing (holds _) (fun _ => rfl) device
  simp only [Ends, resize]
  generalize device.settle .resizing (.resized size) = settlement at settled
  obtain ⟨refused, next⟩ := settlement
  cases refused.or (if next.full ∨ maxOffset < size then some Errno.invalid else none) with
  | none =>
    refine settled.trans ⟨[.resized size none], rfl, rfl, fun event member => ?_⟩
    rw [List.mem_singleton.1 member]
    exact holds _
  | some reason => exact settled.trans (logs_note _ (holds _) fun _ => rfl)

theorem sync_logs {kind : Event → Prop} (device : Device) (holds : ∀ refusal, kind (.synced refusal)) :
    Ends sync device (fun _ next => device.Logs kind next) fun _ next => device.Logs kind next := by
  have settled : device.Logs kind (device.settle .syncing .synced).2 :=
    logs_settle .syncing (holds _) (fun _ => rfl) device
  simp only [Ends, sync]
  generalize device.settle .syncing .synced = settlement at settled
  obtain ⟨refused, next⟩ := settlement
  cases refused.or (if next.full then some Errno.invalid else none) with
  | none => exact settled.trans (logs_note _ (holds _) fun _ => rfl)
  | some reason => exact settled.trans (logs_note _ (holds _) fun _ => rfl)

end Device

def Event.conclusion? : Event → Option (Option Errno)
  | .synced (some .interrupted) => none
  | .synced refusal => some refusal
  | _ => none

def concluded (events : List Event) : List (Option Errno) := events.filterMap Event.conclusion?

theorem concluded_synced {refusal : Option Errno} (final : refusal ≠ some .interrupted)
    (events : List Event) : concluded (.synced refusal :: events) = refusal :: concluded events := by
  have conclusion : (Event.synced refusal).conclusion? = some refusal := by
    unfold Event.conclusion?
    split
    · next same => exact absurd (Event.synced.inj same) final
    · next same => exact congrArg some (Event.synced.inj same).symm
    · next other => exact absurd rfl (other refusal)
  exact List.filterMap_cons_some conclusion

theorem Turns.refusal_settle_ne (turns : Turns) : turns.settle.refusal ≠ some .interrupted := by
  fun_induction settle turns with
  | case1 => exact (Option.some_ne_none _).symm
  | case2 turn rest ih => exact ih
  | case3 rest count later ih => exact ih
  | case4 turn count rest notInterrupted =>
    intro refused
    cases turn with
    | refused reason => exact notInterrupted (congrArg Turn.refused (Option.some.inj refused))
    | undisturbed => cases refused
    | short count => cases refused

namespace Device

theorem concluded_settle (device : Device) (call : FileCall) :
    concluded (device.settle call .synced).2.around.events = concluded device.around.events := by
  have noted (count : Nat) (device : Device) :
      concluded (noteInterruptions .synced count device).around.events =
        concluded device.around.events := by
    induction count generalizing device with
    | zero => rfl
    | succ count ih => exact ih _
  exact noted _ _

/-- Syncing a file is always brought to an end, and fails exactly with what it has come to. -/
theorem sync_concludes (device : Device) :
    Ends sync device
      (fun _ next => concluded next.around.events = none :: concluded device.around.events)
      fun failure next => ∃ reason, failure = .refused .syncing device.path reason ∧
        concluded next.around.events = some reason :: concluded device.around.events := by
  have settled := concluded_settle device .syncing
  have same := (keeps_settle device .syncing .synced).continues.path
  have final : (device.settle .syncing .synced).1 ≠ some .interrupted := Turns.refusal_settle_ne _
  simp only [Ends, sync]
  generalize device.settle .syncing .synced = settlement at settled same final
  obtain ⟨refused, next⟩ := settlement
  cases outcome : refused.or (if next.full then some Errno.invalid else none) with
  | none => exact (concluded_synced (Option.some_ne_none _).symm _).trans (congrArg (none :: ·) settled)
  | some reason =>
    have concludes : some reason ≠ some Errno.interrupted := by
      rw [← outcome]
      cases refused with
      | some _ => exact final
      | none => split <;> decide
    exact ⟨reason, congrArg (Failure.refused .syncing · reason) same,
      (concluded_synced concludes _).trans (congrArg (some reason :: ·) settled)⟩

end Device
end RegionStore.Disk
