import RegionStore.Proofs.Disk.Log

/-!
In which order the bytes of a file are written. A write that gets through has put down every byte of its
data, one that does not leaves out at least the last one, and a sync that gets through is the newest event
after it. `OnlyAfter` says of a whole log that events of one kind come when the events before them are
enough for something.
-/

set_option autoImplicit false

namespace RegionStore.Disk

def Event.Writes (position : Nat) : Event → Prop
  | .wrote start _ (.ok part) => start ≤ position ∧ position < start + part.size
  | _ => False

def Event.Enters (first last : Nat) (event : Event) : Prop :=
  ∃ position, first ≤ position ∧ position < last ∧ event.Writes position

def Covers (events : List Event) (first last : Nat) : Prop :=
  ∀ position, first ≤ position → position < last → ∃ event ∈ events, event.Writes position

/-- Whenever an event of the kind comes, the events before it are enough. The newest one stands in front. -/
def OnlyAfter (enough : List Event → Prop) (kind : Event → Prop) (events : List Event) : Prop :=
  ∀ later event earlier, events = later ++ event :: earlier → kind event → enough earlier

/-- The events are writes that fill the range and touch nothing else. -/
structure Fills (events : List Event) (first last : Nat) : Prop where
  confined : ∀ limit, ∀ event ∈ events, event.Confined limit first last
  covers : Covers events first last

theorem Event.Confined.wider {event : Event} {limit first last first' last' : Nat}
    (confined : event.Confined limit first last) (front : first' ≤ first) (back : last ≤ last') :
    event.Confined limit first' last' := by
  match event with
  | .wrote position _ (.ok part) => exact ⟨Nat.le_trans front confined.1, Nat.le_trans confined.2 back⟩
  | .resized size none => exact confined
  | .wrote _ _ (.error _) => trivial
  | .resized _ (some _) => trivial
  | .synced _ => trivial

theorem Event.Confined.inside {event : Event} {limit first last position : Nat}
    (confined : event.Confined limit first last) (writes : event.Writes position) :
    first ≤ position ∧ position < last := by
  match event with
  | .wrote start _ (.ok part) => exact ⟨Nat.le_trans confined.1 writes.1, Nat.lt_of_lt_of_le writes.2 confined.2⟩
  | .resized _ _ => exact writes.elim
  | .wrote _ _ (.error _) => exact writes.elim
  | .synced _ => exact writes.elim

theorem Event.Confined.not_enters {event : Event} {limit first last start stop : Nat}
    (confined : event.Confined limit first last) (apart : stop ≤ first ∨ last ≤ start) :
    ¬ event.Enters start stop := by
  rintro ⟨position, front, back, writes⟩
  have inside := confined.inside writes
  omega

theorem Covers.mono {events more : List Event} {first last : Nat} (covers : Covers events first last)
    (part : events ⊆ more) : Covers more first last := by
  intro position front back
  obtain ⟨event, member, writes⟩ := covers position front back
  exact ⟨event, part member, writes⟩

theorem Fills.nil (position : Nat) : Fills [] position position :=
  ⟨fun _ => List.forall_mem_nil _, fun _ _ _ => by omega⟩

theorem Fills.append {first middle last : Nat} {earlier later : List Event}
    (front : Fills earlier first middle) (back : Fills later middle last)
    (ordered : first ≤ middle) (ordered' : middle ≤ last) : Fills (later ++ earlier) first last := by
  refine ⟨fun limit event member => ?_, fun position fromFirst toLast => ?_⟩
  · rcases List.mem_append.1 member with new | old
    · exact (back.confined limit event new).wider ordered (Nat.le_refl _)
    · exact (front.confined limit event old).wider (Nat.le_refl _) ordered'
  · by_cases before : position < middle
    · exact (front.covers.mono (List.subset_append_right later earlier)) position fromFirst before
    · exact (back.covers.mono (List.subset_append_left later earlier)) position (by omega) toLast

theorem OnlyAfter.of_none {enough : List Event → Prop} {kind : Event → Prop} {events : List Event}
    (none : ∀ event ∈ events, ¬ kind event) : OnlyAfter enough kind events := by
  rintro later event earlier rfl isKind
  exact absurd isKind (none event (List.mem_append_right _ List.mem_cons_self))

theorem OnlyAfter.of_suffix {enough : List Event → Prop} {kind : Event → Prop} {events : List Event}
    (always : ∀ part, part <:+ events → enough part) : OnlyAfter enough kind events := by
  rintro later event earlier rfl _
  exact always earlier ((List.suffix_cons event earlier).trans (List.suffix_append later _))

theorem OnlyAfter.mono {enough enough' : List Event → Prop} {kind kind' : Event → Prop}
    {events : List Event} (only : OnlyAfter enough kind events) (weaker : ∀ part, enough part → enough' part)
    (fewer : ∀ event ∈ events, kind' event → kind event) : OnlyAfter enough' kind' events := by
  intro later event earlier split isKind
  have member : event ∈ events := split ▸ List.mem_append_right _ List.mem_cons_self
  exact weaker earlier (only later event earlier split (fewer event member isKind))

theorem OnlyAfter.append {enough : List Event → Prop} {kind : Event → Prop}
    {earlier later : List Event} (before : OnlyAfter enough kind earlier)
    (after : OnlyAfter (fun part => enough (part ++ earlier)) kind later) :
    OnlyAfter enough kind (later ++ earlier) := by
  intro newer event older split isKind
  rcases List.append_eq_append_iff.1 split with ⟨between, _, rest⟩ | ⟨between, whole, rest⟩
  · exact before between event older rest isKind
  · cases between with
    | nil => exact before [] event older rest.symm isKind
    | cons first part =>
      obtain ⟨rfl, rfl⟩ := List.cons.inj rest
      exact after newer event part whole isKind

namespace Device

structure Adds (before : Device) (events : List Event) (after : Device) : Prop where
  log : after.around.events = events ++ before.around.events
  content : after.content = replay before.content events

theorem Adds.trans {a b c : Device} {earlier later : List Event} (first : a.Adds earlier b)
    (second : b.Adds later c) : a.Adds (later ++ earlier) c := by
  refine ⟨?_, ?_⟩
  · rw [second.log, first.log, List.append_assoc]
  · rw [second.content, first.content, replay_append]

theorem Silent.adds {before after : Device} (silent : before.Silent after) : before.Adds [] after :=
  ⟨silent.log, silent.content⟩

theorem Adds.unique {before after : Device} {a b : List Event} (first : before.Adds a after)
    (second : before.Adds b after) : a = b :=
  List.append_cancel_right (first.log.symm.trans second.log)

theorem attemptWrite_fills {device next : Device} {position done : Nat} {data : Bytes}
    {outcome : Except Errno Nat} (attempt : device.attemptWrite position data done = (outcome, next))
    (within : done ≤ data.size) :
    ∃ events, device.Adds events next ∧
      ((∃ reason, outcome = .error reason ∧ Fills events (position + done) (position + done)) ∨
        ∃ count, outcome = .ok count ∧ done + count ≤ data.size ∧
          Fills events (position + done) (position + (done + count))) := by
  rw [attemptWrite, Prod.mk.injEq] at attempt
  obtain ⟨got, rfl⟩ := attempt
  rw [got]
  cases outcome with
  | error reason =>
    refine ⟨[.wrote (position + done) (data.size - done) (.error reason)], ⟨rfl, rfl⟩,
      .inl ⟨reason, rfl, fun limit event member => ?_, fun _ _ _ => by omega⟩⟩
    rw [List.mem_singleton.1 member]
    trivial
  | ok count =>
    have atMost := le_of_writeOutcome_eq_ok got
    have size : (data.extract done (done + count)).size = count := by
      rw [ByteArray.size_extract]
      omega
    refine ⟨[.wrote (position + done) (data.size - done) (.ok (data.extract done (done + count)))],
      ⟨rfl, rfl⟩, .inr ⟨count, rfl, by omega, fun limit event member => ?_, fun place front back => ?_⟩⟩
    · rw [List.mem_singleton.1 member, Event.Confined, size]
      omega
    · refine ⟨_, List.mem_singleton_self _, front, ?_⟩
      rw [size]
      omega

/-- What a write adds to the log fills a beginning of the place of its data, and all of it exactly if it
gets through. -/
theorem writeFrom_fills (position : Nat) (data : Bytes) (done : Nat) (device : Device)
    (within : done ≤ data.size) :
    Ends (writeFrom position data done) device
      (fun _ next => ∃ events, device.Adds events next ∧
        Fills events (position + done) (position + data.size))
      fun _ next => ∃ events, device.Adds events next ∧ ∃ stop < data.size, done ≤ stop ∧
        Fills events (position + done) (position + stop) := by
  unfold Ends
  fun_induction writeFrom position data done device with
  | case1 done device finished =>
    obtain rfl : done = data.size := by omega
    exact ⟨[], (Silent.refl device).adds, Fills.nil _⟩
  | case2 done device unfinished next attempt ih =>
    obtain ⟨events, adds, ⟨_, _, fills⟩ | ⟨_, impossible, _⟩⟩ := attemptWrite_fills attempt within
    · refine Ends.mono (ih within) ?_ ?_
      · rintro _ after ⟨more, addsMore, rest⟩
        exact ⟨_, adds.trans addsMore, fills.append rest (Nat.le_refl _) (by omega)⟩
      · rintro _ after ⟨more, addsMore, stop, short, further, rest⟩
        exact ⟨_, adds.trans addsMore, stop, short, further, fills.append rest (Nat.le_refl _) (by omega)⟩
    · cases impossible
  | case3 done device unfinished reason next notInterrupted attempt =>
    obtain ⟨events, adds, ⟨_, _, fills⟩ | ⟨_, impossible, _⟩⟩ := attemptWrite_fills attempt within
    · exact ⟨events, adds, done, by omega, Nat.le_refl _, fills⟩
    · cases impossible
  | case4 done device unfinished next attempt =>
    obtain ⟨events, adds, ⟨_, impossible, _⟩ | ⟨_, same, _, fills⟩⟩ := attemptWrite_fills attempt within
    · cases impossible
    · cases same
      exact ⟨events, adds, done, by omega, Nat.le_refl _, fills⟩
  | case5 done device unfinished count next attempt some ih =>
    obtain ⟨events, adds, ⟨_, impossible, _⟩ | ⟨_, same, atMost, fills⟩⟩ :=
      attemptWrite_fills attempt within
    · cases impossible
    · cases same
      refine Ends.mono (ih atMost) ?_ ?_
      · rintro _ after ⟨more, addsMore, rest⟩
        exact ⟨_, adds.trans addsMore, fills.append rest (by omega) (by omega)⟩
      · rintro _ after ⟨more, addsMore, stop, short, further, rest⟩
        exact ⟨_, adds.trans addsMore, stop, short, by omega, fills.append rest (by omega) (by omega)⟩

theorem writeAt_fills (position : Nat) (data : Bytes) (device : Device) :
    Ends (writeAt position data) device
      (fun _ next => ∃ events, device.Adds events next ∧
        Fills events position (position + data.size))
      fun _ next => ∃ events, device.Adds events next ∧ ∃ stop < data.size,
        Fills events position (position + stop) := by
  refine Ends.mono (writeFrom_fills position data 0 device (Nat.zero_le _)) (fun _ _ => id) ?_
  rintro _ next ⟨events, adds, stop, short, _, fills⟩
  exact ⟨events, adds, stop, short, fills⟩

theorem sync_newest (device : Device) :
    Ends sync device (fun _ next => ∃ refusals, device.Adds (.synced none :: refusals) next ∧
        ∀ event ∈ refusals, ∃ refusal, event = .synced refusal)
      fun _ _ => True := by
  have settled : device.Logs (fun event => ∃ refusal, event = .synced refusal)
      (device.settle .syncing .synced).2 := logs_settle .syncing ⟨_, rfl⟩ (fun _ => rfl) device
  simp only [Ends, sync]
  generalize device.settle .syncing .synced = settlement at settled
  obtain ⟨refused, next⟩ := settlement
  obtain ⟨events, log, content, all⟩ := settled
  cases refused.or (if next.full then some Errno.invalid else none) with
  | none => exact ⟨events, ⟨congrArg (Event.synced none :: ·) log, content⟩, all⟩
  | some reason => trivial

theorem resize_newest (size : Nat) (device : Device) :
    Ends (resize size) device
      (fun _ next => next.around.events.head? = some (.resized size none) ∧ next.content.size = size)
      fun _ next => ∃ reason, next.around.events.head? = some (.resized size (some reason)) := by
  simp only [Ends, resize]
  generalize device.settle .resizing (.resized size) = settlement
  obtain ⟨refused, next⟩ := settlement
  cases refused.or (if next.full ∨ maxOffset < size then some Errno.invalid else none) with
  | none => exact ⟨rfl, Content.size_resize ..⟩
  | some reason => exact ⟨reason, rfl⟩

end Device
end RegionStore.Disk
