import RegionStore.Proofs.Disk.Log

/-!
What can be left of a file when everything stops at some moment. What was done before the last sync that
succeeded is on disk, and of what was done after it any part may be. A write counts as a whole; one that
the system has cut short is none of these, so after it nothing is said until the next sync.
-/

set_option autoImplicit false

namespace RegionStore.Disk

def Event.settles : Event → Bool
  | .synced none => true
  | _ => false

/-- All bytes of a write that was accepted have got through. -/
def Event.Entire : Event → Prop
  | .wrote _ size (.ok part) => part.size = size
  | _ => True

/-- The events since the last sync, of which any may be lost. -/
def unsettled (log : List Event) : List Event := log.takeWhile fun event => !event.settles

def settled (log : List Event) : List Event := log.dropWhile fun event => !event.settles

/-- The content can be what is left of a file that has this log since it had the content `start`. -/
structure Survives (start : Content) (log : List Event) (content : Content) : Prop where
  entire : ∀ event ∈ unsettled log, event.Entire
  kept : ∃ kept, kept.Sublist (unsettled log) ∧ content = replay start (kept ++ settled log)

section
variable {start content : Content} {log : List Event}

/-- Nothing is lost of what was synced. -/
theorem survives_synced_iff :
    Survives start (.synced none :: log) content ↔ content = replay start log := by
  have nothing : unsettled (.synced none :: log) = [] := rfl
  have all : settled (.synced none :: log) = .synced none :: log := rfl
  constructor
  · rintro ⟨_, kept, part, rfl⟩
    rw [nothing, List.sublist_nil] at part
    rw [part, all]
    rfl
  · rintro rfl
    refine ⟨fun event member => ?_, [], List.nil_sublist _, ?_⟩
    · rw [nothing] at member
      cases member
    · rw [all]
      rfl

/-- An event that is not settled is there or not. -/
theorem survives_cons_iff {event : Event} (pending : event.settles = false) :
    Survives start (event :: log) content ↔ event.Entire ∧
      ∃ old, Survives start log old ∧ (content = old ∨ content = event.apply old) := by
  have more : unsettled (event :: log) = event :: unsettled log := by
    rw [unsettled, List.takeWhile_cons, pending]
    rfl
  have same : settled (event :: log) = settled log := by
    rw [settled, List.dropWhile_cons, pending]
    rfl
  constructor
  · rintro ⟨entire, kept, part, rfl⟩
    rw [more] at entire part
    rw [same]
    have earlier : ∀ other ∈ unsettled log, other.Entire :=
      fun other member => entire other (List.mem_cons_of_mem _ member)
    refine ⟨entire event List.mem_cons_self, ?_⟩
    rcases List.sublist_cons_iff.1 part with lost | ⟨rest, rfl, others⟩
    · exact ⟨_, ⟨earlier, kept, lost, rfl⟩, .inl rfl⟩
    · exact ⟨_, ⟨earlier, rest, others, rfl⟩, .inr rfl⟩
  · rintro ⟨entire, old, ⟨earlier, kept, part, rfl⟩, either⟩
    refine ⟨fun other member => ?_, ?_⟩
    · rw [more] at member
      rcases List.mem_cons.1 member with rfl | member
      · exact entire
      · exact earlier other member
    · rw [more, same]
      rcases either with rfl | rfl
      · exact ⟨kept, part.cons event, rfl⟩
      · exact ⟨event :: kept, part.cons_cons event, rfl⟩

end

namespace Device

def Traced (start : Content) (device : Device) : Prop :=
  device.content = replay start device.around.events

theorem Logs.traced {start : Content} {kind : Event → Prop} {before after : Device}
    (logs : before.Logs kind after) (traced : before.Traced start) : after.Traced start := by
  obtain ⟨events, log, content, _⟩ := logs
  rw [Traced, log, replay_append, ← show before.content = _ from traced, content]

/-- All that was done is on disk: nothing but the content can be left. -/
structure Settled (start : Content) (device : Device) : Prop where
  traced : device.Traced start
  left : Survives start device.around.events device.content
  only : ∀ content, Survives start device.around.events content → content = device.content

/-- At every moment on the way from one state of the file to the other, only contents can be left for which
the condition holds. -/
structure Guards (start : Content) (holds : Content → Prop) (before after : Device) : Prop where
  longer : before.around.events <:+ after.around.events
  holds : ∀ log, before.around.events <:+ log → log <:+ after.around.events →
    ∀ content, Survives start log content → holds content

section
variable {start : Content} {holds holds' : Content → Prop} {a b c : Device}

theorem Guards.mono (guards : a.Guards start holds b)
    (weaker : ∀ content, holds content → holds' content) : a.Guards start holds' b :=
  ⟨guards.longer, fun log front back content survives =>
    weaker content (guards.holds log front back content survives)⟩

/-- The moments of two ways in a row are those of the first one and those of the second. -/
theorem Guards.trans (first : a.Guards start holds b) (second : b.Guards start holds c) :
    a.Guards start holds c := by
  refine ⟨first.longer.trans second.longer, fun log front back => ?_⟩
  rcases List.suffix_or_suffix_of_suffix back second.longer with early | late
  · exact first.holds log front early
  · exact second.holds log late back

theorem Guards.at_end (guards : a.Guards start holds b) {content : Content}
    (survives : Survives start b.around.events content) : holds content :=
  guards.holds _ guards.longer (List.suffix_refl _) content survives

theorem Silent.guards (silent : a.Silent b)
    (here : ∀ content, Survives start a.around.events content → holds content) :
    a.Guards start holds b := by
  have log := silent.log
  refine ⟨log ▸ List.suffix_refl _, fun now front back => ?_⟩
  rw [log] at back
  rwa [back.eq_of_length_le front.length_le]

theorem Traced.silent (traced : a.Traced start) (silent : a.Silent b) : b.Traced start :=
  (silent.logs fun _ => True).traced traced

theorem Settled.silent (settled : a.Settled start) (silent : a.Silent b) : b.Settled start := by
  refine ⟨settled.traced.silent silent, ?_, ?_⟩
  · rw [silent.log, silent.content]
    exact settled.left
  · rw [silent.log, silent.content]
    exact settled.only

/-- One more event: what can be left was left before, or the event does something to that. -/
theorem guards_of_event {event : Event} (log : b.around.events = event :: a.around.events)
    (pending : event.settles = false)
    (here : ∀ content, Survives start a.around.events content →
      holds content ∧ (event.Entire → holds (event.apply content))) : a.Guards start holds b := by
  refine ⟨log ▸ List.suffix_cons _ _, fun now front back content survives => ?_⟩
  rw [log] at back
  rcases List.suffix_cons_iff.1 back with rfl | back
  · obtain ⟨entire, old, earlier, rfl | rfl⟩ := (survives_cons_iff pending).1 survives
    · exact (here _ earlier).1
    · exact (here old earlier).2 entire
  · rw [back.eq_of_length_le front.length_le] at survives
    exact (here content survives).1

/-- A sync that succeeds: from then on, only what the log makes of the start is left. -/
theorem guards_of_synced (log : b.around.events = .synced none :: a.around.events)
    (here : ∀ content, Survives start a.around.events content → holds content)
    (last : holds (replay start a.around.events)) : a.Guards start holds b := by
  refine ⟨log ▸ List.suffix_cons _ _, fun now front back content survives => ?_⟩
  rw [log] at back
  rcases List.suffix_cons_iff.1 back with rfl | back
  · rwa [survives_synced_iff.1 survives]
  · rw [back.eq_of_length_le front.length_le] at survives
    exact here content survives

end

section
variable {start : Content} {device : Device}

theorem writeFrom_guards (position : Nat) (data : Bytes) (done : Nat) :
    Ends (writeFrom position data done) device
      (fun _ next => device.Guards start (fun content => ∃ old, Survives start device.around.events old ∧
        (content = old ∨ content = old.write (position + done) (data.extract done data.size))) next)
      fun _ _ => True := by
  unfold Ends
  fun_induction writeFrom position data done device with
  | case1 done device finished =>
    exact (Silent.refl device).guards fun content survives => ⟨content, survives, .inl rfl⟩
  | case2 done device unfinished next attempt ih =>
    have log := events_attemptWrite attempt
    have first : device.Guards start (fun content => ∃ old, Survives start device.around.events old ∧
        (content = old ∨ content = old.write (position + done) (data.extract done data.size))) next :=
      guards_of_event log rfl fun content survives =>
        ⟨⟨content, survives, .inl rfl⟩, fun _ => ⟨content, survives, .inl rfl⟩⟩
    refine Ends.mono ih (fun _ _ later => first.trans (later.mono ?_)) fun _ _ => id
    rintro content ⟨old, survives, either⟩
    rw [log] at survives
    obtain ⟨_, earlier, survives, same⟩ := (survives_cons_iff rfl).1 survives
    obtain rfl : old = earlier := same.elim id id
    exact ⟨old, survives, either⟩
  | case3 done device unfinished reason next notInterrupted attempt => trivial
  | case4 done device unfinished next attempt => trivial
  | case5 done device unfinished count next attempt some ih =>
    have log := events_attemptWrite attempt
    have size : (data.extract done (done + count)).size = min (done + count) data.size - done :=
      ByteArray.size_extract
    have first : device.Guards start (fun content => ∃ old, Survives start device.around.events old ∧
        (content = old ∨ content = old.write (position + done) (data.extract done data.size))) next := by
      refine guards_of_event log rfl fun content survives => ⟨⟨content, survives, .inl rfl⟩, ?_⟩
      intro entire
      have all : (data.extract done (done + count)).size = data.size - done := entire
      rcases attemptWrite_cases attempt with ⟨_, impossible, _⟩ | ⟨_, same, atMost, _⟩
      · cases impossible
      · cases same
        have stop : done + count = data.size := by omega
        exact ⟨content, survives, .inr (stop ▸ rfl)⟩
    by_cases last : data.size ≤ done + count
    · rw [writeFrom, if_pos last]
      exact first
    · refine Ends.mono ih (fun _ _ later => first.trans (later.mono ?_)) fun _ _ => id
      rintro content ⟨old, survives, _⟩
      rw [log] at survives
      -- a write that was cut short leaves no moment about which anything is said
      have entire : (data.extract done (done + count)).size = data.size - done :=
        ((survives_cons_iff rfl).1 survives).1
      omega

/-- While data is written, what can be left is what could be left before, with or without the data. -/
theorem writeAt_guards (position : Nat) (data : Bytes) :
    Ends (writeAt position data) device
      (fun _ next => device.Guards start (fun content => ∃ old, Survives start device.around.events old ∧
        (content = old ∨ content = old.write position data)) next)
      fun _ _ => True := by
  have ends := @writeFrom_guards start device position data 0
  rwa [ByteArray.extract_zero_size] at ends

theorem guards_noteInterruptions {event : Option Errno → Event}
    (pending : (event (some .interrupted)).settles = false)
    (idle : ∀ content, (event (some .interrupted)).apply content = content) (count : Nat)
    (device : Device) :
    device.Guards start (Survives start device.around.events) (noteInterruptions event count device) := by
  induction count generalizing device with
  | zero => exact (Silent.refl device).guards fun _ => id
  | succ count ih =>
    have first : device.Guards start (Survives start device.around.events)
        (device.note (event (some .interrupted))) :=
      guards_of_event rfl pending fun content survives => ⟨survives, fun _ => (idle content).symm ▸ survives⟩
    exact first.trans ((ih _).mono fun content => first.at_end)

theorem Traced.sync (traced : device.Traced start) :
    Ends sync device
      (fun _ next => device.Guards start (fun content => Survives start device.around.events content ∨
        content = device.content) next ∧ next.Settled start)
      fun _ _ => True := by
  have interrupted := @guards_noteInterruptions start .synced rfl (fun _ => rfl)
    (device.turns .syncing).settle.interruptions
    (device.setTurns .syncing (device.turns .syncing).settle.ahead)
  have logs : device.Logs (fun _ => True) (device.settle .syncing .synced).2 :=
    logs_settle .syncing trivial (fun _ => rfl) device
  have keeps := keeps_settle device .syncing .synced
  have noted : device.Guards start (Survives start device.around.events)
      (device.settle .syncing .synced).2 := ⟨interrupted.longer, interrupted.holds⟩
  simp only [Ends, Device.sync]
  generalize device.settle .syncing .synced = settlement at noted logs keeps
  obtain ⟨refused, next⟩ := settlement
  cases refused.or (if next.full then some Errno.invalid else none) with
  | some reason => trivial
  | none =>
    have tracedNext : next.content = replay start next.around.events := logs.traced traced
    refine ⟨(noted.mono fun _ => .inl).trans (guards_of_synced rfl ?_ ?_), tracedNext,
      survives_synced_iff.2 tracedNext, ?_⟩
    · exact fun content survives => .inl (noted.at_end survives)
    · exact .inr (tracedNext.symm.trans keeps.content)
    · exact fun content survives => (survives_synced_iff.1 survives).trans tracedNext.symm

theorem Settled.writeAt (settled : device.Settled start) (position : Nat) (data : Bytes) :
    Ends (writeAt position data) device
      (fun _ next => device.Guards start (fun content => content = device.content ∨
          content = device.content.write position data) next ∧
        next.Traced start ∧ device.Wrote position data next)
      fun _ _ => True := by
  have logs := writeAt_logs 0 position data device
  have wrote := writeAt_ends position data device
  have guarded := @writeAt_guards start device position data
  refine Ends.mono (guarded.and (logs.and wrote)) ?_ fun _ _ _ => trivial
  rintro _ next ⟨guards, logs, wrote⟩
  refine ⟨guards.mono ?_, logs.traced settled.traced, wrote⟩
  rintro content ⟨old, survives, either⟩
  rwa [settled.only old survives] at either

end

end Device
end RegionStore.Disk
