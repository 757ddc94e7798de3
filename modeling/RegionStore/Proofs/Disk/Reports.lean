import RegionStore.Proofs.Disk.Device

/-!
What the calls of an open file report. Reading, writing, measuring and syncing give no notices, and they
fail only with what the operating system says.
-/

set_option autoImplicit false

namespace RegionStore

open Disk

def Failure.IsCall (failure : Failure) : Prop := ∃ code, failure.kind = .io code

namespace Disk.Device

def Quiet (before after : Device) : Prop := after.around.notices = before.around.notices

theorem Quiet.refl (device : Device) : device.Quiet device := rfl

theorem Quiet.trans {a b c : Device} (first : a.Quiet b) (second : b.Quiet c) : a.Quiet c :=
  Eq.trans second first

def Reports {Result : Type} (action : OnDevice Result) (device : Device) : Prop :=
  Ends action device (fun _ next => device.Quiet next)
    fun failure next => failure.IsCall ∧ device.Quiet next

theorem Reports.onward {Result : Type} {action : OnDevice Result} {device next : Device}
    (reports : Reports action next) (quiet : device.Quiet next) :
    Ends action next (fun _ after => device.Quiet after)
      fun failure after => failure.IsCall ∧ device.Quiet after :=
  Ends.mono reports (fun _ _ => quiet.trans) fun _ _ => And.imp_right quiet.trans

theorem isCall_refusal (device : Device) (call : FileCall) (reason : Errno) :
    (device.refusal call reason).IsCall := ⟨reason.code, rfl⟩

theorem quiet_attemptWrite {device next : Device} {position done : Nat} {data : Bytes}
    {outcome : Except Errno Nat} (attempt : device.attemptWrite position data done = (outcome, next)) :
    device.Quiet next := by
  rw [attemptWrite, Prod.mk.injEq] at attempt
  obtain ⟨rfl, rfl⟩ := attempt
  cases device.writeOutcome (device.turns .writing).next.1 (position + done) (data.size - done) with
  | error reason => exact Quiet.refl device
  | ok count => exact Quiet.refl device

theorem quiet_attemptRead {device next : Device} {position size : Nat} {outcome : Except Errno Bytes}
    (attempt : device.attemptRead position size = (outcome, next)) : device.Quiet next := by
  rw [attemptRead, Prod.mk.injEq] at attempt
  obtain ⟨_, rfl⟩ := attempt
  exact Quiet.refl device

theorem writeAt_reports (position : Nat) (data : Bytes) (device : Device) :
    Reports (writeAt position data) device := by
  unfold writeAt Reports Ends
  generalize 0 = done
  fun_induction writeFrom position data done device with
  | case1 done device finished => exact Quiet.refl device
  | case2 done device unfinished next attempt ih =>
    exact Reports.onward ih (quiet_attemptWrite attempt)
  | case3 done device unfinished reason next notInterrupted attempt =>
    exact ⟨isCall_refusal next .writing reason, quiet_attemptWrite attempt⟩
  | case4 done device unfinished next attempt => exact ⟨⟨0, rfl⟩, quiet_attemptWrite attempt⟩
  | case5 done device unfinished count next attempt some ih =>
    exact Reports.onward ih (quiet_attemptWrite attempt)

theorem readAt_reports (position size : Nat) (device : Device) :
    Reports (readAt position size) device := by
  unfold readAt Reports Ends
  generalize ByteArray.empty = known
  fun_induction readFrom position size known device with
  | case1 known device finished => exact Quiet.refl device
  | case2 known device unfinished next attempt ih => exact Reports.onward ih (quiet_attemptRead attempt)
  | case3 known device unfinished reason next notInterrupted attempt =>
    exact ⟨isCall_refusal next .reading reason, quiet_attemptRead attempt⟩
  | case4 known device unfinished bytes next attempt empty => exact quiet_attemptRead attempt
  | case5 known device unfinished bytes next attempt nonempty ih =>
    exact Reports.onward ih (quiet_attemptRead attempt)

theorem measure_reports (device : Device) : Reports measure device := by
  simp only [Reports, Ends, measure]
  cases (device.turns .measuring).next.1.refusal? with
  | none => exact Quiet.refl device
  | some reason => exact ⟨isCall_refusal _ .measuring reason, Quiet.refl device⟩

theorem quiet_noteInterruptions (event : Option Errno → Event) (count : Nat) (device : Device) :
    device.Quiet (noteInterruptions event count device) := by
  induction count generalizing device with
  | zero => exact Quiet.refl device
  | succ count ih => exact ih (device.note (event (some .interrupted)))

theorem quiet_settle (device : Device) (call : FileCall) (event : Option Errno → Event) :
    device.Quiet (device.settle call event).2 :=
  quiet_noteInterruptions event (device.turns call).settle.interruptions _

theorem sync_reports (device : Device) : Reports sync device := by
  have settled := quiet_settle device .syncing .synced
  simp only [Reports, Ends, sync]
  generalize device.settle .syncing .synced = settlement at settled
  obtain ⟨refused, next⟩ := settlement
  cases refused.or (if next.full then some Errno.invalid else none) with
  | none => exact settled
  | some reason => exact ⟨isCall_refusal next .syncing reason, settled⟩

end Disk.Device
end RegionStore
