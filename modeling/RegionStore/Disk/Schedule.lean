import RegionStore.Errno
import RegionStore.Failure

/-!
How file calls turn out. For each call there are turns that its next attempts take; when they are used
up, the call is left to itself. Equal turns in a row are one stretch, so a call may be disturbed any
number of times.
-/

set_option autoImplicit false

namespace RegionStore.Disk

inductive Turn where
  | undisturbed
  | refused (reason : Errno)
  | short (count : Nat)
  deriving DecidableEq, Repr

namespace Turn

def allowance (turn : Turn) (wanted : Nat) : Nat :=
  match turn with
  | .short count => min count wanted
  | _ => wanted

def refusal? : Turn → Option Errno
  | .refused reason => some reason
  | _ => none

end Turn

/-- A turn that so many attempts take one after the other. -/
structure Stretch where
  turn : Turn
  count : Nat
  deriving DecidableEq, Repr

abbrev Turns := List Stretch

namespace Turns

def remaining : Turns → Nat
  | [] => 0
  | stretch :: rest => stretch.count + remaining rest

def next : Turns → Turn × Turns
  | [] => (.undisturbed, [])
  | ⟨_, 0⟩ :: rest => next rest
  | ⟨turn, count + 1⟩ :: rest => (turn, ⟨turn, count⟩ :: rest)

theorem remaining_next (turns : Turns) : remaining turns.next.2 = turns.remaining - 1 := by
  fun_induction next turns with
  | case1 => rfl
  | case2 turn rest ih => simpa [remaining] using ih
  | case3 turn count rest =>
    simp only [remaining]
    omega

theorem next_of_remaining_eq_zero {turns : Turns} (none : turns.remaining = 0) :
    turns.next.1 = .undisturbed := by
  fun_induction next turns with
  | case1 => rfl
  | case2 turn rest ih =>
    apply ih
    simpa [remaining] using none
  | case3 turn count rest =>
    simp only [remaining] at none
    omega

end Turns

/-- How a call without a transfer turns out. -/
structure Settlement where
  /-- The attempts that were interrupted; the call was made again after each. -/
  interruptions : Nat
  /-- Why the last attempt failed. -/
  refusal : Option Errno
  ahead : Turns
  deriving DecidableEq

def Turns.settle : Turns → Settlement
  | [] => ⟨0, none, []⟩
  | ⟨_, 0⟩ :: rest => settle rest
  | ⟨.refused .interrupted, count + 1⟩ :: rest =>
    let later := settle rest
    { later with interruptions := count + 1 + later.interruptions }
  | ⟨turn, count + 1⟩ :: rest => ⟨0, turn.refusal?, ⟨turn, count⟩ :: rest⟩

structure Schedule where
  examining : Turns
  making : Turns
  opening : Turns
  closing : Turns
  reading : Turns
  writing : Turns
  measuring : Turns
  resizing : Turns
  syncing : Turns
  deriving DecidableEq

namespace Schedule

def calm : Schedule := ⟨[], [], [], [], [], [], [], [], []⟩

def turns (schedule : Schedule) : FileCall → Turns
  | .examining => schedule.examining
  | .making => schedule.making
  | .opening => schedule.opening
  | .closing => schedule.closing
  | .reading => schedule.reading
  | .writing => schedule.writing
  | .measuring => schedule.measuring
  | .resizing => schedule.resizing
  | .syncing => schedule.syncing

def setTurns (schedule : Schedule) (call : FileCall) (turns : Turns) : Schedule :=
  match call with
  | .examining => { schedule with examining := turns }
  | .making => { schedule with making := turns }
  | .opening => { schedule with opening := turns }
  | .closing => { schedule with closing := turns }
  | .reading => { schedule with reading := turns }
  | .writing => { schedule with writing := turns }
  | .measuring => { schedule with measuring := turns }
  | .resizing => { schedule with resizing := turns }
  | .syncing => { schedule with syncing := turns }

theorem turns_setTurns (schedule : Schedule) (call : FileCall) (turns : Turns) :
    (schedule.setTurns call turns).turns call = turns := by
  cases call <;> rfl

theorem turns_setTurns_of_ne (schedule : Schedule) {call other : FileCall} (turns : Turns)
    (different : other ≠ call) : (schedule.setTurns call turns).turns other = schedule.turns other := by
  cases call <;> cases other <;> first | rfl | exact absurd rfl different

/-- After the turns that are already fixed, `skipped` attempts go through and `times` take `turn`, at
least one of them. -/
def disturb (schedule : Schedule) (call : FileCall) (turn : Turn) (skipped times : Nat) : Schedule :=
  schedule.setTurns call (schedule.turns call ++ [⟨.undisturbed, skipped⟩, ⟨turn, max 1 times⟩])

end Schedule
end RegionStore.Disk
