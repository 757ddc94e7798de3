import RegionStore.Bytes
import RegionStore.Codec

/-!
Decompression in calls. One call gives no more output than it has room for, so the output is collected in
a buffer that grows as often as it is full. That the data have ended too early shows in a call that can
neither take input nor give output.
-/

set_option autoImplicit false

namespace RegionStore.Deflate

/-- A decompressor at work on its data: all that they give, what is wrong with them or how many bytes stay
unread behind them, how much output has been given, and whether input may still be taken. -/
structure Stream where
  output : Bytes
  ending : Except Flaw Nat
  given : Nat
  inputLeft : Bool

abbrev Part (room : Nat) := { bytes : Bytes // bytes.size ≤ room }

inductive Delivery (room : Nat) where
  | more (part : Part room) (stream : Stream)
  | ended (part : Part room) (unread : Nat)
  | stuck
  | failed (flaw : Flaw)

structure Buffer where
  bytes : Bytes
  capacity : Nat
  positive : 0 < capacity
  fits : bytes.size ≤ capacity

namespace Buffer

def minCapacity : Nat := 4096

/-- Most data give some multiple of their size. -/
def forInput (size : Nat) : Buffer where
  bytes := ByteArray.empty
  capacity := max minCapacity (4 * size)
  positive := Nat.lt_of_lt_of_le (by decide) (Nat.le_max_left minCapacity (4 * size))
  fits := Nat.zero_le _

def room (buffer : Buffer) : Nat := min (buffer.capacity - buffer.bytes.size) maxCount

def grown (buffer : Buffer) : Buffer :=
  if buffer.bytes.size = buffer.capacity then
    { buffer with
      capacity := 2 * buffer.capacity
      positive := Nat.mul_pos (by decide) buffer.positive
      fits := Nat.le_trans buffer.fits (Nat.le_mul_of_pos_left _ (by decide)) }
  else buffer

def add (buffer : Buffer) (part : Part buffer.room) : Buffer where
  bytes := buffer.bytes ++ part.val
  capacity := buffer.capacity
  positive := buffer.positive
  fits := by
    have held := Nat.le_trans part.property (Nat.min_le_left _ maxCount)
    have fits := buffer.fits
    rw [ByteArray.size_append]
    omega

@[simp] theorem bytes_grown (buffer : Buffer) : buffer.grown.bytes = buffer.bytes := by
  unfold grown
  split <;> rfl

@[simp] theorem bytes_add (buffer : Buffer) (part : Part buffer.room) :
    (buffer.add part).bytes = buffer.bytes ++ part.val := rfl

theorem room_grown_pos (buffer : Buffer) : 0 < buffer.grown.room := by
  have positive := buffer.positive
  have fits := buffer.fits
  apply Nat.lt_min.2
  refine ⟨?_, by decide⟩
  unfold grown
  split
  · simp only
    omega
  · omega

end Buffer

namespace Stream

def start (expansion : Expansion) (data : Bytes) : Stream :=
  ⟨expansion.output, expansion.ending, 0, 0 < data.size⟩

def left (stream : Stream) : Nat := stream.output.size - stream.given

def call (stream : Stream) (room : Nat) : Delivery room :=
  if short : room < stream.left then
    .more ⟨stream.output.extract stream.given (stream.given + room), by
      rw [ByteArray.size_extract]
      omega⟩ { stream with given := stream.given + room }
  else
    let part : Part room := ⟨stream.output.extract stream.given stream.output.size, by
      rw [ByteArray.size_extract, Nat.min_self]
      exact Nat.le_of_not_lt short⟩
    match stream.ending with
    | .ok unread => .ended part unread
    | .error .truncated =>
      if stream.left = 0 ∧ ¬stream.inputLeft then .stuck
      else .more part { stream with given := stream.output.size, inputLeft := false }
    | .error flaw => .failed flaw

/-- Bounds the number of calls. -/
def pending (stream : Stream) : Nat := stream.left + stream.inputLeft.toNat

theorem pending_lt_of_call {stream rest : Stream} {room : Nat} {part : Part room} (positive : 0 < room)
    (called : stream.call room = .more part rest) : rest.pending < stream.pending := by
  unfold call at called
  split at called
  · next short =>
    cases called
    unfold pending left at *
    simp only
    omega
  · simp only at called
    split at called
    · cases called
    · split at called
      · cases called
      · next going =>
        cases called
        unfold pending left at *
        simp only [Nat.sub_self, Bool.toNat_false]
        cases inputLeft : stream.inputLeft with
        | true => simp
        | false =>
          have some : stream.left ≠ 0 := fun none => going ⟨none, by simp [inputLeft]⟩
          unfold left at some
          simp only [Bool.toNat_false]
          omega
    · cases called

def drain (stream : Stream) (buffer : Buffer) : Except Flaw Bytes :=
  match _ : stream.call buffer.grown.room with
  | .more part rest => rest.drain (buffer.grown.add part)
  | .ended part unread =>
    if unread = 0 then .ok (buffer.grown.add part).bytes else .error (.excess unread)
  | .stuck => .error .truncated
  | .failed flaw => .error flaw
termination_by stream.pending
decreasing_by exact pending_lt_of_call buffer.room_grown_pos ‹_›

end Stream

end RegionStore.Deflate
