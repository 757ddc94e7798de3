import RegionStore.Deflate.Stream
import RegionStore.Proofs.Bytes

/-!
Decompression in calls gives what decompression at once gives, whatever room the single calls have.
-/

set_option autoImplicit false

namespace RegionStore.Deflate

namespace Stream

/-- What has been collected, and all that is still to be given. -/
def whole (stream : Stream) (collected : Bytes) : Except Flaw Bytes :=
  match stream.ending with
  | .ok unread =>
    if unread = 0 then .ok (collected ++ stream.output.extract stream.given stream.output.size)
    else .error (.excess unread)
  | .error flaw => .error flaw

end Stream

def Delivery.whole {room : Nat} (collected : Bytes) : Delivery room → Except Flaw Bytes
  | .more part rest => rest.whole (collected ++ part.val)
  | .ended part unread =>
    if unread = 0 then .ok (collected ++ part.val) else .error (.excess unread)
  | .stuck => .error .truncated
  | .failed flaw => .error flaw

namespace Stream

/-- A call loses nothing and repeats nothing. -/
theorem whole_call (stream : Stream) (room : Nat) (collected : Bytes) :
    (stream.call room).whole collected = stream.whole collected := by
  unfold call
  split
  · next short =>
    unfold left at short
    have joined : stream.output.extract stream.given stream.output.size =
        stream.output.extract stream.given (stream.given + room) ++
          stream.output.extract (stream.given + room) stream.output.size :=
      ByteArray.extract_eq_extract_append_extract _ (by omega) (by omega)
    simp only [Delivery.whole, whole, joined, ByteArray.append_assoc]
  · cases ending : stream.ending with
    | ok unread => simp only [Delivery.whole, whole, ending]
    | error flaw =>
      cases flaw with
      | truncated =>
        simp only
        split
        · simp only [Delivery.whole, whole, ending]
        · simp only [Delivery.whole, whole, ending]
      | corrupted defect => simp only [Delivery.whole, whole, ending]
      | excess byteCount => simp only [Delivery.whole, whole, ending]

theorem drain_eq (stream : Stream) (buffer : Buffer) :
    stream.drain buffer = stream.whole buffer.bytes := by
  fun_induction drain stream buffer with
  | case1 stream buffer part rest called ih =>
    rw [ih, ← whole_call stream buffer.grown.room, called]
    simp [Delivery.whole]
  | case2 stream buffer part called =>
    rw [← whole_call stream buffer.grown.room, called]
    simp [Delivery.whole]
  | case3 stream buffer part unread called excess =>
    rw [← whole_call stream buffer.grown.room, called]
    simp [Delivery.whole, excess]
  | case4 stream buffer called =>
    rw [← whole_call stream buffer.grown.room, called]
    rfl
  | case5 stream buffer flaw called =>
    rw [← whole_call stream buffer.grown.room, called]
    rfl

end Stream

theorem Stream.drain_start (expansion : Expansion) (data : Bytes) (size : Nat) :
    (start expansion data).drain (Buffer.forInput size) =
      match expansion.ending with
      | .ok unread => if unread = 0 then .ok expansion.output else .error (.excess unread)
      | .error flaw => .error flaw := by
  rw [drain_eq]
  unfold whole start
  simp only [ByteArray.extract_zero_size]
  cases expansion.ending with
  | ok unread => rfl
  | error flaw => rfl

end RegionStore.Deflate
