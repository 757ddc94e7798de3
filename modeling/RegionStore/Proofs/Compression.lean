import RegionStore.Compression
import RegionStore.Proofs.Deflate.Stream

/-!
A chunk that has been encoded is decoded to its payload again, with every codec that gives back what it
was given.
-/

set_option autoImplicit false

namespace RegionStore

theorem Method.ofTag?_tag (method : Method) : ofTag? method.tag = some method := by
  cases method <;> rfl

theorem Method.size_tagged (method : Method) (data : Bytes) : (method.tagged data).size = 1 + data.size :=
  ByteArray.size_append

variable [Codec]

namespace Deflate.Container

variable (container : Container)

theorem room_le (size : Nat) : container.room size ≤ maxCount := by
  have small := (Codec.bound container size).toUInt32.toNat_lt
  rw [room, maxCount]
  omega

theorem deflate_eq_ok {data stream : Bytes} (finished : container.deflate data = .ok stream) :
    data.size ≤ maxCount ∧ stream = Codec.compress container data ∧
      stream.size ≤ container.room data.size := by
  unfold deflate at finished
  split at finished
  · cases finished
  · next counted =>
    split at finished
    · cases finished
    · simp only at finished
      split at finished
      · next fits =>
        cases finished
        exact ⟨Nat.le_of_not_lt counted, rfl, fits⟩
      · cases finished

theorem deflate_fails {data : Bytes} {failure : Failure} (failed : container.deflate data = .error failure) :
    failure = .dataTooLarge data.size ∨ ∃ stop, failure = .streamUnfinished stop := by
  unfold deflate at failed
  simp only at failed
  repeat' split at failed
  all_goals cases failed
  · exact .inl rfl
  all_goals exact .inr ⟨_, rfl⟩

/-- The calls give the output at once, whatever room the single calls have. -/
theorem inflate_eq {data : Bytes} (counted : data.size ≤ maxCount) :
    container.inflate data =
      match (Codec.expand container data).ending with
      | .ok unread =>
        if unread = 0 then .ok (Codec.expand container data).output
        else .error (.badStream (.excess unread))
      | .error flaw => .error (.badStream flaw) := by
  rw [inflate, if_neg (Nat.not_lt_of_le counted)]
  simp only [Stream.drain_start]
  cases (Codec.expand container data).ending with
  | ok unread =>
    simp only
    split <;> rfl
  | error flaw => rfl

theorem inflate_fails {data : Bytes} {failure : Failure} (failed : container.inflate data = .error failure) :
    failure = .dataTooLarge data.size ∨ ∃ flaw, failure = .badStream flaw := by
  by_cases counted : data.size ≤ maxCount
  · rw [inflate_eq container counted] at failed
    repeat' split at failed
    all_goals cases failed
    all_goals exact .inr ⟨_, rfl⟩
  · rw [inflate, if_pos (Nat.lt_of_not_le counted)] at failed
    cases failed
    exact .inl rfl

variable {container}

theorem inflate_deflate [LawfulCodec] {data stream : Bytes} (finished : container.deflate data = .ok stream) :
    container.inflate stream = .ok data := by
  obtain ⟨_, rfl, fits⟩ := container.deflate_eq_ok finished
  rw [inflate_eq container (Nat.le_trans fits (container.room_le _)), LawfulCodec.expand_compress]
  exact if_pos rfl

end Deflate.Container

namespace Method

theorem unpack_pack [LawfulCodec] {method : Method} {payload packed : Bytes}
    (finished : method.pack payload = .ok packed) : method.unpack packed = .ok payload := by
  unfold pack at finished
  unfold unpack
  generalize method.container? = container? at finished ⊢
  cases container? with
  | some container => exact Deflate.Container.inflate_deflate finished
  | none =>
    cases finished
    rfl

end Method

theorem encodeChunk_tag (method : Method) (payload : Bytes) :
    encodeChunk payload method.tag = (method.pack payload).map method.tagged := by
  rw [encodeChunk, Method.ofTag?_tag]

theorem encodeChunk_plain (payload : Bytes) :
    encodeChunk payload Method.plain.tag = .ok (Method.plain.tagged payload) := rfl

theorem exists_method_of_encodeChunk {payload data : Bytes} {tag : UInt8}
    (accepted : encodeChunk payload tag = .ok data) :
    ∃ (method : Method) (packed : Bytes), method.pack payload = .ok packed ∧ data = method.tagged packed := by
  unfold encodeChunk at accepted
  split at accepted
  · next method _ =>
    cases finished : method.pack payload with
    | ok packed =>
      rw [finished] at accepted
      cases accepted
      exact ⟨method, packed, finished, rfl⟩
    | error failure =>
      rw [finished] at accepted
      cases accepted
  · cases accepted

theorem encodeChunk_nonempty {payload data : Bytes} {tag : UInt8}
    (accepted : encodeChunk payload tag = .ok data) : 0 < data.size := by
  obtain ⟨method, packed, _, rfl⟩ := exists_method_of_encodeChunk accepted
  rw [method.size_tagged]
  omega

theorem encodeChunk_fails {payload : Bytes} {tag : UInt8} {failure : Failure}
    (failed : encodeChunk payload tag = .error failure) :
    failure = .unknownMethod tag ∨ failure = .dataTooLarge payload.size ∨
      ∃ stop, failure = .streamUnfinished stop := by
  unfold encodeChunk at failed
  split at failed
  · next method _ =>
    cases finished : method.pack payload with
    | ok packed =>
      rw [finished] at failed
      cases failed
    | error failure =>
      rw [finished] at failed
      cases failed
      unfold Method.pack at finished
      split at finished
      · next container _ => exact .inr (container.deflate_fails finished)
      · cases finished
  · cases failed
    exact .inl rfl

theorem decodeChunk_tagged (method : Method) (data : Bytes) :
    decodeChunk (method.tagged data) = method.unpack data := by
  have size := method.size_tagged data
  have nonempty : 0 < (method.tagged data).size := by omega
  have first : (method.tagged data)[0] = method.tag := by
    rw [← Bytes.get_of_lt nonempty, Method.tagged, Bytes.get_append]
    rfl
  have rest : (method.tagged data).extract 1 (method.tagged data).size = data := by
    have carries := (Bytes.Carries.refl (method.tagged data)).back
    rw [size]
    exact carries.extract
  rw [decodeChunk, dif_pos nonempty, first, Method.ofTag?_tag, rest]

theorem decodeChunk_fails {data : Bytes} {failure : Failure} (failed : decodeChunk data = .error failure) :
    failure = .missingMethod ∨ (∃ tag, failure = .unknownMethod tag) ∨
      (∃ size, failure = .dataTooLarge size) ∨ ∃ flaw, failure = .badStream flaw := by
  unfold decodeChunk at failed
  split at failed
  · split at failed
    · next method _ =>
      unfold Method.unpack at failed
      split at failed
      · next container _ =>
        exact .inr (.inr ((container.inflate_fails failed).imp_left fun same => ⟨_, same⟩))
      · cases failed
    · cases failed
      exact .inr (.inl ⟨_, rfl⟩)
  · cases failed
    exact .inl rfl

theorem decodeChunk_encodeChunk [LawfulCodec] {payload data : Bytes} {tag : UInt8}
    (accepted : encodeChunk payload tag = .ok data) : decodeChunk data = .ok payload := by
  obtain ⟨method, packed, finished, rfl⟩ := exists_method_of_encodeChunk accepted
  rw [decodeChunk_tagged, Method.unpack_pack finished]

end RegionStore
