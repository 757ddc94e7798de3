import RegionStore.Proofs.Compression
import RegionStore.Proofs.Deflate.Container
import RegionStore.Proofs.Disk.Path

/-!
Encoded chunks frame themselves. Where compressed data end is told by the data, so that a part of an
encoded chunk is seen to be one, and whatever follows it is seen to be too much. Data that are not
compressed have no end of their own. Everything is counted in 32 bits, and so is the room for a stream:
a payload with a bound above that is only encoded if its stream fits in what is left of the bound.
-/

set_option autoImplicit false

namespace RegionStore

section
variable [Codec]

namespace Deflate.Container

variable (container : Container)

/-- The data can be counted, and their stream fits in the room for it. -/
def Takes (data : Bytes) : Prop :=
  data.size ≤ maxCount ∧ (Codec.compress container data).size ≤ container.room data.size

def refusal (data : Bytes) : Bytes :=
  if maxCount < data.size then
    Bytes.concat ["Chunk data is too large: ", Decimal.print data.size, " bytes"]
  else if container.room data.size = 0 then "Failed to compress chunk data: buffer error"
  else "Failed to compress chunk data: "

variable [LawfulCodec]

/-- If nothing were the stream of some data, it would be the beginning of the stream of all others. -/
theorem compress_nonempty (data : Bytes) : 0 < (Codec.compress container data).size := by
  apply Nat.pos_of_ne_zero
  intro none
  have empty := ByteArray.size_eq_zero_iff.1 none
  have expanded := LawfulCodec.expand_compress container data
  rw [empty] at expanded
  have further := LawfulCodec.expand_append container ByteArray.empty
    (Codec.compress container (data.push 0)) (by rw [expanded]; nofun)
  rw [ByteArray.empty_append, LawfulCodec.expand_compress, expanded] at further
  have longer : (data.push 0).size = data.size :=
    congrArg (fun expansion => expansion.output.size) further
  rw [ByteArray.size_push] at longer
  omega

theorem deflate_of_takes {data : Bytes} (takes : container.Takes data) :
    container.deflate data = .ok (Codec.compress container data) := by
  have some := container.compress_nonempty data
  have fits := takes.2
  rw [deflate, if_neg (Nat.not_lt_of_le takes.1), if_neg (by omega)]
  exact if_pos fits

omit [LawfulCodec] in
theorem deflate_of_not_takes {data : Bytes} (refused : ¬ container.Takes data) :
    ∃ failure, container.deflate data = .error failure ∧ failure.kind = .format ∧
      failure.statement = container.refusal data := by
  unfold deflate refusal
  split
  · exact ⟨_, rfl, rfl, rfl⟩
  · next counted =>
    split
    · exact ⟨_, rfl, rfl, rfl⟩
    · have large : ¬ (Codec.compress container data).size ≤ container.room data.size :=
        fun fits => refused ⟨Nat.le_of_not_lt counted, fits⟩
      exact ⟨_, if_neg large, rfl, rfl⟩

theorem takes_of_bound {data : Bytes} (counted : data.size ≤ maxCount)
    (bound : Codec.bound container data.size ≤ maxCount) : container.Takes data := by
  have room : container.room data.size = Codec.bound container data.size := by
    rw [maxCount] at bound
    rw [Container.room, Nat.toUInt32_eq, UInt32.toNat_ofNat_of_lt' (by rw [UInt32.size]; omega)]
  exact ⟨counted, room ▸ LawfulCodec.size_compress_le container data⟩

variable {container} {data : Bytes}

/-- Were anything else decided of a beginning, it would be decided of the whole stream. -/
theorem inflate_front (takes : container.Takes data) {front back : Bytes} (cut : Codec.compress container data = front ++ back)
    (lost : back.size ≠ 0) : container.inflate front = .error (.badStream .truncated) := by
  have undecided : (Codec.expand container front).ending = .error .truncated := by
    apply Decidable.byContradiction
    intro decided
    have whole := LawfulCodec.expand_append container front back decided
    rw [← cut, LawfulCodec.expand_compress] at whole
    have ending := congrArg Expansion.ending whole
    cases last : (Codec.expand container front).ending with
    | ok unread =>
      rw [last] at ending
      have none : 0 = unread + back.size := Except.ok.inj ending
      omega
    | error flaw =>
      rw [last] at ending
      cases ending
  have counted : front.size ≤ maxCount := by
    have fits := Nat.le_trans takes.2 (container.room_le _)
    rw [cut, ByteArray.size_append] at fits
    omega
  rw [inflate_eq container counted, undecided]

theorem inflate_append {more : Bytes} (some : more.size ≠ 0)
    (counted : (Codec.compress container data ++ more).size ≤ maxCount) :
    container.inflate (Codec.compress container data ++ more) =
      .error (.badStream (.excess more.size)) := by
  have whole := LawfulCodec.expand_compress container data
  rw [inflate_eq container counted, LawfulCodec.expand_append container _ _ (by rw [whole]; nofun), whole]
  simp only [Except.map, Nat.zero_add]
  exact if_neg some

end Deflate.Container

namespace Method

/-- A method that does not compress takes every payload. -/
def Takes (method : Method) (payload : Bytes) : Prop :=
  ∀ container, method.container? = some container → container.Takes payload

omit [Codec] in
theorem extract_tagged (method : Method) (data : Bytes) {count : Nat} (some : 0 < count) :
    (method.tagged data).extract 0 count = method.tagged (data.extract 0 (count - 1)) := by
  have one : (⟨#[method.tag]⟩ : Bytes).size = 1 := rfl
  have tag : (⟨#[method.tag]⟩ : Bytes).extract 0 (max count 1) = ⟨#[method.tag]⟩ :=
    ByteArray.extract_zero_max_size
  rw [Nat.max_eq_left some] at tag
  rw [tagged, tagged, ByteArray.extract_append, tag, one]

end Method

def FailsWith (result : Except Failure Bytes) (kind : Failure.Kind) (message : Bytes) : Prop :=
  ∃ failure, result = .error failure ∧ failure.kind = kind ∧ failure.message = message

/-- What an encoded chunk is good for: its payload comes back from it. From a part of it, or from it with
something behind it, no payload comes back if the method compresses, and the failure says what is wrong; a
method that does not compress gives what is there. -/
structure SelfFraming (method : Method) (payload data : Bytes) : Prop where
  decodes : decodeChunk data = .ok payload
  cut : method ≠ .plain → ∀ count, 0 < count → count < data.size →
    FailsWith (decodeChunk (data.extract 0 count)) .corruption "Compressed chunk data is truncated"
  followed : method ≠ .plain → ∀ more : Bytes, more ≠ ByteArray.empty →
    data.size + more.size ≤ 1 + Deflate.maxCount →
    FailsWith (decodeChunk (data ++ more)) .corruption
      (Bytes.concat ["Unexpected ", Decimal.print more.size,
        " bytes after end of compressed chunk data"])
  uncounted : method ≠ .plain → ∀ more : Bytes, 1 + Deflate.maxCount < data.size + more.size →
    FailsWith (decodeChunk (data ++ more)) .format
      (Bytes.concat ["Chunk data is too large: ", Decimal.print (data.size - 1 + more.size : Nat),
        " bytes"])
  plainCut : method = .plain → ∀ count, 0 < count → count < data.size →
    decodeChunk (data.extract 0 count) = .ok (payload.extract 0 (count - 1))
  plainFollowed : method = .plain → ∀ more : Bytes, decodeChunk (data ++ more) = .ok (payload ++ more)

end

theorem beforeZero_counted {front back : Bytes} (cleanFront : ∀ byte ∈ front.list, byte ≠ 0)
    (cleanBack : ∀ byte ∈ back.list, byte ≠ 0) (count : Nat) :
    (Bytes.concat [front, Decimal.print count, back]).beforeZero =
      Bytes.concat [front, Decimal.print count, back] := by
  apply Disk.Path.beforeZero_of_clean
  intro byte member
  simp only [Bytes.list_concat, List.flatMap_cons, List.flatMap_nil, List.append_nil,
    List.mem_append, Decimal.print, Bytes.list_ofList] at member
  rcases member with front | number | back
  · exact cleanFront byte front
  · exact Decimal.ne_of_mem_signed number (by decide) (by decide)
  · exact cleanBack byte back

theorem message_excess (count : Nat) : (Failure.badStream (.excess count)).message =
    Bytes.concat ["Unexpected ", Decimal.print count, " bytes after end of compressed chunk data"] :=
  beforeZero_counted (by decide +kernel) (by decide +kernel) count

theorem message_dataTooLarge (size : Nat) : (Failure.dataTooLarge size).message =
    Bytes.concat ["Chunk data is too large: ", Decimal.print size, " bytes"] :=
  beforeZero_counted (by decide +kernel) (by decide +kernel) size

section
variable [Codec] [LawfulCodec]

omit [LawfulCodec] in
theorem Deflate.Container.beforeZero_refusal (container : Container) (data : Bytes) :
    (container.refusal data).beforeZero = container.refusal data := by
  unfold refusal
  split
  · exact beforeZero_counted (by decide +kernel) (by decide +kernel) data.size
  · split
    · decide +kernel
    · decide +kernel

theorem framed_of_container {method : Method} {container : Deflate.Container} {payload : Bytes}
    (known : method.container? = some container) (takes : container.Takes payload) :
    SelfFraming method payload (method.tagged (Codec.compress container payload)) := by
  have size := method.size_tagged (Codec.compress container payload)
  have unpack (data : Bytes) : decodeChunk (method.tagged data) = container.inflate data := by
    rw [decodeChunk_tagged, Method.unpack, known]
  have longer (more : Bytes) : decodeChunk (method.tagged (Codec.compress container payload) ++ more) =
      container.inflate (Codec.compress container payload ++ more) := by
    rw [Method.tagged, ByteArray.append_assoc]
    exact unpack _
  have compresses : method ≠ .plain := by
    rintro rfl
    cases known
  refine ⟨?_, fun _ count some short => ?_, fun _ more some counted => ?_, fun _ more beyond => ?_,
    fun plain => absurd plain compresses, fun plain => absurd plain compresses⟩
  · rw [unpack]
    exact Deflate.Container.inflate_deflate (container.deflate_of_takes takes)
  · have cut : Codec.compress container payload =
        (Codec.compress container payload).extract 0 (count - 1) ++
          (Codec.compress container payload).extract (count - 1) (Codec.compress container payload).size := by
      rw [← ByteArray.extract_eq_extract_append_extract _ (by omega) (by omega),
        ByteArray.extract_zero_size]
    have lost : ((Codec.compress container payload).extract (count - 1)
        (Codec.compress container payload).size).size ≠ 0 := by
      rw [ByteArray.size_extract]
      omega
    rw [method.extract_tagged _ some, unpack, Deflate.Container.inflate_front takes cut lost]
    exact ⟨.badStream .truncated, rfl, rfl, rfl⟩
  · have nonempty : more.size ≠ 0 := fun none => some (ByteArray.size_eq_zero_iff.1 none)
    rw [longer, Deflate.Container.inflate_append nonempty (by rw [ByteArray.size_append]; omega)]
    exact ⟨.badStream (.excess more.size), rfl, rfl, message_excess more.size⟩
  · have large : Deflate.maxCount < (Codec.compress container payload ++ more).size := by
      rw [ByteArray.size_append]
      omega
    have counted : (method.tagged (Codec.compress container payload)).size - 1 + more.size =
        (Codec.compress container payload ++ more).size := by
      rw [ByteArray.size_append]
      omega
    rw [longer, Deflate.Container.inflate, if_pos large, counted]
    exact ⟨_, rfl, rfl, message_dataTooLarge _⟩

omit [LawfulCodec] in
theorem framed_plain (payload : Bytes) : SelfFraming .plain payload (Method.plain.tagged payload) := by
  have unpack (data : Bytes) : decodeChunk (Method.plain.tagged data) = .ok data := decodeChunk_tagged _ _
  refine ⟨unpack payload, nofun, nofun, nofun, fun _ count some _ => ?_, fun _ more => ?_⟩
  · rw [Method.extract_tagged .plain payload some, unpack]
  · rw [Method.tagged, ByteArray.append_assoc]
    exact unpack _

/-- A payload is encoded to data that frame themselves exactly if the method takes it, that is if it can be
counted and its stream fits in the room that can be counted; a bound that can be counted is always enough.
A payload that is not taken is refused. -/
theorem encoded_chunk_framed_iff (method : Method) (payload : Bytes) :
    ((∃ data, encodeChunk payload method.tag = .ok data ∧ SelfFraming method payload data) ↔
      method.Takes payload) ∧
    (∀ container, method.container? = some container →
      (payload.size ≤ Deflate.maxCount → Codec.bound container payload.size ≤ Deflate.maxCount →
        method.Takes payload) ∧
      (¬ method.Takes payload →
        FailsWith (encodeChunk payload method.tag) .format (container.refusal payload))) := by
  rw [encodeChunk_tag, Method.pack]
  unfold Method.Takes
  cases known : method.container? with
  | none =>
    have plain : method = .plain := by
      cases method <;> first | rfl | cases known
    subst plain
    exact ⟨⟨fun _ => nofun, fun _ => ⟨_, rfl, framed_plain payload⟩⟩, nofun⟩
  | some container =>
    have only : (∀ other, some container = some other → other.Takes payload) ↔ container.Takes payload :=
      ⟨fun all => all container rfl, fun takes other same => Option.some.inj same ▸ takes⟩
    rw [only]
    dsimp only
    refine ⟨⟨?_, fun takes => ?_⟩, ?_⟩
    · rintro ⟨data, encoded, _⟩
      cases finished : container.deflate payload with
      | ok stream =>
        obtain ⟨counted, rfl, fits⟩ := container.deflate_eq_ok finished
        exact ⟨counted, fits⟩
      | error failure =>
        rw [finished] at encoded
        cases encoded
    · rw [container.deflate_of_takes takes]
      exact ⟨_, rfl, framed_of_container known takes⟩
    · intro other same
      cases same
      refine ⟨container.takes_of_bound, fun refused => ?_⟩
      obtain ⟨failure, failed, format, said⟩ := container.deflate_of_not_takes refused
      rw [failed]
      refine ⟨failure, rfl, format, ?_⟩
      rw [Failure.message, format]
      simp only [said, container.beforeZero_refusal]

end

/-- From this size on the bound is not counted as it is, and of it nothing at all is left. -/
theorem encoded_chunk_framed_iff_zeros :
    (Bytes.zeros 4293656836).size < 4294967296 ∧
    FailsWith (encodeChunk (Bytes.zeros 4293656836) Method.zlib.tag) .format
      "Failed to compress chunk data: buffer error" ∧
    (¬∃ data, encodeChunk (Bytes.zeros 4293656836) Method.zlib.tag = .ok data ∧
      SelfFraming .zlib (Bytes.zeros 4293656836) data) ∧
    ∃ data, encodeChunk (Bytes.zeros 4293656835) Method.zlib.tag = .ok data ∧
      SelfFraming .zlib (Bytes.zeros 4293656835) data := by
  obtain ⟨long_iff, long⟩ := encoded_chunk_framed_iff .zlib (Bytes.zeros 4293656836)
  obtain ⟨shorter_iff, shorter⟩ := encoded_chunk_framed_iff .zlib (Bytes.zeros 4293656835)
  have size := Bytes.size_zeros 4293656836
  have sizeShorter := Bytes.size_zeros 4293656835
  have room : Deflate.Container.room .short (Bytes.zeros 4293656836).size = 0 := by
    rw [size]
    rfl
  have refused : ¬ Method.Takes .zlib (Bytes.zeros 4293656836) := by
    intro takes
    have fits := (takes .short rfl).2
    have some := Deflate.Container.compress_nonempty .short (Bytes.zeros 4293656836)
    omega
  have said : Deflate.Container.refusal .short (Bytes.zeros 4293656836) =
      ("Failed to compress chunk data: buffer error" : String).toUTF8 := by
    rw [Deflate.Container.refusal, if_neg (by rw [size]; decide), if_pos room]
  have taken : Method.Takes .zlib (Bytes.zeros 4293656835) :=
    (shorter .short rfl).1 (by rw [sizeShorter]; decide) (by rw [sizeShorter]; decide)
  exact ⟨by rw [size]; decide, said ▸ (long .short rfl).2 refused, fun framed => refused (long_iff.1 framed),
    shorter_iff.2 taken⟩

end RegionStore
