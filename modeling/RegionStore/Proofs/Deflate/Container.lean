import RegionStore.Proofs.Deflate.Beginning
import RegionStore.Proofs.Deflate.Plain

/-!
Whatever is put into a container comes out of it again, and the container is not larger than the bound.
So the codec that is run can be relied on.
-/

set_option autoImplicit false

namespace RegionStore.Deflate

open Inflating

theorem Inflating.reads_field_word {data : Bytes} {start : Nat} {word : UInt32}
    (carries : data.Carries start (Bytes.ofWordReversed word)) (output : Bytes) :
    Reads (take 32) data ⟨8 * start, output⟩ word.toNat ⟨8 * (start + 4), output⟩ := by
  have whole : 0 + 32 ≤ 8 * 4 := by decide
  have read := reads_field carries output whole
  have value : field (Bytes.ofWordReversed word) 0 32 = word.toNat := by
    refine (field_four_bytes _ 0).trans ?_
    change word.toUInt8.toNat + 256 * ((word >>> 8).toUInt8.toNat + 256 *
      ((word >>> 16).toUInt8.toNat + 256 * (word >>> 24).toUInt8.toNat)) = _
    have shift (count : UInt32) (small : count.toNat < 32) :
        (word >>> count).toUInt8.toNat = word.toNat / 2 ^ count.toNat % 256 := by
      rw [UInt32.toNat_toUInt8, UInt32.toNat_shiftRight, Nat.mod_eq_of_lt small,
        Nat.shiftRight_eq_div_pow]
    have bounded := word.toNat_lt
    rw [shift 8 (by decide), shift 16 (by decide), shift 24 (by decide), UInt32.toNat_toUInt8]
    change word.toNat % 256 + 256 * (word.toNat / 2 ^ 8 % 256 + 256 * (word.toNat / 2 ^ 16 % 256 +
      256 * (word.toNat / 2 ^ 24 % 256))) = _
    omega
  rw [value] at read
  exact read

namespace Container

theorem reads_header (container : Container) {data : Bytes}
    (carries : data.Carries 0 container.headerBytes) (output : Bytes) :
    Reads container.header data ⟨0, output⟩ ⟨⟩ ⟨8 * container.headerBytes.size, output⟩ := by
  cases container with
  | short =>
    have word := reads_field carries output
      (show 0 + 16 ≤ 8 * (headerBytes .short).size from by decide)
    have value : field (headerBytes .short) 0 16 = 40056 := by decide
    rw [value] at word
    exact word.bind rfl
  | long =>
    have size : (headerBytes .long).size = 10 := rfl
    have magic := reads_field carries output (show 0 + 16 ≤ 8 * (headerBytes .long).size by decide)
    have method := reads_field carries output (show 16 + 16 ≤ 8 * (headerBytes .long).size by decide)
    have time := reads_field carries output (show 32 + 32 ≤ 8 * (headerBytes .long).size by decide)
    have level := reads_field carries output (show 64 + 16 ≤ 8 * (headerBytes .long).size by decide)
    have valueMagic : field (headerBytes .long) 0 16 = 0x8B1F := by decide
    have valueMethod : field (headerBytes .long) 16 16 = 8 := by decide
    rw [valueMagic] at magic
    rw [valueMethod] at method
    exact magic.bind (method.bind (time.bind (level.bind rfl)))

theorem reads_trailer (container : Container) {data output : Bytes} {start : Nat}
    (carries : data.Carries start (container.trailerBytes output)) :
    Reads container.trailer data ⟨8 * start, output⟩ ⟨⟩
      ⟨8 * (start + (container.trailerBytes output).size), output⟩ := by
  cases container with
  | short =>
    have bytes := reads_takeBytes carries output
    have same : (trailerBytes output .short).toWord 0 = adler32 output := Bytes.toWord_ofWord _
    refine bytes.bind ((reads_get _).bind ?_)
    rw [if_neg (Decidable.not_not.2 same)]
    rfl
  | long =>
    have checksum := reads_field_word carries.front output
    have length := reads_field_word carries.back output
    refine checksum.bind ((reads_get _).bind ?_)
    rw [if_neg (Decidable.not_not.2 rfl)]
    have low : output.size.toUInt32.toNat = output.size % 4294967296 := rfl
    refine length.bind ((reads_get _).bind ?_)
    rw [if_neg (Decidable.not_not.2 low)]
    rfl

theorem reads_stored (data : Bytes) :
    (stored data).size ≤ data.size + 5 * (data.size / maxStored + 1) ∧
      ∀ input place output fuel, input.Carries place (stored data) → (stored data).size ≤ fuel →
        Reads (blocks fuel) input ⟨8 * place, output⟩ ⟨⟩
          ⟨8 * (place + (stored data).size), output ++ data⟩ := by
  have enough : data.size - 0 ≤ (data.size / maxStored + 1) * maxStored := by
    rw [maxStored]
    omega
  obtain ⟨tail, written, short, reads⟩ := reads_putStored data (data.size / maxStored) ByteArray.empty enough
  have blocks : stored data = tail := by
    unfold stored Sink.empty
    rw [written, Sink.align, if_pos rfl, ByteArray.empty_append]
  rw [ByteArray.extract_zero_size] at reads
  rw [blocks]
  exact ⟨short, reads⟩

theorem expand_stored (container : Container) (data : Bytes) :
    container.expand (container.wrap (stored data) data) = ⟨data, .ok 0⟩ := by
  have reads := (reads_stored data).2
  have whole := Bytes.Carries.refl (container.wrap (stored data) data)
  unfold wrap at whole ⊢
  generalize stored data = tail at *
  have front := whole.front
  have body := front.back
  have trailer := whole.back
  rw [Nat.zero_add] at body trailer
  have head := container.reads_header front.front ByteArray.empty
  generalize input : container.headerBytes ++ tail ++ container.trailerBytes data = bytes at *
  have fuel : tail.size ≤ 8 * bytes.size + 1 := by
    have within := body.within
    omega
  have middle := reads bytes _ ByteArray.empty _ body fuel
  rw [ByteArray.empty_append] at middle
  rw [ByteArray.size_append] at trailer
  have stream : Reads Inflating.stream bytes ⟨8 * container.headerBytes.size, ByteArray.empty⟩ ⟨⟩
      ⟨8 * (container.headerBytes.size + tail.size), data⟩ :=
    (reads_bound _).bind (middle.bind (reads_align bytes data (container.headerBytes.size + tail.size) 0))
  have all : Reads container.content bytes ⟨0, ByteArray.empty⟩ ⟨⟩ ⟨8 * bytes.size, data⟩ := by
    rw [← input, ByteArray.size_append, ByteArray.size_append, input]
    exact head.bind (stream.bind (container.reads_trailer trailer))
  unfold Reads at all
  unfold expand
  rw [all]
  simp only
  rw [Nat.mul_div_cancel_left _ (by decide), Nat.sub_self]

/-- Compressed data are tried out before they are given away, and plain blocks do not fail. -/
theorem expand_encode (container : Container) (data : Bytes) :
    container.expand (container.encode data) = ⟨data, .ok 0⟩ := by
  unfold encode
  simp only
  split
  · next back expanded =>
    split
    · next fine => rw [expanded, fine.1]
    · exact expand_stored container data
  · exact expand_stored container data

theorem size_wrap_stored_le (container : Container) (data : Bytes) :
    (container.wrap (stored data) data).size ≤ container.streamBound data.size := by
  have blocks := (reads_stored data).1
  have frame : container.headerBytes.size + (container.trailerBytes data).size = container.frameSize := by
    cases container <;> rfl
  rw [maxStored] at blocks
  unfold streamBound
  rw [wrap, ByteArray.size_append, ByteArray.size_append, ← frame]
  omega

theorem size_encode_le (container : Container) (data : Bytes) :
    (container.encode data).size ≤ container.streamBound data.size := by
  unfold encode
  simp only
  split
  · split
    · next fine => exact fine.2
    · exact container.size_wrap_stored_le data
  · exact container.size_wrap_stored_le data

end Container

instance : LawfulCodec where
  size_compress_le := Container.size_encode_le
  expand_compress := Container.expand_encode
  expand_append := Container.expand_append

end RegionStore.Deflate
