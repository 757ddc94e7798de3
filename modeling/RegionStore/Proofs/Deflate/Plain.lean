import RegionStore.Deflate.Compress
import RegionStore.Proofs.Deflate.Reading

/-!
Data in plain blocks, as they are written and as they are read back. Compression falls back to them if
its own blocks do not come back the same, so with them every container gives back its data.
-/

set_option autoImplicit false

namespace RegionStore.Deflate

open Inflating

def plainHead (final : Bool) (size : Nat) : Bytes :=
  ⟨#[final.toNat.toUInt8, size.toUInt8, (size / 256).toUInt8, (maxStored - size).toUInt8,
    ((maxStored - size) / 256).toUInt8]⟩

theorem Sink.put_sixteen (bytes : Bytes) {value : Nat} (small : value ≤ maxStored) :
    Sink.put ⟨bytes, 0, 0⟩ value 16 =
      ⟨(bytes.push value.toUInt8).push (value / 256).toUInt8, 0, 0⟩ := by
  rw [maxStored] at small
  have held : (0 : UInt64) ||| value.toUInt64 <<< 0 = value.toUInt64 := by simp
  have count : (0 : UInt64) + (16 : Nat).toUInt64 = 16 := rfl
  have word : value.toUInt64.toNat = value := Nat.mod_eq_of_lt (by omega)
  have first : value.toUInt64.toUInt8 = value.toUInt8 := by
    apply UInt8.toNat_inj.1
    rw [UInt64.toNat_toUInt8, word]
    rfl
  have rest : (value.toUInt64 >>> 8).toNat = value / 256 := by
    rw [UInt64.toNat_shiftRight, word]
    exact Nat.shiftRight_eq_div_pow value 8
  have second : (value.toUInt64 >>> 8).toUInt8 = (value / 256).toUInt8 := by
    apply UInt8.toNat_inj.1
    rw [UInt64.toNat_toUInt8, rest]
    rfl
  have nothing : value.toUInt64 >>> 8 >>> 8 = 0 := by
    apply UInt64.toNat_inj.1
    rw [UInt64.toNat_shiftRight, rest]
    exact (Nat.shiftRight_eq_div_pow (value / 256) 8).trans (Nat.div_eq_of_lt (by omega))
  rw [Sink.put]
  simp only [held, count, Sink.drain]
  rw [if_neg (by decide), if_neg (by decide), if_pos (by decide), first, second, nothing]
  rfl

theorem Sink.put_head (bytes : Bytes) (final : Bool) :
    (Sink.put ⟨bytes, 0, 0⟩ final.toNat 3).align = ⟨bytes.push final.toNat.toUInt8, 0, 0⟩ := by
  have held : (0 : UInt64) ||| final.toNat.toUInt64 <<< 0 = final.toNat.toUInt64 := by simp
  have count : (0 : UInt64) + (3 : Nat).toUInt64 = 3 := rfl
  have byte : final.toNat.toUInt64.toUInt8 = final.toNat.toUInt8 := by cases final <;> rfl
  rw [Sink.put]
  simp only [held, count, Sink.drain]
  rw [if_pos (by decide), Sink.align]
  simp only
  rw [if_neg (by decide), byte]

theorem putStoredBlock_eq (bytes data : Bytes) (final : Bool) (small : data.size ≤ maxStored) :
    putStoredBlock ⟨bytes, 0, 0⟩ data final =
      ⟨bytes ++ (plainHead final data.size ++ data), 0, 0⟩ := by
  have head (bytes : Bytes) (a b c d e : UInt8) :
      ((((bytes.push a).push b).push c).push d).push e = bytes ++ ⟨#[a, b, c, d, e]⟩ := by
    obtain ⟨array⟩ := bytes
    apply ByteArray.ext
    apply Array.toList_inj.1
    change (((((array.push a).push b).push c).push d).push e).toList = (ByteArray.mk array ++ _).data.toList
    simp
  unfold putStoredBlock
  simp only [Sink.put_head, Sink.put_sixteen _ small, Sink.put_sixteen _ (Nat.sub_le maxStored data.size)]
  rw [Sink.putBytes, Sink.align, if_pos rfl, ← ByteArray.append_assoc]
  simp only
  rw [head]
  rfl

theorem size_plainHead (final : Bool) (size : Nat) : (plainHead final size).size = 5 := rfl

theorem field_plainHead (final : Bool) {size : Nat} (small : size ≤ maxStored) :
    field (plainHead final size) 0 3 = final.toNat ∧
      field (plainHead final size) 8 32 = size + 65536 * (maxStored - size) := by
  have byte (value : Nat) : value.toUInt8.toNat = value % 256 := rfl
  rw [maxStored] at small
  constructor
  · have field := field_byte (plainHead final size) 0 (by decide : 0 + 3 ≤ 8)
    have head : (plainHead final size).get 0 = final.toNat.toUInt8 := rfl
    rw [head] at field
    refine field.trans ?_
    cases final <;> rfl
  · have bytes := field_four_bytes (plainHead final size) 1
    refine bytes.trans ?_
    change size.toUInt8.toNat + 256 * ((size / 256).toUInt8.toNat + 256 *
      ((maxStored - size).toUInt8.toNat + 256 * ((maxStored - size) / 256).toUInt8.toNat)) = _
    simp only [byte, maxStored]
    omega

section
variable {data part : Bytes} {start : Nat} {final : Bool} (small : part.size ≤ maxStored)
  (carries : data.Carries start (plainHead final part.size ++ part)) (output : Bytes)
include small carries

theorem reads_storedBlock :
    Reads storedBlock data ⟨8 * start + 3, output⟩ ⟨⟩
      ⟨8 * (start + (5 + part.size)), output ++ part⟩ := by
  have lengths := reads_field carries.front output
    (show 8 + 32 ≤ 8 * (plainHead final part.size).size from Nat.le_refl 40)
  rw [(field_plainHead final small).2] at lengths
  have bytes := reads_takeBytes carries.back output
  have length : (part.size + 65536 * (maxStored - part.size)) % 65536 = part.size := by
    rw [maxStored] at small
    omega
  have complement : part.size + (part.size + 65536 * (maxStored - part.size)) / 65536 = 65535 := by
    rw [maxStored] at small ⊢
    omega
  unfold storedBlock
  refine (reads_align data output start 3).bind (lengths.bind ?_)
  simp only [length, complement, if_true]
  refine bytes.bind ?_
  rw [Nat.add_assoc]
  exact reads_modify _ _

theorem reads_plainBlock (bound : Nat) {after : Progress}
    (others : final = false →
      Reads (blocks bound) data ⟨8 * (start + (5 + part.size)), output ++ part⟩ ⟨⟩ after)
    (last : final = true → after = ⟨8 * (start + (5 + part.size)), output ++ part⟩) :
    Reads (blocks (bound + 1)) data ⟨8 * start, output⟩ ⟨⟩ after := by
  have head := reads_field carries.front output
    (show 0 + 3 ≤ 8 * (plainHead final part.size).size by rw [size_plainHead]; decide)
  rw [(field_plainHead final small).1] at head
  have block := reads_storedBlock small carries output
  unfold blocks
  refine head.bind ?_
  cases final with
  | true => exact block.bind (last rfl ▸ rfl)
  | false => exact block.bind (others rfl)

end

/-- Plain blocks from `start` to the end of the data are read back as these data. Each of them takes five
bytes more than it holds. -/
theorem reads_putStored (data : Bytes) (bound : Nat) {start : Nat} (bytes : Bytes)
    (enough : data.size - start ≤ (bound + 1) * maxStored) :
    ∃ tail, putStored data data.size true bound start ⟨bytes, 0, 0⟩ = ⟨bytes ++ tail, 0, 0⟩ ∧
      tail.size ≤ (data.size - start) + 5 * ((data.size - start) / maxStored + 1) ∧
      ∀ input place output fuel, input.Carries place tail → tail.size ≤ fuel →
        Reads (blocks fuel) input ⟨8 * place, output⟩ ⟨⟩
          ⟨8 * (place + tail.size), output ++ data.extract start data.size⟩ := by
  have whole {start : Nat} (bytes : Bytes) (short : data.size - start ≤ maxStored) :
      ∃ tail, putStoredBlock ⟨bytes, 0, 0⟩ (data.extract start data.size) true =
          ⟨bytes ++ tail, 0, 0⟩ ∧
        tail.size ≤ (data.size - start) + 5 * ((data.size - start) / maxStored + 1) ∧
        ∀ input place output fuel, input.Carries place tail → tail.size ≤ fuel →
          Reads (blocks fuel) input ⟨8 * place, output⟩ ⟨⟩
            ⟨8 * (place + tail.size), output ++ data.extract start data.size⟩ := by
    have small : (data.extract start data.size).size ≤ maxStored := by
      rw [ByteArray.size_extract]
      omega
    refine ⟨_, putStoredBlock_eq bytes _ true small, ?_, fun input place output fuel carries fuels => ?_⟩
    · have one := Nat.zero_le ((data.size - start) / maxStored)
      rw [ByteArray.size_append, size_plainHead, ByteArray.size_extract]
      omega
    rw [ByteArray.size_append, size_plainHead] at fuels ⊢
    obtain ⟨fuel, rfl⟩ : ∃ less, fuel = less + 1 := ⟨fuel - 1, by omega⟩
    exact reads_plainBlock small carries output fuel nofun fun _ => rfl
  induction bound generalizing start bytes with
  | zero =>
    rw [putStored]
    exact whole bytes (by omega)
  | succ bound ih =>
    rw [putStored]
    split
    · next short => exact whole bytes short
    · next long =>
      have size : (data.extract start (start + maxStored)).size = maxStored := by
        rw [ByteArray.size_extract]
        omega
      have small := Nat.le_of_eq size
      have fewer : data.size - (start + maxStored) ≤ (bound + 1) * maxStored := by
        rw [Nat.succ_mul] at enough
        omega
      obtain ⟨tail, written, short, reads⟩ := ih
        (bytes ++ (plainHead false (data.extract start (start + maxStored)).size ++
          data.extract start (start + maxStored))) fewer
      rw [putStoredBlock_eq bytes _ false small, written, ByteArray.append_assoc]
      have sizeBlock := size_plainHead false (data.extract start (start + maxStored)).size
      have blocks : (data.size - start) / maxStored = (data.size - (start + maxStored)) / maxStored + 1 := by
        rw [← Nat.add_div_right _ (by decide : 0 < maxStored)]
        congr 1
        omega
      refine ⟨_, rfl, ?_, fun input place output fuel carries fuels => ?_⟩
      · rw [ByteArray.size_append, ByteArray.size_append, sizeBlock, size, blocks]
        omega
      rw [ByteArray.size_append, ByteArray.size_append, sizeBlock] at fuels ⊢
      obtain ⟨fuel, rfl⟩ : ∃ less, fuel = less + 1 := ⟨fuel - 1, by omega⟩
      have more := carries.back
      rw [ByteArray.size_append, sizeBlock] at more
      have joined : data.extract start (start + maxStored) ++ data.extract (start + maxStored) data.size =
          data.extract start data.size :=
        (ByteArray.extract_eq_extract_append_extract (start + maxStored) (by omega) (by omega)).symm
      refine reads_plainBlock small carries.front output fuel (fun _ => ?_) nofun
      have rest := reads input _ (output ++ data.extract start (start + maxStored)) fuel more (by omega)
      rw [ByteArray.append_assoc, joined, Nat.add_assoc] at rest
      exact rest

end RegionStore.Deflate
