import RegionStore.Deflate.Inflate
import RegionStore.Proofs.Bytes

/-!
Reading compressed data that is known. What an action reads depends only on the bytes that it takes, so
a header or a block is read the same way wherever it stands.
-/

set_option autoImplicit false

namespace RegionStore.Deflate.Inflating

/-- On this data and from this progress, the action gives a result and gets on. -/
def Reads {α : Type} (action : Inflating α) (data : Bytes) (before : Progress) (result : α)
    (after : Progress) : Prop := action data before = .ok result after

section
variable {α β : Type} {data : Bytes}

theorem Reads.bind {action : Inflating α} {rest : α → Inflating β} {before between after : Progress}
    {result : α} {value : β} (first : Reads action data before result between)
    (second : Reads (rest result) data between value after) :
    Reads (action >>= rest) data before value after := by
  unfold Reads at first second ⊢
  change EStateM.bind (action data) (fun result => rest result data) before = _
  rw [EStateM.bind, first]
  exact second

theorem reads_get (progress : Progress) :
    Reads (get : Inflating Progress) data progress progress progress := rfl

theorem reads_modify (progress : Progress) (update : Progress → Progress) :
    Reads (modify update : Inflating PUnit) data progress ⟨⟩ (update progress) := rfl

theorem reads_bound (progress : Progress) :
    Reads bound data progress (8 * data.size + 1) progress := rfl

theorem reads_take {progress : Progress} {count : Nat}
    (enough : progress.position + count ≤ 8 * data.size) :
    Reads (take count) data progress (field data progress.position count)
      { progress with position := progress.position + count } := if_pos enough

end

theorem bitAt_toNat (data : Bytes) (position : Nat) :
    (Code.bitAt data position).toNat = (data.get (position / 8)).toNat / 2 ^ (position % 8) % 2 := by
  unfold Code.bitAt
  have small := Nat.mod_lt position (by decide : 0 < 8)
  generalize position % 8 = bit at small
  generalize data.get (position / 8) = byte
  have shift : bit.toUInt8.toNat = bit := Nat.mod_eq_of_lt (by omega)
  have value : (byte >>> bit.toUInt8 &&& 1).toNat = byte.toNat / 2 ^ bit % 2 := by
    rw [UInt8.toNat_and, UInt8.toNat_shiftRight, shift, Nat.mod_eq_of_lt small,
      Nat.shiftRight_eq_div_pow]
    exact Nat.and_one_is_mod _
  rw [← value]
  have two : (byte >>> bit.toUInt8 &&& 1).toNat < 2 := value ▸ Nat.mod_lt _ (by decide)
  rcases Nat.lt_succ_iff_lt_or_eq.1 two with zero | one
  · have bits : byte >>> bit.toUInt8 &&& 1 = 0 := UInt8.toNat_inj.1 (Nat.lt_one_iff.1 zero)
    rw [bits]
    rfl
  · have bits : byte >>> bit.toUInt8 &&& 1 = 1 := UInt8.toNat_inj.1 one
    rw [bits]
    rfl

theorem field_byte (data : Bytes) (start : Nat) {skip count : Nat} (inside : skip + count ≤ 8) :
    field data (8 * start + skip) count = (data.get start).toNat / 2 ^ skip % 2 ^ count := by
  induction count generalizing skip with
  | zero => rw [field, Nat.pow_zero, Nat.mod_one]
  | succ count ih =>
    rw [field, bitAt_toNat, Nat.add_assoc, ih (by omega)]
    have byte : (8 * start + skip) / 8 = start := by omega
    have bit : (8 * start + skip) % 8 = skip := by omega
    rw [byte, bit, Nat.pow_succ, ← Nat.div_div_eq_div_mul, Nat.pow_succ', Nat.mod_mul]

theorem field_whole_byte (data : Bytes) (start : Nat) :
    field data (8 * start) 8 = (data.get start).toNat := by
  have field := field_byte data start (by decide : 0 + 8 ≤ 8)
  rw [Nat.pow_zero, Nat.div_one, Nat.mod_eq_of_lt (data.get start).toNat_lt] at field
  exact field

theorem field_add (data : Bytes) (position count more : Nat) :
    field data position (count + more) =
      field data position count + 2 ^ count * field data (position + count) more := by
  induction count generalizing position with
  | zero => simp [field]
  | succ count ih =>
    rw [Nat.succ_add, field, field, ih (position + 1), Nat.pow_succ', Nat.add_assoc position,
      Nat.add_comm 1, Nat.mul_add, Nat.mul_assoc, Nat.add_assoc]

theorem field_carried {data part : Bytes} {start : Nat} (carries : data.Carries start part)
    {offset count : Nat} (inside : offset + count ≤ 8 * part.size) :
    field data (8 * start + offset) count = field part offset count := by
  induction count generalizing offset with
  | zero => rfl
  | succ count ih =>
    have byte : (8 * start + offset) / 8 = start + offset / 8 := by omega
    have bit : (8 * start + offset) % 8 = offset % 8 := by omega
    rw [field, field, bitAt_toNat, bitAt_toNat, byte, bit, carries.same _ (by omega), Nat.add_assoc,
      ih (by omega)]

theorem field_four_bytes (data : Bytes) (start : Nat) :
    field data (8 * start) 32 = (data.get start).toNat + 256 * ((data.get (start + 1)).toNat +
      256 * ((data.get (start + 2)).toNat + 256 * (data.get (start + 3)).toNat)) := by
  rw [field_add _ _ 8 24, field_add _ _ 8 16, field_add _ _ 8 8, ← field_whole_byte,
    ← field_whole_byte, ← field_whole_byte, ← field_whole_byte]
  rfl

section
variable {data part : Bytes} {start : Nat} (carries : data.Carries start part) (output : Bytes)
include carries

theorem reads_field {offset count : Nat} (inside : offset + count ≤ 8 * part.size) :
    Reads (take count) data ⟨8 * start + offset, output⟩ (field part offset count)
      ⟨8 * start + (offset + count), output⟩ := by
  have within := carries.within
  rw [← field_carried carries inside, ← Nat.add_assoc]
  refine reads_take ?_
  simp only
  omega

theorem reads_takeBytes :
    Reads (takeBytes part.size) data ⟨8 * start, output⟩ part ⟨8 * (start + part.size), output⟩ := by
  have within := carries.within
  have enough : 8 * start + 8 * part.size ≤ 8 * data.size := by omega
  unfold Reads takeBytes
  simp only
  rw [if_pos enough, Nat.mul_div_cancel_left start (by decide), carries.extract, Nat.mul_add]

end

theorem reads_align (data output : Bytes) (start offset : Nat) :
    Reads align data ⟨8 * start + offset, output⟩ ⟨⟩ ⟨8 * (start + (offset + 7) / 8), output⟩ := by
  have position : (8 * start + offset + 7) / 8 * 8 = 8 * (start + (offset + 7) / 8) := by omega
  rw [← position]
  exact reads_modify _ _

end RegionStore.Deflate.Inflating
