import Mathlib.Data.Nat.Digits.Defs
import RegionStore.Decimal

/-!
Decimal texts and the integers they denote. Reading gives an integer exactly for the texts of that
integer, up to a limit, so the limit is the only thing that reading adds to the grammar.
-/

set_option autoImplicit false

namespace RegionStore.Decimal

def IsDigit (byte : UInt8) : Prop := 0x30 ≤ byte ∧ byte ≤ 0x39

def number (text : List UInt8) : Nat :=
  Nat.ofDigits 10 (text.reverse.map fun byte => byte.toNat - 0x30)

/-- A text of an integer: one or more digits, with a minus sign in front if there is one, and nothing
else. Zeros in front do not matter. -/
inductive Denotes : List UInt8 → Int → Prop where
  | digits {text : List UInt8} (some : text ≠ []) (all : ∀ byte ∈ text, IsDigit byte) :
    Denotes text (number text)
  | minus {text : List UInt8} (some : text ≠ []) (all : ∀ byte ∈ text, IsDigit byte) :
    Denotes (minus :: text) (-(number text : Int))

@[simp] theorem number_nil : number [] = 0 := rfl

theorem number_cons (byte : UInt8) (rest : List UInt8) :
    number (byte :: rest) = (byte.toNat - 0x30) * 10 ^ rest.length + number rest := by
  simp only [number, List.reverse_cons, List.map_append, List.map_cons, List.map_nil,
    Nat.ofDigits_append, Nat.ofDigits_singleton, List.length_map, List.length_reverse]
  rw [Nat.mul_comm, Nat.add_comm]

theorem not_isDigit_minus : ¬ IsDigit minus := by
  unfold IsDigit
  decide

theorem digit?_eq_some_iff {byte : UInt8} {value : Nat} :
    digit? byte = some value ↔ IsDigit byte ∧ byte.toNat - 0x30 = value := by
  unfold digit? IsDigit
  split
  · next isDigit => simp [isDigit]
  · next other => simp [other]

theorem extend?_eq_some_iff {limit known value : Nat} {byte : UInt8} :
    extend? limit known byte = some value ↔
      IsDigit byte ∧ 10 * known + (byte.toNat - 0x30) = value ∧ value ≤ limit := by
  unfold extend?
  simp only [Option.filter_eq_some_iff, Option.map_eq_some_iff, digit?_eq_some_iff, decide_eq_true_eq]
  constructor
  · rintro ⟨⟨_, ⟨isDigit, rfl⟩, rfl⟩, small⟩
    exact ⟨isDigit, rfl, small⟩
  · rintro ⟨isDigit, rfl, small⟩
    exact ⟨⟨_, ⟨isDigit, rfl⟩, rfl⟩, small⟩

/-- The number so far never exceeds the one at the end, so stopping at the limit loses nothing. -/
theorem foldlM_extend?_eq_some_iff {limit known value : Nat} {text : List UInt8} (within : known ≤ limit) :
    text.foldlM (extend? limit) known = some value ↔
      (∀ byte ∈ text, IsDigit byte) ∧ known * 10 ^ text.length + number text = value ∧ value ≤ limit := by
  induction text generalizing known with
  | nil =>
    simp only [List.foldlM_nil, List.length_nil, pow_zero, Nat.mul_one, number_nil, Nat.add_zero]
    constructor
    · rintro ⟨⟩
      exact ⟨nofun, rfl, within⟩
    · rintro ⟨_, rfl, _⟩
      rfl
  | cons byte rest ih =>
    have moved : (10 * known + (byte.toNat - 0x30)) * 10 ^ rest.length + number rest =
        known * 10 ^ (byte :: rest).length + number (byte :: rest) := by
      rw [number_cons, List.length_cons]
      ring
    rw [List.foldlM_cons, Option.bind_eq_bind, Option.bind_eq_some_iff, List.forall_mem_cons]
    constructor
    · rintro ⟨next, found, later⟩
      obtain ⟨isDigit, rfl, small⟩ := extend?_eq_some_iff.1 found
      obtain ⟨all, same, inside⟩ := (ih small).1 later
      exact ⟨⟨isDigit, all⟩, moved.symm.trans same, inside⟩
    · rintro ⟨⟨isDigit, all⟩, same, inside⟩
      have reached := moved.trans same
      have small : 10 * known + (byte.toNat - 0x30) ≤ limit := by
        have shifted := Nat.le_mul_of_pos_right (10 * known + (byte.toNat - 0x30))
          (Nat.pow_pos (n := rest.length) (show 0 < 10 by decide))
        omega
      exact ⟨_, extend?_eq_some_iff.2 ⟨isDigit, rfl, small⟩, (ih small).2 ⟨all, reached, inside⟩⟩

theorem natural?_eq_some_iff {limit value : Nat} {text : List UInt8} :
    natural? limit text = some value ↔
      text ≠ [] ∧ (∀ byte ∈ text, IsDigit byte) ∧ number text = value ∧ value ≤ limit := by
  unfold natural?
  split
  · next none => simp [none]
  · next some =>
    rw [foldlM_extend?_eq_some_iff (Nat.zero_le limit), Nat.zero_mul, Nat.zero_add]
    simp [some]

theorem parse?_minus (limit : Nat) (rest : List UInt8) :
    parse? limit (minus :: rest) = (natural? limit rest).map fun size : Nat => -(size : Int) := by
  rw [parse?, if_pos rfl]
  cases natural? limit rest <;> rfl

theorem parse?_plain {byte : UInt8} (plain : byte ≠ minus) (limit : Nat) (rest : List UInt8) :
    parse? limit (byte :: rest) = (natural? limit (byte :: rest)).map fun size : Nat => (size : Int) := by
  rw [parse?, if_neg plain]
  cases natural? limit (byte :: rest) <;> rfl

theorem parse?_eq_some_iff {limit : Nat} {text : List UInt8} {value : Int} :
    parse? limit text = some value ↔ Denotes text value ∧ value.natAbs ≤ limit := by
  constructor
  · intro read
    cases text with
    | nil => cases read
    | cons byte rest =>
      by_cases isMinus : byte = minus
      · subst isMinus
        rw [parse?_minus] at read
        obtain ⟨size, found, rfl⟩ := Option.map_eq_some_iff.1 read
        obtain ⟨some, all, rfl, inside⟩ := natural?_eq_some_iff.1 found
        refine ⟨.minus some all, ?_⟩
        rwa [Int.natAbs_neg, Int.natAbs_natCast]
      · rw [parse?_plain isMinus] at read
        obtain ⟨size, found, rfl⟩ := Option.map_eq_some_iff.1 read
        obtain ⟨some, all, rfl, inside⟩ := natural?_eq_some_iff.1 found
        refine ⟨.digits some all, ?_⟩
        rwa [Int.natAbs_natCast]
  · rintro ⟨denotes, inside⟩
    cases denotes with
    | digits some all =>
      rw [Int.natAbs_natCast] at inside
      have found := natural?_eq_some_iff.2 ⟨some, all, rfl, inside⟩
      cases text with
      | nil => exact absurd rfl some
      | cons byte rest =>
        have plain : byte ≠ minus := by
          rintro rfl
          exact not_isDigit_minus (all minus List.mem_cons_self)
        rw [parse?_plain plain, found, Option.map_some]
    | minus some all =>
      rw [Int.natAbs_neg, Int.natAbs_natCast] at inside
      rw [parse?_minus, natural?_eq_some_iff.2 ⟨some, all, rfl, inside⟩, Option.map_some]

theorem denotes_signed (value : Int) : Denotes (signed value) value :=
  (parse?_eq_some_iff.1 (parse?_signed (Nat.le_refl value.natAbs))).1

end RegionStore.Decimal
