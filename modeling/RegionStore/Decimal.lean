import RegionStore.Bytes

/-!
Decimal text of integers: the digits without leading zeros, behind a minus sign if the integer is
negative. Reading is more lenient than printing only in that leading zeros do not matter, and it stops
at numbers above a limit; up to the limit, what is printed reads back as the same integer.
-/

set_option autoImplicit false

namespace RegionStore.Decimal

def minus : UInt8 := 0x2D

def digit (value : Nat) : UInt8 := (0x30 + value).toUInt8

def digit? (byte : UInt8) : Option Nat :=
  if 0x30 ≤ byte ∧ byte ≤ 0x39 then some (byte.toNat - 0x30) else none

def digits (value : Nat) : List UInt8 :=
  if value < 10 then [digit value] else digits (value / 10) ++ [digit (value % 10)]

def signed : Int → List UInt8
  | .ofNat value => digits value
  | .negSucc value => minus :: digits (value + 1)

def print (value : Int) : Bytes := Bytes.ofList (signed value)

/-- One more digit behind a number, unless that makes it larger than the limit. -/
def extend? (limit known : Nat) (byte : UInt8) : Option Nat :=
  ((digit? byte).map fun digit => 10 * known + digit).filter (· ≤ limit)

/-- The number that digits stand for if it is not above the limit; no digits stand for none. -/
def natural? (limit : Nat) (text : List UInt8) : Option Nat :=
  if text = [] then none else text.foldlM (extend? limit) 0

def parse? (limit : Nat) : List UInt8 → Option Int
  | [] => none
  | byte :: rest =>
    if byte = minus then (natural? limit rest).map fun value => -(value : Int)
    else (natural? limit (byte :: rest)).map fun value => (value : Int)

theorem digit?_digit {value : Nat} (small : value < 10) : digit? (digit value) = some value := by
  revert value
  decide

theorem digit_ne_minus {value : Nat} (small : value < 10) : digit value ≠ minus := by
  revert value
  decide

theorem digits_ne_nil (value : Nat) : digits value ≠ [] := by
  unfold digits
  split <;> simp

theorem head?_digits_ne_minus (value : Nat) : (digits value).head? ≠ some minus := by
  fun_induction digits value with
  | case1 value small => simpa using digit_ne_minus small
  | case2 value _ ih =>
    cases shape : digits (value / 10) with
    | nil => exact absurd shape (digits_ne_nil _)
    | cons byte rest => simpa [shape] using ih

theorem extend?_digit {limit value : Nat} (within : value ≤ limit) :
    extend? limit (value / 10) (digit (value % 10)) = some value := by
  have small : value % 10 < 10 := Nat.mod_lt _ (by decide)
  have same : 10 * (value / 10) + value % 10 = value := Nat.div_add_mod value 10
  simp [extend?, digit?_digit small, same, within]

theorem foldlM_digits {limit value : Nat} (within : value ≤ limit) :
    (digits value).foldlM (extend? limit) 0 = some value := by
  fun_induction digits value with
  | case1 value small => simp [extend?, digit?_digit small, within]
  | case2 value large ih =>
    rw [List.foldlM_append, ih (by omega)]
    simp [extend?_digit within]

theorem natural?_digits {limit value : Nat} (within : value ≤ limit) :
    natural? limit (digits value) = some value := by
  rw [natural?, if_neg (digits_ne_nil value), foldlM_digits within]

theorem parse?_signed {limit : Nat} {value : Int} (within : value.natAbs ≤ limit) :
    parse? limit (signed value) = some value := by
  cases value with
  | ofNat value =>
    have notMinus := head?_digits_ne_minus value
    have number : natural? limit (digits value) = some value := natural?_digits within
    simp only [signed]
    cases shape : digits value with
    | nil => exact absurd shape (digits_ne_nil value)
    | cons byte rest =>
      rw [shape] at notMinus number
      have : byte ≠ minus := by simpa using notMinus
      simp [parse?, this, number]
  | negSucc value =>
    have number : natural? limit (digits (value + 1)) = some (value + 1) := natural?_digits within
    simp [signed, parse?, number, Int.negSucc_eq]

end RegionStore.Decimal
