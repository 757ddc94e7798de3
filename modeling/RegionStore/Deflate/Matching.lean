import RegionStore.Bytes
import RegionStore.Deflate.Alphabet

/-!
Splits data into single bytes and copies of earlier data. Positions are chained by a hash of the
three bytes found there, newest first, and the longest match among the newest few is taken.
-/

set_option autoImplicit false

namespace RegionStore.Deflate

inductive Token where
  | literal (byte : UInt8)
  | copy (length distance : Nat)
  deriving DecidableEq, Inhabited

def Token.size : Token → Nat
  | .literal _ => 1
  | .copy length _ => length

namespace Matching

def chainCount : Nat := 32768

def effort : Nat := 48

/-- Chains of positions with the same hash. Positions are kept increased by one, zero ends a chain. -/
structure Chains where
  newest : Array Nat
  earlier : Array Nat

def Chains.empty : Chains := ⟨Array.replicate chainCount 0, Array.replicate maxDistance 0⟩

@[inline] def hashAt (data : Bytes) (position : Nat) : Nat :=
  let a := (data.get position).toUInt32
  let b := (data.get (position + 1)).toUInt32
  let c := (data.get (position + 2)).toUInt32
  ((a <<< 10 ^^^ b <<< 5 ^^^ c) &&& 32767).toNat

def Chains.note (chains : Chains) (data : Bytes) (position : Nat) : Chains :=
  let hash := hashAt data position
  let previous := chains.newest.getD hash 0
  ⟨chains.newest.setIfInBounds hash (position + 1),
    chains.earlier.setIfInBounds (position % maxDistance) previous⟩

def Chains.noteAll (data : Bytes) (position : Nat) : (count : Nat) → Chains → Chains
  | 0, chains => chains
  | count + 1, chains => noteAll data (position + 1) count (chains.note data position)

/-- How many bytes, at most `limit`, are the same from both positions on. -/
def commonLength (data : Bytes) (earlier position : Nat) : (limit : Nat) → Nat → Nat
  | 0, known => known
  | limit + 1, known =>
    if data.get (earlier + known) == data.get (position + known) then
      commonLength data earlier position limit (known + 1)
    else known

/-- The longest match along a chain as length and distance, the nearest one among equally long ones. -/
def longest (data : Bytes) (position limit : Nat) (chains : Chains) :
    (tries candidate : Nat) → (length distance : Nat) → Nat × Nat
  | 0, _, length, distance => (length, distance)
  | tries + 1, candidate, length, distance =>
    if candidate = 0 ∨ position + 1 - candidate > maxDistance ∨ length ≥ limit then (length, distance)
    else
      let earlier := candidate - 1
      let next := chains.earlier.getD (earlier % maxDistance) 0
      let next := if next < candidate then next else 0
      if data.get (earlier + length) == data.get (position + length) then
        let found := commonLength data earlier position limit 0
        if found > length then
          longest data position limit chains tries next found (position - earlier)
        else longest data position limit chains tries next length distance
      else longest data position limit chains tries next length distance

def split (data : Bytes) : (bound position : Nat) → Chains → Array Token → Array Token
  | 0, _, _, tokens => tokens
  | bound + 1, position, chains, tokens =>
    if position < data.size then
      let limit := min maxLength (data.size - position)
      let candidate := chains.newest.getD (hashAt data position) 0
      let (length, distance) := longest data position limit chains effort candidate 0 0
      if length < minLength then
        split data bound (position + 1) (chains.note data position)
          (tokens.push (.literal (data.get position)))
      else
        split data bound (position + length) (Chains.noteAll data position length chains)
          (tokens.push (.copy length distance))
    else tokens

end Matching

def tokens (data : Bytes) : Array Token :=
  Matching.split data data.size 0 Matching.Chains.empty #[]

end RegionStore.Deflate
