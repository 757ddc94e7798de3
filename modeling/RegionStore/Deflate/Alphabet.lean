/-!
The two alphabets of a compressed block. Symbols below 256 are bytes, 256 ends the block, 257 to 285
are lengths of copies; distances have an alphabet of their own. A length or distance is a base named
by its symbol plus a few extra bits, and the bases grow by powers of two.
-/

set_option autoImplicit false

namespace RegionStore.Deflate

/-- A range of values behind one symbol: the least one, and how many bits pick one. -/
structure Interval where
  base : Nat
  extraBits : Nat
  deriving DecidableEq

def endOfBlock : Nat := 256

def literalCount : Nat := 286

def distanceCount : Nat := 30

def maxDistance : Nat := 32768

def maxLength : Nat := 258

def minLength : Nat := 3

/-- Lengths behind the `index`-th length symbol; the last one is the maximal length alone. -/
def lengthInterval (index : Nat) : Interval :=
  if index < 8 then ⟨index + minLength, 0⟩
  else if index = 28 then ⟨maxLength, 0⟩
  else ⟨((4 + index % 4) <<< (index / 4 - 1)) + minLength, index / 4 - 1⟩

def distanceInterval (symbol : Nat) : Interval :=
  if symbol < 4 then ⟨symbol + 1, 0⟩
  else ⟨((2 + symbol % 2) <<< (symbol / 2 - 1)) + 1, symbol / 2 - 1⟩

def lengthIndex (length : Nat) : Nat :=
  let offset := length - minLength
  if offset < 8 then offset
  else if length = maxLength then 28
  else
    let magnitude := offset.log2
    4 * (magnitude - 1) + (offset >>> (magnitude - 2)) % 4

def distanceSymbol (distance : Nat) : Nat :=
  let offset := distance - 1
  if offset < 4 then offset
  else
    let magnitude := offset.log2
    2 * magnitude + (offset >>> (magnitude - 1)) % 2

def fixedLiteralLengths : List Nat :=
  List.replicate 144 8 ++ List.replicate 112 9 ++ List.replicate 24 7 ++ List.replicate 8 8

def fixedDistanceLengths : List Nat := List.replicate 32 5

/-- The order in which a block lists the word lengths of the code that its own codes are written in. -/
def lengthOrder : List Nat := [16, 17, 18, 0, 8, 7, 9, 6, 10, 5, 11, 4, 12, 3, 13, 2, 14, 1, 15]

end RegionStore.Deflate
