import RegionStore.Bytes

/-!
Canonical binary codes. A code is the tree of its words; the tree of a list of word lengths is grown
by giving each word, shortest first, the leftmost place that is still free at its depth. A word is
read off the data one bit at a time, so nothing beyond the word is looked at.
-/

set_option autoImplicit false

namespace RegionStore.Deflate

inductive Code where
  | unused
  | symbol (value : Nat)
  | branch (zero one : Code)
  deriving DecidableEq, Inhabited

/-- One word of a code: its length in bits and the symbol it stands for. -/
structure Word where
  length : Nat
  symbol : Nat
  deriving DecidableEq

def maxWordLength : Nat := 15

namespace Code

/-- The subtree at `depth` takes its words from the front of the list and hands back the others. -/
def grow : (levels depth : Nat) → List Word → Code × List Word
  | _, _, [] => (.unused, [])
  | 0, depth, word :: rest =>
    if word.length ≤ depth then (.symbol word.symbol, rest) else (.unused, word :: rest)
  | levels + 1, depth, word :: rest =>
    if word.length ≤ depth then (.symbol word.symbol, rest)
    else
      let (zero, rest) := grow levels (depth + 1) (word :: rest)
      let (one, rest) := grow levels (depth + 1) rest
      (.branch zero one, rest)

/-- The words in use, shorter ones first, equally long ones by symbol. -/
def words (lengths : List Nat) : List Word :=
  let all := lengths.zipIdx.map fun entry => Word.mk entry.1 entry.2
  (List.range' 1 maxWordLength).flatMap fun length => all.filter fun word => word.length == length

/-- The tree of the given lengths, with the words that found no place. Its root always takes a bit,
also when there are no words. -/
def build (lengths : List Nat) : Code × List Word :=
  let (zero, rest) := grow (maxWordLength - 1) 1 (words lengths)
  let (one, rest) := grow (maxWordLength - 1) 1 rest
  (.branch zero one, rest)

def Full : Code → Prop
  | .unused => False
  | .symbol _ => True
  | .branch zero one => zero.Full ∧ one.Full

instance decidableFull : (code : Code) → Decidable code.Full
  | .unused => inferInstanceAs (Decidable False)
  | .symbol _ => inferInstanceAs (Decidable True)
  | .branch zero one =>
    letI := decidableFull zero
    letI := decidableFull one
    inferInstanceAs (Decidable (zero.Full ∧ one.Full))

/-- The code of the given lengths, if every word has a place and every place has a word. -/
def complete? (lengths : List Nat) : Option Code :=
  let (code, excess) := build lengths
  if excess = [] ∧ code.Full then some code else none

/-- As `complete?`, but places may stay empty as long as no word is longer than one bit. -/
def ofLengths? (lengths : List Nat) : Option Code :=
  let (code, excess) := build lengths
  if excess = [] ∧ (code.Full ∨ ∀ length ∈ lengths, length ≤ 1) then some code else none

/-- What reading one word gives: a symbol and the position behind its word, a place without a word,
or the end of the data inside a word. -/
inductive Reading where
  | symbol (value position : Nat)
  | unused
  | truncated

/-- Bits are numbered from the least significant one of the first byte. -/
@[inline] def bitAt (data : Bytes) (position : Nat) : Bool :=
  (data.get (position / 8) >>> (position % 8).toUInt8) &&& 1 == 1

def read (data : Bytes) : Code → (position : Nat) → Reading
  | .unused, _ => .unused
  | .symbol value, position => .symbol value position
  | .branch zero one, position =>
    if position < 8 * data.size then
      if bitAt data position then read data one (position + 1) else read data zero (position + 1)
    else .truncated

end Code
end RegionStore.Deflate
