import RegionStore.Bytes
import RegionStore.Codec
import RegionStore.Deflate.Code
import RegionStore.Deflate.Alphabet

/-!
Decompression. The input is read in order through `take`, `takeBytes` and `word`, which fail with
`truncated` as soon as a bit is missing and never look further than asked. A check is made only when
all bits of the checked item have been read, so what is decided from a beginning of the data stays
decided when more data follows.
-/

set_option autoImplicit false

namespace RegionStore.Deflate

/-- How far the input has been read, in bits, and what it has given so far. -/
structure Progress where
  position : Nat
  output : Bytes

abbrev Inflating := ReaderT Bytes (EStateM Flaw Progress)

namespace Inflating

@[inline] def fail {α : Type} (defect : Defect) : Inflating α := throw (.corrupted defect)

/-- The number whose `count` bits start at `position`, least significant first. -/
def field (data : Bytes) (position : Nat) : (count : Nat) → Nat
  | 0 => 0
  | count + 1 => (Code.bitAt data position).toNat + 2 * field data (position + 1) count

def take (count : Nat) : Inflating Nat := fun data progress =>
  if progress.position + count ≤ 8 * data.size then
    .ok (field data progress.position count) { progress with position := progress.position + count }
  else .error .truncated progress

def align : Inflating Unit :=
  modify fun progress => { progress with position := (progress.position + 7) / 8 * 8 }

def takeBytes (count : Nat) : Inflating Bytes := fun data progress =>
  if progress.position + 8 * count ≤ 8 * data.size then
    let start := progress.position / 8
    .ok (data.extract start (start + count))
      { progress with position := progress.position + 8 * count }
  else .error .truncated progress

/-- The symbol of one word; a place of the code without a word is the given defect. -/
def word (code : Code) (absent : Defect) : Inflating Nat := fun data progress =>
  match code.read data progress.position with
  | .symbol value position => .ok value { progress with position := position }
  | .unused => .error (.corrupted absent) progress
  | .truncated => .error .truncated progress

@[inline] def emit (byte : UInt8) : Inflating Unit :=
  modify fun progress => { progress with output := progress.output.push byte }

/-- Copies byte by byte, so a copy longer than its distance repeats itself. -/
def copyBack (distance : Nat) : (length : Nat) → Bytes → Bytes
  | 0, output => output
  | length + 1, output =>
    copyBack distance length (output.push (output.get (output.size - distance)))

/-- Bounds the number of items in the data: each takes at least one bit. -/
def bound : Inflating Nat := do return 8 * (← read).size + 1

def storedBlock : Inflating Unit := do
  align
  let lengths ← take 32
  let length := lengths % 65536
  if length + lengths / 65536 = 65535 then
    let bytes ← takeBytes length
    modify fun progress => { progress with output := progress.output ++ bytes }
  else fail .storedLengths

def copy (index : Nat) (distances : Code) : Inflating Unit := do
  let lengths := lengthInterval index
  let length := lengths.base + (← take lengths.extraBits)
  let symbol ← word distances .distanceWord
  if symbol < distanceCount then
    let interval := distanceInterval symbol
    let distance := interval.base + (← take interval.extraBits)
    if distance ≤ (← get).output.size then
      modify fun progress => { progress with output := copyBack distance length progress.output }
    else fail .farDistance
  else fail .distanceWord

def symbols (literals distances : Code) : Nat → Inflating Unit
  | 0 => throw .truncated
  | bound + 1 => do
    let symbol ← word literals .literalWord
    if symbol < endOfBlock then
      emit symbol.toUInt8
      symbols literals distances bound
    else if symbol = endOfBlock then pure ()
    else if symbol < literalCount then
      copy (symbol - (endOfBlock + 1)) distances
      symbols literals distances bound
    else fail .literalWord

/-- How often a length is repeated; 16 repeats the last one, 17 and 18 repeat zero. -/
def repetition (symbol : Nat) : Interval :=
  if symbol = 16 then ⟨3, 2⟩ else if symbol = 17 then ⟨3, 3⟩ else ⟨11, 7⟩

/-- Reads word lengths until there are `total` of them; the known ones come last first. -/
def wordLengths (code : Code) (total : Nat) : Nat → List Nat → Inflating (List Nat)
  | 0, known => return known
  | bound + 1, known => do
    if total ≤ known.length then return known
    let symbol ← word code .lengthCode
    if symbol < 16 then wordLengths code total bound (symbol :: known)
    else
      let counts := repetition symbol
      let count := counts.base + (← take counts.extraBits)
      let length ←
        if symbol = 16 then
          match known with
          | [] => fail .lengthRepeat
          | last :: _ => pure last
        else pure 0
      if known.length + count ≤ total then
        wordLengths code total bound (List.replicate count length ++ known)
      else fail .lengthRepeat

def lengthCodeLengths : List Nat → Inflating (List (Nat × Nat))
  | [] => return []
  | symbol :: rest => do
    let length ← take 3
    return (symbol, length) :: (← lengthCodeLengths rest)

/-- The code that word lengths are written in has to be complete. If it has no words at all, each
length is a single bit, whatever its value, and means zero. -/
def lengthCode? (lengths : List Nat) : Option Code :=
  if ∀ length ∈ lengths, length = 0 then some (.branch (.symbol 0) (.symbol 0))
  else Code.complete? lengths

def dynamicBlock : Inflating Unit := do
  let counts ← take 14
  let literalTotal := counts % 32 + 257
  let distanceTotal := counts / 32 % 32 + 1
  if literalTotal > literalCount ∨ distanceTotal > distanceCount then fail .symbolCounts
  let listed ← lengthCodeLengths (lengthOrder.take (counts / 1024 + 4))
  let some code := lengthCode? ((List.range 19).map fun symbol => (listed.lookup symbol).getD 0)
    | fail .lengthCode
  let total := literalTotal + distanceTotal
  let lengths := (← wordLengths code total total []).reverse
  let literalLengths := lengths.take literalTotal
  if literalLengths.getD endOfBlock 0 = 0 then fail .noEndOfBlock
  let some literals := Code.ofLengths? literalLengths | fail .literalCode
  let some distances := Code.ofLengths? (lengths.drop literalTotal) | fail .distanceCode
  symbols literals distances (← bound)

def fixedLiterals : Code := (Code.build fixedLiteralLengths).1

def fixedDistances : Code := (Code.build fixedDistanceLengths).1

def blocks : Nat → Inflating Unit
  | 0 => throw .truncated
  | bound + 1 => do
    let head ← take 3
    match head / 2 with
    | 0 => storedBlock
    | 1 => symbols fixedLiterals fixedDistances (← Inflating.bound)
    | 2 => dynamicBlock
    | _ => fail .blockType
    if head % 2 = 0 then blocks bound

/-- All blocks up to the last one, and the rest of its last byte. -/
def stream : Inflating Unit := do
  blocks (← bound)
  align

end Inflating
end RegionStore.Deflate
