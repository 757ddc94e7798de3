import RegionStore.Bytes
import RegionStore.Deflate.Alphabet
import RegionStore.Deflate.Code
import RegionStore.Deflate.Container
import RegionStore.Deflate.Inflate
import RegionStore.Deflate.Matching
import RegionStore.Deflate.WordLengths

/-!
Compression. Tokens are written in blocks of limited length, each with a code made for it, or as plain
bytes where that is shorter. What comes out is decompressed again before it is used; data that does
not come back the same is stored in plain blocks instead, so `Container.encode` can be relied on
whatever the choice of tokens and words. The codec that is run is made of this.
-/

set_option autoImplicit false

namespace RegionStore.Deflate

/-- Bits not yet written as bytes are held, lowest first. -/
structure Sink where
  bytes : Bytes
  held : UInt64
  heldCount : UInt64

namespace Sink

def empty : Sink := ⟨ByteArray.empty, 0, 0⟩

def drain : Nat → Sink → Sink
  | 0, sink => sink
  | bound + 1, sink =>
    if sink.heldCount < 8 then sink
    else drain bound ⟨sink.bytes.push sink.held.toUInt8, sink.held >>> 8, sink.heldCount - 8⟩

/-- Appends the low `count` bits of a value, at most 32 of them. -/
def put (sink : Sink) (value : Nat) (count : Nat) : Sink :=
  drain 5 ⟨sink.bytes, sink.held ||| value.toUInt64 <<< sink.heldCount,
    sink.heldCount + count.toUInt64⟩

def align (sink : Sink) : Sink :=
  if sink.heldCount = 0 then sink else ⟨sink.bytes.push sink.held.toUInt8, 0, 0⟩

def putBytes (sink : Sink) (data : Bytes) : Sink :=
  let sink := sink.align
  { sink with bytes := sink.bytes ++ data }

end Sink

def maxStored : Nat := 65535

def putStoredBlock (sink : Sink) (data : Bytes) (final : Bool) : Sink :=
  let sink := (sink.put final.toNat 3).align
  let sink := (sink.put data.size 16).put (maxStored - data.size) 16
  sink.putBytes data

/-- Plain blocks for the bytes from `start` up to `stop`; no bytes take one empty block. -/
def putStored (data : Bytes) (stop : Nat) (final : Bool) : (bound start : Nat) → Sink → Sink
  | 0, start, sink => putStoredBlock sink (data.extract start stop) final
  | bound + 1, start, sink =>
    if stop - start ≤ maxStored then putStoredBlock sink (data.extract start stop) final
    else
      putStored data stop final bound (start + maxStored)
        (putStoredBlock sink (data.extract start (start + maxStored)) false)

def stored (data : Bytes) : Bytes :=
  (putStored data data.size true (data.size / maxStored) 0 Sink.empty).align.bytes

/-- A word as it is written: its bits as a number, the first bit lowest, and how many there are. -/
structure Codeword where
  bits : Nat
  length : Nat

def codewords : Code → (bits depth : Nat) → Array Codeword → Array Codeword
  | .unused, _, _, known => known
  | .symbol value, bits, depth, known => known.setIfInBounds value ⟨bits, depth⟩
  | .branch zero one, bits, depth, known =>
    codewords one (bits + 1 <<< depth) (depth + 1) (codewords zero bits (depth + 1) known)

def codewordsOf (lengths : List Nat) : Array Codeword :=
  codewords (Code.build lengths).1 0 0 (Array.replicate lengths.length ⟨0, 0⟩)

def Sink.putWord (sink : Sink) (words : Array Codeword) (symbol : Nat) : Sink :=
  let word := words.getD symbol ⟨0, 0⟩
  sink.put word.bits word.length

/-- One step of a list of word lengths: a length, or a repetition with its count. -/
structure LengthStep where
  symbol : Nat
  extra : Nat
  extraBits : Nat

/-- Steps for one length that occurs `count` times in a row, the first of them not a repetition. -/
def repeatSteps (length : Nat) : (bound count : Nat) → List LengthStep
  | 0, _ => []
  | bound + 1, count =>
    if length = 0 then
      if count ≥ 11 then ⟨18, min count 138 - 11, 7⟩ :: repeatSteps length bound (count - 138)
      else if count ≥ 3 then [⟨17, count - 3, 3⟩]
      else List.replicate count ⟨length, 0, 0⟩
    else if count ≥ 3 then ⟨16, min count 6 - 3, 2⟩ :: repeatSteps length bound (count - 6)
    else List.replicate count ⟨length, 0, 0⟩

def runs : List Nat → List (Nat × Nat)
  | [] => []
  | length :: rest =>
    match runs rest with
    | (next, count) :: more =>
      if next = length then (next, count + 1) :: more else (length, 1) :: (next, count) :: more
    | [] => [(length, 1)]

def lengthSteps (lengths : List Nat) : List LengthStep :=
  (runs lengths).flatMap fun (length, count) =>
    if length = 0 then repeatSteps length count count
    else ⟨length, 0, 0⟩ :: repeatSteps length count (count - 1)

structure Frequencies where
  literals : Array Nat
  distances : Array Nat

def Frequencies.count (frequencies : Frequencies) : Token → Frequencies
  | .literal byte => { frequencies with literals := frequencies.literals.modify byte.toNat (· + 1) }
  | .copy length distance =>
    ⟨frequencies.literals.modify (endOfBlock + 1 + lengthIndex length) (· + 1),
      frequencies.distances.modify (distanceSymbol distance) (· + 1)⟩

def Frequencies.ofTokens (tokens : Array Token) : Frequencies :=
  tokens.foldl Frequencies.count
    ⟨(Array.replicate literalCount 0).setIfInBounds endOfBlock 1, Array.replicate distanceCount 0⟩

def putToken (literals distances : Array Codeword) (sink : Sink) : Token → Sink
  | .literal byte => sink.putWord literals byte.toNat
  | .copy length distance =>
    let index := lengthIndex length
    let lengths := lengthInterval index
    let symbol := distanceSymbol distance
    let interval := distanceInterval symbol
    let sink := sink.putWord literals (endOfBlock + 1 + index)
    let sink := sink.put (length - lengths.base) lengths.extraBits
    let sink := sink.putWord distances symbol
    sink.put (distance - interval.base) interval.extraBits

structure Plan where
  literalLengths : List Nat
  distanceLengths : List Nat
  steps : List LengthStep
  stepLengths : List Nat
  listedCount : Nat

/-- The list without trailing zeros, at least `least` long. -/
def trimmed (least : Nat) (lengths : Array Nat) : List Nat :=
  let rest := lengths.toList.drop least
  lengths.toList.take least ++ (rest.reverse.dropWhile (· = 0)).reverse

def Plan.ofFrequencies (frequencies : Frequencies) : Plan :=
  let literalLengths := trimmed 257 (WordLengths.limited maxWordLength 32 frequencies.literals)
  let distanceLengths := trimmed 1 (WordLengths.limited maxWordLength 32 frequencies.distances)
  let steps := lengthSteps (literalLengths ++ distanceLengths)
  let counts := steps.foldl (fun counts step => counts.modify step.symbol (· + 1))
    (Array.replicate 19 0)
  let stepLengths := (WordLengths.limited 7 32 counts).toList
  let listed := lengthOrder.map fun symbol => stepLengths.getD symbol 0
  ⟨literalLengths, distanceLengths, steps, stepLengths,
    max 4 (listed.reverse.dropWhile (· = 0)).length⟩

def Plan.cost (plan : Plan) (frequencies : Frequencies) : Nat :=
  let listing := plan.steps.map fun step => plan.stepLengths.getD step.symbol 0 + step.extraBits
  let literals := plan.literalLengths.zipIdx.map fun (length, symbol) =>
    frequencies.literals.getD symbol 0 *
      (length + if symbol > endOfBlock then (lengthInterval (symbol - 257)).extraBits else 0)
  let distances := plan.distanceLengths.zipIdx.map fun (length, symbol) =>
    frequencies.distances.getD symbol 0 * (length + (distanceInterval symbol).extraBits)
  (listing ++ literals ++ distances).foldl (· + ·) (17 + 3 * plan.listedCount)

def Plan.put (plan : Plan) (tokens : Array Token) (final : Bool) (sink : Sink) : Sink :=
  let sink := sink.put (final.toNat + 4) 3
  let sink := sink.put (plan.literalLengths.length - 257) 5
  let sink := sink.put (plan.distanceLengths.length - 1) 5
  let sink := sink.put (plan.listedCount - 4) 4
  let sink := (lengthOrder.take plan.listedCount).foldl
    (fun sink symbol => sink.put (plan.stepLengths.getD symbol 0) 3) sink
  let stepWords := codewordsOf plan.stepLengths
  let sink := plan.steps.foldl
    (fun sink step => (sink.putWord stepWords step.symbol).put step.extra step.extraBits) sink
  let literals := codewordsOf plan.literalLengths
  let distances := codewordsOf plan.distanceLengths
  (tokens.foldl (putToken literals distances) sink).putWord literals endOfBlock

def blockTokens : Nat := 16383

/-- Writes a block for the tokens in front, which stand for the data from `start` on, and goes on. -/
def putBlocks (data : Bytes) (tokens : Array Token) :
    (bound first start : Nat) → Sink → Sink
  | 0, _, start, sink => putStored data data.size true (data.size / maxStored) start sink
  | bound + 1, first, start, sink =>
    let group := tokens.extract first (first + blockTokens)
    let stop := group.foldl (fun stop token => stop + token.size) start
    let final := first + blockTokens ≥ tokens.size
    let frequencies := Frequencies.ofTokens group
    let plan := Plan.ofFrequencies frequencies
    let plain := (stop - start) * 8 + ((stop - start) / maxStored + 1) * 40
    let sink :=
      if plain ≤ plan.cost frequencies then
        putStored data stop final ((stop - start) / maxStored) start sink
      else plan.put group final sink
    if final then sink else putBlocks data tokens bound (first + blockTokens) stop sink

def compressed (data : Bytes) : Bytes :=
  let tokens := tokens data
  (putBlocks data tokens (tokens.size / blockTokens + 1) 0 0 Sink.empty).align.bytes

namespace Container

def wrap (container : Container) (blocks data : Bytes) : Bytes :=
  container.headerBytes ++ blocks ++ container.trailerBytes data

def frameSize : Container → Nat
  | .short => 6
  | .long => 18

/-- The bound that zlib gives for the usual effort and window. Plain blocks keep to it, too. -/
def streamBound (container : Container) (size : Nat) : Nat :=
  size + size / 4096 + size / 16384 + size / 33554432 + 7 + container.frameSize

def encode (container : Container) (data : Bytes) : Bytes :=
  let small := container.wrap (compressed data) data
  match container.expand small with
  | ⟨back, .ok 0⟩ =>
    if back = data ∧ small.size ≤ container.streamBound data.size then small
    else container.wrap (stored data) data
  | _ => container.wrap (stored data) data

end Container

instance codec : Codec where
  bound := Container.streamBound
  compress := Container.encode
  expand := Container.expand

end RegionStore.Deflate
