import RegionStore.Bytes

/-!
The two checksums that follow compressed data: a pair of sums modulo a prime, and the remainder of a
division of polynomials over two elements.
-/

set_option autoImplicit false

namespace RegionStore.Deflate

def sumModulus : UInt32 := 65521

/-- The low half sums the bytes, starting at one; the high half sums the low halves. -/
def adler32 (data : Bytes) : UInt32 :=
  let (low, high) := data.foldl (fun (sums : UInt32 × UInt32) byte =>
    let low := (sums.1 + byte.toUInt32) % sumModulus
    (low, (sums.2 + low) % sumModulus)) (1, 0)
  high <<< 16 ||| low

/-- One step of the division, lowest coefficient in the highest bit. -/
def divideStep (remainder : UInt32) : UInt32 :=
  if remainder &&& 1 = 1 then (remainder >>> 1) ^^^ 0xEDB88320 else remainder >>> 1

def remainders : Array UInt32 :=
  (Array.range 256).map fun byte => Nat.repeat divideStep 8 byte.toUInt32

def crc32Append (checksum : UInt32) (data : Bytes) : UInt32 :=
  ~~~ data.foldl (fun remainder byte =>
    remainders.getD ((remainder ^^^ byte.toUInt32) &&& 0xFF).toNat 0 ^^^ (remainder >>> 8))
    (~~~ checksum)

def crc32 (data : Bytes) : UInt32 := crc32Append 0 data

end RegionStore.Deflate
