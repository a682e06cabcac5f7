import Craftlang.Text.Bytes

/-!
# Digests

Numbers by which texts are known: sources and cache entries by SHA-256, the files in an archive by CRC-32.
-/

/-!
## SHA-256

A message is padded to whole blocks of 64 bytes; each block is mixed into eight words of 32 bits.
-/

namespace Craftlang.Sha256

def roundConstants : List UInt32 :=
  [0x428a2f98, 0x71374491, 0xb5c0fbcf, 0xe9b5dba5, 0x3956c25b, 0x59f111f1, 0x923f82a4, 0xab1c5ed5,
   0xd807aa98, 0x12835b01, 0x243185be, 0x550c7dc3, 0x72be5d74, 0x80deb1fe, 0x9bdc06a7, 0xc19bf174,
   0xe49b69c1, 0xefbe4786, 0x0fc19dc6, 0x240ca1cc, 0x2de92c6f, 0x4a7484aa, 0x5cb0a9dc, 0x76f988da,
   0x983e5152, 0xa831c66d, 0xb00327c8, 0xbf597fc7, 0xc6e00bf3, 0xd5a79147, 0x06ca6351, 0x14292967,
   0x27b70a85, 0x2e1b2138, 0x4d2c6dfc, 0x53380d13, 0x650a7354, 0x766a0abb, 0x81c2c92e, 0x92722c85,
   0xa2bfe8a1, 0xa81a664b, 0xc24b8b70, 0xc76c51a3, 0xd192e819, 0xd6990624, 0xf40e3585, 0x106aa070,
   0x19a4c116, 0x1e376c08, 0x2748774c, 0x34b0bcb5, 0x391c0cb3, 0x4ed8aa4a, 0x5b9cca4f, 0x682e6ff3,
   0x748f82ee, 0x78a5636f, 0x84c87814, 0x8cc70208, 0x90befffa, 0xa4506ceb, 0xbef9a3f7, 0xc67178f2]

/-- The eight working words. -/
structure Words where
  a : UInt32
  b : UInt32
  c : UInt32
  d : UInt32
  e : UInt32
  f : UInt32
  g : UInt32
  h : UInt32

def Words.start : Words :=
  ⟨0x6a09e667, 0xbb67ae85, 0x3c6ef372, 0xa54ff53a, 0x510e527f, 0x9b05688c, 0x1f83d9ab, 0x5be0cd19⟩

def Words.add (x y : Words) : Words :=
  ⟨x.a + y.a, x.b + y.b, x.c + y.c, x.d + y.d, x.e + y.e, x.f + y.f, x.g + y.g, x.h + y.h⟩

def rotateRight (x n : UInt32) : UInt32 := (x >>> n) ||| (x <<< (32 - n))

/-- One round, with the constant and the schedule word of the round added up. -/
def Words.round (w : Words) (k : UInt32) : Words :=
  let s1 := rotateRight w.e 6 ^^^ rotateRight w.e 11 ^^^ rotateRight w.e 25
  let choice := (w.e &&& w.f) ^^^ (~~~w.e &&& w.g)
  let t1 := w.h + s1 + choice + k
  let s0 := rotateRight w.a 2 ^^^ rotateRight w.a 13 ^^^ rotateRight w.a 22
  let majority := (w.a &&& w.b) ^^^ (w.a &&& w.c) ^^^ (w.b &&& w.c)
  ⟨t1 + s0 + majority, w.a, w.b, w.c, w.d + t1, w.e, w.f, w.g⟩

/-- The padding of a message of `n` bytes: a one bit, zeros, and the length in bits. -/
def padding (n : Nat) : Bytes :=
  let bits := 8 * n
  0x80 :: List.replicate ((119 - n % 64) % 64) 0 ++
    (List.range 8).map fun i => (bits / Nat.pow 256 (7 - i)).toUInt8

/-- Big-endian words of 32 bits. -/
def bigEndianWords : Bytes → List UInt32
  | a :: b :: c :: d :: rest =>
    ((a.toUInt32 <<< 24) ||| (b.toUInt32 <<< 16) ||| (c.toUInt32 <<< 8) ||| d.toUInt32)
      :: bigEndianWords rest
  | _ => []

/-- The next schedule word from the sixteen before it, newest first. -/
def scheduleWord (recent : List UInt32) : UInt32 :=
  match recent with
  | [_, w14, _, _, _, _, w9, _, _, _, _, _, _, _, w1, w0] =>
    let s0 := rotateRight w1 7 ^^^ rotateRight w1 18 ^^^ (w1 >>> 3)
    let s1 := rotateRight w14 17 ^^^ rotateRight w14 19 ^^^ (w14 >>> 10)
    w0 + s0 + w9 + s1
  | _ => 0

/-- `n` more schedule words in front of those there are, newest first. -/
def schedule : Nat → List UInt32 → List UInt32
  | 0, words => words
  | n + 1, words => schedule n (scheduleWord (words.take 16) :: words)

/-- Mixes one block of sixteen words into the state. -/
def compress (state : Words) (block : List UInt32) : Words :=
  let words := (schedule 48 block.reverse).reverse
  state.add ((roundConstants.zipWith (· + ·) words).foldl Words.round state)

/-- Mixes all blocks into the state. -/
def digestWords (state : Words) (words : List UInt32) : Words :=
  if words.isEmpty then state
  else digestWords (compress state (words.take 16)) (words.drop 16)
termination_by words.length
decreasing_by
  rename_i h
  cases words with
  | nil => simp at h
  | cons w ws => simp only [List.length_drop, List.length_cons]; omega

def wordBytes (w : UInt32) : Bytes :=
  [(w >>> 24).toUInt8, (w >>> 16).toUInt8, (w >>> 8).toUInt8, w.toUInt8]

/-- The 32 bytes of the digest of a message. -/
def digest (message : Bytes) : Bytes :=
  let w := digestWords .start (bigEndianWords (message ++ padding message.length))
  [w.a, w.b, w.c, w.d, w.e, w.f, w.g, w.h].flatMap wordBytes

end Craftlang.Sha256

namespace Craftlang.Bytes

/-- Two hexadecimal digits for each byte. -/
def hex (s : Bytes) : Bytes := s.flatMap fun b => inBasePadded 16 2 b.toNat

/-- Reads what `hex` writes, capital digits too. -/
def unhex? : Bytes → Option Bytes
  | [] => some []
  | a :: b :: rest => do
    if !(isHexDigit a && isHexDigit b) then none
    else
      let high ← digitValue? a
      let low ← digitValue? b
      let more ← unhex? rest
      some ((16 * high + low).toUInt8 :: more)
  | [_] => none

end Craftlang.Bytes

/-!
## CRC-32

The check sum of the files in an archive: the remainder of a division of polynomials over two elements,
with the bits of every byte taken from the lowest up.
-/

namespace Craftlang.Crc32

/-- The divisor, with its bits reversed. -/
def polynomial : UInt32 := 0xEDB88320

/-- One bit of the division. -/
def shift (remainder : UInt32) : UInt32 :=
  if remainder &&& 1 = 1 then (remainder >>> 1) ^^^ polynomial else remainder >>> 1

/-- Takes a byte into the remainder. -/
def feed (remainder : UInt32) (b : UInt8) : UInt32 :=
  (List.range 8).foldl (fun r _ => shift r) (remainder ^^^ b.toUInt32)

def checksum (s : Bytes) : UInt32 := s.foldl feed 0xFFFFFFFF ^^^ 0xFFFFFFFF

end Craftlang.Crc32
