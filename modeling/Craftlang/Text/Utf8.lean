import Craftlang.Text.Bytes

/-!
# Reading UTF-8

`Utf8.decode` reads one code point from the front of a byte string. Malformed input (a stray
continuation byte, an overlong form, a surrogate, a code point past U+10FFFF, a cut sequence) reads
as one byte that stands for no code point.
-/

namespace Craftlang.Utf8

/-- What stands at the front of a byte string: a code point with the bytes that spell it, or a byte
that begins no well-formed sequence. -/
inductive Rune where
  | point (code : Nat) (size : Nat)
  | stray (b : UInt8)
deriving DecidableEq, Repr

/-- The replacement character, as which a stray byte counts. -/
def replacement : Nat := 0xFFFD

namespace Rune

def size : Rune → Nat
  | point _ n => n
  | stray _ => 1

/-- The code point, the replacement character for a stray byte. -/
def code : Rune → Nat
  | point c _ => c
  | stray _ => replacement

end Rune

def isContinuation (b : UInt8) : Bool := 0x80 ≤ b && b ≤ 0xBF

private def payload (b : UInt8) : Nat := (b &&& 0x3F).toNat

/-- Which bytes may follow a lead byte: the bounds leave out overlong forms, surrogates and codes
past U+10FFFF. -/
def isSecond (lead b : UInt8) : Bool :=
  if lead = 0xE0 then 0xA0 ≤ b && b ≤ 0xBF
  else if lead = 0xED then 0x80 ≤ b && b ≤ 0x9F
  else if lead = 0xF0 then 0x90 ≤ b && b ≤ 0xBF
  else if lead = 0xF4 then 0x80 ≤ b && b ≤ 0x8F
  else isContinuation b

/-- Reads the front of a non-empty byte string. -/
def decodeCons (b : UInt8) (rest : Bytes) : Rune :=
  if b < 0x80 then .point b.toNat 1
  else if b < 0xC2 then .stray b
  else if b < 0xE0 then
    match rest with
    | c :: _ =>
      if isContinuation c then .point ((b &&& 0x1F).toNat * 64 + payload c) 2 else .stray b
    | [] => .stray b
  else if b < 0xF0 then
    match rest with
    | c :: d :: _ =>
      if isSecond b c && isContinuation d then
        .point ((b &&& 0x0F).toNat * 4096 + payload c * 64 + payload d) 3
      else .stray b
    | _ => .stray b
  else if b < 0xF5 then
    match rest with
    | c :: d :: e :: _ =>
      if isSecond b c && isContinuation d && isContinuation e then
        .point ((b &&& 0x07).toNat * 262144 + payload c * 4096 + payload d * 64 + payload e) 4
      else .stray b
    | _ => .stray b
  else .stray b

/-- Reads the front of a byte string. -/
def decode? : Bytes → Option Rune
  | [] => none
  | b :: rest => some (decodeCons b rest)

theorem size_decodeCons_pos (b : UInt8) (rest : Bytes) : 0 < (decodeCons b rest).size := by
  unfold decodeCons
  repeat' split
  all_goals simp [Rune.size]

theorem size_decodeCons_le (b : UInt8) (rest : Bytes) :
    (decodeCons b rest).size ≤ rest.length + 1 := by
  unfold decodeCons
  repeat' split
  all_goals simp [Rune.size]

/-- The whole byte string, front to back, each rune with the bytes it was read from. -/
def runes : Bytes → List (Rune × Bytes)
  | [] => []
  | b :: rest =>
    let rune := decodeCons b rest
    (rune, (b :: rest).take rune.size) :: runes ((b :: rest).drop rune.size)
termination_by s => s.length
decreasing_by
  have := size_decodeCons_pos b rest
  simp only [List.length_drop, List.length_cons]
  omega

/-- The bytes that spell a code point; surrogates and codes past U+10FFFF are spelled as the
replacement character. -/
def encode (code : Nat) : Bytes :=
  let code := if (0xD800 ≤ code && code < 0xE000) || 0x110000 ≤ code then replacement else code
  if code < 0x80 then [code.toUInt8]
  else if code < 0x800 then [(0xC0 + code / 64).toUInt8, (0x80 + code % 64).toUInt8]
  else if code < 0x10000 then
    [(0xE0 + code / 4096).toUInt8, (0x80 + code / 64 % 64).toUInt8, (0x80 + code % 64).toUInt8]
  else
    [(0xF0 + code / 262144).toUInt8, (0x80 + code / 4096 % 64).toUInt8,
      (0x80 + code / 64 % 64).toUInt8, (0x80 + code % 64).toUInt8]

/-- The number of code points, a stray byte counting as one. -/
def count (s : Bytes) : Nat := (runes s).length

end Craftlang.Utf8

/-!
## Sets of code points

A set of code points is written as the list of its inclusive ranges.
-/

namespace Craftlang.CodePoint

/-- Does a code point lie in one of the ranges? -/
def within (ranges : List (Nat × Nat)) (code : Nat) : Bool :=
  ranges.any fun (low, high) => low ≤ code && code ≤ high

end Craftlang.CodePoint

/-!
## White space

What separates words, in any script, and texts without the white space around them.
-/

namespace Craftlang

def CodePoint.isSpace (code : Nat) : Bool :=
  (9 ≤ code && code ≤ 13) || code == 0x20 || code == 0x85 || code == 0xA0 || code == 0x1680
    || (0x2000 ≤ code && code ≤ 0x200A) || code == 0x2028 || code == 0x2029 || code == 0x202F
    || code == 0x205F || code == 0x3000

/-- A text without the white space around it. -/
def Utf8.trim (s : Bytes) : Bytes :=
  let blank (piece : Utf8.Rune × Bytes) : Bool :=
    match piece.1 with
    | .point code _ => CodePoint.isSpace code
    | .stray _ => false
  let pieces := (Utf8.runes s).dropWhile blank
  ((pieces.reverse.dropWhile blank).reverse).flatMap (·.2)

end Craftlang
