import Craftlang.Text.Bytes
import Craftlang.Text.Quoted

/-!
# Numerals

Whole numbers as they are given to a program: with a sign, in base ten, or in the base that a mark in
front says, and with single underscores between digits. A number has 64 bits, one of them for the sign.
-/

namespace Craftlang.Numeral

/-- Why a text is no number. -/
inductive Fault where
  | malformed
  | tooLarge
deriving DecidableEq, Repr

/-- The base that a numeral without a sign is in, and its digits. A zero in front means base eight. -/
def radix : Bytes → Nat × Bytes
  | z :: m :: d :: rest =>
    if z ≠ byte '0' then (10, z :: m :: d :: rest)
    else if m = byte 'b' || m = byte 'B' then (2, d :: rest)
    else if m = byte 'o' || m = byte 'O' then (8, d :: rest)
    else if m = byte 'x' || m = byte 'X' then (16, d :: rest)
    else (8, m :: d :: rest)
  | z :: rest => if z = byte '0' then (8, rest) else (10, z :: rest)
  | [] => (10, [])

/-- Reads digits until one is none of the base or the value has too many bits; underscores are left
out. -/
def readDigits (base value : Nat) : Bytes → Except Fault Nat
  | [] => .ok value
  | b :: rest =>
    if b = byte '_' then readDigits base value rest
    else match Bytes.digitValue? b with
      | none => .error .malformed
      | some d =>
        if base ≤ d then .error .malformed
        else if 2 ^ 64 ≤ value * base + d then .error .tooLarge
        else readDigits base (value * base + d) rest

/-- Does every underscore stand between two digits, or between the mark of the base and a digit? -/
def hasProperUnderscores (body : Bytes) : Bool :=
  let (isMarked, digits) := match body with
    | z :: m :: rest =>
      if z = byte '0' && Bytes.includes [m] "bBoOxX" then (true, rest) else (false, body)
    | _ => (false, body)
  match Bytes.splitOn (byte '_') digits with
  | [] => true
  | first :: groups => (isMarked || !first.isEmpty) && groups.all (!·.isEmpty)

/-- The value of a numeral without a sign. -/
def magnitude (body : Bytes) : Except Fault Nat :=
  if body.isEmpty then .error .malformed
  else
    let (base, digits) := radix body
    match readDigits base 0 digits with
    | .error fault => .error fault
    | .ok value =>
      if body.contains (byte '_') && !hasProperUnderscores body then .error .malformed
      else .ok value

/-- The value of a numeral. -/
def integer (s : Bytes) : Except Fault Int :=
  let (isNegative, body) := match s with
    | b :: rest =>
      if b = byte '-' then (true, rest) else if b = byte '+' then (false, rest) else (false, s)
    | [] => (false, s)
  match magnitude body with
  | .error fault => .error fault
  | .ok n =>
    if isNegative then (if 0x8000000000000000 < n then .error .tooLarge else .ok (-(n : Int)))
    else if 0x8000000000000000 ≤ n then .error .tooLarge else .ok n

end Craftlang.Numeral

/-!
## Numbers with a fixed number of places

Measured quantities are held as floating-point numbers with a significand of 53 bits and written with a
fixed number of decimal places. Both steps round to the nearest, a tie to the even neighbour, and both
are exact arithmetic on natural numbers here.
-/

namespace Craftlang.Fixed

/-- A quotient rounded to the nearest natural number, a tie to the even one. -/
def roundDiv (num den : Nat) : Nat :=
  let q := num / den
  let twice := 2 * (num % den)
  if twice < den then q
  else if den < twice then q + 1
  else if q % 2 = 0 then q else q + 1

/-- A fraction of natural numbers. -/
structure Fraction where
  num : Nat
  den : Nat
deriving DecidableEq, Repr

/-- The fraction `num * 2 ^ exponent / den`. -/
def Fraction.shifted (num den : Nat) (exponent : Int) : Fraction :=
  ⟨num * Nat.pow 2 exponent.toNat, den * Nat.pow 2 (-exponent).toNat⟩

/-- The closest number with a significand of 53 bits. -/
def nearest (f : Fraction) : Fraction :=
  if f.num = 0 then ⟨0, 1⟩
  else
    let guess : Int := (Nat.log2 f.num : Int) - Nat.log2 f.den - 52
    let scaled := Fraction.shifted f.num f.den (-guess)
    let exponent := if scaled.num / scaled.den < 0x10000000000000 then guess - 1 else guess
    let scaled := Fraction.shifted f.num f.den (-exponent)
    Fraction.shifted (roundDiv scaled.num scaled.den) 1 exponent

/-- A fraction with a number of decimal places. -/
def places (count : Nat) (f : Fraction) : Bytes :=
  let n := roundDiv (f.num * Nat.pow 10 count) f.den
  Bytes.decimal (n / Nat.pow 10 count)
    ++ Bytes.onlyIf (count != 0) ("." ++ Bytes.inBasePadded 10 count (n % Nat.pow 10 count))

end Craftlang.Fixed
