import Craftlang.Text.Quoted

/-!
# The values of literals

An integer literal is decimal, hexadecimal after `0x` or binary after `0b`, with underscores allowed
between its digits; its value is a 64-bit word. A string literal stands between double quotes, with
escapes for the quote, the backslash, the line feed and the tab.
-/

namespace Craftlang.Literal

/-- Why a text is no 64-bit number; the digits that were read are kept for the message. -/
inductive IntegerError where
  | malformed (digits : Bytes)
  | tooLarge (digits : Bytes)
deriving DecidableEq, Repr

def IntegerError.message : IntegerError → Bytes
  | malformed digits =>
    "strconv.ParseUint: parsing " ++ Quoted.encode digits ++ ": invalid syntax"
  | tooLarge digits =>
    "strconv.ParseUint: parsing " ++ Quoted.encode digits ++ ": value out of range"

/-- Where reading digit by digit stops first: at a byte that is no digit of the base, or once the
value needs more than 64 bits. -/
def readDigits (base : Nat) (digits : Bytes) : Except IntegerError Nat :=
  if digits.isEmpty then .error (.malformed digits) else accumulate 0 digits
where
  accumulate (value : Nat) : Bytes → Except IntegerError Nat
    | [] => .ok value
    | b :: rest =>
      match Bytes.digitValue? b with
      | none => .error (.malformed digits)
      | some d =>
        if base ≤ d then .error (.malformed digits)
        else if UInt64.size ≤ value * base + d then .error (.tooLarge digits)
        else accumulate (value * base + d) rest

/-- The base a literal is written in, and its digits, once underscores are left out. A mark of the
base counts only when something follows it. -/
def radix (text : Bytes) : Nat × Bytes :=
  match text with
  | z :: x :: d :: rest =>
    if z ≠ byte '0' then (10, text)
    else if x = byte 'x' || x = byte 'X' then (16, d :: rest)
    else if x = byte 'b' || x = byte 'B' then (2, d :: rest)
    else (10, text)
  | _ => (10, text)

/-- The value of an integer literal. -/
def integer (text : Bytes) : Except IntegerError Nat :=
  let (base, digits) := radix (text.filter (· != byte '_'))
  readDigits base digits

/-- Takes the escapes out of the inside of a string literal; an unknown escape stands for the
character it escapes. -/
def unescape : Bytes → Bytes
  | [] => []
  | [b] => [b]
  | b :: c :: rest =>
    if b = byte '\\' then
      (if c = byte 'n' then lineFeed else if c = byte 't' then byte '\t' else c) :: unescape rest
    else b :: unescape (c :: rest)

/-- The inside of a text between double quotes; any other text is its own inside. -/
def inside (text : Bytes) : Bytes :=
  match text with
  | q :: rest =>
    if q = byte '"' && rest.getLast? == some (byte '"') then rest.dropLast else text
  | [] => []

/-- The value of a string literal. -/
def string (text : Bytes) : Bytes := unescape (inside text)

end Craftlang.Literal
