/-!
# Byte strings

Sources, names, messages and file contents are byte strings: a source may hold bytes that are no
UTF-8, and offsets and columns count bytes. `Bytes` is a list, so that scanning is recursion on the
data; a `String` is read as its UTF-8 bytes wherever a byte string is expected.
-/

namespace Craftlang

abbrev Bytes := List UInt8

/-- The code of an ASCII character. -/
def byte (c : Char) : UInt8 := c.toUInt8

/-- The line feed. -/
def lineFeed : UInt8 := 10

namespace Bytes

/-- The UTF-8 bytes of a string. -/
def ofString (s : String) : Bytes := s.toList.flatMap String.utf8EncodeChar

instance : Coe String Bytes := ⟨ofString⟩

/-- The decimal digits of a number. -/
def decimal (n : Nat) : Bytes := (Nat.toDigits 10 n).map byte

/-- The decimal digits of an integer, with a sign when it is negative. -/
def signedDecimal (n : Int) : Bytes :=
  if n < 0 then byte '-' :: decimal n.natAbs else decimal n.natAbs

/-- Digits in any base up to 36, with lower-case letters for the digits above nine. -/
def inBase (base : Nat) (n : Nat) : Bytes :=
  if base < 2 then []
  else if n < base then [digit n]
  else inBase base (n / base) ++ [digit (n % base)]
termination_by n
decreasing_by exact Nat.div_lt_self (by omega) (by omega)
where
  digit (d : Nat) : UInt8 := if d < 10 then byte '0' + d.toUInt8 else byte 'a' + (d - 10).toUInt8

/-- Digits in a base, padded with zeros on the left to a least width. -/
def inBasePadded (base width : Nat) (n : Nat) : Bytes :=
  let digits := inBase base n
  List.replicate (width - digits.length) (byte '0') ++ digits

/-- Spaces on the left up to a least width. -/
def padLeft (width : Nat) (s : Bytes) : Bytes := List.replicate (width - s.length) (byte ' ') ++ s

/-- Spaces on the right up to a least width. -/
def padRight (width : Nat) (s : Bytes) : Bytes := s ++ List.replicate (width - s.length) (byte ' ')

def startsWith (s start : Bytes) : Bool := start.isPrefixOf s

def endsWith (s ending : Bytes) : Bool := ending.isSuffixOf s

/-- Does `part` occur in `s`? -/
def includes (part : Bytes) : Bytes → Bool
  | [] => part.isEmpty
  | b :: rest => part.isPrefixOf (b :: rest) || includes part rest

/-- Everything before the first occurrence of `b`, and what follows it if there is one. -/
def cut (b : UInt8) : Bytes → Bytes × Option Bytes
  | [] => ([], none)
  | c :: rest =>
    if c = b then ([], some rest)
    else let (before, after) := cut b rest; (c :: before, after)

/-- The pieces between the occurrences of `b`; there is always at least one. -/
def splitOn (b : UInt8) : Bytes → List Bytes
  | [] => [[]]
  | c :: rest =>
    if c = b then [] :: splitOn b rest
    else match splitOn b rest with
      | [] => [[c]]
      | piece :: pieces => (c :: piece) :: pieces

/-- The parts with a separator between neighbours. -/
def join (separator : Bytes) : List Bytes → Bytes
  | [] => []
  | [part] => part
  | part :: parts => part ++ separator ++ join separator parts

/-- The text if a condition holds, nothing otherwise. -/
def onlyIf (condition : Bool) (s : Bytes) : Bytes := if condition then s else []

/-- Every occurrence of one byte replaced by a string. -/
def replaceByte (b : UInt8) (by' : Bytes) (s : Bytes) : Bytes :=
  s.flatMap fun c => if c = b then by' else [c]

/-- Byte strings are ordered lexicographically. -/
def lt : Bytes → Bytes → Bool
  | _, [] => false
  | [], _ :: _ => true
  | a :: as, b :: bs => if a < b then true else if b < a then false else lt as bs

def le (a b : Bytes) : Bool := !lt b a

/-- Byte strings in lexicographic order; equal ones keep their places. -/
def sort (names : List Bytes) : List Bytes := names.mergeSort le

def isUpper (b : UInt8) : Bool := byte 'A' ≤ b && b ≤ byte 'Z'
def isLower (b : UInt8) : Bool := byte 'a' ≤ b && b ≤ byte 'z'
def isDigit (b : UInt8) : Bool := byte '0' ≤ b && b ≤ byte '9'

def isHexDigit (b : UInt8) : Bool :=
  isDigit b || (byte 'a' ≤ b && b ≤ byte 'f') || (byte 'A' ≤ b && b ≤ byte 'F')

/-- The value of a digit in a base up to 36, letters of either case. -/
def digitValue? (b : UInt8) : Option Nat :=
  if isDigit b then some (b - byte '0').toNat
  else if isLower b then some ((b - byte 'a').toNat + 10)
  else if isUpper b then some ((b - byte 'A').toNat + 10)
  else none

/-- ASCII capitals become small letters. -/
def toLower (s : Bytes) : Bytes := s.map fun b => if isUpper b then b + 32 else b

/-- The white space that separates words in ASCII text. -/
def isBlank (b : UInt8) : Bool :=
  b == byte ' ' || b == byte '\t' || b == lineFeed || b == byte '\r' || b == 11 || b == 12

end Bytes

end Craftlang

/-!
## Packed values

Values as bytes, one after the other, so that they can be read back: numbers take eight bytes, and a
text or a list starts with its length.
-/

namespace Craftlang.Packed

/-- A number in a fixed count of bytes, the lowest first. -/
def littleEndian (width n : Nat) : Bytes :=
  (List.range width).map fun i => (n / Nat.pow 256 i).toUInt8

/-- Eight bytes, the lowest first. -/
def word (n : Nat) : Bytes := littleEndian 8 n

def text (s : Bytes) : Bytes := word s.length ++ s

def list {α : Type} (item : α → Bytes) (items : List α) : Bytes :=
  word items.length ++ items.flatMap item

/-- An integer: its sign and its magnitude. -/
def int (n : Int) : Bytes := word (if n < 0 then 1 else 0) ++ word n.natAbs

/-! ## Reading -/

/-- Takes a value from the front of a byte string and answers with the rest. -/
abbrev Reader (α : Type) := StateT Bytes Option α

def ofLittleEndian (s : Bytes) : Nat := s.foldr (fun b n => b.toNat + 256 * n) 0

def readFixed (width : Nat) : Reader Bytes := fun s =>
  if s.length < width then none else some (s.take width, s.drop width)

def readLittleEndian (width : Nat) : Reader Nat := ofLittleEndian <$> readFixed width

def readWord : Reader Nat := readLittleEndian 8

def readText : Reader Bytes := do readFixed (← readWord)

/-- As many items as a number says. -/
def readTimes {α : Type} (item : Reader α) : Nat → Reader (List α)
  | 0 => pure []
  | n + 1 => do
    let first ← item
    let others ← readTimes item n
    pure (first :: others)

def readList {α : Type} (item : Reader α) : Reader (List α) := do readTimes item (← readWord)

def readInt : Reader Int := do
  let isNegative ← readWord
  let magnitude ← readWord
  pure (if isNegative = 0 then magnitude else -(magnitude : Int))

/-- The value that a whole byte string holds. -/
def ofBytes? {α : Type} (reader : Reader α) (s : Bytes) : Option α :=
  match reader.run s with
  | some (value, []) => some value
  | _ => none

end Craftlang.Packed
