import Craftlang.Toml.Basic

/-!
# Reading TOML

A document is read statement by statement. What is written inside a value, as the keys between braces
are, is taken into the document while the value is read. The number of the line that one is at follows
from the line feeds that are left.
-/

/-!
## The words of TOML

Strings, keys, numbers and times. Every reader takes what it reads from the front of a text and answers
with the rest.
-/

namespace Craftlang

namespace Toml

def isGap (b : UInt8) : Bool := b == byte ' ' || b == byte '\t'

def skipGap (s : Bytes) : Bytes := s.dropWhile isGap

/-- Leaves out white space, ends of lines and comments. -/
def skipSpace (inComment : Bool) : Bytes → Bytes
  | [] => []
  | b :: rest =>
    if b = lineFeed then skipSpace false rest
    else if inComment then skipSpace true rest
    else if b = byte '#' then skipSpace true rest
    else if isGap b || b = byte '\r' then skipSpace false rest
    else b :: rest

/-- The next line; before it only white space and a comment are allowed. -/
def nextLine? (s : Bytes) : Option Bytes :=
  match skipGap s with
  | [] => some []
  | b :: rest =>
    if b = lineFeed then some rest
    else if b = byte '\r' && rest.head? == some lineFeed then some rest.tail
    else if b = byte '#' then some ((rest.dropWhile (· != lineFeed)).drop 1)
    else none

/-! ## Strings -/

/-- The inside of a string up to the closing quote, escapes included. -/
def rawText? (quote : UInt8) (escapes : Bool) : Bytes → Option (Bytes × Bytes)
  | [] => none
  | [b] => if b = quote then some ([], []) else none
  | b :: c :: rest =>
    if b = quote then some ([], c :: rest)
    else if b = lineFeed then none
    else if escapes && b = byte '\\' then
      (rawText? quote escapes rest).map fun (inner, after) => (b :: c :: inner, after)
    else (rawText? quote escapes (c :: rest)).map fun (inner, after) => (b :: inner, after)

/-- The inside of a string over several lines up to the closing quotes. One or two more quotes before
those belong to the text. -/
def rawLines? (quote : UInt8) (escapes : Bool) : Bytes → Option (Bytes × Bytes)
  | b :: c :: d :: rest =>
    if b = quote && c = quote && d = quote && rest.head? != some quote then some ([], rest)
    else if escapes && b = byte '\\' then
      (rawLines? quote escapes (d :: rest)).map fun (inner, after) => (b :: c :: inner, after)
    else (rawLines? quote escapes (c :: d :: rest)).map fun (inner, after) => (b :: inner, after)
  | _ => none

/-- The character with a number in hexadecimal digits. -/
def character? (digits : Bytes) : Option Bytes :=
  if digits.all Bytes.isHexDigit then
    let code := digits.foldl (fun n b => 16 * n + (Bytes.digitValue? b).getD 0) 0
    if code < 0xD800 || (0xE000 ≤ code && code < 0x110000) then some (Utf8.encode code) else none
  else none

def escape? (b : UInt8) : Option UInt8 :=
  if b = byte 'b' then some 8
  else if b = byte 't' then some 9
  else if b = byte 'n' then some 10
  else if b = byte 'f' then some 12
  else if b = byte 'r' then some 13
  else if b = byte '"' || b = byte '\\' then some b
  else none

/-- Takes the escapes out of a text. A backslash at the end of a line leaves out the white space up to
the next word. -/
def unescape? (skipping : Bool) : Bytes → Option Bytes
  | [] => some []
  | b :: rest =>
    if skipping && Bytes.isBlank b then unescape? true rest
    else if b ≠ byte '\\' then (unescape? false rest).map (b :: ·)
    else match rest with
      | [] => none
      | c :: rest =>
        match escape? c with
        | some found => (unescape? false rest).map (found :: ·)
        | none =>
          if Bytes.isBlank c then unescape? true rest
          else if c = byte 'u' then
            match rest with
            | d₁ :: d₂ :: d₃ :: d₄ :: rest =>
              match character? [d₁, d₂, d₃, d₄], unescape? false rest with
              | some spelling, some inner => some (spelling ++ inner)
              | _, _ => none
            | _ => none
          else if c = byte 'U' then
            match rest with
            | d₁ :: d₂ :: d₃ :: d₄ :: d₅ :: d₆ :: d₇ :: d₈ :: rest =>
              match character? [d₁, d₂, d₃, d₄, d₅, d₆, d₇, d₈], unescape? false rest with
              | some spelling, some inner => some (spelling ++ inner)
              | _, _ => none
            | _ => none
          else none

/-- A line feed directly after the opening quotes is not part of the text. -/
def dropFirstLineEnd : Bytes → Bytes
  | 0x0D :: 0x0A :: rest => rest
  | 0x0A :: rest => rest
  | s => s

/-- A string, from behind its first quote. -/
def string? (quote : UInt8) (s : Bytes) : Option (Bytes × Bytes) :=
  let escapes := quote = byte '"'
  let raw := match s with
    | b :: c :: rest =>
      if b = quote && c = quote then rawLines? quote escapes (dropFirstLineEnd rest)
      else rawText? quote escapes s
    | _ => rawText? quote escapes s
  raw.bind fun (inner, after) =>
    if escapes then (unescape? false inner).map fun inner => (inner, after) else some (inner, after)

def isQuote (b : UInt8) : Bool := b == byte '"' || b == byte '\''

/-! ## Keys -/

def keyPart? (s : Bytes) : Option (Bytes × Bytes) :=
  match s with
  | [] => none
  | b :: rest =>
    if isQuote b then rawText? b (b = byte '"') rest |>.bind fun (inner, after) =>
      if b = byte '"' then (unescape? false inner).map fun inner => (inner, after)
      else some (inner, after)
    else
      let bare := s.takeWhile isBare
      if bare.isEmpty then none else some (bare, s.drop bare.length)

/-- A key of one or more parts with dots between them. -/
def key? (fuel : Nat) (s : Bytes) : Option (List Bytes × Bytes) :=
  match fuel with
  | 0 => none
  | fuel + 1 =>
    (keyPart? (skipGap s)).bind fun (part, after) =>
      match skipGap after with
      | b :: rest =>
        if b = byte '.' then (key? fuel rest).map fun (parts, after) => (part :: parts, after)
        else some ([part], b :: rest)
      | [] => some ([part], [])

/-! ## Numbers and times -/

/-- Digits of a base with single underscores between them. -/
def digits? (base : Nat) (s : Bytes) : Option Nat :=
  let groups := Bytes.splitOn (byte '_') s
  let isDigit (b : UInt8) : Bool := (Bytes.digitValue? b).any (· < base)
  if groups.all fun group => !group.isEmpty && group.all isDigit then
    some (groups.flatten.foldl (fun n b => base * n + (Bytes.digitValue? b).getD 0) 0)
  else none

def unsigned? : Bytes → Option Nat
  | [] => none
  | [b] => digits? 10 [b]
  | z :: m :: rest =>
    if z ≠ byte '0' then digits? 10 (z :: m :: rest)
    else if m = byte 'x' then digits? 16 rest
    else if m = byte 'o' then digits? 8 rest
    else if m = byte 'b' then digits? 2 rest
    else none

def integer? (s : Bytes) : Option Int :=
  let signed := match s with
    | b :: rest =>
      if b = byte '-' then (unsigned? rest).map fun n => -(n : Int)
      else if b = byte '+' then (unsigned? rest).map Int.ofNat
      else (unsigned? s).map Int.ofNat
    | [] => none
  signed.filter fun n => -0x8000000000000000 ≤ n && n < 0x8000000000000000

def withoutSign : Bytes → Bytes
  | b :: rest => if b = byte '-' || b = byte '+' then rest else b :: rest
  | [] => []

def isFloat (s : Bytes) : Bool :=
  let body := withoutSign s
  body == Bytes.ofString "inf" || body == Bytes.ofString "nan"
    || ((body.head?.map Bytes.isDigit).getD false
      && body.all (fun b => Bytes.isDigit b || Bytes.includes [b] ".eE+-_")
      && body.any fun b => Bytes.includes [b] ".eE")

/-- Does a text start like a date or a time of day? -/
def isMoment (s : Bytes) : Bool :=
  match s with
  | a :: b :: c :: rest =>
    Bytes.isDigit a && Bytes.isDigit b
      && (c == byte ':' || (Bytes.isDigit c
        && (rest.head?.map Bytes.isDigit).getD false && rest[1]? == some (byte '-')))
  | _ => false

def isInWord (b : UInt8) : Bool := !Bytes.isBlank b && !Bytes.includes [b] ",]\x7d#"

/-- A value of a single word; a date and a time may have a blank between them. -/
def word? (s : Bytes) : Option (Toml × Bytes) :=
  let word := s.takeWhile isInWord
  let rest := s.drop word.length
  if word = Bytes.ofString "true" then some (boolean true, rest)
  else if word = Bytes.ofString "false" then some (boolean false, rest)
  else if isMoment word then
    match rest with
    | b :: c :: _ =>
      if b = byte ' ' && Bytes.isDigit c then some (moment, (rest.drop 1).dropWhile isInWord)
      else some (moment, rest)
    | _ => some (moment, rest)
  else match integer? word with
    | some n => some (integer n, rest)
    | none => if isFloat word then some (float, rest) else none

end Toml


namespace Toml

/-- The line that one is at when a text is left. -/
def lineAt (lineFeeds : Nat) (rest : Bytes) : Nat := lineFeeds - rest.count lineFeed + 1

/-- A value that has been read. A list and a table are on the line where they start, any other value is
on the line where it ends. -/
structure ReadValue where
  value : Toml
  line : Nat
  doc : TomlDocument
  rest : Bytes

mutual

/-- A value under a key of a table. -/
def value? (lineFeeds fuel : Nat) (doc : TomlDocument) (owner : List Bytes) (key : Bytes)
    (inList : Bool) (s : Bytes) : Option ReadValue :=
  match fuel, s with
  | 0, _ | _, [] => none
  | fuel + 1, b :: rest =>
    let line := lineAt lineFeeds s
    if isQuote b then
      (string? b rest).map fun (found, after) => ⟨text found, lineAt lineFeeds after, doc, after⟩
    else if b = byte '[' then
      let doc := doc.note owner key { line, isList := true }
      (items? lineFeeds fuel doc owner key (skipSpace false rest)).map fun (found, doc, after) =>
        ⟨list found, line, doc, after⟩
    else if b = 0x7B then
      let path := owner ++ [key]
      ((doc.imply path).enter? path inList).bind fun doc =>
        (fields? lineFeeds fuel doc path [] (skipSpace false rest)).map fun (found, doc, after) =>
          ⟨table found, line, doc, after⟩
    else (word? s).map fun (found, after) => ⟨found, lineAt lineFeeds after, doc, after⟩

/-- The items of a list, from behind its bracket or a comma. -/
def items? (lineFeeds fuel : Nat) (doc : TomlDocument) (owner : List Bytes) (key : Bytes)
    (s : Bytes) : Option (List Toml × TomlDocument × Bytes) :=
  match fuel, s with
  | 0, _ | _, [] => none
  | fuel + 1, b :: rest =>
    if b = byte ']' then some ([], doc, rest)
    else
      (value? lineFeeds fuel doc owner key true s).bind fun item =>
        match skipSpace false item.rest with
        | [] => none
        | c :: rest =>
          if c = byte ']' then some ([item.value], item.doc, rest)
          else if c = byte ',' then
            (items? lineFeeds fuel item.doc owner key (skipSpace false rest)).map
              fun (items, doc, after) => (item.value :: items, doc, after)
          else none

/-- The fields of a table between braces, from behind its brace or a comma. Of the parts of a key only
the last counts as a field. -/
def fields? (lineFeeds fuel : Nat) (doc : TomlDocument) (owner : List Bytes) (found : Fields)
    (s : Bytes) : Option (Fields × TomlDocument × Bytes) :=
  match fuel, s with
  | 0, _ | _, [] => none
  | fuel + 1, b :: rest =>
    if b = 0x7D then some (found, doc, rest)
    else
      (assignment? lineFeeds fuel doc owner true s).bind fun (key, value, doc, after) =>
        let found := found.filter (fun field => field.1 != key) ++ [(key, value)]
        match skipSpace false after with
        | [] => none
        | c :: rest =>
          if c = 0x7D then some (found, doc, rest)
          else if c = byte ',' then
            fields? lineFeeds fuel doc owner found (skipSpace false rest)
          else none

/-- A key with its value, taken into the document: answers with the last part of the key and the value.
Between braces a key counts as written where it starts, elsewhere where its value is. -/
def assignment? (lineFeeds fuel : Nat) (doc : TomlDocument) (owner : List Bytes) (inBraces : Bool)
    (s : Bytes) : Option (Bytes × Toml × TomlDocument × Bytes) :=
  match fuel with
  | 0 => none
  | fuel + 1 =>
    (key? s.length s).bind fun (parts, after) =>
      match parts.getLast?, skipGap after with
      | some last, b :: rest =>
        if b ≠ byte '=' then none
        else
          let inner := owner ++ parts.dropLast
          (doc.enterAll? owner parts.dropLast).bind fun doc =>
            (value? lineFeeds fuel (doc.addKey (inner ++ [last])) inner last false
              (skipGap rest)).bind fun read =>
              let line := if inBraces then lineAt lineFeeds s else read.line
              (read.doc.write? inner last read.value line).map fun doc =>
                (last, read.value, doc, read.rest)
      | _, _ => none

end

/-- The header of a table, from behind its first bracket; answers also with the path of the table. -/
def header? (doc : TomlDocument) (line : Nat) (s : Bytes) :
    Option (List Bytes × TomlDocument × Bytes) :=
  let isOneOfMany := s.head? == some (byte '[')
  let closing : Bytes := if isOneOfMany then "]]" else "]"
  (key? s.length (if isOneOfMany then s.tail else s)).bind fun (path, after) =>
    let after := skipGap after
    if after.startsWith closing then
      (doc.enter? path isOneOfMany).map fun doc =>
        (path, (doc.note path [] { line }).addKey path, after.drop closing.length)
    else none

/-- Reads statements one after the other, keys into the table `owner`; fails with the line of the first
that cannot be read. -/
def statements (lineFeeds fuel : Nat) (doc : TomlDocument) (owner : List Bytes) (s : Bytes) :
    Except Nat TomlDocument :=
  match fuel, skipSpace false s with
  | 0, _ | _, [] => .ok doc
  | fuel + 1, b :: rest =>
    let line := lineAt lineFeeds (b :: rest)
    let read : Option (List Bytes × TomlDocument × Bytes) :=
      if b = byte '[' then header? doc line rest
      else
        let room := 2 * (b :: rest).length + 4
        (assignment? lineFeeds room doc owner false (b :: rest)).map fun (_, _, doc, after) =>
          (owner, doc, after)
    match read.bind fun (owner, doc, after) => (nextLine? after).map fun rest => (owner, doc, rest) with
    | none => .error line
    | some (owner, doc, rest) => statements lineFeeds fuel doc owner rest

/-- A text without the byte order mark that it may start with. -/
def withoutMark : Bytes → Bytes
  | 0xEF :: 0xBB :: 0xBF :: rest => rest
  | 0xFF :: 0xFE :: rest => rest
  | 0xFE :: 0xFF :: rest => rest
  | s => s

end Toml

/-- The document that a text is, or the line where it stops being one. -/
def TomlDocument.ofText (s : Bytes) : Except Nat TomlDocument :=
  let s := Toml.withoutMark s
  Toml.statements (s.count lineFeed) (s.length + 1) {} [] s

end Craftlang
