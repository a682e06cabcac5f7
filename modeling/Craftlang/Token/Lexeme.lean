import Craftlang.Diagnostic.Basic
import Craftlang.Text.Letter
import Craftlang.Text.Utf8
import Craftlang.Token.Basic

/-!
# Lexemes

What stands at the front of the remaining text is read as one lexeme: a word, a number, a string, an
operator or, at the start of a line, a raw command. Every lexeme takes at least one byte, so reading
comes to an end.
-/

namespace Craftlang

/-- What can be wrong with the text of a source. -/
inductive LexicalProblem where
  | unknownCharacter (text : Bytes)
  | unterminatedString
  | malformedNumber
  | unknownEscape
  | unmatchedUnindent
  | mixedIndentation
deriving DecidableEq, Repr

namespace LexicalProblem

def code : LexicalProblem → Code
  | unknownCharacter _ => .unknownCharacter
  | unterminatedString => .unterminatedString
  | malformedNumber => .malformedNumber
  | unknownEscape => .badEscape
  | unmatchedUnindent | mixedIndentation => .badIndentation

def message : LexicalProblem → Bytes
  | unknownCharacter text => "unexpected character '" ++ text ++ "'"
  | unterminatedString => "unterminated string literal"
  | malformedNumber => "malformed number literal"
  | unknownEscape => "unknown escape sequence"
  | unmatchedUnindent => "unindent does not match any outer indentation level"
  | mixedIndentation => "inconsistent use of tabs and spaces in indentation"

def report (p : LexicalProblem) (span : Span) : Diagnostic := .error p.code span p.message

end LexicalProblem

/-- A problem in a lexeme, with its place counted from the lexeme's first byte. -/
structure Flaw where
  problem : LexicalProblem
  start : Nat
  stop : Nat
deriving DecidableEq, Repr

/-- A lexeme: its text, and how many bytes reading it takes, which is more than the length of its
text when blanks after it are dropped. -/
structure Lexeme where
  kind : Kind
  text : Bytes
  size : Nat
  flaws : List Flaw := []
deriving Repr

namespace Lexeme

/-- Can a rune start an identifier? -/
def startsWord (rune : Utf8.Rune) : Bool :=
  match rune with
  | .point code _ => code == 0x5F || CodePoint.isLetter code
  | .stray _ => false

/-- Can a rune stand in an identifier? -/
def continuesWord (rune : Utf8.Rune) : Bool :=
  match rune with
  | .point code _ => code == 0x5F || CodePoint.isLetter code || CodePoint.isDecimalDigit code
  | .stray _ => false

/-- The bytes of the longest run of identifier characters at the front. -/
def wordLength : Bytes → Nat
  | [] => 0
  | b :: rest =>
    let rune := Utf8.decodeCons b rest
    if continuesWord rune then rune.size + wordLength ((b :: rest).drop rune.size) else 0
termination_by s => s.length
decreasing_by
  have := Utf8.size_decodeCons_pos b rest
  simp only [List.length_drop, List.length_cons]
  omega

/-- An identifier or a keyword. -/
def word (b : UInt8) (rest : Bytes) : Lexeme :=
  let first := (Utf8.decodeCons b rest).size
  let size := first + wordLength ((b :: rest).drop first)
  let text := (b :: rest).take size
  ⟨(Kind.keyword? text).getD .ident, text, size, []⟩

/-- The digits of a number after the mark of its base, if it has one: which bytes count as digits,
and how many bytes come before the first of them. -/
def numeral (b : UInt8) (rest : Bytes) : (UInt8 → Bool) × Nat :=
  match rest with
  | x :: _ =>
    if b ≠ byte '0' then (Bytes.isDigit, 0)
    else if x = byte 'x' || x = byte 'X' then (Bytes.isHexDigit, 2)
    else if x = byte 'b' || x = byte 'B' then (fun d => d == byte '0' || d == byte '1', 2)
    else (Bytes.isDigit, 0)
  | [] => (Bytes.isDigit, 0)

/-- A number: digits and underscores. It is malformed when it has no digit or when identifier
characters follow it directly; they are then part of it. -/
def number (b : UInt8) (rest : Bytes) : Lexeme :=
  let (isDigit, mark) := numeral b rest
  let body := ((b :: rest).drop mark).takeWhile fun d => isDigit d || d == byte '_'
  let glued := wordLength ((b :: rest).drop (mark + body.length))
  let size := max 1 (mark + body.length + glued)
  let text := (b :: rest).take size
  if body.any isDigit && glued == 0 then ⟨.intLit, text, size, []⟩
  else ⟨.invalid, text, size, [⟨.malformedNumber, 0, size⟩]⟩

/-- What follows the opening quote of a string: the bytes up to and with the closing quote, or up to
the end of the line when there is none. -/
structure StringBody where
  size : Nat
  isClosed : Bool
  flaws : List Flaw

/-- Is the byte after a backslash part of a known escape? -/
def isEscape (b : UInt8) : Bool :=
  b == byte '"' || b == byte '\\' || b == byte 'n' || b == byte 't'

/-- Reads the inside of a string from an offset on. A backslash takes the character after it along,
unless that is the end of the line or a NUL. -/
def stringBody (offset : Nat) : Bytes → StringBody
  | [] => ⟨offset, false, []⟩
  | b :: rest =>
    if b = lineFeed then ⟨offset, false, []⟩
    else if b = byte '"' then ⟨offset + 1, true, []⟩
    else if b ≠ byte '\\' then stringBody (offset + 1) rest
    else match rest with
      | [] => stringBody (offset + 1) []
      | c :: more =>
        if isEscape c then stringBody (offset + 2) more
        else if c = lineFeed || c = 0 then stringBody (offset + 1) (c :: more)
        else
          let size := (Utf8.decodeCons c more).size
          let body := stringBody (offset + 1 + size) ((c :: more).drop size)
          ⟨body.size, body.isClosed, ⟨.unknownEscape, offset, offset + 1 + size⟩ :: body.flaws⟩
termination_by s => s.length
decreasing_by
  all_goals simp only [List.length_drop, List.length_cons, List.length_nil]
  all_goals omega

/-- A string literal. -/
def string (b : UInt8) (rest : Bytes) : Lexeme :=
  let body := stringBody 1 rest
  let size := max 1 body.size
  let text := (b :: rest).take size
  if body.isClosed then ⟨.stringLit, text, size, body.flaws⟩
  else ⟨.invalid, text, size, body.flaws ++ [⟨.unterminatedString, 0, size⟩]⟩

/-- A raw command: the rest of the line without the blanks at its end. -/
def command (b : UInt8) (rest : Bytes) : Lexeme :=
  let line := rest.takeWhile (· != lineFeed)
  let isBlank := fun c => c == byte ' ' || c == byte '\t' || c == byte '\r'
  ⟨.command, b :: (line.reverse.dropWhile isBlank).reverse, 1 + line.length, []⟩

/-- The operators of two bytes. -/
def operatorPair? (a b : UInt8) : Option Kind :=
  [Kind.dotDot, .eqEq, .bangEq, .ltEq, .gtEq, .plusAssign, .minusAssign, .starAssign, .slashAssign,
    .percentAssign, .ampAssign, .caretAssign, .pipeAssign].find? fun k =>
      (k.spelling?.map Bytes.ofString) == some [a, b]

/-- The operators and punctuation marks of one byte. -/
def operatorByte? (b : UInt8) : Option Kind :=
  [Kind.plus, .minus, .star, .slash, .percent, .bang, .amp, .pipe, .caret, .assign, .lt, .gt,
    .lParen, .rParen, .comma, .colon, .dot].find? fun k =>
      (k.spelling?.map Bytes.ofString) == some [b]

/-- An operator or punctuation mark, the longer one if there are two; anything else is one unknown
character. -/
def operator (b : UInt8) (rest : Bytes) : Lexeme :=
  match rest.head?.bind (operatorPair? b) with
  | some k => ⟨k, (b :: rest).take 2, 2, []⟩
  | none =>
    match operatorByte? b with
    | some k => ⟨k, [b], 1, []⟩
    | none =>
      let size := (Utf8.decodeCons b rest).size
      let text := (b :: rest).take size
      ⟨.invalid, text, size, [⟨.unknownCharacter text, 0, size⟩]⟩

/-- Reads the lexeme at the front; a slash starts a command only at the start of a line. -/
def read (atLineStart : Bool) (b : UInt8) (rest : Bytes) : Lexeme :=
  if b = byte '/' && atLineStart then command b rest
  else if Bytes.isDigit b then number b rest
  else if b = byte '"' then string b rest
  else if startsWord (Utf8.decodeCons b rest) then word b rest
  else operator b rest

theorem size_read_pos (atLineStart : Bool) (b : UInt8) (rest : Bytes) :
    0 < (read atLineStart b rest).size := by
  have hrune := Utf8.size_decodeCons_pos b rest
  unfold read
  split
  · simp only [command]; omega
  split
  · simp only [number]; split <;> simp only <;> omega
  split
  · simp only [string]; split <;> simp only <;> omega
  split
  · simp only [word]; omega
  · simp only [operator]; split
    · simp
    · split
      · simp
      · exact hrune

end Lexeme

end Craftlang
