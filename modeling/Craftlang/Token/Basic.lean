import Craftlang.Text.Bytes
import Craftlang.Source.Span

/-!
# Tokens

What the lexer makes of a source, piece by piece.
-/

/-!
## Kinds of tokens

Besides identifiers, literals, keywords and operators there are layout tokens, which stand for the
ends of lines and for changes of indentation, raw commands, which take the rest of a line, and
invalid tokens for what could not be read.
-/

namespace Craftlang

inductive Kind where
  | invalid | eof | newline | indent | dedent | ident | command | kwNamespace | kwFun | kwVar
  | kwType | kwTag | kwIf | kwElse | kwWhile | kwDo | kwBreak | kwContinue | kwReturn | kwTrue
  | kwFalse | intLit | stringLit | plus | minus | star | slash | percent | bang | amp | pipe
  | caret | dotDot | assign | plusAssign | minusAssign | starAssign | slashAssign | percentAssign
  | ampAssign | caretAssign | pipeAssign | eqEq | bangEq | lt | ltEq | gt | gtEq | lParen
  | rParen | comma | colon | dot
deriving DecidableEq, Repr, Inhabited

namespace Kind

/-- All kinds; a kind's number is its place here. -/
def all : List Kind :=
  [.invalid, .eof, .newline, .indent, .dedent, .ident, .command, .kwNamespace, .kwFun, .kwVar,
   .kwType, .kwTag, .kwIf, .kwElse, .kwWhile, .kwDo, .kwBreak, .kwContinue, .kwReturn, .kwTrue,
   .kwFalse, .intLit, .stringLit, .plus, .minus, .star, .slash, .percent, .bang, .amp, .pipe,
   .caret, .dotDot, .assign, .plusAssign, .minusAssign, .starAssign, .slashAssign,
   .percentAssign, .ampAssign, .caretAssign, .pipeAssign, .eqEq, .bangEq, .lt, .ltEq, .gt, .gtEq,
   .lParen, .rParen, .comma, .colon, .dot]

/-- The kind with a number. -/
def ofNumber? (n : Nat) : Option Kind := all[n]?

/-- The name of a kind in listings. -/
def name : Kind → String
  | invalid => "Invalid"
  | eof => "EOF"
  | newline => "Newline"
  | indent => "Indent"
  | dedent => "Dedent"
  | ident => "Ident"
  | command => "Command"
  | kwNamespace => "KwNamespace"
  | kwFun => "KwFun"
  | kwVar => "KwVar"
  | kwType => "KwType"
  | kwTag => "KwTag"
  | kwIf => "KwIf"
  | kwElse => "KwElse"
  | kwWhile => "KwWhile"
  | kwDo => "KwDo"
  | kwBreak => "KwBreak"
  | kwContinue => "KwContinue"
  | kwReturn => "KwReturn"
  | kwTrue => "KwTrue"
  | kwFalse => "KwFalse"
  | intLit => "IntLit"
  | stringLit => "StringLit"
  | plus => "Plus"
  | minus => "Minus"
  | star => "Star"
  | slash => "Slash"
  | percent => "Percent"
  | bang => "Bang"
  | amp => "Amp"
  | pipe => "Pipe"
  | caret => "Caret"
  | dotDot => "DotDot"
  | assign => "Assign"
  | plusAssign => "PlusAssign"
  | minusAssign => "MinusAssign"
  | starAssign => "StarAssign"
  | slashAssign => "SlashAssign"
  | percentAssign => "PercentAssign"
  | ampAssign => "AmpAssign"
  | caretAssign => "CaretAssign"
  | pipeAssign => "PipeAssign"
  | eqEq => "EqEq"
  | bangEq => "BangEq"
  | lt => "Lt"
  | ltEq => "LtEq"
  | gt => "Gt"
  | gtEq => "GtEq"
  | lParen => "LParen"
  | rParen => "RParen"
  | comma => "Comma"
  | colon => "Colon"
  | dot => "Dot"

/-- The name under which a number without a kind is listed. -/
def unknownName : String := "Kind(?)"

/-- How a keyword, an operator or a punctuation mark is written. -/
def spelling? : Kind → Option String
  | kwNamespace => some "namespace"
  | kwFun => some "fun"
  | kwVar => some "var"
  | kwType => some "type"
  | kwTag => some "tag"
  | kwIf => some "if"
  | kwElse => some "else"
  | kwWhile => some "while"
  | kwDo => some "do"
  | kwBreak => some "break"
  | kwContinue => some "continue"
  | kwReturn => some "return"
  | kwTrue => some "true"
  | kwFalse => some "false"
  | plus => some "+"
  | minus => some "-"
  | star => some "*"
  | slash => some "/"
  | percent => some "%"
  | bang => some "!"
  | amp => some "&"
  | pipe => some "|"
  | caret => some "^"
  | dotDot => some ".."
  | assign => some "="
  | plusAssign => some "+="
  | minusAssign => some "-="
  | starAssign => some "*="
  | slashAssign => some "/="
  | percentAssign => some "%="
  | ampAssign => some "&="
  | caretAssign => some "^="
  | pipeAssign => some "|="
  | eqEq => some "=="
  | bangEq => some "!="
  | lt => some "<"
  | ltEq => some "<="
  | gt => some ">"
  | gtEq => some ">="
  | lParen => some "("
  | rParen => some ")"
  | comma => some ","
  | colon => some ":"
  | dot => some "."
  | _ => none

/-- What messages call a kind: a spelling in quotes, or a few words. -/
def describe (k : Kind) : Bytes :=
  match k with
  | .invalid => "Invalid"
  | .eof => "end of file"
  | .newline => "end of line"
  | .indent => "indented block"
  | .dedent => "end of block"
  | .ident => "identifier"
  | .command => "command"
  | .intLit => "integer literal"
  | .stringLit => "string literal"
  | k => "'" ++ Bytes.ofString (k.spelling?.getD "") ++ "'"

/-- The keywords. -/
def keywords : List Kind :=
  [.kwNamespace, .kwFun, .kwVar, .kwType, .kwTag, .kwIf, .kwElse, .kwWhile, .kwDo, .kwBreak,
   .kwContinue, .kwReturn, .kwTrue, .kwFalse]

/-- The keyword that a word spells; case matters. -/
def keyword? (word : Bytes) : Option Kind :=
  keywords.find? fun k => (k.spelling?.map Bytes.ofString) == some word

def isKeyword (k : Kind) : Bool := keywords.contains k

def isLiteral : Kind → Bool
  | intLit | stringLit | kwTrue | kwFalse => true
  | _ => false

def isLayout : Kind → Bool
  | newline | indent | dedent => true
  | _ => false

/-- Is it `=` or a compound assignment? -/
def isAssignment : Kind → Bool
  | assign | plusAssign | minusAssign | starAssign | slashAssign | percentAssign | ampAssign
  | caretAssign | pipeAssign => true
  | _ => false

end Kind

/-!
## Tokens and what stands before them

A token has a kind, a place, the text it was read from, and the blanks, line ends and comments that
were skipped before it.
-/

inductive TriviaKind where
  | space | newline | comment
deriving DecidableEq, Repr

namespace TriviaKind

def name : TriviaKind → String
  | space => "Space"
  | newline => "Newline"
  | comment => "Comment"

/-- The kind with a number: spaces, line ends, comments. -/
def ofNumber? : Nat → Option TriviaKind
  | 0 => some space
  | 1 => some newline
  | 2 => some comment
  | _ => none

/-- The name under which a number without a kind is listed. -/
def unknownName : String := "Trivia(?)"

end TriviaKind

/-- Text without meaning before a token. -/
structure Trivia where
  kind : TriviaKind
  span : Span
  text : Bytes
deriving DecidableEq, Repr

structure Token where
  kind : Kind
  span : Span
  text : Bytes := []
  leading : List Trivia := []
deriving DecidableEq, Repr, Inhabited

namespace Token

/-- The end of a file of a given size. -/
def endOfFile (file size : Nat) : Token := ⟨.eof, .point file size, [], []⟩

/-- What messages call a token: identifiers and literals with their text. -/
def describe (t : Token) : Bytes :=
  match t.kind with
  | .ident => "identifier '" ++ t.text ++ "'"
  | .intLit | .stringLit => t.kind.describe ++ " " ++ t.text
  | .invalid => "'" ++ t.text ++ "'"
  | k => k.describe

end Token

end Craftlang
