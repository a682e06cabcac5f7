import Craftlang.Source.File
import Craftlang.Token.Basic
import Craftlang.Token.Lexeme

/-!
# From text to tokens

Text is read piece by piece: blanks, comments, line ends and lexemes. A line end is a token only
outside parentheses and only when its line has a token; the first lexeme of a line first settles the
layout. `tokenize` reads a whole file; a `Lexer` hands out the same tokens one at a time.
-/

/-!
## Layout

Indentation opens and closes blocks. The open levels form a stack above the outermost level, which
has no indentation and is never closed. A line that is indented deeper than the innermost level
opens one; a line that is indented less closes every deeper level.
-/

namespace Craftlang.Layout

/-- An open level: the blanks its lines start with. A phantom level was entered to recover from an
unindent that fits no level; no token opened it, so none closes it. -/
structure Level where
  indentation : Bytes
  isPhantom : Bool := false
deriving DecidableEq, Repr

/-- The indentation of the innermost of the open levels, innermost first. -/
def innermost : List Level → Bytes
  | [] => []
  | level :: _ => level.indentation

/-- What a new line does to the open levels. -/
inductive Change where
  | none
  | opens
  | closes (levels : Nat)
  | unmatched (levels : Nat)
  | mixed
deriving DecidableEq, Repr

/-- The levels that lie deeper than an indentation, and the others. -/
def splitDeeper (levels : List Level) (indentation : Bytes) : List Level × List Level :=
  levels.span fun l => indentation.length < l.indentation.length

/-- How many tokens it takes to close levels. -/
def closings (levels : List Level) : Nat := levels.countP (!·.isPhantom)

/-- The levels after a line with a given indentation starts, and what changed. -/
def enter (levels : List Level) (indentation : Bytes) : List Level × Change :=
  let top := innermost levels
  if indentation == top then (levels, .none)
  else if top.isPrefixOf indentation then (⟨indentation, false⟩ :: levels, .opens)
  else if indentation.isPrefixOf top then
    let (deeper, others) := splitDeeper levels indentation
    if innermost others == indentation then (others, .closes (closings deeper))
    else (⟨indentation, true⟩ :: others, .unmatched (closings deeper))
  else match levels with
    | [] => ([], .mixed)
    | level :: others => (⟨indentation, level.isPhantom⟩ :: others, .mixed)

end Craftlang.Layout

namespace Craftlang

/-- What stands at the front of the remaining text. -/
inductive Piece where
  | blank (size : Nat)
  | comment (size : Nat)
  | lineEnd
  | lexeme (l : Lexeme)

namespace Piece

def isBlank (b : UInt8) : Bool := b == byte ' ' || b == byte '\t' || b == byte '\r'

/-- Reads the piece at the front. -/
def read (atLineStart : Bool) (b : UInt8) (rest : Bytes) : Piece :=
  if isBlank b then .blank (1 + (rest.takeWhile isBlank).length)
  else if b = byte '#' then .comment (1 + (rest.takeWhile (· != lineFeed)).length)
  else if b = lineFeed then .lineEnd
  else .lexeme (Lexeme.read atLineStart b rest)

def size : Piece → Nat
  | blank n | comment n => n
  | lineEnd => 1
  | lexeme l => l.size

theorem size_read_pos (atLineStart : Bool) (b : UInt8) (rest : Bytes) :
    0 < (read atLineStart b rest).size := by
  unfold read
  split
  · simp only [size]; omega
  split
  · simp only [size]; omega
  split
  · simp [size]
  · exact Lexeme.size_read_pos atLineStart b rest

end Piece

/-- Tokens that are read together, and what was reported on the way. -/
structure Batch where
  tokens : List Token := []
  diagnostics : List Diagnostic := []

/-- The state of reading: the text that remains, the trivia kept for the next token, the blanks the
current line starts with, the open levels (innermost first), whether the current line has a token,
and how many parentheses are open. -/
structure Scan where
  file : Nat
  offset : Nat
  rest : Bytes
  held : List Trivia := []
  margin : Bytes := []
  levels : List Layout.Level := []
  inLine : Bool := false
  depth : Nat := 0

namespace Scan

def start (file : File) : Scan :=
  ⟨file.id, 0, file.content, [], [], [], false, 0⟩

/-- Can layout tokens or a command come here? -/
def atLineStart (s : Scan) : Bool := !s.inLine && s.depth == 0

/-- The span of the next `size` bytes. -/
def ahead (s : Scan) (size : Nat) : Span := ⟨s.file, s.offset, s.offset + size⟩

def here (s : Scan) : Span := .point s.file s.offset

/-- Keeps the next `size` bytes as trivia. -/
def hold (s : Scan) (kind : TriviaKind) (size : Nat) : Scan :=
  { s with held := s.held ++ [⟨kind, s.ahead size, s.rest.take size⟩] }

/-- The tokens that close levels at the current place. -/
def dedents (s : Scan) (n : Nat) : List Token := List.replicate n ⟨.dedent, s.here, [], []⟩

/-- Settles the layout for the first lexeme of a line. -/
def settle (s : Scan) : Scan × Batch :=
  let (levels, change) := Layout.enter s.levels s.margin
  let margin : Span := ⟨s.file, s.offset - s.margin.length, s.offset⟩
  let batch : Batch :=
    match change with
    | .none => {}
    | .opens => ⟨[⟨.indent, margin, s.margin, []⟩], []⟩
    | .closes n => ⟨s.dedents n, []⟩
    | .unmatched n => ⟨s.dedents n, [LexicalProblem.unmatchedUnindent.report margin]⟩
    | .mixed => ⟨[], [LexicalProblem.mixedIndentation.report margin]⟩
  ({ s with levels }, batch)

/-- The number of open parentheses after a token; a closing one too many is let pass. -/
def depthAfter (depth : Nat) : Kind → Nat
  | .lParen => depth + 1
  | .rParen => depth - 1
  | _ => depth

/-- Emits a lexeme with the trivia before it. -/
def emit (s : Scan) (l : Lexeme) : Scan × Batch :=
  let token : Token := ⟨l.kind, s.ahead l.text.length, l.text, s.held⟩
  let flaws := l.flaws.map fun f =>
    f.problem.report ⟨s.file, s.offset + f.start, s.offset + f.stop⟩
  ({ s with held := [], inLine := true, depth := depthAfter s.depth l.kind }, ⟨[token], flaws⟩)

/-- What a piece does, before the text moves on past it. -/
def take (s : Scan) : Piece → Scan × Batch
  | .blank size =>
    if s.atLineStart then ({ s with margin := s.margin ++ s.rest.take size }, {})
    else (s.hold .space size, {})
  | .comment size => (s.hold .comment size, {})
  | .lineEnd =>
    if s.inLine && s.depth == 0 then
      ({ s with held := [], margin := [], inLine := false },
        ⟨[⟨.newline, s.ahead 1, [lineFeed], s.held⟩], []⟩)
    else ({ s.hold .newline 1 with margin := [] }, {})
  | .lexeme l =>
    let (settled, layout) := if s.atLineStart then s.settle else (s, {})
    let (emitted, batch) := settled.emit l
    (emitted, ⟨layout.tokens ++ batch.tokens, layout.diagnostics ++ batch.diagnostics⟩)

/-- Moves on past `size` bytes. -/
def skip (s : Scan) (size : Nat) : Scan :=
  { s with offset := s.offset + size, rest := s.rest.drop size }

/-- Reads one piece; `b` and `rest` are the remaining text. -/
def step (s : Scan) (b : UInt8) (rest : Bytes) : Scan × Batch :=
  let piece := Piece.read s.atLineStart b rest
  let (s', batch) := s.take piece
  (s'.skip piece.size, batch)

/-- The end of the text ends the last line and closes every level. -/
def finish (s : Scan) : Batch :=
  let newline : List Token := if s.inLine then [⟨.newline, s.here, [], s.held⟩] else []
  let held := if s.inLine then [] else s.held
  ⟨newline ++ s.dedents (Layout.closings s.levels) ++ [⟨.eof, s.here, [], held⟩], []⟩

@[simp] theorem rest_hold (s : Scan) (kind : TriviaKind) (size : Nat) :
    (s.hold kind size).rest = s.rest := rfl

/-- Taking a piece leaves the text alone. -/
theorem rest_take (s : Scan) (piece : Piece) : (s.take piece).1.rest = s.rest := by
  cases piece with
  | blank n => simp only [take]; split <;> rfl
  | comment n => rfl
  | lineEnd => simp only [take]; split <;> rfl
  | lexeme l =>
    simp only [take, emit]
    split <;> rfl

/-- Every step shortens the remaining text. -/
theorem step_rest_lt (s : Scan) (b : UInt8) (rest : Bytes) (h : s.rest = b :: rest) :
    (s.step b rest).1.rest.length < s.rest.length := by
  have hsize := Piece.size_read_pos s.atLineStart b rest
  simp only [step, skip, rest_take, List.length_drop]
  have : 0 < s.rest.length := by simp [h]
  omega

/-- All batches to the end of the text. -/
def batches (s : Scan) : List Batch :=
  match _h : s.rest with
  | [] => [s.finish]
  | b :: rest => (s.step b rest).2 :: batches (s.step b rest).1
termination_by s.rest.length
decreasing_by exact step_rest_lt s b rest _h

/-- Reads on to the next batch that has a token; says whether it is the one at the end of the text. -/
def nextBatch (s : Scan) : Batch × Scan × Bool :=
  match _h : s.rest with
  | [] => (s.finish, { s with held := [], levels := [], inLine := false }, true)
  | b :: rest =>
    if (s.step b rest).2.tokens.isEmpty then nextBatch (s.step b rest).1
    else ((s.step b rest).2, (s.step b rest).1, false)
termination_by s.rest.length
decreasing_by exact step_rest_lt s b rest _h

end Scan

namespace File

/-- A file as batches of tokens. -/
def scan (file : File) : List Batch := (Scan.start file).batches

/-- All tokens of a file; the last one is the end of the file. -/
def tokenize (file : File) : List Token := file.scan.flatMap (·.tokens)

/-- What is wrong with the text of a file, in the order of the text. -/
def lexicalDiagnostics (file : File) : List Diagnostic := file.scan.flatMap (·.diagnostics)

end File

/-- Hands out the tokens of a file one at a time. It reads no further than it has to: `look` is the token that was
looked at last and is still to be taken, and the tokens of `queue` come behind it. Past the end it hands out the end of
the file again. -/
structure Lexer where
  file : File
  scan : Scan
  look : Option Token := none
  queue : List Token := []
  atEnd : Bool := false

namespace Lexer

/-- Starts again at the front of the file. -/
def reset (lexer : Lexer) : Lexer :=
  { lexer with
    scan := { lexer.scan with
      file := lexer.file.id
      offset := 0
      rest := lexer.file.content
      held := []
      margin := []
      levels := []
      inLine := false
      depth := 0 }
    look := none
    queue := []
    atEnd := false }

def start (file : File) : Lexer := reset { file, scan := ⟨file.id, 0, [], [], [], [], false, 0⟩ }

def endOfFile (lexer : Lexer) : Token := .endOfFile lexer.file.id lexer.file.size

/-- Reads on until a token is waiting; what is reported on the way comes along. -/
def advance (lexer : Lexer) : Lexer × List Diagnostic :=
  let (batch, scan, atEnd) := lexer.scan.nextBatch
  ({ lexer with scan, atEnd, queue := lexer.queue ++ batch.tokens }, batch.diagnostics)

/-- Takes the first of the tokens that wait. -/
def pop (lexer : Lexer) : Token × Lexer :=
  match lexer.queue with
  | [] => (lexer.endOfFile, lexer)
  | token :: queue => (token, { lexer with queue })

/-- Takes the next token. -/
def next (lexer : Lexer) : Token × Lexer × List Diagnostic :=
  match lexer.look, lexer.queue with
  | some token, _ => (token, { lexer with look := none }, [])
  | none, _ :: _ =>
    let (token, popped) := lexer.pop
    (token, popped, [])
  | none, [] =>
    if lexer.atEnd then (lexer.endOfFile, lexer, [])
    else
      let (filled, reported) := lexer.advance
      let (token, popped) := filled.pop
      (token, popped, reported)

/-- The next token, without taking it. -/
def peek (lexer : Lexer) : Token × Lexer × List Diagnostic :=
  match lexer.look with
  | some token => (token, lexer, [])
  | none =>
    let (token, after, reported) := lexer.next
    (token, { after with look := some token }, reported)

end Lexer

end Craftlang
