import Craftlang.Diagnostic.Basic
import Craftlang.Token.Basic
import Craftlang.Tree.Arena

/-!
# The state of parsing

A parser works on the tokens that remain. What it leaves is always an end piece of what it was given
(`Parsed.within`), so a parser that takes a token first comes to an end. A problem is noted together
with the number of tokens that had been looked at when it was found: lexical problems of those
tokens come before it.
-/

namespace Craftlang.Parse

/-- What a parser may look for in vain. -/
inductive Expectation where
  | identifier
  | typeName
  | expression
  | lineEnd
  | block
  | statement
  | functionAfterTag
  | commaOrClose
  | token (kind : Kind)
deriving DecidableEq, Repr

namespace Expectation

def code : Expectation → Code
  | identifier => .expectedIdentifier
  | typeName => .expectedType
  | expression => .expectedExpression
  | lineEnd => .expectedLineEnd
  | block => .expectedBlock
  | functionAfterTag => .tagWithoutFunction
  | statement | commaOrClose | token _ => .unexpectedToken

def text : Expectation → Bytes
  | identifier => "identifier"
  | typeName => "type name"
  | expression => "expression"
  | lineEnd => "end of line"
  | block => "an indented block"
  | functionAfterTag => "'fun' after 'tag'"
  | statement => "statement"
  | commaOrClose => "',' or ')'"
  | token kind => kind.describe

end Expectation

/-- What can be wrong with the order of tokens. -/
inductive Problem where
  | expected (what : Expectation) (got : Bytes)
  | unexpectedIndent
  | badAssignmentTarget
  | lateNamespace
deriving DecidableEq, Repr

namespace Problem

def code : Problem → Code
  | expected what _ => what.code
  | unexpectedIndent => .unexpectedIndentation
  | badAssignmentTarget => .badAssignmentTarget
  | lateNamespace => .namespacePosition

def message : Problem → Bytes
  | expected what got => "expected " ++ what.text ++ ", got " ++ got
  | unexpectedIndent => "unexpected indent"
  | badAssignmentTarget => "cannot assign to this expression, expected a variable name"
  | lateNamespace => "'namespace' must be the first line of the file"

def report (p : Problem) (span : Span) : Diagnostic := .error p.code span p.message

end Problem

/-- A problem, where it is, and the number of tokens that had not been looked at when it was found. -/
structure Finding where
  unseen : Nat
  problem : Problem
  span : Span
deriving DecidableEq, Repr

def Finding.diagnostic (f : Finding) : Diagnostic := f.problem.report f.span

/-- The tokens that remain, without the end of the file; the span of the last token that was taken
and is no layout; the number of the next node; and what was found, and what was made, newest first. -/
structure State where
  rest : List Token
  lastSpan : Span
  nextId : Nat := 1
  findings : List Finding := []
  made : List Made := []

namespace State

/-- The kind of the next token. -/
def kind (s : State) : Kind := (s.rest.head?.map (·.kind)).getD .eof

/-- What messages call the next token. -/
def description (s : State) : Bytes := (s.rest.head?.map Token.describe).getD Kind.eof.describe

/-- Where a problem at the next token is shown: at the token, but for the end of a line, of a block
or of the file right after the last token. -/
def problemSpan (s : State) : Span :=
  match s.rest with
  | [] => s.lastSpan.endPoint
  | t :: _ => if t.kind.isLayout || t.kind == .eof then s.lastSpan.endPoint else t.span

/-- Reports a problem at a place; the next token has been looked at. -/
def report (s : State) (p : Problem) (span : Span) : State :=
  { s with findings := ⟨s.rest.length - 1, p, span⟩ :: s.findings }

/-- Reports that something else stands where `what` is expected; an invalid token was reported
before. -/
def reportExpected (s : State) (what : Expectation) : State :=
  if s.kind == .invalid then s else s.report (.expected what s.description) s.problemSpan

/-- The state after a node was made. What was made stays, also when nothing comes of it. -/
def making (s : State) (m : Made) : State := { s with nextId := s.nextId + 1, made := m :: s.made }

/-- The state with what was found in another. -/
def withFindings (s other : State) : State := { s with findings := other.findings }

theorem suffix_reportExpected (s : State) (what : Expectation) :
    (s.reportExpected what).rest <:+ s.rest := by
  unfold reportExpected
  split
  · exact List.suffix_rfl
  · exact List.suffix_rfl

/-- The span of the last token that is no layout, once a token is taken. -/
def spanAfter (last : Span) (t : Token) : Span :=
  if t.kind.isLayout || t.kind == .eof then last else t.span

/-- The state after the next token `t`. -/
def after (s : State) (t : Token) (rest : List Token) : State :=
  { s with rest, lastSpan := spanAfter s.lastSpan t }

end State

/-- The next token and the state after it. -/
structure Step (s : State) where
  token : Token
  state : State
  cons : s.rest = token :: state.rest

/-- Takes the next token. -/
def State.step? (s : State) : Option (Step s) :=
  match h : s.rest with
  | [] => none
  | t :: rest => some ⟨t, s.after t rest, h⟩

theorem Step.suffix {s : State} (step : Step s) : step.state.rest <:+ s.rest :=
  ⟨[step.token], by simp [step.cons]⟩

theorem Step.length_lt {s : State} (step : Step s) :
    step.state.rest.length < s.rest.length := by
  simp [step.cons]

/-- A state with fewer tokens lies behind the next token. -/
theorem Step.suffix_of_length_lt {s t : State} (step : Step s) (h : t.rest <:+ s.rest)
    (hlt : t.rest.length < s.rest.length) : t.rest <:+ step.state.rest := by
  rcases List.suffix_cons_iff.1 (step.cons ▸ h) with heq | htail
  · rw [heq, ← step.cons] at hlt
    exact absurd hlt (Nat.lt_irrefl _)
  · exact htail

/-- Takes the next token if it is of a kind. -/
def State.take? (s : State) (kind : Kind) : Option (Step s) :=
  match s.step? with
  | some step => if step.token.kind = kind then some step else none
  | none => none

/-- What a parser makes of a state: a value and the state it leaves. -/
structure Parsed (s : State) (α : Type) where
  value : α
  state : State
  within : state.rest <:+ s.rest

/-- A parser that may fail; a failure has been reported. -/
abbrev Attempt (s : State) (α : Type) := Parsed s (Option α)

namespace Parsed

def pure {α : Type} (s : State) (a : α) : Parsed s α := ⟨a, s, List.suffix_rfl⟩

/-- The same result, seen from an earlier state. -/
def since {s t : State} {α : Type} (p : Parsed t α) (h : t.rest <:+ s.rest) : Parsed s α :=
  ⟨p.value, p.state, p.within.trans h⟩

/-- Goes on from the state that was left. -/
def andThen {s : State} {α β : Type} (p : Parsed s α)
    (next : α → (t : State) → t.rest.length ≤ s.rest.length → Parsed t β) : Parsed s β :=
  (next p.value p.state p.within.length_le).since p.within

theorem length_le {s : State} {α : Type} (p : Parsed s α) :
    p.state.rest.length ≤ s.rest.length :=
  p.within.length_le

/-- What goes on after a token has fewer tokens left. -/
theorem length_since_lt {s : State} {α : Type} (step : Step s) (p : Parsed step.state α) :
    (p.since step.suffix).state.rest.length < s.rest.length :=
  Nat.lt_of_le_of_lt p.length_le step.length_lt

end Parsed

namespace Attempt

def ok {α : Type} (s : State) (a : α) : Attempt s α := Parsed.pure s (some a)

/-- Fails because something else stands where `what` is expected. -/
def expected {α : Type} (s : State) (what : Expectation) : Attempt s α :=
  ⟨none, s.reportExpected what, s.suffix_reportExpected what⟩

/-- Makes a node with a number of its own. -/
def build {α : Type} [IsNode α] (s : State) (span : Span) (make : Node → α) : Attempt s α :=
  ⟨some (make ⟨s.nextId, span⟩), s.making (IsNode.made (make ⟨s.nextId, span⟩)), List.suffix_rfl⟩

/-- Goes on with the result, unless there is none. -/
def bind {s : State} {α β : Type} (p : Attempt s α)
    (next : α → (t : State) → t.rest.length ≤ s.rest.length → Attempt t β) : Attempt s β :=
  match p.value with
  | none => ⟨none, p.state, p.within⟩
  | some a => (next a p.state p.within.length_le).since p.within

/-- What a first parser takes when it succeeds, a chain of parsers takes too. -/
theorem length_bind_lt {s : State} {α β : Type} {p : Attempt s α}
    {next : α → (t : State) → t.rest.length ≤ s.rest.length → Attempt t β}
    (hp : p.value.isSome → p.state.rest.length < s.rest.length)
    (h : (p.bind next).value.isSome) : (p.bind next).state.rest.length < s.rest.length := by
  unfold bind at h ⊢
  split at h
  · simp at h
  · rename_i a ha
    exact Nat.lt_of_le_of_lt (next a p.state p.within.length_le).within.length_le (hp (by simp [ha]))

end Attempt

/-- Reports a problem at a place and fails. -/
def Attempt.problem {α : Type} (s : State) (p : Problem) (span : Span) : Attempt s α :=
  ⟨none, s.report p span, List.suffix_rfl⟩

/-- Makes a node with a number of its own. -/
def Parsed.build {α : Type} [IsNode α] (s : State) (span : Span) (make : Node → α) : Parsed s α :=
  ⟨make ⟨s.nextId, span⟩, s.making (IsNode.made (make ⟨s.nextId, span⟩)), List.suffix_rfl⟩

/-- Takes a token of a kind, or fails. -/
def expect (s : State) (kind : Kind) : Attempt s Token :=
  match s.take? kind with
  | some step => (Attempt.ok step.state step.token).since step.suffix
  | none => .expected s (.token kind)

/-- An identifier. -/
def identifier (s : State) : Attempt s Name :=
  match s.take? .ident with
  | some step => (Attempt.ok step.state ⟨step.token.text, step.token.span⟩).since step.suffix
  | none => .expected s .identifier

/-- The name of a type. -/
def typeName (s : State) : Attempt s Name :=
  match s.take? .ident with
  | some step => (Attempt.ok step.state ⟨step.token.text, step.token.span⟩).since step.suffix
  | none => .expected s .typeName

end Craftlang.Parse
