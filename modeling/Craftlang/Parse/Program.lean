import Craftlang.Parse.Stmt
import Craftlang.Token.Lexer
import Craftlang.Tree.Arena

/-!
# Parsing programs

A program is an optional `namespace` line and a list of items: functions with their tags, type
aliases, and statements. Its diagnostics are those of its text and of its order of tokens, in the
order in which a reader who looks one token ahead meets them.
-/

namespace Craftlang.Parse

/-- Names joined by dots. -/
def dottedName (s : State) : Attempt s DottedName :=
  (identifier s).bind fun name t _ =>
    match t.take? .dot with
    | none => .ok t ⟨[name.text], name.span⟩
    | some dot =>
      ((dottedName dot.state).bind fun more u _ =>
        .ok u ⟨name.text :: more.parts, name.span.cover more.span⟩).since dot.suffix
termination_by s.rest.length
decreasing_by
  have := dot.length_lt
  omega

/-- The namespace line, if the program starts with one; a faulty one is skipped. -/
def header (s : State) : Parsed s (Option DottedName) :=
  match s.take? .kwNamespace with
  | none => .pure s none
  | some step =>
    ((dottedName step.state).andThen fun name t _ =>
      match name with
      | none => (recovered t).andThen fun _ u _ => .pure u none
      | some name =>
        (lineEnd t).andThen fun ended u _ =>
          .pure u (if ended then some name else none)).since step.suffix

/-- A name and its type. -/
def parameter (s : State) : Attempt s Param :=
  (identifier s).bind fun name t _ =>
    (expect t .colon).bind fun _ u _ =>
      (typeName u).bind fun type v _ => .ok v ⟨name, type⟩

/-- One parameter or more, up to the closing parenthesis. -/
def parameterList (s : State) : Attempt s (List Param) :=
  (parameter s).bind fun param t _ =>
    match t.take? .comma with
    | some comma =>
      ((parameterList comma.state).bind fun params u _ =>
        .ok u (param :: params)).since comma.suffix
    | none =>
      match t.take? .rParen with
      | some close => (Attempt.ok close.state [param]).since close.suffix
      | none => .expected t .commaOrClose
termination_by s.rest.length
decreasing_by
  have := comma.length_lt
  omega

/-- The parameters of a function after the opening parenthesis. -/
def parameters (s : State) : Attempt s (List Param) :=
  match s.take? .rParen with
  | some close => (Attempt.ok close.state []).since close.suffix
  | none => parameterList s

/-- The name, the parameters and the result type of a function. -/
def signature (s : State) : Attempt s (Name × List Param × Option Name) :=
  (identifier s).bind fun name t _ =>
    (expect t .lParen).bind fun _ u _ =>
      (parameters u).bind fun params v _ =>
        (typeMark v).bind fun result w _ => .ok w (name, params, result)

/-- An error node for an item that starts at a span, up to the last token taken. -/
def abandonedItem (s : State) (start : Span) : Parsed s Item :=
  .build s (start.cover s.lastSpan) .error

/-- Skips the line of an item that starts at a span. -/
def failedItem (s : State) (start : Span) : Parsed s Item :=
  (recovered s).andThen fun _ t _ => abandonedItem t start

/-- A function after `fun`. -/
def function (start : Span) (tags : List DottedName) (s : State) : Parsed s Item :=
  (signature s).andThen fun sig t _ =>
    match sig with
    | none => failedItem t start
    | some (name, params, result) =>
      (lineEnd t).andThen fun ended u _ =>
        if !ended then abandonedItem u start
        else (block u).andThen fun body v _ =>
          match body with
          | none => abandonedItem v start
          | some body =>
            .build v (start.cover v.lastSpan) fun node =>
              .function ⟨node, tags, name, params, result, body⟩

/-- A function after `tag`; `tags` are those before it. -/
def taggedFunction (start : Span) (tags : List DottedName) (s : State) : Parsed s Item :=
  (dottedName s).andThen fun name t _ =>
    match name with
    | none => failedItem t start
    | some name =>
      (lineEnd t).andThen fun ended u _ =>
        if !ended then abandonedItem u start
        else match u.take? .kwTag with
          | some step =>
            (taggedFunction start (tags ++ [name]) step.state).since step.suffix
          | none =>
            match u.take? .kwFun with
            | some step => (function start (tags ++ [name]) step.state).since step.suffix
            | none =>
              (Attempt.expected u .functionAfterTag).andThen fun (_ : Option Unit) v _ =>
                abandonedItem v start
termination_by s.rest.length
decreasing_by
  have := step.length_lt
  omega

/-- A type alias after `type`. -/
def typeAlias (start : Span) (s : State) : Parsed s Item :=
  ((identifier s).bind fun name t _ =>
    (expect t .assign).bind fun _ u _ =>
      (typeName u).bind fun target v _ => .ok v (name, target)).andThen fun parts t _ =>
  match parts with
  | none => failedItem t start
  | some (name, target) =>
    let span := start.cover t.lastSpan
    (lineEnd t).andThen fun ended u _ =>
      .build u span fun node => if ended then .typeAlias ⟨node, name, target⟩ else .error node

/-- The item that starts with the token of a step; it takes that token, at least. -/
def item (s : State) (step : Step s) (heof : step.token.kind ≠ .eof)
    (hdedent : step.token.kind ≠ .dedent) : Parsed step.state Item :=
  let start := step.token.span
  match step.token.kind with
  | .kwTag => taggedFunction start [] step.state
  | .kwFun => function start [] step.state
  | .kwType => typeAlias start step.state
  | .kwNamespace =>
    let noted := step.state.withFindings (s.report .lateNamespace start)
    (failedItem noted start).since List.suffix_rfl
  | _ =>
    (statement s step heof hdedent).andThen fun stmt t _ =>
      .build t stmt.span fun node => .stmt node stmt

/-- Items up to the end of the file. -/
def items (s : State) : Parsed s (List Item) :=
  match s.step? with
  | none => .pure s []
  | some step =>
    if heof : step.token.kind = .eof then .pure s []
    else if hdedent : step.token.kind = .dedent then (items step.state).since step.suffix
    else if step.token.kind = .newline then (items step.state).since step.suffix
    else
      ((item s step heof hdedent).andThen fun item t _ =>
        (items t).andThen fun more u _ => .pure u (item :: more)).since step.suffix
termination_by s.rest.length
decreasing_by
  all_goals
    have := step.length_lt
    omega

/-- The state before the first token. -/
def fileStart (file : File) (tokens : List Token) : State := { rest := tokens, lastSpan := .point file.id 0 }

/-- The namespace line and the items of a file. -/
def fileParts (file : File) (tokens : List Token) :
    Parsed (fileStart file tokens) (Option DottedName × List Item) :=
  (header (fileStart file tokens)).andThen fun name s _ =>
    (items s).andThen fun items t _ => .pure t (name, items)

/-- A program read from tokens, and what was found on the way. -/
def program (file : File) (tokens : List Token) : Program × List Finding :=
  let parsed := fileParts file tokens
  (⟨⟨file.id, 0, file.size⟩, parsed.value.1, parsed.value.2⟩, parsed.state.findings.reverse)

/-- The arenas that reading a program fills, with the IDs of its items. -/
def arenas (file : File) (tokens : List Token) : FileArenas :=
  let parsed := fileParts file tokens
  (Builder.of parsed.state.made).file parsed.value.2

/-- Each lexical diagnostic with the place of the token it comes with; `place` counts the tokens
before. -/
def lexicalFindings (place : Nat) : List Batch → List (Nat × Diagnostic)
  | [] => []
  | batch :: rest =>
    batch.diagnostics.map (place, ·) ++ lexicalFindings (place + batch.tokens.length) rest

/-- The findings that are passed on if so many errors are enough. Each error counts, whether it is
passed on or not; once more are counted, nothing is passed on. A limit of zero is none. -/
def admitted (enough : Nat) : Nat → List Finding → List Finding
  | _, [] => []
  | counted, f :: findings =>
    let counted := if f.diagnostic.isError then counted + 1 else counted
    if 0 < enough && enough < counted then admitted enough counted findings
    else f :: admitted enough counted findings

@[simp] theorem admitted_zero (counted : Nat) (findings : List Finding) :
    admitted 0 counted findings = findings := by
  induction findings generalizing counted with
  | nil => rfl
  | cons f findings ih => simp [admitted, ih]

/-- Brings the diagnostics of text and tokens into the order in which they are met: those that come
with a token before those that are found once the token has been looked at. -/
def interleave (total : Nat) : List (Nat × Diagnostic) → List Finding → List Diagnostic
  | [], findings => findings.map (·.diagnostic)
  | lexical, [] => lexical.map (·.2)
  | (place, d) :: lexical, f :: findings =>
    if place + f.unseen < total then d :: interleave total lexical (f :: findings)
    else f.diagnostic :: interleave total ((place, d) :: lexical) findings

/-- Nothing is lost on the way. -/
theorem mem_interleave {total : Nat} {lexical : List (Nat × Diagnostic)} {findings : List Finding}
    {d : Diagnostic} : d ∈ interleave total lexical findings ↔
      d ∈ lexical.map (·.2) ∨ d ∈ findings.map (·.diagnostic) := by
  fun_induction interleave total lexical findings with
  | case1 findings => simp
  | case2 lexical => simp
  | case3 place e lexical f findings h ih =>
    simp only [List.map_cons, List.mem_cons, or_assoc] at ih ⊢
    rw [ih]
  | case4 place e lexical f findings h ih =>
    simp only [List.map_cons, List.mem_cons, or_assoc] at ih ⊢
    rw [ih]
    grind

theorem mem_lexicalFindings {place : Nat} {batches : List Batch} {d : Diagnostic} :
    d ∈ (lexicalFindings place batches).map (·.2) ↔ ∃ b ∈ batches, d ∈ b.diagnostics := by
  induction batches generalizing place with
  | nil => simp [lexicalFindings]
  | cons b rest ih =>
    simp only [lexicalFindings, List.map_append, List.mem_append, ih, List.mem_cons, exists_eq_or_imp,
      List.map_map]
    have hid : List.map ((fun x => x.2) ∘ fun x => (place, x)) b.diagnostics = b.diagnostics :=
      List.map_id _
    rw [hid]

end Craftlang.Parse

namespace Craftlang

/-- What comes of parsing a file: the program, and what is wrong with its text and its order. -/
structure ParsedFile where
  program : Program
  diagnostics : List Diagnostic

/-- Parses a file with a parser that stops reporting once it has found `enough` errors. -/
def File.parseUpTo (file : File) (enough : Nat) : ParsedFile :=
  let batches := file.scan
  let tokens := (batches.flatMap (·.tokens)).dropLast
  let (program, findings) := Parse.program file tokens
  ⟨program, Parse.interleave tokens.length (Parse.lexicalFindings 0 batches)
    (Parse.admitted enough 0 findings)⟩

/-- The arenas that parsing a file fills. -/
def File.arenas (file : File) : FileArenas := Parse.arenas file file.tokenize.dropLast

/-- Parses a file; everything that is found is reported. -/
def File.parse (file : File) : ParsedFile := file.parseUpTo 0

theorem File.parse_interleaves (file : File) :
    file.parse.diagnostics = Parse.interleave file.tokenize.dropLast.length
      (Parse.lexicalFindings 0 file.scan) (Parse.program file file.tokenize.dropLast).2 :=
  congrArg (Parse.interleave _ _) (Parse.admitted_zero 0 _)

end Craftlang
