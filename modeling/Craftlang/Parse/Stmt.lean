import Craftlang.Parse.State
import Craftlang.Parse.Expr

/-!
# Parsing statements

A statement is always read as something: when its text is faulty it becomes an error node, and the
tokens that remain start at the next line. A block is an indented run of statements.
-/

/-!
## Recovery

After a problem the parser skips to the end of the line, and past the block that is indented below
it. Blocks are skipped whole, so that recovery never leaves the block it happens in.
-/

namespace Craftlang.Parse

/-- Skips to the end of a block whose start is taken, past `depth` blocks inside it. -/
def skipBlock (depth : Nat) (last : Span) : List Token → Span × List Token
  | [] => (last, [])
  | t :: rest =>
    let last := State.spanAfter last t
    match t.kind, depth with
    | .eof, _ => (last, rest)
    | .indent, d => skipBlock (d + 1) last rest
    | .dedent, 0 => (last, rest)
    | .dedent, d + 1 => skipBlock d last rest
    | _, d => skipBlock d last rest

theorem skipBlock_suffix (depth : Nat) (last : Span) (ts : List Token) :
    (skipBlock depth last ts).2 <:+ ts := by
  induction ts generalizing depth last with
  | nil => exact List.suffix_rfl
  | cons t rest ih =>
    have hcons : rest <:+ t :: rest := List.suffix_cons t rest
    simp only [skipBlock]
    split
    · exact hcons
    · exact (ih _ _).trans hcons
    · exact hcons
    · exact (ih _ _).trans hcons
    · exact (ih _ _).trans hcons

/-- Skips past the end of the line and the block below it; the end of the enclosing block is not
passed. -/
def skipLine (last : Span) (tokens : List Token) : Span × List Token :=
  match tokens with
  | [] => (last, [])
  | t :: rest =>
    match t.kind with
    | .eof | .dedent => (last, t :: rest)
    | .newline =>
      match rest with
      | u :: below => if u.kind = .indent then skipBlock 0 last below else (last, rest)
      | [] => (last, [])
    | .indent =>
      skipLine (skipBlock 0 last rest).1 (skipBlock 0 last rest).2
    | _ => skipLine t.span rest
termination_by tokens.length
decreasing_by
  · have := (skipBlock_suffix 0 last rest).length_le
    simp only [List.length_cons]
    omega
  · simp

theorem skipLine_suffix (last : Span) (ts : List Token) : (skipLine last ts).2 <:+ ts := by
  fun_induction skipLine last ts with
  | case1 => exact List.suffix_rfl
  | case2 => exact List.suffix_rfl
  | case3 => exact List.suffix_rfl
  | case4 last t _ u below =>
    exact (skipBlock_suffix 0 last below).trans
      ((List.suffix_cons u below).trans (List.suffix_cons t (u :: below)))
  | case5 last t _ u below => exact List.suffix_cons t (u :: below)
  | case6 last t => exact List.suffix_cons t []
  | case7 last t rest _ ih =>
    exact ih.trans ((skipBlock_suffix 0 last rest).trans (List.suffix_cons t rest))
  | case8 last t rest _ _ _ _ ih => exact ih.trans (List.suffix_cons t rest)

/-- Skipping takes the first token, unless it ends the block or the file. -/
theorem skipLine_cons_suffix (last : Span) (t : Token) (rest : List Token)
    (heof : t.kind ≠ .eof) (hdedent : t.kind ≠ .dedent) :
    (skipLine last (t :: rest)).2 <:+ rest := by
  unfold skipLine
  split
  · contradiction
  · contradiction
  · split
    · rename_i u below
      split
      · exact (skipBlock_suffix 0 last below).trans (List.suffix_cons u below)
      · exact List.suffix_rfl
    · exact List.suffix_rfl
  · exact (skipLine_suffix _ _).trans (skipBlock_suffix 0 last rest)
  · exact skipLine_suffix _ _

namespace State

/-- Recovers from a problem in the current line. -/
def recover (s : State) : State :=
  { s with rest := (skipLine s.lastSpan s.rest).2, lastSpan := (skipLine s.lastSpan s.rest).1 }

theorem recover_suffix (s : State) : s.recover.rest <:+ s.rest := skipLine_suffix _ _

/-- Recovery from a state that is left after `t` was the next token takes `t`, at least. -/
theorem recover_suffix_tail {s : State} {t : Token} {rest : List Token}
    (h : s.rest <:+ t :: rest) (heof : t.kind ≠ .eof) (hdedent : t.kind ≠ .dedent) :
    s.recover.rest <:+ rest := by
  rcases List.suffix_cons_iff.1 h with heq | htail
  · simp only [recover, heq]
    exact skipLine_cons_suffix _ t rest heof hdedent
  · exact (recover_suffix s).trans htail

end State

/-- Skips a block whose start is taken. -/
def skipped (s : State) : Parsed s Unit where
  value := ()
  state := { s with
    rest := (skipBlock 0 s.lastSpan s.rest).2
    lastSpan := (skipBlock 0 s.lastSpan s.rest).1 }
  within := skipBlock_suffix 0 s.lastSpan s.rest

/-- Skips the rest of the line after a failed attempt. -/
def recovered (s : State) : Parsed s Unit := ⟨(), s.recover, s.recover_suffix⟩

/-- The end of a line, which the end of a block or of the file stands for too. When something else
comes the rest of the line is skipped. -/
def lineEnd (s : State) : Parsed s Bool :=
  match s.step? with
  | none => .pure s true
  | some step =>
    match step.token.kind with
    | .newline => (Parsed.pure step.state true).since step.suffix
    | .dedent | .eof => .pure s true
    | _ =>
      let reported := s.reportExpected .lineEnd
      ⟨false, reported.recover, reported.recover_suffix.trans (s.suffix_reportExpected .lineEnd)⟩


/-- The end of the line of a simple statement, which is made before; without it the statement is
dropped for an error. -/
def simple (s : State) (span : Span) (make : Node → Stmt) : Parsed s Stmt :=
  (Parsed.build s span make).andThen fun stmt t _ =>
    (lineEnd t).andThen fun ended u _ =>
      if ended then .pure u stmt else .build u span .error

/-- Skips the line of a statement that starts at a span. -/
def failed (s : State) (start : Span) : Parsed s Stmt :=
  (recovered s).andThen fun _ t _ => .build t (start.cover t.lastSpan) .error

/-- An error node for a statement that starts at a span, up to the last token taken. -/
def abandoned (s : State) (start : Span) : Parsed s Stmt :=
  .build s (start.cover s.lastSpan) .error

/-- The type after a colon, if there is one. -/
def typeMark (s : State) : Attempt s (Option Name) :=
  match s.take? .colon with
  | none => .ok s none
  | some colon =>
    ((typeName colon.state).bind fun type t _ => .ok t (some type)).since colon.suffix

/-- A declaration after `var`. When the value cannot be read the name is declared all the same, with
an error node for its value. -/
def declaration (start : Span) (s : State) : Parsed s Stmt :=
  ((identifier s).bind fun name t _ =>
    (typeMark t).bind fun type u _ => .ok u (name, type)).andThen fun header t _ =>
  match header with
  | none => failed t start
  | some (name, type) =>
    match t.take? .assign with
    | none => simple t (start.cover t.lastSpan) fun node => .var node name type none
    | some sign =>
      ((expression sign.state).andThen fun value u _ =>
        match value with
        | some e => simple u (start.cover u.lastSpan) fun node => .var node name type (some e)
        | none =>
          let span := sign.token.span.cover u.lastSpan
          (Parsed.build u span Expr.error).andThen fun e v _ =>
            (recovered v).andThen fun _ w _ =>
              .build w (start.cover span) fun node =>
                .var node name type (some e)).since sign.suffix

/-- A return, with a value unless the line ends. -/
def returned (start : Span) (s : State) : Parsed s Stmt :=
  match s.kind with
  | .newline | .dedent | .eof =>
    simple s (start.cover s.lastSpan) fun node => .give node none
  | _ =>
    (expression s).andThen fun value t _ =>
      match value with
      | none => failed t start
      | some e => simple t (start.cover t.lastSpan) fun node => .give node (some e)

/-- A condition and the end of its line; a faulty line is skipped. -/
def condition (s : State) : Attempt s Expr :=
  (expression s).andThen fun cond t _ =>
    match cond with
    | none => (recovered t).andThen fun _ u _ => .pure u none
    | some e =>
      (lineEnd t).andThen fun ended u _ => .pure u (if ended then some e else none)

mutual

/-- An indented block. -/
def block (s : State) : Attempt s Block :=
  match s.take? .indent with
  | none => .expected s .block
  | some opening =>
    ((statements opening.state).andThen fun stmts t _ =>
      let span := (stmts.getLast?.map fun last => opening.token.span.cover last.span).getD
        opening.token.span
      Attempt.build t span fun node => Block.mk node stmts).since opening.suffix
termination_by s.rest.length * 4 + 1
decreasing_by
  have := opening.length_lt
  omega

/-- Statements up to the end of their block, which is taken too. -/
def statements (s : State) : Parsed s (List Stmt) :=
  match s.step? with
  | none => .pure s []
  | some step =>
    if heof : step.token.kind = .eof then .pure s []
    else if hdedent : step.token.kind = .dedent then
      (Parsed.pure step.state []).since step.suffix
    else if step.token.kind = .newline then (statements step.state).since step.suffix
    else
      ((statement s step heof hdedent).andThen fun stmt t _ =>
        (statements t).andThen fun stmts u _ => .pure u (stmt :: stmts)).since step.suffix
termination_by s.rest.length * 4
decreasing_by
  · have := step.length_lt
    omega
  · have := step.length_lt
    omega
  · have := step.length_lt
    omega

/-- The statement that starts with the token of a step; it takes that token, at least. -/
def statement (s : State) (step : Step s) (heof : step.token.kind ≠ .eof)
    (hdedent : step.token.kind ≠ .dedent) : Parsed step.state Stmt :=
  let start := step.token.span
  match step.token.kind with
  | .kwVar => declaration start step.state
  | .kwIf => branch start step.state
  | .kwWhile =>
    (condition step.state).andThen fun cond t _ =>
      match cond with
      | none => abandoned t start
      | some cond =>
        (block t).andThen fun body u _ =>
          match body with
          | none => abandoned u start
          | some body =>
            .build u (start.cover u.lastSpan) fun node => .loop node .before cond body
  | .kwDo =>
    (lineEnd step.state).andThen fun ended t _ =>
      if !ended then .build t start .error
      else (block t).andThen fun body u _ =>
        match body with
        | none => abandoned u start
        | some body =>
          ((expect u .kwWhile).bind fun _ v _ => expression v).andThen fun cond v _ =>
            match cond with
            | none => failed v start
            | some cond =>
              simple v (start.cover v.lastSpan) fun node => .loop node .after cond body
  | .kwBreak => simple step.state start .leave
  | .kwContinue => simple step.state start .again
  | .kwReturn => returned start step.state
  | .command => simple step.state start fun node => .command node step.token.text.tail
  | .indent =>
    let noted := step.state.withFindings (s.report .unexpectedIndent start)
    ((skipped noted).andThen fun _ t _ => .build t start Stmt.error).since List.suffix_rfl
  | .kwFun | .kwType | .kwTag | .kwNamespace | .kwElse =>
    let noted := step.state.withFindings (s.reportExpected .statement)
    (failed noted start).since List.suffix_rfl
  | _ =>
    match h : (expression s).value with
    | some e =>
      (simple (expression s).state e.span fun node => .expr node e).since
        (expression_suffix_tail s step (by simp [h]))
    | none =>
      let skipped := (expression s).state.recover
      (Parsed.build skipped (start.cover skipped.lastSpan) Stmt.error).since
        (State.recover_suffix_tail (step.cons ▸ (expression s).within) heof hdedent)
termination_by s.rest.length * 4 - 1
decreasing_by
  all_goals
    have := step.length_lt
    omega

/-- A branch after `if`, with its other branches. -/
def branch (start : Span) (s : State) : Parsed s Stmt :=
  (condition s).andThen fun cond t _ =>
    match cond with
    | none => abandoned t start
    | some cond =>
      (block t).andThen fun body u _ =>
        match body with
        | none => abandoned u start
        | some body =>
          match u.take? .kwElse with
          | none =>
            .build u (start.cover u.lastSpan) fun node => .branch node cond body .none
          | some other =>
            (match other.state.take? .kwIf with
            | some again =>
              ((branch again.token.span again.state).andThen fun chained v _ =>
                .build v (start.cover v.lastSpan) fun node =>
                  Stmt.branch node cond body (.chain chained)).since again.suffix
            | none =>
              (lineEnd other.state).andThen fun ended v _ =>
                if !ended then .build v other.token.span .error
                else (block v).andThen fun rest w _ =>
                  match rest with
                  | none => .build w other.token.span .error
                  | some rest =>
                    .build w (start.cover w.lastSpan) fun node =>
                      Stmt.branch node cond body (.block rest)).since other.suffix
termination_by s.rest.length * 4 + 2
decreasing_by
  all_goals
    try have := other.length_lt
    try have := again.length_lt
    omega

end

end Craftlang.Parse
