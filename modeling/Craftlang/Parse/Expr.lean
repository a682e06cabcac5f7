import Craftlang.Parse.State
import Craftlang.Token.Literal

/-!
# Parsing expressions

Operators bind by precedence, and to the left among equals; prefix operators bind closer, calls
closest. An assignment binds least, to the right, and only to a name.
-/

namespace Craftlang.Parse

/-- The literal that a token stands for. -/
def constant? (t : Token) : Option Constant :=
  match t.kind with
  | .intLit => some (.int t.text)
  | .stringLit => some (.string (Literal.string t.text))
  | .kwTrue => some (.bool true)
  | .kwFalse => some (.bool false)
  | _ => none

mutual

/-- An expression: an assignment, or operands joined by binary operators. -/
def expression (s : State) : Attempt s Expr :=
  (operand 1 s).bind fun left t _ =>
    match t.step? with
    | none => .ok t left
    | some step =>
      match AssignOp.ofKind? step.token.kind with
      | none => .ok t left
      | some op =>
        match left with
        | .ident target =>
          ((expression step.state).bind fun value u _ =>
            .build u (left.span.cover value.span) fun node =>
              .assign node op step.token.span target value).since step.suffix
        | _ => .problem t .badAssignmentTarget left.span
termination_by s.rest.length * 8 + 6
decreasing_by
  · omega
  · have := step.length_lt
    omega

/-- Operands joined by operators of at least a precedence. -/
def operand (precedence : Nat) (s : State) : Attempt s Expr :=
  (unary s).bind fun left t _ => operandTail precedence left t
termination_by s.rest.length * 8 + 5
decreasing_by
  · omega
  · omega

/-- What follows a left operand. -/
def operandTail (precedence : Nat) (left : Expr) (s : State) : Attempt s Expr :=
  match s.step? with
  | none => .ok s left
  | some step =>
    match BinaryOp.ofKind? step.token.kind with
    | none => .ok s left
    | some op =>
      if op.precedence < precedence then .ok s left
      else ((operand (op.precedence + 1) step.state).bind fun right t _ =>
        (Attempt.build t (left.span.cover right.span) fun node =>
          Expr.binary node op step.token.span left right).bind fun joined u _ =>
            operandTail precedence joined u).since step.suffix
termination_by s.rest.length * 8 + 4
decreasing_by
  · have := step.length_lt
    omega
  · have := step.length_lt
    omega

/-- An operand with its prefix operators. -/
def unary (s : State) : Attempt s Expr :=
  match s.step? with
  | none => postfixed s
  | some step =>
    match UnaryOp.ofKind? step.token.kind with
    | none => postfixed s
    | some op =>
      ((unary step.state).bind fun inner t _ =>
        .build t (step.token.span.cover inner.span) fun node =>
          .unary node op inner).since step.suffix
termination_by s.rest.length * 8 + 3
decreasing_by
  · omega
  · omega
  · have := step.length_lt
    omega

/-- A primary expression and the calls made on it. -/
def postfixed (s : State) : Attempt s Expr :=
  (primary s).bind fun target t _ => calls target t
termination_by s.rest.length * 8 + 2
decreasing_by
  · omega
  · omega

/-- The calls that follow an expression. -/
def calls (target : Expr) (s : State) : Attempt s Expr :=
  match s.take? .lParen with
  | none => .ok s target
  | some step =>
    ((arguments step.state).bind fun (args, close) t _ =>
      (Attempt.build t (target.span.cover close) fun node =>
        Expr.call node target args).bind fun call u _ => calls call u).since step.suffix
termination_by s.rest.length * 8 + 1
decreasing_by
  · have := step.length_lt
    omega
  · have := step.length_lt
    omega

/-- The arguments of a call after its opening parenthesis, and the span of the closing one. -/
def arguments (s : State) : Attempt s (List Expr × Span) :=
  match s.take? .rParen with
  | some close => (Attempt.ok close.state ([], close.token.span)).since close.suffix
  | none => argumentList s
termination_by s.rest.length * 8 + 8

/-- One argument or more, up to the closing parenthesis. -/
def argumentList (s : State) : Attempt s (List Expr × Span) :=
  (expression s).bind fun arg t _ =>
    match t.take? .comma with
    | some comma =>
      ((argumentList comma.state).bind fun (args, close) u _ =>
        .ok u (arg :: args, close)).since comma.suffix
    | none =>
      match t.take? .rParen with
      | some close => (Attempt.ok close.state ([arg], close.token.span)).since close.suffix
      | none => .expected t .commaOrClose
termination_by s.rest.length * 8 + 7
decreasing_by
  · omega
  · have := comma.length_lt
    omega

/-- A literal, a name, or an expression in parentheses. -/
def primary (s : State) : Attempt s Expr :=
  match s.step? with
  | none => .expected s .expression
  | some step =>
    match constant? step.token with
    | some value =>
      (Attempt.build step.state step.token.span fun node =>
        .constant node value).since step.suffix
    | none =>
      match step.token.kind with
      | .ident =>
        (Attempt.build step.state step.token.span fun node =>
          .ident ⟨node, step.token.text⟩).since step.suffix
      | .lParen =>
        ((expression step.state).bind fun inner t _ =>
          (expect t .rParen).bind fun close u _ =>
            .build u (step.token.span.cover close.span) fun node =>
              .group node inner).since step.suffix
      | _ => .expected s .expression
termination_by s.rest.length * 8
decreasing_by
  have := step.length_lt
  omega

end

/-- A primary expression takes a token. -/
theorem primary_length_lt (s : State) (h : (primary s).value.isSome) :
    (primary s).state.rest.length < s.rest.length := by
  unfold primary at h ⊢
  split at h
  · simp [Attempt.expected] at h
  · rename_i step _
    split at h
    · exact Parsed.length_since_lt step _
    · split at h
      · exact Parsed.length_since_lt step _
      · exact Parsed.length_since_lt step _
      · simp [Attempt.expected] at h

theorem postfixed_length_lt (s : State) (h : (postfixed s).value.isSome) :
    (postfixed s).state.rest.length < s.rest.length := by
  unfold postfixed at h ⊢
  exact Attempt.length_bind_lt (primary_length_lt s) h

theorem unary_length_lt (s : State) (h : (unary s).value.isSome) :
    (unary s).state.rest.length < s.rest.length := by
  unfold unary at h ⊢
  split at h
  · exact postfixed_length_lt s h
  · rename_i step _
    split at h
    · exact postfixed_length_lt s h
    · exact Parsed.length_since_lt step _

theorem operand_length_lt (precedence : Nat) (s : State)
    (h : (operand precedence s).value.isSome) :
    (operand precedence s).state.rest.length < s.rest.length := by
  unfold operand at h ⊢
  exact Attempt.length_bind_lt (unary_length_lt s) h

/-- An expression takes a token. -/
theorem expression_length_lt (s : State) (h : (expression s).value.isSome) :
    (expression s).state.rest.length < s.rest.length := by
  unfold expression at h ⊢
  exact Attempt.length_bind_lt (operand_length_lt 1 s) h

/-- An expression leaves an end piece of what follows the next token. -/
theorem expression_suffix_tail (s : State) (step : Step s) (h : (expression s).value.isSome) :
    (expression s).state.rest <:+ step.state.rest :=
  step.suffix_of_length_lt (expression s).within (expression_length_lt s h)

end Craftlang.Parse
