import Craftlang.Token.Literal
import Craftlang.Typing.Basic

/-!
# Types of expressions

Every expression gets a type, operands before what is made of them. A type is invalid when something
was reported about the expression or about a part of it.
-/

namespace Craftlang

def Constant.type : Constant → Ty
  | int _ => .int
  | bool _ => .bool
  | string _ => .string

namespace Typing

/-- Reports an integer literal beyond the largest integer; directly under a minus sign it may be larger
by one. -/
def checkRange (t : Typing) (span : Span) (text : Bytes) (negated : Bool) : Typing :=
  let limit := if negated then largestInt + 1 else largestInt
  match Literal.integer text with
  | .ok n => if n ≤ limit then t else t.report (.integerRange text) span
  | .error _ => t.report (.integerRange text) span

def constant (t : Typing) (node : Node) (value : Constant) (negated : Bool) : Typing × Ty :=
  let checked := match value with
    | .int text => t.checkRange node.span text negated
    | _ => t
  checked.settle node value.type

/-- The symbol an identifier is bound to, unless that is the error symbol. -/
def boundTo? (c : TypingContext) (i : Ident) : Option (Nat × Symbol) :=
  match c.resolution.refOf? i.node.id with
  | none => none
  | some symbol =>
    if SymbolTable.isError symbol then none
    else (c.resolution.table.symbol? symbol).map fun y => (symbol, y)

/-- The type of a name that stands for a value. -/
def ident (c : TypingContext) (t : Typing) (i : Ident) : Typing × Ty :=
  match boundTo? c i with
  | none => t.settle i.node .invalid
  | some (symbol, y) =>
    match y.kind with
    | .var | .param => t.settle i.node (t.typeOfSymbol symbol)
    | .function => (t.report (.functionAsValue y.name) i.node.span).settle i.node .invalid
    | .type => (t.report (.typeAsValue y.name) i.node.span).settle i.node .invalid
    | .invalid | .error => t.settle i.node .invalid

/-- Where a value is needed, an expression without one is reported. -/
def consumed (span : Span) (typed : Typing × Ty) : Typing × Ty :=
  if typed.2 = .void then (typed.1.report .noValue span, .invalid) else typed

def applyUnary (t : Typing) (node : Node) (op : UnaryOp) (operand : Ty) : Typing × Ty :=
  if operand = .invalid then t.settle node .invalid
  else match op.result? operand with
    | some ty => t.settle node ty
    | none =>
      let sign : Span := ⟨node.span.file, node.span.start, node.span.start + 1⟩
      (t.report (.badOperand op operand) sign).settle node .invalid

def applyBinary (t : Typing) (node : Node) (op : BinaryOp) (opSpan : Span) (left right : Ty) :
    Typing × Ty :=
  if left = .invalid || right = .invalid then t.settle node .invalid
  else match op.result? left right with
    | some ty => t.settle node ty
    | none => (t.report (.badOperands op.spelling left right) opSpan).settle node .invalid

/-- Checks the value of an assignment against the type of its target. -/
def checkAssigned (t : Typing) (op : AssignOp) (opSpan : Span) (name : Bytes) (target value : Ty)
    (valueSpan : Span) : Typing :=
  if target = .invalid || value = .invalid then t
  else match op.binary? with
    | some binary =>
      if (binary.result? target value).isSome then t
      else t.report (.badOperands op.spelling target value) opSpan
    | none =>
      if target.accepts value then t else t.report (.assignMismatch value name target) valueSpan

/-- The type of an assignment whose value is typed: that of its target. A target that the assignment
declares has the type of the value. -/
def assign (c : TypingContext) (t : Typing) (node : Node) (op : AssignOp) (opSpan : Span)
    (target : Ident) (value : Ty) (valueSpan : Span) : Typing × Ty :=
  match boundTo? c target with
  | none => t.settle node .invalid
  | some (symbol, y) =>
    if c.resolution.implicit.lookup target.node.id = some symbol then
      ((t.noteSymbol symbol (.value value)).noteExpr target.node (.value value)).settle node value
    else if y.kind = .var || y.kind = .param then
      let type := t.typeOfSymbol symbol
      let t := t.noteExpr target.node (.value type)
      (t.checkAssigned op opSpan y.name type value valueSpan).settle node type
    else
      (t.report (.notAssignable y.kind y.name) target.node.span).settle node .invalid

/-- The name and signature of a function that is called by name. -/
def namedCallee (c : TypingContext) (t : Typing) (i : Ident) :
    Typing × Option (Bytes × Signature) :=
  match boundTo? c i with
  | none => (t, none)
  | some (symbol, y) =>
    if y.kind = .function then
      match t.signatureOf? symbol with
      | some s => (t.noteExpr i.node (.function s), some (y.name, s))
      | none => (t, none)
    else
      (t.report (.notAFunction y.name y.kind) i.node.span
        (c.resolution.noteAt symbol "declared here"), none)

/-- Reports arguments that do not fit their parameters; places count from one. -/
def checkArguments (t : Typing) (name : Bytes) (place : Nat) : List Ty → List (Span × Ty) → Typing
  | param :: params, (span, arg) :: args =>
    let t := if param.accepts arg then t else t.report (.argumentMismatch place name param arg) span
    t.checkArguments name (place + 1) params args
  | _, _ => t

/-- The type of a call whose callee and arguments are typed. Arguments are compared with parameters
only if there are as many. -/
def applyCall (t : Typing) (node : Node) (callee : Option (Bytes × Signature))
    (args : List (Span × Ty)) : Typing × Ty :=
  match callee with
  | none => t.settle node .invalid
  | some (name, s) =>
    if args.length = s.params.length then
      (t.checkArguments name 1 s.params args).settle node s.result
    else
      (t.report (.arity name s.params.length args.length) node.span).settle node s.result

mutual

/-- The type of an expression. -/
def expr (c : TypingContext) (t : Typing) : Expr → Typing × Ty
  | .error n => t.settle n .invalid
  | .constant n value => t.constant n value false
  | .ident i => ident c t i
  | .group n inner =>
    let (t, ty) := expr c t inner
    t.settle n ty
  | .unary n op operand =>
    let (t, ty) := match op, operand with
      | .minus, .constant m (.int text) => t.constant m (.int text) true
      | _, _ => consumed operand.span (expr c t operand)
    t.applyUnary n op ty
  | .binary n op opSpan left right =>
    let (t, l) := consumed left.span (expr c t left)
    let (t, r) := consumed right.span (expr c t right)
    t.applyBinary n op opSpan l r
  | .call n target args =>
    let (t, types) := arguments c t args
    match target with
    | .ident i =>
      let (t, callee) := namedCallee c t i
      t.applyCall n callee types
    | _ =>
      let (t, ty) := expr c t target
      let t := if ty = .invalid then t else t.report (.notCallable ty) target.span
      t.settle n .invalid
  | .assign n op opSpan target value =>
    let (t, ty) := consumed value.span (expr c t value)
    assign c t n op opSpan target ty value.span

/-- The types of arguments, with the places where they stand. -/
def arguments (c : TypingContext) (t : Typing) : List Expr → Typing × List (Span × Ty)
  | [] => (t, [])
  | e :: es =>
    let (t, ty) := consumed e.span (expr c t e)
    let (t, rest) := arguments c t es
    (t, (e.span, ty) :: rest)

end

/-- The type of an expression whose value is needed. -/
def value (c : TypingContext) (t : Typing) (e : Expr) : Typing × Ty := consumed e.span (expr c t e)

end Typing

end Craftlang
