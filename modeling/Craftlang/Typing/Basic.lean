import Craftlang.Diagnostic.Basic
import Craftlang.Scope.Table
import Craftlang.Types.Table
import Craftlang.Scope.Resolution

/-!
# What is known about types

A `Typing` collects the types of expressions and symbols, the functions of a program, and what is wrong.
The functions here find out types and leave their part of the answer in it.
-/

/-!
## What can be wrong with types

The problems of a program whose names are resolved: types that do not fit, values that are missing,
and statements that stand where they mean nothing.
-/

namespace Craftlang

inductive TypeProblem where
  | noValue
  | integerRange (literal : Bytes)
  | functionAsValue (name : Bytes)
  | typeAsValue (name : Bytes)
  | badOperand (op : UnaryOp) (operand : Ty)
  | badOperands (op : String) (left right : Ty)
  | notAssignable (kind : SymbolKind) (name : Bytes)
  | assignMismatch (value : Ty) (name : Bytes) (target : Ty)
  | initMismatch (name : Bytes) (declared value : Ty)
  | argumentMismatch (place : Nat) (name : Bytes) (param arg : Ty)
  | resultMismatch (value : Ty) (name : Bytes) (result : Ty)
  | notCallable (type : Ty)
  | notAFunction (name : Bytes) (kind : SymbolKind)
  | arity (name : Bytes) (expected got : Nat)
  | notBoolean (type : Ty)
  | untypedVariable (name : Bytes)
  | leaveOutsideLoop
  | againOutsideLoop
  | giveOutsideFunction
  | givesNothing (name : Bytes)
  | mustGive (name : Bytes) (result : Ty)
  | mayNotGive (name : Bytes) (result : Ty)
  | aliasCycle (name : Bytes)
  | tagWithParams (name : Bytes)
  | badTag (tag part : Bytes)
deriving DecidableEq, Repr

namespace TypeProblem

def code : TypeProblem → Code
  | noValue => .voidValue
  | integerRange _ => .integerRange
  | functionAsValue _ => .functionAsValue
  | typeAsValue _ => .typeAsValue
  | badOperand .. | badOperands .. => .badOperand
  | notAssignable .. => .notAssignable
  | assignMismatch .. | initMismatch .. | argumentMismatch .. | resultMismatch .. => .typeMismatch
  | notCallable _ | notAFunction .. => .notCallable
  | arity .. => .arityMismatch
  | notBoolean _ => .notBoolean
  | untypedVariable _ => .missingTypeInfo
  | leaveOutsideLoop => .breakOutsideLoop
  | againOutsideLoop => .continueOutsideLoop
  | giveOutsideFunction => .returnOutsideFunction
  | givesNothing _ | mustGive .. => .returnMismatch
  | mayNotGive .. => .missingReturn
  | aliasCycle _ => .aliasCycle
  | tagWithParams _ => .tagWithParameters
  | badTag .. => .badTagName

/-- A number of arguments in words. -/
def arguments (n : Nat) : Bytes :=
  if n = 1 then "1 argument" else Bytes.decimal n ++ " arguments"

def message : TypeProblem → Bytes
  | noValue => "expression has no value"
  | integerRange literal => "integer literal " ++ literal ++ " does not fit in 32 bits"
  | functionAsValue name => "function '" ++ name ++ "' can only be called"
  | typeAsValue name => "type '" ++ name ++ "' used as a value"
  | badOperand op operand =>
    "operator '" ++ Bytes.ofString op.spelling ++ "' cannot be applied to "
      ++ Bytes.ofString operand.label
  | badOperands op left right =>
    "operator '" ++ Bytes.ofString op ++ "' cannot be applied to " ++ Bytes.ofString left.label
      ++ " and " ++ Bytes.ofString right.label
  | notAssignable kind name =>
    "cannot assign to " ++ Bytes.ofString kind.name ++ " '" ++ name ++ "'"
  | assignMismatch value name target =>
    "cannot assign " ++ Bytes.ofString value.label ++ " to '" ++ name ++ "' of type "
      ++ Bytes.ofString target.label
  | initMismatch name declared value =>
    "cannot initialize '" ++ name ++ "' of type " ++ Bytes.ofString declared.label ++ " with "
      ++ Bytes.ofString value.label
  | argumentMismatch place name param arg =>
    "argument " ++ Bytes.decimal place ++ " of '" ++ name ++ "' must be "
      ++ Bytes.ofString param.label ++ ", got " ++ Bytes.ofString arg.label
  | resultMismatch value name result =>
    "cannot return " ++ Bytes.ofString value.label ++ " from function '" ++ name
      ++ "' returning " ++ Bytes.ofString result.label
  | notCallable type =>
    "expression of type " ++ Bytes.ofString type.label ++ " is not callable"
  | notAFunction name kind =>
    "'" ++ name ++ "' is a " ++ Bytes.ofString kind.name ++ ", not a function"
  | arity name expected got =>
    "function '" ++ name ++ "' expects " ++ arguments expected ++ ", got " ++ Bytes.decimal got
  | notBoolean type => "condition must be bool, got " ++ Bytes.ofString type.label
  | untypedVariable name =>
    "variable '" ++ name ++ "' needs a type annotation or an initializer"
  | leaveOutsideLoop => "'break' outside of a loop"
  | againOutsideLoop => "'continue' outside of a loop"
  | giveOutsideFunction => "'return' outside of a function"
  | givesNothing name => "function '" ++ name ++ "' does not return a value"
  | mustGive name result => "function '" ++ name ++ "' must return " ++ Bytes.ofString result.label
  | mayNotGive name result =>
    "function '" ++ name ++ "' must return " ++ Bytes.ofString result.label ++ " on every path"
  | aliasCycle name => "type alias '" ++ name ++ "' refers to itself"
  | tagWithParams name => "tagged function '" ++ name ++ "' must not take parameters"
  | badTag tag part =>
    "tag '" ++ tag ++ "' is not a valid resource location: '" ++ part
      ++ "' must be lowercase ASCII"

end TypeProblem

/-! ## Functions and the state of the checker -/

/-- The resource location of a function tag, and where it is written. -/
structure Tag where
  group : Bytes
  path : Bytes
  span : Span
deriving DecidableEq, Repr, Inhabited

def Tag.render (t : Tag) : Bytes := t.group ++ ":" ++ t.path

/-- A declared function: its item, its symbol, the symbols of its parameters, and its tags. -/
structure FunctionInfo where
  item : Nat
  symbol : Nat
  name : Bytes
  params : List Nat
  signature : Signature
  tags : List Tag
deriving Repr, Inhabited

def FunctionInfo.result (f : FunctionInfo) : Ty := f.signature.result

structure Typing where
  exprs : List (Nat × TypeInfo) := []
  symbols : List (Nat × TypeInfo) := []
  functions : List FunctionInfo := []
  diagnostics : List Diagnostic := []

namespace Typing

def report (t : Typing) (p : TypeProblem) (span : Span) (notes : List Note := []) : Typing :=
  { t with diagnostics := t.diagnostics ++ [.error p.code span p.message notes] }

/-- The type of an expression; an expression that was not typed is invalid. -/
def typeOfExpr (t : Typing) (node : Nat) : Ty :=
  match t.exprs.lookup node with
  | some (.value ty) => ty
  | _ => .invalid

/-- The type of the values of a symbol. -/
def typeOfSymbol (t : Typing) (symbol : Nat) : Ty :=
  match t.symbols.lookup symbol with
  | some (.value ty) => ty
  | _ => .invalid

/-- How a function symbol is called. -/
def signatureOf? (t : Typing) (symbol : Nat) : Option Signature :=
  match t.symbols.lookup symbol with
  | some (.function s) => some s
  | _ => none

/-- The function that a symbol stands for. -/
def functionOf? (t : Typing) (symbol : Nat) : Option FunctionInfo :=
  t.functions.find? fun f => f.symbol == symbol

/-- The function that an item declares. -/
def functionOfItem? (t : Typing) (item : Nat) : Option FunctionInfo :=
  t.functions.find? fun f => f.item == item

def noteExpr (t : Typing) (node : Node) (info : TypeInfo) : Typing :=
  { t with exprs := t.exprs ++ [(node.id, info)] }

def noteSymbol (t : Typing) (symbol : Nat) (info : TypeInfo) : Typing :=
  { t with symbols := t.symbols ++ [(symbol, info)] }

/-- Notes the type of an expression and answers with it. -/
def settle (t : Typing) (node : Node) (type : Ty) : Typing × Ty :=
  (t.noteExpr node (.value type), type)

/-- The type that a symbol stands for, if it is known: all but aliases that nobody asked for yet. -/
def namedType? (t : Typing) (r : Resolution) (symbol : Nat) : Option Ty :=
  match r.table.symbol? symbol with
  | none => some .invalid
  | some y =>
    if y.kind ≠ .type then some .invalid
    else if y.flags.builtin then some ((Ty.ofName? y.name).getD .invalid)
    else match t.symbols.lookup symbol with
      | some (.value ty) => some ty
      | _ => none

/-!
### Type aliases

An alias stands for the type that its chain of targets ends in. A chain that comes back to itself ends in no
type.
-/

/-- How far the checker is with an alias: nobody asked for it yet, its target is being looked up, or its type is
known. -/
inductive AliasState where
  | unvisited (target : Nat)
  | resolving
  | done (type : Ty)

/-- The state of a symbol; the aliases that nobody asked for are given with their targets. -/
def aliasState (t : Typing) (r : Resolution) (unvisited : List (Nat × Nat)) (symbol : Nat) : AliasState :=
  match t.namedType? r symbol with
  | some type => .done type
  | none =>
    match unvisited.find? fun a => a.1 == symbol with
    | some a => .unvisited a.2
    | none => .resolving

theorem length_eraseP_lt {t : Typing} {r : Resolution} {unvisited : List (Nat × Nat)} {symbol target : Nat}
    (h : t.aliasState r unvisited symbol = .unvisited target) :
    (unvisited.eraseP fun a => a.1 == symbol).length < unvisited.length := by
  rw [aliasState] at h
  split at h
  · cases h
  · split at h
    · rename_i a found
      have member := List.mem_of_find?_eq_some found
      have erased := List.length_eraseP_of_mem member (List.find?_some found)
      have nonempty := List.length_pos_of_mem member
      omega
    · cases h

/-- The type that a symbol stands for. An alias gets the type of its target, unless a cycle was closed at the
alias while the target was looked up. A cycle is reported where it closes, and every alias on it is invalid. -/
def resolveAlias (t : Typing) (r : Resolution) (unvisited : List (Nat × Nat)) (symbol : Nat) : Typing × Ty :=
  match state : t.aliasState r unvisited symbol with
  | .done type => (t, type)
  | .resolving =>
    let reported := t.report (.aliasCycle (r.table.nameOf symbol)) (r.spanOf symbol)
    (reported.noteSymbol symbol (.value .invalid), .invalid)
  | .unvisited target =>
    have := length_eraseP_lt state
    let (t, type) := t.resolveAlias r (unvisited.eraseP fun a => a.1 == symbol) target
    match t.namedType? r symbol with
    | some closed => (t, closed)
    | none => (t.noteSymbol symbol (.value type), type)
termination_by unvisited.length

end Typing

/-- What surrounds a statement: the names of the program, the targets of its aliases, the function it
stands in, and whether there is a loop around it. -/
structure TypingContext where
  resolution : Resolution
  aliases : List (Nat × Nat) := []
  function : Option FunctionInfo := none
  inLoop : Bool := false

namespace Typing

/-- The type that a symbol stands for in the program. -/
def namedType (t : Typing) (c : TypingContext) (symbol : Nat) : Typing × Ty :=
  t.resolveAlias c.resolution c.aliases symbol

/-- The type that is written at a place. -/
def writtenType (t : Typing) (c : TypingContext) (type : Name) : Typing × Ty :=
  t.namedType c ((c.resolution.typeOf? type.span).getD 0)

end Typing

end Craftlang
