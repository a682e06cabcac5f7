import Craftlang.Code.Program
import Mathlib.Data.List.Forall2

/-!
# Typing rules

What it means for an expression to have a type and for a statement to be well typed, given what a
program's names stand for and which types were recorded. The rules say nothing of the order in which
types are found.
-/

namespace Craftlang

/-- A literal that can be written, perhaps under a minus sign. -/
def Constant.Fits : Constant → Prop
  | .int text => ∃ n, Literal.integer text = .ok n ∧ n ≤ largestInt + 1
  | _ => True

namespace EmissionContext

/-- A type was recorded for a node. -/
def Records (c : EmissionContext) (n : Node) (ty : Ty) : Prop := c.typing.typeOfExpr n.id = ty

/-- A name stands for a variable whose values have a type. -/
def IsVariable (c : EmissionContext) (i : Ident) (y : Nat) (ty : Ty) : Prop :=
  c.resolution.refOf? i.node.id = some y ∧ c.typing.typeOfSymbol y = ty ∧ ty.isValue = true

end EmissionContext

mutual

inductive Expr.HasType (c : EmissionContext) : Expr → Ty → Prop
  | constant {n v} : v.Fits → c.Records n v.type → Expr.HasType c (.constant n v) v.type
  | ident {i y ty} : c.IsVariable i y ty → c.Records i.node ty → Expr.HasType c (.ident i) ty
  | group {n e ty} : Expr.HasType c e ty → c.Records n ty → Expr.HasType c (.group n e) ty
  | unary {n op e s ty} : Expr.HasType c e s → op.result? s = some ty → c.Records n ty →
    Expr.HasType c (.unary n op e) ty
  | binary {n op span l r s t ty} : Expr.HasType c l s → Expr.HasType c r t →
    op.result? s t = some ty → c.Records n ty → Expr.HasType c (.binary n op span l r) ty
  | print {n i y e s} : c.resolution.refOf? i.node.id = some y → Emission.isPrint c y = true →
    Expr.HasType c e s → s.isValue = true → c.Records n .void →
    Expr.HasType c (.call n (.ident i) [e]) .void
  | call {n i y f args} : c.resolution.refOf? i.node.id = some y → Emission.isPrint c y = false →
    c.typing.functionOf? y = some f → Expr.HaveTypes c args f.signature.params →
    c.Records n f.result → Expr.HasType c (.call n (.ident i) args) f.result
  | assign {n span i y e ty} : Expr.HasType c e ty → c.IsVariable i y ty → c.Records n ty →
    Expr.HasType c (.assign n .set span i e) ty
  | update {n op b span i y e s ty} : op.binary? = some b → Expr.HasType c e s →
    c.IsVariable i y ty → b.result? ty s = some ty → c.Records n ty →
    Expr.HasType c (.assign n op span i e) ty

inductive Expr.HaveTypes (c : EmissionContext) : List Expr → List Ty → Prop
  | nil : Expr.HaveTypes c [] []
  | cons {e es ty tys} : Expr.HasType c e ty → Expr.HaveTypes c es tys →
    Expr.HaveTypes c (e :: es) (ty :: tys)

end

/-- The type of an expression is the one that was recorded. -/
theorem Expr.HasType.recorded {c : EmissionContext} {e : Expr} {ty : Ty} (h : Expr.HasType c e ty) :
    c.typing.typeOfExpr e.id = ty := by
  cases h <;> assumption

/-- An expression that is left out, or has a type. -/
inductive Expr.MaybeHasType (c : EmissionContext) : Option Expr → Ty → Prop
  | none {ty} : Expr.MaybeHasType c none ty
  | some {e ty} : Expr.HasType c e ty → Expr.MaybeHasType c (some e) ty

mutual

/-- A statement in a function with a result type, or outside all functions; a loop may be around it. -/
inductive Stmt.Typed (c : EmissionContext) (result : Option Ty) : Bool → Stmt → Prop
  | var {b n name type value y} : c.resolution.declOf? n.id = some y →
    (c.typing.typeOfSymbol y).isValue = true →
    Expr.MaybeHasType c value (c.typing.typeOfSymbol y) →
    Stmt.Typed c result b (.var n name type value)
  | expr {b n e ty} : Expr.HasType c e ty → Stmt.Typed c result b (.expr n e)
  | branch {b n cond body otherwise} : Expr.HasType c cond .bool → Block.Typed c result b body →
    Otherwise.Typed c result b otherwise → Stmt.Typed c result b (.branch n cond body otherwise)
  | loop {b n kind cond body} : Expr.HasType c cond .bool → Block.Typed c result true body →
    Stmt.Typed c result b (.loop n kind cond body)
  | leave {n} : Stmt.Typed c result true (.leave n)
  | again {n} : Stmt.Typed c result true (.again n)
  | give {b n} : result = some .void → Stmt.Typed c result b (.give n none)
  | giveValue {b n e ty} : result = some ty → ty.isValue = true → Expr.HasType c e ty →
    Stmt.Typed c result b (.give n (some e))
  | command {b n text} : Stmt.Typed c result b (.command n text)

inductive Block.Typed (c : EmissionContext) (result : Option Ty) : Bool → Block → Prop
  | mk {b n stmts} : Stmt.AllTyped c result b stmts → Block.Typed c result b (.mk n stmts)

inductive Stmt.AllTyped (c : EmissionContext) (result : Option Ty) : Bool → List Stmt → Prop
  | nil {b} : Stmt.AllTyped c result b []
  | cons {b s rest} : Stmt.Typed c result b s → Stmt.AllTyped c result b rest →
    Stmt.AllTyped c result b (s :: rest)

inductive Otherwise.Typed (c : EmissionContext) (result : Option Ty) : Bool → Otherwise → Prop
  | none {b} : Otherwise.Typed c result b .none
  | block {b body} : Block.Typed c result b body → Otherwise.Typed c result b (.block body)
  | chain {b s} : Stmt.Typed c result b s → Otherwise.Typed c result b (.chain s)

end

/-- What is recorded about a declared function fits its declaration, and its body is well typed. -/
structure Function.Typed (c : EmissionContext) (f : Function) (info : FunctionInfo) : Prop where
  item : info.item = f.node.id
  name : info.name = f.name.text
  names : ∃ i, c.resolution.itemOf? f.node.id = some i ∧ i.symbol = info.symbol ∧
    i.params = info.params
  nodup : info.params.Nodup
  params : info.signature.params = info.params.map c.typing.typeOfSymbol
  values : ∀ ty ∈ info.signature.params, ty.isValue = true
  result : f.result = none ∧ info.result = .void ∨
    f.result.isSome = true ∧ info.result.isValue = true
  body : Block.Typed c (some info.result) false f.body

/-- A well-typed program. -/
structure Program.Typed (c : EmissionContext) (p : Program) : Prop where
  functions : List.Forall₂ (Function.Typed c) p.functions c.typing.functions
  symbols : (c.typing.functions.map (·.symbol)).Nodup
  topLevel : Stmt.AllTyped c none false p.topLevel

end Craftlang
