import Craftlang.Source.Span
import Craftlang.Tree.Operator

/-!
# Programs as trees

What the parser makes of a source. Every expression, statement and item is a node with a number of
its own, by which later stages remember what they found out about it; the number of a node is larger
than the numbers of the nodes below it. What could not be read is kept as an error node.
-/

namespace Craftlang

structure Node where
  id : Nat
  span : Span
deriving DecidableEq, Repr, Inhabited

/-- A name where it is written. -/
structure Name where
  text : Bytes
  span : Span
deriving DecidableEq, Repr, Inhabited

/-- A dotted name such as `minecraft.tick`. -/
structure DottedName where
  parts : List Bytes
  span : Span
deriving DecidableEq, Repr, Inhabited

def DottedName.render (n : DottedName) : Bytes := Bytes.join "." n.parts

/-- A literal: an integer as it is spelled, a boolean, or the value of a string. -/
inductive Constant where
  | int (text : Bytes)
  | bool (value : Bool)
  | string (value : Bytes)
deriving DecidableEq, Repr, Inhabited

/-- A name that stands for a value. -/
structure Ident where
  node : Node
  name : Bytes
deriving DecidableEq, Repr, Inhabited

inductive Expr where
  | error (node : Node)
  | constant (node : Node) (value : Constant)
  | ident (ident : Ident)
  | binary (node : Node) (op : BinaryOp) (opSpan : Span) (left right : Expr)
  | unary (node : Node) (op : UnaryOp) (operand : Expr)
  | call (node : Node) (target : Expr) (args : List Expr)
  | group (node : Node) (inner : Expr)
  | assign (node : Node) (op : AssignOp) (opSpan : Span) (target : Ident) (value : Expr)
deriving Repr, Inhabited

namespace Expr

def node : Expr → Node
  | error n | constant n _ | binary n .. | unary n .. | call n .. | group n _ | assign n .. => n
  | ident i => i.node

def span (e : Expr) : Span := e.node.span

def id (e : Expr) : Nat := e.node.id

/-- The expression inside parentheses. -/
def unwrap : Expr → Expr
  | group _ inner => inner.unwrap
  | e => e

end Expr

/-- A loop tests its condition before its body or after it. -/
inductive LoopKind where
  | before | after
deriving DecidableEq, Repr, Inhabited

mutual

inductive Stmt where
  | error (node : Node)
  | var (node : Node) (name : Name) (type : Option Name) (value : Option Expr)
  | expr (node : Node) (e : Expr)
  | branch (node : Node) (cond : Expr) (body : Block) (otherwise : Otherwise)
  | loop (node : Node) (kind : LoopKind) (cond : Expr) (body : Block)
  | leave (node : Node)
  | again (node : Node)
  | give (node : Node) (value : Option Expr)
  | command (node : Node) (text : Bytes)

/-- Indented statements. -/
inductive Block where
  | mk (node : Node) (stmts : List Stmt)

/-- What stands after `else`: nothing, a block, or a statement that starts on the same line, which is
another branch unless it could not be read. -/
inductive Otherwise where
  | none
  | block (body : Block)
  | chain (stmt : Stmt)

end

namespace Block

def node : Block → Node
  | mk n _ => n

def stmts : Block → List Stmt
  | mk _ ss => ss

def span (b : Block) : Span := b.node.span

end Block

namespace Stmt

def node : Stmt → Node
  | error n | var n .. | expr n _ | branch n .. | loop n .. | leave n | again n | give n _
  | command n _ => n

def span (s : Stmt) : Span := s.node.span

def id (s : Stmt) : Nat := s.node.id

end Stmt

structure Param where
  name : Name
  type : Name
deriving Repr, Inhabited

/-- A function; without a result type it returns nothing. -/
structure Function where
  node : Node
  tags : List DottedName
  name : Name
  params : List Param
  result : Option Name
  body : Block

/-- Another name for a type. -/
structure Alias where
  node : Node
  name : Name
  target : Name
deriving Repr, Inhabited

inductive Item where
  | error (node : Node)
  | function (f : Function)
  | typeAlias (a : Alias)
  | stmt (node : Node) (s : Stmt)

namespace Item

def node : Item → Node
  | error n | stmt n _ => n
  | function f => f.node
  | typeAlias a => a.node

def span (i : Item) : Span := i.node.span

end Item

/-- A whole source: its namespace, if it names one, and its items. -/
structure Program where
  span : Span
  header : Option DottedName
  items : List Item

namespace Program

def functions (p : Program) : List Function :=
  p.items.filterMap fun
    | .function f => some f
    | _ => none

end Program

end Craftlang

/-!
## How control leaves a statement

A statement may leave through `break`, `continue` or `return`; what follows it is then run only if it
did not. An expression has effects if evaluating it may change a variable.
-/

namespace Craftlang

/-- Does the statement always leave the block it stands in? -/
def Stmt.isJump : Stmt → Bool
  | .leave _ | .again _ | .give .. => true
  | _ => false

mutual

/-- May the statement leave the loop it stands in? -/
def Stmt.mayLeave : Stmt → Bool
  | .leave _ => true
  | .branch _ _ body otherwise => body.mayLeave || otherwise.mayLeave
  | _ => false

def Block.mayLeave : Block → Bool
  | .mk _ stmts => Stmt.anyMayLeave stmts

def Stmt.anyMayLeave : List Stmt → Bool
  | [] => false
  | s :: rest => s.mayLeave || Stmt.anyMayLeave rest

def Otherwise.mayLeave : Otherwise → Bool
  | .none => false
  | .block body => body.mayLeave
  | .chain s => s.mayLeave

end

mutual

/-- May the statement return from the function? -/
def Stmt.mayGive : Stmt → Bool
  | .give .. => true
  | .branch _ _ body otherwise => body.mayGive || otherwise.mayGive
  | .loop _ _ _ body => body.mayGive
  | _ => false

def Block.mayGive : Block → Bool
  | .mk _ stmts => Stmt.anyMayGive stmts

def Stmt.anyMayGive : List Stmt → Bool
  | [] => false
  | s :: rest => s.mayGive || Stmt.anyMayGive rest

def Otherwise.mayGive : Otherwise → Bool
  | .none => false
  | .block body => body.mayGive
  | .chain s => s.mayGive

end

mutual

/-- May the statement continue with the next round of the loop it stands in? -/
def Stmt.mayRepeat : Stmt → Bool
  | .again _ => true
  | .branch _ _ body otherwise => body.mayRepeat || otherwise.mayRepeat
  | _ => false

def Block.mayRepeat : Block → Bool
  | .mk _ stmts => Stmt.anyMayRepeat stmts

def Stmt.anyMayRepeat : List Stmt → Bool
  | [] => false
  | s :: rest => s.mayRepeat || Stmt.anyMayRepeat rest

def Otherwise.mayRepeat : Otherwise → Bool
  | .none => false
  | .block body => body.mayRepeat
  | .chain s => s.mayRepeat

end

/-- May evaluating the expression change a variable? -/
def Expr.hasEffects : Expr → Bool
  | .call .. | .assign .. => true
  | .binary _ _ _ left right => left.hasEffects || right.hasEffects
  | .unary _ _ operand => operand.hasEffects
  | .group _ inner => inner.hasEffects
  | .error _ | .constant .. | .ident _ => false

end Craftlang
