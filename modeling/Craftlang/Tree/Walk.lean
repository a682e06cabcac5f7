import Craftlang.Tree.Basic

/-!
# Walking trees

The nodes that later stages say something about: all expressions, the targets of assignments among
them, and the declarations of variables; each with the name of its form, in the order of the source but
for operators, which come before their operands.
-/

namespace Craftlang

mutual

def Expr.nodes : Expr → List (Node × String)
  | .error n => [(n, "Error")]
  | .constant n _ => [(n, "Literal")]
  | .ident i => [(i.node, "Ident")]
  | .binary n _ _ left right => (n, "Binary") :: (left.nodes ++ right.nodes)
  | .unary n _ operand => (n, "Unary") :: operand.nodes
  | .call n target args => (n, "Call") :: (target.nodes ++ Expr.nodesOfAll args)
  | .group n inner => (n, "Group") :: inner.nodes
  | .assign n _ _ target value => (n, "Assign") :: (target.node, "Ident") :: value.nodes

def Expr.nodesOfAll : List Expr → List (Node × String)
  | [] => []
  | e :: es => e.nodes ++ Expr.nodesOfAll es

end

/-- The nodes of an expression that may be missing. -/
def Expr.nodesOf? (e : Option Expr) : List (Node × String) := (e.map Expr.nodes).getD []

mutual

def Stmt.nodes : Stmt → List (Node × String)
  | .var n _ _ value => (n, "Var") :: Expr.nodesOf? value
  | .expr _ e => e.nodes
  | .branch _ cond body otherwise => cond.nodes ++ body.nodes ++ otherwise.nodes
  | .loop _ _ cond body => cond.nodes ++ body.nodes
  | .give _ value => Expr.nodesOf? value
  | .error _ | .leave _ | .again _ | .command .. => []

def Block.nodes : Block → List (Node × String)
  | .mk _ stmts => Stmt.nodesOfAll stmts

def Otherwise.nodes : Otherwise → List (Node × String)
  | .none => []
  | .block body => body.nodes
  | .chain s => s.nodes

def Stmt.nodesOfAll : List Stmt → List (Node × String)
  | [] => []
  | s :: ss => s.nodes ++ Stmt.nodesOfAll ss

end

def Item.nodes : Item → List (Node × String)
  | .function f => f.body.nodes
  | .stmt _ s => s.nodes
  | .error _ | .typeAlias _ => []

def Program.nodes (p : Program) : List (Node × String) := p.items.flatMap Item.nodes

end Craftlang
