import Craftlang.Token.Basic

/-!
# Operators

Binary operators by precedence, the prefix operators, and the assignments; every compound assignment
applies a binary operator.
-/

namespace Craftlang

inductive BinaryOp where
  | or | xor | and | eq | notEq | less | lessEq | greater | greaterEq | concat
  | add | sub | mul | div | mod
deriving DecidableEq, Repr, Inhabited

namespace BinaryOp

/-- All binary operators; an operator's number is its place here. -/
def all : List BinaryOp :=
  [or, xor, and, eq, notEq, less, lessEq, greater, greaterEq, concat, add, sub, mul, div, mod]

def spelling : BinaryOp → String
  | or => "|"
  | xor => "^"
  | and => "&"
  | eq => "=="
  | notEq => "!="
  | less => "<"
  | lessEq => "<="
  | greater => ">"
  | greaterEq => ">="
  | concat => ".."
  | add => "+"
  | sub => "-"
  | mul => "*"
  | div => "/"
  | mod => "%"

/-- An operator of higher precedence binds its operands first. -/
def precedence : BinaryOp → Nat
  | or => 1
  | xor => 2
  | and => 3
  | eq | notEq | less | lessEq | greater | greaterEq => 4
  | concat => 5
  | add | sub => 6
  | mul | div | mod => 7

def ofKind? : Kind → Option BinaryOp
  | .pipe => some or
  | .caret => some xor
  | .amp => some and
  | .eqEq => some eq
  | .bangEq => some notEq
  | .lt => some less
  | .ltEq => some lessEq
  | .gt => some greater
  | .gtEq => some greaterEq
  | .dotDot => some concat
  | .plus => some add
  | .minus => some sub
  | .star => some mul
  | .slash => some div
  | .percent => some mod
  | _ => none

def isArithmetic : BinaryOp → Bool
  | add | sub | mul | div | mod => true
  | _ => false

def isOrdering : BinaryOp → Bool
  | less | lessEq | greater | greaterEq => true
  | _ => false

def isLogical : BinaryOp → Bool
  | or | xor | and => true
  | _ => false

end BinaryOp

inductive UnaryOp where
  | plus | minus | not
deriving DecidableEq, Repr, Inhabited

namespace UnaryOp

/-- All prefix operators; an operator's number is its place here. -/
def all : List UnaryOp := [plus, minus, not]

def spelling : UnaryOp → String
  | plus => "+"
  | minus => "-"
  | not => "!"

def ofKind? : Kind → Option UnaryOp
  | .plus => some plus
  | .minus => some minus
  | .bang => some not
  | _ => none

end UnaryOp

inductive AssignOp where
  | set | add | sub | mul | div | mod | and | xor | or
deriving DecidableEq, Repr, Inhabited

namespace AssignOp

/-- All assignments; an assignment's number is its place here. -/
def all : List AssignOp := [set, add, sub, mul, div, mod, and, xor, or]

/-- The operator that a compound assignment applies. -/
def binary? : AssignOp → Option BinaryOp
  | set => none
  | add => some .add
  | sub => some .sub
  | mul => some .mul
  | div => some .div
  | mod => some .mod
  | and => some .and
  | xor => some .xor
  | or => some .or

def spelling (op : AssignOp) : String :=
  match op.binary? with
  | none => "="
  | some b => b.spelling ++ "="

def ofKind? : Kind → Option AssignOp
  | .assign => some set
  | .plusAssign => some add
  | .minusAssign => some sub
  | .starAssign => some mul
  | .slashAssign => some div
  | .percentAssign => some mod
  | .ampAssign => some and
  | .caretAssign => some xor
  | .pipeAssign => some or
  | _ => none

end AssignOp

end Craftlang
