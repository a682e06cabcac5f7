import Craftlang.Diagnostic.Basic
import Craftlang.Scope.Table
import Craftlang.Tree.Walk

/-!
# Names and environments

What names mean, said with an environment and without a table: the declarations of each scope in the
order in which they are made, the innermost scope first. A walk through a piece of a program changes
the environment and tells what happens to names on the way. Declarations are known by number, in the
order in which they are made; the first numbers belong to the language.
-/

namespace Craftlang

/-- The piece of a program that declares a name. -/
inductive Declarer where
  | item (node : Nat)
  | var (node : Nat)
  | param
  | target (node : Nat)
deriving DecidableEq, Repr

structure Declaration where
  name : Bytes
  kind : SymbolKind
  span : Span
  declarer : Declarer
deriving DecidableEq, Repr

/-- What happens to a name. -/
inductive NameEvent where
  /-- A declaration is made and gets a number. -/
  | declares (d : Declaration) (number : Nat)
  /-- An identifier means a declaration. -/
  | means (i : Ident) (number : Nat)
  /-- An identifier means nothing, and this is what is wrong with it. -/
  | lacks (i : Ident) (code : Code)
  /-- The name of a type means nothing. -/
  | lacksType (type : Name)
deriving DecidableEq, Repr

/-- The scopes that are open, innermost first, each with what its names mean, first declared first; and
how many declarations were made. -/
structure NameEnvironment where
  frames : List (List (Bytes × Nat))
  count : Nat

namespace NameEnvironment

/-- What the language provides; its first declaration has no name that can be written. -/
def start : NameEnvironment :=
  { frames := [[("int", 2), ("bool", 3), ("string", 4), ("print", 5)]], count := 5 }

/-- The first declaration of a name in the innermost scope that has one. -/
def find? (env : NameEnvironment) (name : Bytes) : Option Nat :=
  env.frames.findSome? fun frame => frame.lookup name

def enter (env : NameEnvironment) : NameEnvironment := { env with frames := [] :: env.frames }

def leave (env : NameEnvironment) : NameEnvironment := { env with frames := env.frames.tail }

/-- Declares a name in the innermost scope. -/
def bind (env : NameEnvironment) (name : Bytes) : NameEnvironment where
  frames := env.frames.modifyHead (· ++ [(name, env.count + 1)])
  count := env.count + 1

end NameEnvironment

/-- A walk through a piece of a program. -/
abbrev NameWalk := NameEnvironment → NameEnvironment × List NameEvent

namespace NameWalk

def skip : NameWalk := fun env => (env, [])

/-- One piece, and then another. -/
def andThen (first second : NameWalk) : NameWalk := fun env =>
  ((second (first env).1).1, (first env).2 ++ (second (first env).1).2)

/-- A piece with a scope of its own. -/
def within (inner : NameWalk) : NameWalk := fun env =>
  ((inner env.enter).1.leave, (inner env.enter).2)

def declare (d : Declaration) : NameWalk := fun env =>
  (env.bind d.name, [.declares d (env.count + 1)])

def ident (i : Ident) : NameWalk := fun env =>
  match env.find? i.name with
  | some number => (env, [.means i number])
  | none => (env, [.lacks i .unresolvedName])

/-- The declaration that a plain assignment makes. -/
def declarationOf (i : Ident) : Declaration := ⟨i.name, .var, i.node.span, .target i.node.id⟩

/-- The target of an assignment: a plain assignment declares a name that means nothing. -/
def target (op : AssignOp) (i : Ident) : NameWalk := fun env =>
  match env.find? i.name with
  | some number => (env, [.means i number])
  | none =>
    if op = .set then
      (env.bind i.name, [.declares (declarationOf i) (env.count + 1), .means i (env.count + 1)])
    else (env, [.lacks i .undeclaredAssignment])

def type (type : Name) : NameWalk := fun env =>
  (env, if (env.find? type.text).isSome then [] else [.lacksType type])

/-- A piece that may be missing. -/
def optional {α : Type} (walk : α → NameWalk) : Option α → NameWalk
  | none => skip
  | some a => walk a

/-- One piece after the other. -/
def each {α : Type} (walk : α → NameWalk) : List α → NameWalk
  | [] => skip
  | a :: as => (walk a).andThen (each walk as)

end NameWalk

open NameWalk

mutual

/-- The value of an assignment comes before its target. -/
def Expr.names : Expr → NameWalk
  | .error _ | .constant .. => skip
  | .ident i => NameWalk.ident i
  | .binary _ _ _ left right => left.names.andThen right.names
  | .unary _ _ operand => operand.names
  | .group _ inner => inner.names
  | .call _ callee args => callee.names.andThen (Expr.namesOf args)
  | .assign _ op _ i value => value.names.andThen (target op i)

def Expr.namesOf : List Expr → NameWalk
  | [] => skip
  | e :: es => e.names.andThen (Expr.namesOf es)

end

mutual

/-- The value of a variable comes before its declaration. -/
def Stmt.names : Stmt → NameWalk
  | .error _ | .leave _ | .again _ | .command .. => skip
  | .var n name type value =>
    (optional NameWalk.type type).andThen ((optional Expr.names value).andThen
      (declare ⟨name.text, .var, name.span, .var n.id⟩))
  | .expr _ e => e.names
  | .branch _ cond body otherwise => cond.names.andThen (body.names.andThen otherwise.names)
  | .loop _ .before cond body => cond.names.andThen body.names
  | .loop _ .after cond body => body.names.andThen cond.names
  | .give _ value => optional Expr.names value

def Block.names : Block → NameWalk
  | .mk _ body => within (Stmt.namesOf body)

def Stmt.namesOf : List Stmt → NameWalk
  | [] => skip
  | s :: rest => s.names.andThen (Stmt.namesOf rest)

def Otherwise.names : Otherwise → NameWalk
  | .none => skip
  | .block body => body.names
  | .chain s => s.names

end

def Param.declaration (p : Param) : Declaration := ⟨p.name.text, .param, p.name.span, .param⟩

/-- The parameters and the body of a function share a scope; its types are named outside of it. -/
def Function.names (f : Function) : NameWalk :=
  (each (fun p => NameWalk.type p.type) f.params).andThen
    ((optional NameWalk.type f.result).andThen
      (within ((each (fun p => declare p.declaration) f.params).andThen (Stmt.namesOf f.body.stmts))))

def Item.names : Item → NameWalk
  | .error _ => skip
  | .function f => f.names
  | .typeAlias a => NameWalk.type a.target
  | .stmt _ s => s.names

/-- What an item declares for the whole program. -/
def Item.hoisted : Item → NameWalk
  | .function f => declare ⟨f.name.text, .function, f.name.span, .item f.node.id⟩
  | .typeAlias a => declare ⟨a.name.text, .type, a.name.span, .item a.node.id⟩
  | .error _ | .stmt .. => skip

/-- Functions and type aliases are declared before anything else is looked at. -/
def Program.names (p : Program) : NameWalk :=
  within ((each Item.hoisted p.items).andThen (each Item.names p.items))

/-- What happens to the names of a program. -/
def Program.nameEvents (p : Program) : List NameEvent := (p.names .start).2

namespace NameEvent

/-- The declaration that is made. -/
def declaration? : NameEvent → Option Declaration
  | declares d _ => some d
  | _ => none

end NameEvent

end Craftlang
