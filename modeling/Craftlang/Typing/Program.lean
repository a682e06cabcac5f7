import Craftlang.Tree.Basic
import Craftlang.Typing.Expr

/-!
# Typing a program

Signatures come first, so that a function may be called above its declaration; then all items are
checked in order.
-/

/-!
## Where a function returns

A statement is closed if no run of it goes on behind it: on every path it returns, or it loops forever.
Conditions are not evaluated, except for the literal `true`.
-/

namespace Craftlang

/-- Is the expression the literal `true`, in parentheses or not? -/
def Expr.isTrue (e : Expr) : Bool :=
  match e.unwrap with
  | .constant _ (.bool true) => true
  | _ => false

mutual

def Stmt.isClosed : Stmt → Bool
  | .give .. => true
  | .branch _ _ body otherwise => body.isClosed && otherwise.isClosed
  | .loop _ .before cond body => cond.isTrue && !body.mayLeave
  | .loop _ .after cond body => !body.mayLeave && (body.isClosed || cond.isTrue)
  | _ => false

def Block.isClosed : Block → Bool
  | .mk _ stmts => Stmt.anyIsClosed stmts

def Stmt.anyIsClosed : List Stmt → Bool
  | [] => false
  | s :: rest => s.isClosed || Stmt.anyIsClosed rest

def Otherwise.isClosed : Otherwise → Bool
  | .none => false
  | .block body => body.isClosed
  | .chain s => s.isClosed

end

/-! ## Statements, functions and programs -/

namespace Typing

/-- Checks a condition. -/
def condition (c : TypingContext) (t : Typing) (cond : Expr) : Typing :=
  let (t, ty) := value c t cond
  if ty = .invalid || ty = .bool then t else t.report (.notBoolean ty) cond.span

/-- Checks a declaration: the value fits the type that is written, or the type is that of the value. -/
def variableDecl (c : TypingContext) (t : Typing) (node : Node) (name : Name) (type : Option Name)
    (init : Option Expr) : Typing :=
  let (t, ty) := match type, init with
    | some type, some e =>
      let (t, declared) := t.writtenType c type
      let (t, ty) := value c t e
      (if declared.accepts ty then t
        else t.report (.initMismatch name.text declared ty) e.span, declared)
    | some type, none => t.writtenType c type
    | none, some e => value c t e
    | none, none => (t.report (.untypedVariable name.text) name.span, .invalid)
  match c.resolution.declOf? node.id with
  | some symbol => t.noteSymbol symbol (.value ty)
  | none => t

/-- Checks what is returned against the function around it. -/
def give (c : TypingContext) (t : Typing) (node : Node) (result : Option Expr) : Typing :=
  match c.function, result with
  | none, none => t.report .giveOutsideFunction node.span
  | none, some e => (expr c t e).1.report .giveOutsideFunction node.span
  | some f, none =>
    if f.result = .void || f.result = .invalid then t
    else t.report (.mustGive f.name f.result) node.span
  | some f, some e =>
    if f.result = .void then
      let (t, ty) := expr c t e
      if ty = .invalid then t else t.report (.givesNothing f.name) e.span
    else
      let (t, ty) := value c t e
      if f.result.accepts ty then t
      else t.report (.resultMismatch ty f.name f.result) e.span

mutual

def stmt (c : TypingContext) (t : Typing) : Stmt → Typing
  | .error _ | .command .. => t
  | .var n name type init => variableDecl c t n name type init
  | .expr _ e => (expr c t e).1
  | .branch _ cond body otherwise =>
    alternative c (block c (condition c t cond) body) otherwise
  | .loop _ .before cond body => block { c with inLoop := true } (condition c t cond) body
  | .loop _ .after cond body => condition c (block { c with inLoop := true } t body) cond
  | .leave n => if c.inLoop then t else t.report .leaveOutsideLoop n.span
  | .again n => if c.inLoop then t else t.report .againOutsideLoop n.span
  | .give n result => give c t n result

def block (c : TypingContext) (t : Typing) : Block → Typing
  | .mk _ body => stmts c t body

def stmts (c : TypingContext) (t : Typing) : List Stmt → Typing
  | [] => t
  | s :: rest => stmts c (stmt c t s) rest

def alternative (c : TypingContext) (t : Typing) : Otherwise → Typing
  | .none => t
  | .block body => block c t body
  | .chain s => stmt c t s

end

/-- The types of parameters, which become those of their symbols. -/
def paramTypes (c : TypingContext) (t : Typing) : List Param → List Nat → Typing × List Ty
  | [], _ => (t, [])
  | p :: ps, symbols =>
    let (t, ty) := t.writtenType c p.type
    let t := match symbols with
      | symbol :: _ => t.noteSymbol symbol (.value ty)
      | [] => t
    let (t, types) := paramTypes c t ps symbols.tail
    (t, ty :: types)

end Typing

/-- The group of tags that are written without one. -/
def Tag.defaultGroup : Bytes := "minecraft"

/-- The resource location of a tag: the first part is the group, the others are the path, and a single
part stands in the default group. A part that is no resource name is the answer otherwise. -/
def Tag.ofName (name : DottedName) : Except Bytes Tag :=
  match name.parts.find? fun part => ResourceName.normalize part != part with
  | some part => .error part
  | none =>
    match name.parts with
    | group :: part :: parts => .ok ⟨group, Bytes.join "/" (part :: parts), name.span⟩
    | parts => .ok ⟨defaultGroup, Bytes.join "/" parts, name.span⟩

namespace Typing

/-- The tags of a function, without those that are no resource locations; these are reported. -/
def tags (t : Typing) : List DottedName → Typing × List Tag
  | [] => (t, [])
  | name :: names =>
    match Tag.ofName name with
    | .ok tag =>
      let (t, rest) := t.tags names
      (t, tag :: rest)
    | .error part => (t.report (.badTag name.render part) name.span).tags names

/-- Finds out how a function is called. -/
def declareFunction (c : TypingContext) (t : Typing) (f : Function) : Typing :=
  let names := (c.resolution.itemOf? f.node.id).getD { item := f.node.id, symbol := 0 }
  let (t, params) := paramTypes c t f.params names.params
  let (t, result) := match f.result with
    | some type => t.writtenType c type
    | none => (t, .void)
  let signature : Signature := ⟨params, result⟩
  let t := t.noteSymbol names.symbol (.function signature)
  let t := match f.tags, f.params with
    | first :: _, _ :: _ =>
      t.report (.tagWithParams f.name.text) f.name.span [⟨first.span, "tag here"⟩]
    | _, _ => t
  let (t, tags) := t.tags f.tags
  let info : FunctionInfo :=
    ⟨f.node.id, names.symbol, f.name.text, names.params, signature, tags⟩
  { t with functions := t.functions ++ [info] }

/-- Checks the body of a function. -/
def function (c : TypingContext) (t : Typing) (f : Function) : Typing :=
  match t.functionOfItem? f.node.id with
  | none => t
  | some info =>
    let t := block { c with function := some info } t f.body
    if info.result = .void || info.result = .invalid || f.body.isClosed then t
    else t.report (.mayNotGive info.name info.result) f.name.span

def item (c : TypingContext) (t : Typing) : Item → Typing
  | .error _ => t
  | .function f => function c t f
  | .typeAlias a => (t.namedType c (((c.resolution.itemOf? a.node.id).map (·.symbol)).getD 0)).1
  | .stmt _ s => stmt c t s

/-- What the language provides: a function that prints every value. -/
def start (r : Resolution) : Typing :=
  match r.table.findLocal? SymbolTable.outermost "print" with
  | some symbol => ({} : Typing).noteSymbol symbol (.function ⟨[.any], .void⟩)
  | none => {}

end Typing

/-- The aliases of a program by symbol, each with the symbol of its target. -/
def Program.aliases (p : Program) (r : Resolution) : List (Nat × Nat) :=
  p.items.filterMap fun
    | .typeAlias a =>
      (r.itemOf? a.node.id).map fun i => (i.symbol, (r.typeOf? a.target.span).getD 0)
    | _ => none

/-- Types a program whose names are resolved. -/
def Program.typed (p : Program) (r : Resolution) : Typing :=
  let c : TypingContext := { resolution := r, aliases := p.aliases r }
  let declared := p.functions.foldl (Typing.declareFunction c) (Typing.start r)
  p.items.foldl (Typing.item c) declared

end Craftlang
