import Craftlang.Diagnostic.Basic
import Craftlang.Pack.Namespace
import Craftlang.Scope.Table
import Craftlang.Tree.Basic

/-!
# What names mean

Every name in a program is bound to a symbol. Functions and type aliases are visible in the whole
program; a variable is visible after the point that declares it, to the end of its block. A plain
assignment to a name that is not visible declares it. A name that cannot be resolved is bound to the
error symbol and reported.
-/

namespace Craftlang

/-- What can be wrong with the names of a program. -/
inductive NameProblem where
  | duplicate (name : Bytes)
  | shadows (name : Bytes)
  | reserved (name : Bytes)
  | collision (name resource other : Bytes)
  | undefined (name : Bytes)
  | undeclared (op : AssignOp) (name : Bytes)
  | unknownType (name : Bytes)
  | notAType (name : Bytes) (kind : SymbolKind)
deriving DecidableEq, Repr

namespace NameProblem

def code : NameProblem → Code
  | duplicate _ => .duplicateName
  | shadows _ => .shadowedName
  | reserved _ | collision .. => .nameCollision
  | undefined _ | unknownType _ => .unresolvedName
  | undeclared .. => .undeclaredAssignment
  | notAType .. => .notAType

/-- Hiding an outer name is allowed, all else is an error. -/
def severity : NameProblem → Severity
  | shadows _ => .warning
  | _ => .error

def message : NameProblem → Bytes
  | duplicate name => "'" ++ name ++ "' is already declared in this scope"
  | shadows name => "'" ++ name ++ "' shadows an outer declaration"
  | reserved name => "function name '" ++ name ++ "' is reserved for top-level code"
  | collision name resource other =>
    "function '" ++ name ++ "' maps to the same resource name '" ++ resource ++ "' as '"
      ++ other ++ "'"
  | undefined name => "undefined name '" ++ name ++ "'"
  | undeclared op name =>
    "cannot apply '" ++ Bytes.ofString op.spelling ++ "' to undeclared variable '" ++ name ++ "'"
  | unknownType name => "unknown type '" ++ name ++ "'"
  | notAType name kind =>
    "'" ++ name ++ "' is a " ++ Bytes.ofString kind.name ++ ", not a type"

end NameProblem

/-- What an item was found to declare: its symbol, those of its parameters, and its scope; the last
two for functions only. -/
structure ItemSymbols where
  item : Nat
  symbol : Nat
  params : List Nat := []
  scope : Nat := 0
deriving Repr, Inhabited

/-- The symbols that the nodes of a program are bound to. Bindings are listed in the order in which
they were made. -/
structure Resolution where
  table : SymbolTable
  /-- Identifiers in expressions, assigned names among them. -/
  refs : List (Nat × Nat) := []
  /-- Declarations by `var`. -/
  decls : List (Nat × Nat) := []
  /-- Identifiers that were declared by assigning to them. -/
  implicit : List (Nat × Nat) := []
  /-- Types, by the place where they are written. -/
  types : List (Span × Nat) := []
  items : List ItemSymbols := []
  /-- The functions that own a resource name. -/
  resources : List (Bytes × Nat) := []
  diagnostics : List Diagnostic := []

namespace Resolution

/-- The symbol of an identifier. -/
def refOf? (r : Resolution) (node : Nat) : Option Nat := r.refs.lookup node

/-- The symbol of a declaration. -/
def declOf? (r : Resolution) (node : Nat) : Option Nat := r.decls.lookup node

/-- The symbol of a type where it is written. -/
def typeOf? (r : Resolution) (span : Span) : Option Nat := r.types.lookup span

def itemOf? (r : Resolution) (item : Nat) : Option ItemSymbols :=
  r.items.find? fun i => i.item == item

def report (r : Resolution) (p : NameProblem) (span : Span) (notes : List Note) : Resolution :=
  { r with diagnostics := r.diagnostics ++ [⟨p.severity, p.code, p.message, span, notes⟩] }

/-- A note at a symbol, unless it comes with the language. -/
def noteAt (r : Resolution) (symbol : Nat) (message : Bytes) : List Note :=
  match r.table.symbol? symbol with
  | some y => if y.flags.builtin then [] else [⟨y.span, message⟩]
  | none => []

/-- The span where a symbol was declared. -/
def spanOf (r : Resolution) (symbol : Nat) : Span :=
  ((r.table.symbol? symbol).map (·.span)).getD ⟨0, 0, 0⟩

/-- Reports what is wrong with declaring a name in the innermost scope of a path: a name that is
there already, or, if that is asked for, a name that hides one further out. -/
def checkDeclaration (r : Resolution) (warnShadow : Bool) (path : List Nat) (symbol : Symbol) :
    Resolution :=
  match path with
  | [] => r
  | here :: outer =>
    match r.table.findLocal? here symbol.name with
    | some previous =>
      r.report (.duplicate symbol.name) symbol.span
        [⟨r.spanOf previous, "previous declaration here"⟩]
    | none =>
      if !warnShadow then r
      else match r.table.findAlong? outer symbol.name with
        | some hidden =>
          r.report (.shadows symbol.name) symbol.span
            (r.noteAt hidden "shadowed declaration here")
        | none => r

/-- Is a scope the one of a whole file? -/
def isFileScope (r : Resolution) (scope : Nat) : Bool :=
  ((r.table.scope? scope).map fun s => s.kind == .file).getD false

/-- Declares a symbol in the innermost scope of a path. Variables of the file scope are global. -/
def declare (r : Resolution) (warnShadow : Bool) (path : List Nat) (symbol : Symbol) :
    Resolution × Nat :=
  let checked := r.checkDeclaration warnShadow path symbol
  let here := path.headD 0
  let isGlobal := symbol.flags.isGlobal || (r.isFileScope here && symbol.kind == .var)
  let symbol := { symbol with flags := { symbol.flags with isGlobal } }
  match checked.table.declare? here symbol with
  | some (table, id) => ({ checked with table }, id)
  | none => (checked, 0)

/-- Reports a function whose resource name is taken, or reserved for the program itself. -/
def checkResource (r : Resolution) (symbol : Nat) (name : Name) : Resolution :=
  let resource := ResourceName.normalize name.text
  if resource == ResourceName.entry then r.report (.reserved name.text) name.span []
  else match r.resources.lookup resource with
    | none => { r with resources := r.resources ++ [(resource, symbol)] }
    | some other =>
      if r.table.nameOf other == name.text then r
      else r.report (.collision name.text resource (r.table.nameOf other)) name.span
        [⟨r.spanOf other, "conflicting function here"⟩]

/-- Notes which symbol an item declares. -/
def addItem (r : Resolution) (item symbol : Nat) : Resolution :=
  { r with items := r.items ++ [{ item, symbol }] }

/-- Declares a function or a type alias for the whole program. -/
def hoist (warnShadow : Bool) (path : List Nat) (r : Resolution) : Item → Resolution
  | .function f =>
    let (r, symbol) := r.declare warnShadow path
      { name := f.name.text, kind := .function, span := f.name.span,
        flags := { hoisted := true, isGlobal := true } }
    (r.addItem f.node.id symbol).checkResource symbol f.name
  | .typeAlias a =>
    let (r, symbol) := r.declare warnShadow path
      { name := a.name.text, kind := .type, span := a.name.span, flags := { hoisted := true } }
    r.addItem a.node.id symbol
  | _ => r

/-- Binds an identifier. -/
def ident (path : List Nat) (r : Resolution) (i : Ident) : Resolution :=
  match r.table.findAlong? path i.name with
  | some symbol => { r with refs := r.refs ++ [(i.node.id, symbol)] }
  | none =>
    let r := r.report (.undefined i.name) i.node.span []
    { r with refs := r.refs ++ [(i.node.id, SymbolTable.errorSymbol)] }

/-- Binds the target of an assignment whose value is resolved; a plain assignment may declare it. -/
def target (warnShadow : Bool) (path : List Nat) (r : Resolution) (op : AssignOp) (i : Ident) :
    Resolution :=
  match r.table.findAlong? path i.name with
  | some symbol => { r with refs := r.refs ++ [(i.node.id, symbol)] }
  | none =>
    if op = .set then
      let (r, symbol) := r.declare warnShadow path
        { name := i.name, kind := .var, span := i.node.span, flags := { implicit := true } }
      { r with
        refs := r.refs ++ [(i.node.id, symbol)]
        implicit := r.implicit ++ [(i.node.id, symbol)] }
    else
      let r := r.report (.undeclared op i.name) i.node.span []
      { r with refs := r.refs ++ [(i.node.id, SymbolTable.errorSymbol)] }

/-- Binds a type where it is written. -/
def typeRef (path : List Nat) (r : Resolution) (type : Name) : Resolution :=
  let bind (r : Resolution) (symbol : Nat) : Resolution :=
    { r with types := r.types ++ [(type.span, symbol)] }
  match r.table.findAlong? path type.text with
  | none =>
    bind (r.report (.unknownType type.text) type.span []) SymbolTable.errorSymbol
  | some symbol =>
    let kind := ((r.table.symbol? symbol).map (·.kind)).getD .invalid
    if kind = .type then bind r symbol
    else
      bind (r.report (.notAType type.text kind) type.span (r.noteAt symbol "declared here"))
        SymbolTable.errorSymbol

/-- Binds a type if one is written. -/
def typeRef? (path : List Nat) (r : Resolution) : Option Name → Resolution
  | none => r
  | some type => typeRef path r type

mutual

/-- Binds the names of an expression from left to right, the target of an assignment after its
value. -/
def expr (warnShadow : Bool) (path : List Nat) (r : Resolution) : Expr → Resolution
  | .error _ | .constant .. => r
  | .ident i => ident path r i
  | .binary _ _ _ left right => expr warnShadow path (expr warnShadow path r left) right
  | .unary _ _ operand => expr warnShadow path r operand
  | .group _ inner => expr warnShadow path r inner
  | .call _ callee args => exprs warnShadow path (expr warnShadow path r callee) args
  | .assign _ op _ i value => target warnShadow path (expr warnShadow path r value) op i

def exprs (warnShadow : Bool) (path : List Nat) (r : Resolution) : List Expr → Resolution
  | [] => r
  | e :: es => exprs warnShadow path (expr warnShadow path r e) es

end

/-- Binds the names of an expression if there is one. -/
def expr? (warnShadow : Bool) (path : List Nat) (r : Resolution) : Option Expr → Resolution
  | none => r
  | some e => expr warnShadow path r e

/-- Opens a scope inside the innermost of a path. -/
def openScope (r : Resolution) (kind : ScopeKind) (path : List Nat) (span : Span) :
    Resolution × Nat :=
  let (table, id) := r.table.openScope kind (path.headD 0) span
  ({ r with table }, id)

mutual

/-- Binds the names of a statement; a declared name is not visible in its own value. -/
def stmt (warnShadow : Bool) (path : List Nat) (r : Resolution) : Stmt → Resolution
  | .error _ | .leave _ | .again _ | .command .. => r
  | .var n name type value =>
    let r := expr? warnShadow path (typeRef? path r type) value
    let (r, symbol) := r.declare warnShadow path
      { name := name.text, kind := .var, span := name.span }
    { r with decls := r.decls ++ [(n.id, symbol)] }
  | .expr _ e => expr warnShadow path r e
  | .branch _ cond body otherwise =>
    alternative warnShadow path
      (block warnShadow path (expr warnShadow path r cond) body) otherwise
  | .loop _ .before cond body => block warnShadow path (expr warnShadow path r cond) body
  | .loop _ .after cond body => expr warnShadow path (block warnShadow path r body) cond
  | .give _ value => expr? warnShadow path r value

/-- Binds the names of a block in a scope of its own. -/
def block (warnShadow : Bool) (path : List Nat) (r : Resolution) : Block → Resolution
  | .mk n body =>
    let (r, scope) := r.openScope .block path n.span
    stmts warnShadow (scope :: path) r body

def stmts (warnShadow : Bool) (path : List Nat) (r : Resolution) : List Stmt → Resolution
  | [] => r
  | s :: rest => stmts warnShadow path (stmt warnShadow path r s) rest

def alternative (warnShadow : Bool) (path : List Nat) (r : Resolution) : Otherwise → Resolution
  | .none => r
  | .block body => block warnShadow path r body
  | .chain s => stmt warnShadow path r s

end

/-- Declares parameters in order. -/
def params (warnShadow : Bool) (path : List Nat) (r : Resolution) : List Param → Resolution × List Nat
  | [] => (r, [])
  | p :: ps =>
    let (r, symbol) := r.declare warnShadow path
      { name := p.name.text, kind := .param, span := p.name.span }
    let (r, symbols) := params warnShadow path r ps
    (r, symbol :: symbols)

/-- Binds the names of a function; its parameters and its body share one scope. -/
def function (warnShadow : Bool) (path : List Nat) (r : Resolution) (f : Function) : Resolution :=
  let r := f.params.foldl (fun r p => typeRef path r p.type) r
  let r := typeRef? path r f.result
  let (r, scope) := r.openScope .function path f.node.span
  let (r, symbols) := params warnShadow (scope :: path) r f.params
  let r := { r with
    items := r.items.map fun i =>
      if i.item = f.node.id then { i with params := symbols, scope } else i }
  stmts warnShadow (scope :: path) r f.body.stmts

def item (warnShadow : Bool) (path : List Nat) (r : Resolution) : Item → Resolution
  | .error _ => r
  | .function f => function warnShadow path r f
  | .typeAlias a => typeRef path r a.target
  | .stmt _ s => stmt warnShadow path r s

end Resolution

/-- Resolves the names of a program: first the declarations that are visible everywhere, then all
items in order. -/
def Program.resolve (p : Program) (warnShadow : Bool) : Resolution :=
  let (opened, scope) :=
    ({ table := .start } : Resolution).openScope .file [SymbolTable.outermost] p.span
  let path := [scope, SymbolTable.outermost]
  let hoisted := p.items.foldl (Resolution.hoist warnShadow path) opened
  p.items.foldl (Resolution.item warnShadow path) hoisted

end Craftlang
