import Craftlang.Source.Span
import Craftlang.Source.NameTable

/-!
# The symbol table

All scopes and symbols of a program. Scope 1 holds what the language provides; symbol 1 stands for
every name that could not be resolved.
-/

/-!
## Symbols and scopes

A symbol is what a name stands for; a scope holds the symbols declared in one stretch of a program.
Both are known by number: zero is none, and numbers are given in the order of declaration.
-/

namespace Craftlang

inductive SymbolKind where
  | invalid | function | var | param | type | error
deriving DecidableEq, Repr, Inhabited

namespace SymbolKind

def name : SymbolKind → String
  | function => "function"
  | var => "var"
  | param => "param"
  | type => "type"
  | error => "error"
  | invalid => "invalid"

/-- The kind with a number; numbers without a kind are invalid. -/
def ofNumber : Nat → SymbolKind
  | 1 => function
  | 2 => var
  | 3 => param
  | 4 => type
  | 5 => error
  | _ => invalid

end SymbolKind

/-- What is special about a symbol: it comes with the language, it lives as long as the program, it
was declared by assigning to it, it is visible before its declaration. The bits above these four have
no label. -/
structure SymbolFlags where
  builtin : Bool := false
  isGlobal : Bool := false
  implicit : Bool := false
  hoisted : Bool := false
  others : Nat := 0
deriving DecidableEq, Repr, Inhabited

namespace SymbolFlags

def ofBits (n : Nat) : SymbolFlags :=
  ⟨n.testBit 0, n.testBit 1, n.testBit 2, n.testBit 3, n / 16⟩

/-- Is nothing special about the symbol? -/
def isEmpty (f : SymbolFlags) : Bool := f == {}

def labels (f : SymbolFlags) : List Bytes :=
  (if f.builtin then [Bytes.ofString "builtin"] else [])
    ++ (if f.isGlobal then [Bytes.ofString "global"] else [])
    ++ (if f.implicit then [Bytes.ofString "implicit"] else [])
    ++ (if f.hoisted then [Bytes.ofString "hoisted"] else [])

def render (f : SymbolFlags) : Bytes := Bytes.join "," f.labels

end SymbolFlags

structure Symbol where
  name : Bytes
  kind : SymbolKind
  scope : Nat := 0
  span : Span := ⟨0, 0, 0⟩
  flags : SymbolFlags := {}
deriving DecidableEq, Repr, Inhabited

inductive ScopeKind where
  | invalid | outermost | file | function | block | unknown
deriving DecidableEq, Repr, Inhabited

namespace ScopeKind

def name : ScopeKind → String
  | outermost => "universe"
  | file => "file"
  | function => "function"
  | block => "block"
  | invalid | unknown => "invalid"

def ofNumber : Nat → ScopeKind
  | 0 => invalid
  | 1 => outermost
  | 2 => file
  | 3 => function
  | 4 => block
  | _ => unknown

end ScopeKind

/-- A scope: where it stands, the symbols declared in it in order, the same symbols by name, and the
scopes inside it. -/
structure Scope where
  kind : ScopeKind
  parent : Nat
  span : Span
  symbols : List Nat := []
  index : List (Bytes × List Nat) := []
  children : List Nat := []
deriving Repr, Inhabited

namespace Scope

/-- The symbols indexed under a name, first declared first. -/
def bucket (s : Scope) (name : Bytes) : List Nat :=
  ((s.index.find? fun entry => entry.1 == name).map (·.2)).getD []

/-- Indexes a symbol under a name, behind those that are there. -/
def addToIndex (name : Bytes) (symbol : Nat) : List (Bytes × List Nat) → List (Bytes × List Nat)
  | [] => [(name, [symbol])]
  | entry :: rest =>
    if entry.1 == name then (entry.1, entry.2 ++ [symbol]) :: rest
    else entry :: addToIndex name symbol rest

/-- Declares a symbol in the scope. -/
def declare (s : Scope) (name : Bytes) (symbol : Nat) : Scope :=
  { s with symbols := s.symbols ++ [symbol], index := addToIndex name symbol s.index }

/-- The symbol that a name means in this scope alone: the first that was declared. -/
def find? (s : Scope) (name : Bytes) : Option Nat := (s.bucket name).head?

end Scope

/-! ## The table -/

structure SymbolTable where
  scopes : List Scope := []
  symbols : List Symbol := []
  names : NameTable := {}
deriving Repr

namespace SymbolTable

/-- The scope of what the language provides. -/
def outermost : Nat := 1

/-- What an unresolved name is bound to. -/
def errorSymbol : Nat := 1

def scope? (t : SymbolTable) (id : Nat) : Option Scope := if id = 0 then none else t.scopes[id - 1]?

def symbol? (t : SymbolTable) (id : Nat) : Option Symbol :=
  if id = 0 then none else t.symbols[id - 1]?

/-- Changes a scope, if there is one with that number. -/
def modifyScope (t : SymbolTable) (id : Nat) (f : Scope → Scope) : SymbolTable :=
  if id = 0 then t else { t with scopes := t.scopes.modify (id - 1) f }

/-- Changes a symbol, if there is one with that number. -/
def modifySymbol (t : SymbolTable) (id : Nat) (f : Symbol → Symbol) : SymbolTable :=
  if id = 0 then t else { t with symbols := t.symbols.modify (id - 1) f }

/-- Opens a scope inside another. -/
def openScope (t : SymbolTable) (kind : ScopeKind) (parent : Nat) (span : Span) :
    SymbolTable × Nat :=
  let id := t.scopes.length + 1
  let scope : Scope := { kind, parent, span }
  let opened : SymbolTable := { t with scopes := t.scopes ++ [scope] }
  (opened.modifyScope parent fun s => { s with children := s.children ++ [id] }, id)

/-- Takes a symbol into the table without declaring it in a scope. -/
def addSymbol (t : SymbolTable) (symbol : Symbol) : SymbolTable × Nat :=
  ({ t with
      symbols := t.symbols ++ [symbol]
      names := (t.names.intern symbol.name).1 },
    t.symbols.length + 1)

/-- Declares a symbol in a scope; there has to be one. -/
def declare? (t : SymbolTable) (scope : Nat) (symbol : Symbol) : Option (SymbolTable × Nat) :=
  match t.scope? scope with
  | none => none
  | some _ =>
    let (added, id) := t.addSymbol { symbol with scope }
    some (added.modifyScope scope fun s => s.declare symbol.name id, id)

/-- The symbol a name means in one scope. -/
def findLocal? (t : SymbolTable) (scope : Nat) (name : Bytes) : Option Nat :=
  (t.scope? scope).bind fun s => s.find? name

/-- The symbol a name means along a path of scopes, innermost first. -/
def findAlong? (t : SymbolTable) (path : List Nat) (name : Bytes) : Option Nat :=
  path.findSome? fun scope => t.findLocal? scope name

/-- The scopes that enclose a scope, innermost first; at most `bound` of them. -/
def pathFrom (t : SymbolTable) (bound : Nat) (scope : Nat) : List Nat :=
  match bound with
  | 0 => []
  | n + 1 =>
    match t.scope? scope with
    | none => []
    | some s => scope :: t.pathFrom n s.parent

/-- The symbol a name means in a scope or in one that encloses it. -/
def find? (t : SymbolTable) (scope : Nat) (name : Bytes) : Option Nat :=
  t.findAlong? (t.pathFrom t.scopes.length scope) name

/-- The name of a symbol; empty when there is none. -/
def nameOf (t : SymbolTable) (symbol : Nat) : Bytes :=
  ((t.symbol? symbol).map (·.name)).getD []

def isError (symbol : Nat) : Bool := symbol == errorSymbol

/-- What the language provides: three types and a function. -/
def provided : List Symbol :=
  let builtin : SymbolFlags := { builtin := true }
  [{ name := "int", kind := .type, flags := builtin },
   { name := "bool", kind := .type, flags := builtin },
   { name := "string", kind := .type, flags := builtin },
   { name := "print", kind := .function, flags := builtin }]

/-- The table before anything is declared in it. -/
def start : SymbolTable :=
  let (errors, _) := ({} : SymbolTable).addSymbol { name := "<error>", kind := .error }
  let (opened, scope) := errors.openScope .outermost 0 ⟨0, 0, 0⟩
  provided.foldl (fun t symbol => ((t.declare? scope symbol).map (·.1)).getD t) opened

/-- One line for a symbol. -/
def symbolLine (t : SymbolTable) (margin : Bytes) (id : Nat) : Bytes :=
  match t.symbol? id with
  | none => []
  | some s =>
    margin ++ "  " ++ Bytes.ofString s.kind.name ++ " " ++ s.name ++ " @"
      ++ Bytes.decimal s.span.start ++ ".." ++ Bytes.decimal s.span.stop
      ++ Bytes.onlyIf (!s.flags.isEmpty) (" [" ++ s.flags.render ++ "]") ++ "\n"

/-- The lines of a scope and the scopes inside it, to a bounded depth. -/
def scopeLines (t : SymbolTable) (bound depth : Nat) (id : Nat) : Bytes :=
  match bound with
  | 0 => []
  | n + 1 =>
    match t.scope? id with
    | none => []
    | some s =>
      let margin := List.replicate (2 * depth) (byte ' ')
      margin ++ "scope " ++ Bytes.ofString s.kind.name ++ " " ++ Bytes.decimal s.span.start
        ++ ".." ++ Bytes.decimal s.span.stop ++ "\n"
        ++ s.symbols.flatMap (t.symbolLine margin)
        ++ s.children.flatMap (t.scopeLines n (depth + 1))

/-- The whole table as text; no chain of scopes is longer than the number of scopes. -/
def dump (t : SymbolTable) : Bytes := t.scopeLines t.scopes.length 0 outermost

end SymbolTable

end Craftlang
