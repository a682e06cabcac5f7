import Craftlang.Scope.Table

/-!
# Valid symbol tables

A table is valid when its links agree: scopes and their parents, scopes and their symbols, symbols
and the index of names. `faults` lists everything that does not agree.
-/

namespace Craftlang

/-- How a table can be inconsistent. -/
inductive TableFault where
  | invalidKind (scope : Nat)
  | outermostWithParent (scope : Nat)
  | noParent (scope : Nat) (kind : ScopeKind)
  | invalidParent (scope parent : Nat)
  | parentBacklink (scope parent : Nat)
  | invalidChild (scope child : Nat)
  | childBacklink (scope child : Nat)
  | indexedMissing (scope name symbol : Nat)
  | foreignName (scope symbol : Nat)
  | notIndexed (scope symbol : Nat)
  | unexpectedError (symbol : Nat)
  | invalidScope (symbol scope : Nat)
  | missingFromScope (symbol scope : Nat)
deriving DecidableEq, Repr

namespace TableFault

def message : TableFault → Bytes
  | invalidKind s => "scope " ++ Bytes.decimal s ++ " has invalid kind"
  | outermostWithParent s => "universe scope " ++ Bytes.decimal s ++ " has a parent"
  | noParent s kind =>
    "scope " ++ Bytes.decimal s ++ " (" ++ Bytes.ofString kind.name ++ ") has no parent"
  | invalidParent s p => "scope " ++ Bytes.decimal s ++ " has invalid parent " ++ Bytes.decimal p
  | parentBacklink s p =>
    "scope " ++ Bytes.decimal s ++ " parent " ++ Bytes.decimal p ++ " missing backlink"
  | invalidChild s c => "scope " ++ Bytes.decimal s ++ " has invalid child " ++ Bytes.decimal c
  | childBacklink s c =>
    "scope " ++ Bytes.decimal s ++ " child " ++ Bytes.decimal c ++ " missing parent backlink"
  | indexedMissing s n y =>
    "scope " ++ Bytes.decimal s ++ " name index " ++ Bytes.decimal n
      ++ " references missing symbol " ++ Bytes.decimal y
  | foreignName s y =>
    "scope " ++ Bytes.decimal s ++ " indexes symbol " ++ Bytes.decimal y
      ++ " under a foreign name"
  | notIndexed s y =>
    "scope " ++ Bytes.decimal s ++ " symbol " ++ Bytes.decimal y ++ " missing in name index"
  | unexpectedError y => "unexpected error symbol " ++ Bytes.decimal y
  | invalidScope y s => "symbol " ++ Bytes.decimal y ++ " has invalid scope " ++ Bytes.decimal s
  | missingFromScope y s =>
    "symbol " ++ Bytes.decimal y ++ " is missing from scope " ++ Bytes.decimal s ++ " list"

end TableFault

namespace SymbolTable

/-- What is wrong with the kind of a scope and whether it has a parent. -/
def kindFaults (id : Nat) (s : Scope) : List TableFault :=
  (if s.kind = .invalid then [TableFault.invalidKind id] else [])
    ++ (if s.kind = .outermost && s.parent != 0 then [TableFault.outermostWithParent id] else [])
    ++ (if s.kind != .outermost && s.parent == 0 then [TableFault.noParent id s.kind] else [])

/-- Is the parent of a scope no scope, or the scope itself? -/
def hasInvalidParent (t : SymbolTable) (id : Nat) (s : Scope) : Bool :=
  s.parent != 0 && (t.scopes.length < s.parent || s.parent == id)

def parentFaults (t : SymbolTable) (id : Nat) (s : Scope) : List TableFault :=
  if s.parent = 0 then []
  else if ((t.scope? s.parent).map fun p => p.children.contains id).getD false then []
  else [.parentBacklink id s.parent]

def childFaults (t : SymbolTable) (id : Nat) (child : Nat) : List TableFault :=
  if t.scopes.length < child || child == id then [.invalidChild id child]
  else if ((t.scope? child).map (·.parent)).getD 0 != id then [.childBacklink id child]
  else []

def indexFaults (t : SymbolTable) (id : Nat) (s : Scope) (name : Bytes) (symbol : Nat) :
    List TableFault :=
  if !s.symbols.contains symbol then
    [.indexedMissing id ((t.names.number? name).getD 0) symbol]
  else match t.symbol? symbol with
    | some y => if y.name != name then [.foreignName id symbol] else []
    | none => []

/-- What is wrong with a scope; when its parent is invalid nothing more is looked at. -/
def scopeFaults (t : SymbolTable) (id : Nat) (s : Scope) : List TableFault :=
  if t.hasInvalidParent id s then kindFaults id s ++ [.invalidParent id s.parent]
  else
    let indexed := s.index.flatMap (·.2)
    kindFaults id s ++ t.parentFaults id s ++ s.children.flatMap (t.childFaults id)
      ++ s.index.flatMap (fun (name, bucket) => bucket.flatMap (t.indexFaults id s name))
      ++ (s.symbols.filter fun y => !indexed.contains y).map (.notIndexed id)

def symbolFaults (t : SymbolTable) (id : Nat) (y : Symbol) : List TableFault :=
  if y.kind = .error then
    if id != errorSymbol || y.scope != 0 then [.unexpectedError id] else []
  else match t.scope? y.scope with
    | none => [.invalidScope id y.scope]
    | some s => if s.symbols.contains id then [] else [.missingFromScope id y.scope]

/-- Everything in the table that does not agree. -/
def faults (t : SymbolTable) : List TableFault :=
  (t.scopes.zipIdx 1).flatMap (fun (s, id) => t.scopeFaults id s)
    ++ (t.symbols.zipIdx 1).flatMap (fun (y, id) => t.symbolFaults id y)

end SymbolTable

end Craftlang
