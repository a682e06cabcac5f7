import Craftlang.Diagnostic.Basic
import Craftlang.Pack.Datapack
import Craftlang.Parse.Program
import Craftlang.Text.Bytes

/-!
# Caches

Parsed files are kept by content for as long as a build runs; the results of units are kept from one run
to the next. A result that cannot be read, or that an older release has left, counts as missing.
-/

namespace Craftlang

/-- Parsed files by key, and how often one was found and had to be made. -/
structure ParseCache where
  entries : List (Bytes × ParsedFile) := []
  hits : Nat := 0
  misses : Nat := 0

namespace ParseCache

/-- The parsed file with a key, made and kept if there is none; says whether there was one. -/
def load (c : ParseCache) (key : Bytes) (make : Unit → ParsedFile) :
    ParseCache × ParsedFile × Bool :=
  match c.entries.lookup key with
  | some parsed => ({ c with hits := c.hits + 1 }, parsed, true)
  | none =>
    let made := make ()
    ({ c with entries := c.entries ++ [(key, made)], misses := c.misses + 1 }, made, false)

end ParseCache

/-- What is kept of a unit without errors. -/
structure CachedUnit where
  schema : Nat
  name : Bytes
  space : Namespace
  datapack : Option Datapack
  diagnostics : List Diagnostic

/-- The schema of results that this release can use. -/
def CachedUnit.currentSchema : Nat := 1

/-- An entry that is kept from run to run; it may have been damaged. -/
inductive CacheEntry where
  | unreadable
  | readable (unit : CachedUnit)

/-- Results of units by key. -/
structure ResultCache where
  entries : List (Bytes × CacheEntry) := []

namespace ResultCache

def get? (c : ResultCache) (key : Bytes) : Option CacheEntry := c.entries.lookup key

/-- Stores a result; it replaces an earlier one. -/
def put (c : ResultCache) (key : Bytes) (unit : CachedUnit) : ResultCache :=
  ⟨c.entries.filter (fun e => e.1 != key) ++ [(key, .readable unit)]⟩

/-- Removes everything. -/
def dropAll (_ : ResultCache) : ResultCache := {}

/-- The keys in order. -/
def keys (c : ResultCache) : List Bytes := Bytes.sort (c.entries.map (·.1))

/-- A result that can be used: readable, of the current schema, and with a pack. -/
def usable? (c : ResultCache) (key : Bytes) : Option (CachedUnit × Datapack) :=
  match c.get? key with
  | some (.readable unit) =>
    if unit.schema = CachedUnit.currentSchema then unit.datapack.map fun d => (unit, d) else none
  | _ => none

/-- Damages every entry. -/
def corrupt (c : ResultCache) : ResultCache :=
  ⟨c.entries.map fun (key, _) => (key, .unreadable)⟩

/-- Gives every entry that can be read another schema. -/
def withSchema (c : ResultCache) (schema : Nat) : ResultCache :=
  ⟨c.entries.map fun (key, entry) => (key, match entry with
    | .readable unit => .readable { unit with schema }
    | .unreadable => .unreadable)⟩

end ResultCache

end Craftlang

/-!
## Stored results

How the result of a unit is kept as bytes, so that a later run can read it. Bytes that do not read back
are an unreadable entry.
-/

namespace Craftlang

open Packed

def Span.packed (s : Span) : Bytes := word s.file ++ word s.start ++ word s.stop

def Span.read : Reader Span := do
  let file ← readWord
  let start ← readWord
  let stop ← readWord
  pure ⟨file, start, stop⟩

def Note.packed (n : Note) : Bytes := n.span.packed ++ text n.message

def Note.read : Reader Note := do
  let span ← Span.read
  let message ← readText
  pure ⟨span, message⟩

def Diagnostic.packed (d : Diagnostic) : Bytes :=
  word d.severity.rank ++ word d.code.number ++ text d.message ++ d.span.packed
    ++ list Note.packed d.notes

def Diagnostic.read : Reader Diagnostic := do
  let severity ← readWord
  let code ← readWord
  let message ← readText
  let span ← Span.read
  let notes ← readList Note.read
  pure ⟨⟨severity⟩, ⟨code⟩, message, span, notes⟩

def PackFunction.packed (f : PackFunction) : Bytes :=
  text f.resource ++ text f.path ++ list text f.lines

def PackFunction.read : Reader PackFunction := do
  let resource ← readText
  let path ← readText
  let lines ← readList readText
  pure ⟨resource, path, lines⟩

def TagFile.packed (t : TagFile) : Bytes := text t.group ++ text t.path ++ list text t.values

def TagFile.read : Reader TagFile := do
  let group ← readText
  let path ← readText
  let values ← readList readText
  pure ⟨group, path, values⟩

def Datapack.packed (d : Datapack) : Bytes :=
  int d.statedFormat ++ text d.description ++ list PackFunction.packed d.functions
    ++ list TagFile.packed d.tags

def Datapack.read : Reader Datapack := do
  let statedFormat ← readInt
  let description ← readText
  let functions ← readList PackFunction.read
  let tags ← readList TagFile.read
  pure ⟨statedFormat, description, functions, tags⟩

def Namespace.packed (n : Namespace) : Bytes := text n.name ++ list text n.directories

def Namespace.read : Reader Namespace := do
  let name ← readText
  let directories ← readList readText
  pure ⟨name, directories⟩

def CachedUnit.packed (u : CachedUnit) : Bytes :=
  word u.schema ++ text u.name ++ u.space.packed ++ list Datapack.packed u.datapack.toList
    ++ list Diagnostic.packed u.diagnostics

def CachedUnit.read : Reader CachedUnit := do
  let schema ← readWord
  let name ← readText
  let space ← Namespace.read
  let packs ← readList Datapack.read
  let diagnostics ← readList Diagnostic.read
  pure ⟨schema, name, space, packs.head?, diagnostics⟩

/-- The entry that is kept in a file. -/
def CacheEntry.ofBytes (s : Bytes) : CacheEntry :=
  match ofBytes? CachedUnit.read s with
  | some unit => .readable unit
  | none => .unreadable

end Craftlang
