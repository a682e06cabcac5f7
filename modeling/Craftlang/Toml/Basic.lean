import Craftlang.Text.Quoted

/-!
# TOML values

The values of a TOML document, and its keys as they are written.
-/

namespace Craftlang

inductive Toml where
  | text (s : Bytes)
  | integer (n : Int)
  | float
  | boolean (b : Bool)
  | moment
  | list (items : List Toml)
  | table (fields : List (Bytes × Toml))
  /-- The tables of a `[[header]]`, all under one key. -/
  | tables (items : List (List (Bytes × Toml)))

namespace Toml

abbrev Fields := List (Bytes × Toml)

/-- What lies at a path of keys below a value. -/
def get? (value : Toml) : List Bytes → Option Toml
  | [] => some value
  | key :: keys =>
    match value with
    | table fields => (fields.lookup key).bind fun found => found.get? keys
    | _ => none

/-- Is a character of a key that needs no quotes? -/
def isBare (b : UInt8) : Bool :=
  Bytes.isUpper b || Bytes.isLower b || Bytes.isDigit b || b == byte '_' || b == byte '-'

/-- One character of a quoted key. -/
def escapeKey (b : UInt8) : Bytes :=
  if b = byte '"' then "\\\""
  else if b = byte '\\' then "\\\\"
  else if b = 8 then "\\b"
  else if b = 9 then "\\t"
  else if b = 10 then "\\n"
  else if b = 12 then "\\f"
  else if b = 13 then "\\r"
  else if b < 0x20 || b = 0x7F then "\\u00" ++ Bytes.inBasePadded 16 2 b.toNat
  else [b]

/-- A part of a key as it is written. -/
def keyPart (part : Bytes) : Bytes :=
  if !part.isEmpty && part.all isBare then part
  else [byte '"'] ++ part.flatMap escapeKey ++ [byte '"']

/-- A key as it is written, with dots between its parts. -/
def dotted (key : List Bytes) : Bytes := Bytes.join "." (key.map keyPart)

end Toml

end Craftlang

/-!
## TOML documents

A document as far as it has been read. Besides its tables it keeps its keys in the order in which they
were written and, for every key, what was last written under it.

A key has one value. There are two exceptions: a list may be written anew, and then the last value
counts, and a table that only the way to another key has made is implied, and may be written out once.
-/

namespace Craftlang

/-- What was last written under a key: on which line, and whether it was a list. -/
structure TomlEntry where
  line : Nat
  isList : Bool := false
deriving DecidableEq, Repr

structure TomlDocument where
  fields : Toml.Fields := []
  keys : List (List Bytes) := []
  /-- What was written, the last first. -/
  entries : List (List Bytes × TomlEntry) := []
  implied : List (List Bytes) := []

namespace Toml

def setField (fields : Fields) (key : Bytes) (value : Toml) : Fields :=
  fields.map fun (k, v) => if k = key then (k, value) else (k, v)

/-- The table at a path. Of several tables under one key the last is meant. -/
def tableAt? : List Bytes → Fields → Option Fields
  | [], fields => some fields
  | key :: keys, fields =>
    match fields.lookup key with
    | some (table inner) => tableAt? keys inner
    | some (tables items) => tableAt? keys (items.getLast?.getD [])
    | _ => none

/-- Changes the table at a path. -/
def updateTable? (change : Fields → Option Fields) : List Bytes → Fields → Option Fields
  | [], fields => change fields
  | key :: keys, fields =>
    match fields.lookup key with
    | some (table inner) =>
      (updateTable? change keys inner).map fun inner => setField fields key (table inner)
    | some (tables items) =>
      (updateTable? change keys (items.getLast?.getD [])).map fun inner =>
        setField fields key (tables (items.dropLast ++ [inner]))
    | _ => none

/-- Adds an empty table to those under a key. -/
def appendTable? (key : Bytes) (fields : Fields) : Option Fields :=
  match fields.lookup key with
  | none => some (fields ++ [(key, tables [[]])])
  | some (tables items) => some (setField fields key (tables (items ++ [[]])))
  | some _ => none

end Toml

namespace TomlDocument

def get? (doc : TomlDocument) (path : List Bytes) : Option Toml := (Toml.table doc.fields).get? path

def entry? (doc : TomlDocument) (path : List Bytes) : Option TomlEntry := doc.entries.lookup path

/-- The line of what was last written under a key. -/
def line? (doc : TomlDocument) (path : List Bytes) : Option Nat := (doc.entry? path).map (·.line)

/-- Was a list last written under a key? -/
def isList (doc : TomlDocument) (path : List Bytes) : Bool := (doc.entry? path).any (·.isList)

def addKey (doc : TomlDocument) (path : List Bytes) : TomlDocument :=
  { doc with keys := doc.keys ++ [path] }

def imply (doc : TomlDocument) (path : List Bytes) : TomlDocument :=
  { doc with implied := path :: doc.implied }

/-- Notes what is written under a key of a table. The empty key stands for the table itself, except in
the outermost one. -/
def note (doc : TomlDocument) (owner : List Bytes) (key : Bytes) (entry : TomlEntry) :
    TomlDocument :=
  let path := if key.isEmpty && !owner.isEmpty then owner else owner ++ [key]
  { doc with entries := (path, entry) :: doc.entries }

/-- Puts a value under a key of a table, as far as the key may have another value. -/
def assign? (doc : TomlDocument) (owner : List Bytes) (key : Bytes) (value : Toml) :
    Option TomlDocument :=
  let path := owner ++ [key]
  let isNew := ((Toml.tableAt? owner doc.fields).bind (·.lookup key)).isNone
  let put (fields : Toml.Fields) : Option Toml.Fields :=
    if isNew then some (fields ++ [(key, value)])
    else if doc.isList path then some (Toml.setField fields key value)
    else if doc.implied.contains path then some fields
    else none
  (Toml.updateTable? put owner doc.fields).map fun fields =>
    { doc with
      fields
      implied := if isNew then doc.implied else doc.implied.filter (· != path) }

/-- Puts a value under a key of a table and notes it. -/
def write? (doc : TomlDocument) (owner : List Bytes) (key : Bytes) (value : Toml) (line : Nat) :
    Option TomlDocument :=
  (doc.assign? owner key value).map fun doc =>
    doc.note owner key { line, isList := value matches .list _ }

/-- Makes the tables that are missing on a path, and implies them; `before` leads to where the path
starts. -/
def prepare? (doc : TomlDocument) (before : List Bytes) : List Bytes → Option TomlDocument
  | [] => some doc
  | key :: rest =>
    let path := before ++ [key]
    match (Toml.tableAt? before doc.fields).map (·.lookup key) with
    | none => none
    | some (some _) => doc.prepare? path rest
    | some none =>
      (doc.assign? before key (.table [])).bind fun doc => (doc.imply path).prepare? path rest

/-- Opens the table at a path: a new one of several under its key, or the only one. -/
def enter? (doc : TomlDocument) (path : List Bytes) (isOneOfMany : Bool) : Option TomlDocument :=
  match path.getLast?, doc.prepare? [] path.dropLast with
  | some key, some doc =>
    if isOneOfMany then
      (Toml.updateTable? (Toml.appendTable? key) path.dropLast doc.fields).map fun fields =>
        { doc with fields }
    else doc.assign? path.dropLast key (.table [])
  | _, _ => none

/-- Opens the tables that the parts of a key lead through, one after the other. -/
def enterAll? (doc : TomlDocument) (owner : List Bytes) : List Bytes → Option TomlDocument
  | [] => some doc
  | part :: parts =>
    let path := owner ++ [part]
    ((doc.imply path).enter? path false).bind fun doc => doc.enterAll? path parts

end TomlDocument

end Craftlang
