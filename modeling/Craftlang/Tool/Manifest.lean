import Craftlang.Source.Path
import Craftlang.Text.Letter
import Craftlang.Text.Utf8
import Craftlang.Toml.Reader

/-!
# Manifests

A project is described by a file `craft.toml` in its root: what it is called, where its sources are and
where its pack goes. A manifest may say nothing that is not known. Keys are found whatever their case.
-/

namespace Craftlang

/-- What a manifest says. -/
structure Manifest where
  name : Bytes := []
  description : Bytes := []
  sources : List Bytes := []
  output : Bytes := []
  packFormat : Int := 0
  zip : Bool := false
deriving DecidableEq, Repr

/-- Why a document is no manifest. -/
inductive ManifestFault where
  | malformed (line : Nat)
  | notTable (key : List Bytes) (line : Option Nat) (table found : Bytes)
  | wrongType (key : List Bytes) (line : Option Nat) (found wanted : Bytes)
  | noPackage
  | noName
  | unknownKey (key : List Bytes)
  | negativeFormat
deriving DecidableEq, Repr

namespace ManifestFault

/-- Where a value of the wrong type is. -/
def place (key : List Bytes) (line : Option Nat) : Bytes :=
  let last : Bytes := "(last key " ++ Quoted.encode (Toml.dotted key) ++ "): "
  match line with
  | some line => "toml: line " ++ Bytes.decimal line ++ " " ++ last
  | none => "toml: " ++ last

def message : ManifestFault → Bytes
  | malformed line => "failed to parse TOML: toml: line " ++ Bytes.decimal line ++ ": malformed"
  | notTable key line table found =>
    "failed to parse TOML: " ++ place key line ++ "type mismatch for main." ++ table
      ++ "Config: expected table but found " ++ found
  | wrongType key line found wanted =>
    "failed to parse TOML: " ++ place key line ++ "incompatible types: TOML value has type "
      ++ found ++ "; destination has type " ++ wanted
  | noPackage => "missing [package]"
  | noName => "missing [package].name"
  | unknownKey key => "unknown key " ++ Toml.dotted key
  | negativeFormat => "[build].pack_format must be positive"

end ManifestFault

namespace Toml

/-- The name of the type of a value. -/
def typeName : Toml → Bytes
  | text _ => "string"
  | integer _ => "int64"
  | float => "float64"
  | boolean _ => "bool"
  | moment => "time.Time"
  | list _ => "[]interface \x7b\x7d"
  | table _ => "map[string]interface \x7b\x7d"
  | tables _ => "[]map[string]interface \x7b\x7d"

end Toml

namespace Manifest

def fileName : Bytes := "craft.toml"

/-- The tables of a manifest with the keys that each may have. -/
def known : List (Bytes × List Bytes) :=
  [("package", ["name", "description"]), ("build", ["sources", "output", "pack_format", "zip"])]

def isKnown (key : List Bytes) : Bool :=
  match key.map Utf8.foldAscii with
  | [group] => (known.lookup group).isSome
  | [group, entry] => ((known.lookup group).getD []).contains entry
  | _ => false

/-- The fault of a value that has another type than is wanted. -/
def mismatch (doc : TomlDocument) (key : List Bytes) (value : Toml) (wanted : Bytes) :
    ManifestFault :=
  .wrongType key (doc.line? key) value.typeName wanted

def textOf (doc : TomlDocument) (key : List Bytes) : Toml → Except ManifestFault Bytes
  | .text s => .ok s
  | value => .error (mismatch doc key value "string")

def textsOf (doc : TomlDocument) (key : List Bytes) : Toml → Except ManifestFault (List Bytes)
  | .list items => items.mapM (textOf doc key)
  | .tables items => items.mapM fun fields => textOf doc key (.table fields)
  | value => .error (mismatch doc key value "slice")

def integerOf (doc : TomlDocument) (key : List Bytes) : Toml → Except ManifestFault Int
  | .integer n => .ok n
  | value => .error (mismatch doc key value "integer")

def booleanOf (doc : TomlDocument) (key : List Bytes) : Toml → Except ManifestFault Bool
  | .boolean b => .ok b
  | value => .error (mismatch doc key value "boolean")

/-- Takes over a value of one of the tables; what is not known changes nothing. -/
def setEntry (doc : TomlDocument) (group : Bytes) (m : Manifest) (entry : Bytes × Toml) :
    Except ManifestFault Manifest :=
  let key := [group, entry.1]
  let value := entry.2
  let name := Utf8.foldAscii entry.1
  if !isKnown key then .ok m
  else if name = Bytes.ofString "name" then
    (textOf doc key value).map fun name => { m with name }
  else if name = Bytes.ofString "description" then
    (textOf doc key value).map fun description => { m with description }
  else if name = Bytes.ofString "sources" then
    (textsOf doc key value).map fun sources => { m with sources }
  else if name = Bytes.ofString "output" then
    (textOf doc key value).map fun output => { m with output }
  else if name = Bytes.ofString "pack_format" then
    (integerOf doc key value).map fun packFormat => { m with packFormat }
  else (booleanOf doc key value).map fun zip => { m with zip }

/-- Takes over one of the tables. -/
def setGroup (doc : TomlDocument) (m : Manifest) (group : Bytes × Toml) :
    Except ManifestFault Manifest :=
  if !isKnown [group.1] then .ok m
  else match group.2 with
    | .table fields => fields.foldlM (setEntry doc group.1) m
    | value =>
      .error (.notTable [group.1] (doc.line? [group.1]) (Utf8.foldAscii group.1) value.typeName)

/-- The sources of a project that names none. -/
def standardSources : List Bytes := ["src"]

/-- The manifest that a document is. The package has to have a name. -/
def ofDocument (doc : TomlDocument) : Except ManifestFault Manifest :=
  match doc.fields.foldlM (setGroup doc) {} with
  | .error fault => .error fault
  | .ok m =>
    if (doc.get? ["package"]).isNone then .error .noPackage
    else if (doc.get? ["package", "name"]).isNone || (Utf8.trim m.name).isEmpty then .error .noName
    else match doc.keys.find? fun key => !isKnown key || (doc.get? key).isNone with
      | some key => .error (.unknownKey key)
      | none =>
        if m.packFormat < 0 then .error .negativeFormat
        else .ok (if m.sources.isEmpty then { m with sources := standardSources } else m)

def ofText (s : Bytes) : Except ManifestFault Manifest :=
  match TomlDocument.ofText s with
  | .error line => .error (.malformed line)
  | .ok doc => ofDocument doc

/-- A path of a manifest, which starts at the root of the project. -/
def resolve (root path : Bytes) : Bytes :=
  if Path.isAbsolute path then path else Path.join [root, path]

def sourcePaths (m : Manifest) (root : Bytes) : List Bytes := m.sources.map (resolve root)

/-- Where the pack goes: where the manifest says, or to the directory `build` under the name of the
package. -/
def outputPath (m : Manifest) (root : Bytes) (zip : Bool) : Bytes :=
  let output := Utf8.trim m.output
  if !output.isEmpty then resolve root output
  else resolve root (Path.join ["build", m.name] ++ Bytes.onlyIf zip ".zip")

/-- The manifest that a new project starts with. -/
def template (name : Bytes) : Bytes :=
  Bytes.ofString "# Craftlang project manifest\n[package]\nname = " ++ Quoted.encode name
    ++ Bytes.ofString "\ndescription = \"" ++ name
    ++ Bytes.ofString " datapack\"\n\n[build]\nsources = [\"src\"]\nzip = false\n"

end Manifest

end Craftlang
