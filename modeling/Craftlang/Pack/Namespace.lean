import Craftlang.Source.Path
import Craftlang.Text.Decomposition
import Craftlang.Text.Utf8

/-!
# Namespaces

A namespace is where the functions of a unit live: the name of a resource namespace and directories
below it. `demo.util` puts the function `start` at `demo:util/start`.
-/

/-!
## Resource names

The parts of a resource location are written in lower-case ASCII: letters, digits, `_`, `-` and `.`.
A name becomes one by decomposing its characters and keeping the ASCII among them; what a resource
location cannot hold becomes `_`, and so does a name of which nothing is left.
-/

namespace Craftlang.ResourceName

/-- An ASCII character as it stands in a resource name. -/
def resourceByte (c : Char) : UInt8 :=
  let b := byte c
  if Bytes.isUpper b then b + 32
  else if Bytes.isLower b || Bytes.isDigit b || b == byte '_' || b == byte '-' || b == byte '.' then b
  else byte '_'

/-- What one rune contributes. -/
def ofRune (rune : Utf8.Rune) : Bytes :=
  match rune with
  | .point code _ => (CodePoint.asciiPart code).map resourceByte
  | .stray _ => []

def normalize (name : Bytes) : Bytes :=
  match (Utf8.runes name).flatMap fun (rune, _) => ofRune rune with
  | [] => [byte '_']
  | s => s

/-- The function that runs the statements outside all functions; no other may have its name. -/
def entry : Bytes := "main"

end Craftlang.ResourceName

namespace Craftlang

structure Namespace where
  name : Bytes
  directories : List Bytes := []
deriving DecidableEq, Repr, Inhabited

/-- The directory of functions and of function tags; from format 45 on its name is singular. -/
def functionDirectory (format : Int) : Bytes := if 45 ≤ format then "function" else "functions"

namespace Namespace

/-- The namespace of a unit that has no name to offer. -/
def anonymous : Namespace := ⟨"_", []⟩

/-- The namespace with the given parts, each made a resource name. -/
def ofParts : List Bytes → Namespace
  | [] => anonymous
  | part :: parts => ⟨ResourceName.normalize part, parts.map ResourceName.normalize⟩

/-- The namespace that is written with dots. -/
def ofDotted (s : Bytes) : Namespace := ofParts (Bytes.splitOn (byte '.') s)

/-- The namespace of a file: its base name without the ending. Both slashes separate directories. -/
def ofFileName (name : Bytes) : Namespace :=
  let base := Path.base (Bytes.replaceByte (byte '\\') [Path.slash] name)
  let stem := base.take (base.length - (Path.ending base).length)
  if stem.isEmpty || stem == Bytes.ofString "." || stem == [Path.slash] then anonymous
  else ofParts [stem]

def parts (ns : Namespace) : List Bytes := ns.name :: ns.directories

def render (ns : Namespace) : Bytes := Bytes.join "." ns.parts

/-- The place of a function below the namespace. -/
def path (ns : Namespace) (function : Bytes) : Bytes :=
  Bytes.join "/" (ns.directories ++ [function])

/-- The resource location of a function. -/
def resource (ns : Namespace) (function : Bytes) : Bytes := ns.name ++ ":" ++ ns.path function

/-- The file of a function. -/
def functionFile (ns : Namespace) (function : Bytes) (format : Int) : Bytes :=
  "data/" ++ ns.name ++ "/" ++ functionDirectory format ++ "/" ++ ns.path function ++ ".mcfunction"

/-- The storage that holds global strings. -/
def storage (ns : Namespace) : Bytes := ns.name ++ ":craftlang"

/-- The objective that holds global integers and booleans. -/
def objective (ns : Namespace) : Bytes := "cr_g." ++ ns.render

end Namespace

end Craftlang
