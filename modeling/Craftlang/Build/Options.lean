import Craftlang.Pack.Datapack
import Craftlang.Report.Version
import Craftlang.Source.File
import Craftlang.Text.Bytes

/-!
# Progress of a build

The stages that a unit goes through, and the events that tell how far it is.
-/

namespace Craftlang

inductive Stage where
  | parse | resolve | check | generate | link
deriving DecidableEq, Repr, Inhabited

def Stage.name : Stage → String
  | parse => "parse"
  | resolve => "resolve"
  | check => "check"
  | generate => "generate"
  | link => "link"

def Stage.all : List Stage := [parse, resolve, check, generate, link]

def Stage.ofName? (name : String) : Option Stage := Stage.all.find? (·.name = name)

inductive Status where
  | queued | working | done | error
deriving DecidableEq, Repr, Inhabited

def Status.name : Status → String
  | queued => "queued"
  | working => "working"
  | done => "done"
  | error => "error"

def Status.all : List Status := [queued, working, done, error]

def Status.ofName? (name : String) : Option Status := Status.all.find? (·.name = name)

/-- How far a unit is, or the whole build when no unit is named. A unit that waits is in no stage. -/
structure ProgressEvent where
  unit : Bytes
  stage : Option Stage
  status : Status
  failure : Option Bytes := none
deriving DecidableEq, Repr, Inhabited

end Craftlang

/-!
## Options and keys

What a build is asked to do, and the digests by which its results are known. A digest of several parts
takes in the length of every part, so that no two lists of parts run together.
-/

namespace Craftlang

/-- A source text with its name. -/
structure UnitInput where
  name : Bytes
  content : Bytes
deriving DecidableEq, Repr

structure BuildOptions where
  /-- How many diagnostics a unit may have; without a limit if it is not positive. -/
  limit : Int := 0
  /-- The namespace to use whatever a unit says; empty for none. -/
  space : Bytes := []
  packFormat : Int := 0
  description : Bytes := []
  warnShadow : Bool := false
deriving DecidableEq, Repr

/-- The format of the pack; the standard one unless a positive one is asked for. -/
def BuildOptions.format (o : BuildOptions) : Int :=
  if o.packFormat ≤ 0 then PackFormat.standard else o.packFormat

namespace Digest

open Packed (word)

/-- The digest of several parts. -/
def ofParts (parts : List Bytes) : Bytes :=
  Sha256.digest (parts.flatMap fun part => word part.length ++ part)

/-- What a parsed file is known by: its content. -/
def ofParsed (file : File) : Bytes := ofParts ["ast", file.digest]

/-- What the result of a unit is known by: its name and content, and the options that matter. -/
def ofUnit (name : Bytes) (file : File) (o : BuildOptions) : Bytes :=
  ofParts [Release.current.version, name, o.space, o.description, word o.format.toNat,
    [if o.warnShadow then 1 else 0], word o.limit.toNat, file.digest]

end Digest

end Craftlang
