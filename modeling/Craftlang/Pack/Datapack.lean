import Craftlang.Pack.Namespace
import Craftlang.Text.Json

/-!
# Data packs

A data pack holds functions, which are lists of commands, and tags, which name functions to be run on an
occasion. It is written out as files: the description of the pack, a file for every function, and a
file for every tag.
-/

namespace Craftlang

namespace PackFormat

/-- The format that is used unless another is asked for. -/
def standard : Int := 26

/-- The first format that the generated commands run on. -/
def least : Int := 18

/-- What is wrong with a format, if anything is; zero stands for the standard one. -/
def fault? (format : Int) : Option Bytes :=
  if format ≠ 0 ∧ format < least then
    some ("pack format " ++ Bytes.signedDecimal format ++ " is not supported (minimum "
      ++ Bytes.signedDecimal least ++ ")")
  else none

end PackFormat

/-- A function of a pack: its resource location, its file and its commands. -/
structure PackFunction where
  resource : Bytes
  path : Bytes
  lines : List Bytes
deriving DecidableEq, Repr

/-- A function tag: the functions that are run by it. -/
structure TagFile where
  group : Bytes
  path : Bytes
  values : List Bytes
deriving DecidableEq, Repr

namespace TagFile

def key (t : TagFile) : Bytes := t.group ++ ":" ++ t.path

/-- The file of the tag. -/
def file (t : TagFile) (format : Int) : Bytes :=
  "data/" ++ t.group ++ "/tags/" ++ functionDirectory format ++ "/" ++ t.path ++ ".json"

/-- The tag with one more value, unless it has it already. -/
def add (t : TagFile) (value : Bytes) : TagFile :=
  if t.values.contains value then t else { t with values := t.values ++ [value] }

end TagFile

structure Datapack where
  statedFormat : Int := 0
  description : Bytes := []
  functions : List PackFunction := []
  tags : List TagFile := []
deriving DecidableEq, Repr

/-- Why two packs cannot be put together. -/
inductive MergeError where
  | format (theirs ours : Int)
  | duplicate (resource : Bytes)
deriving DecidableEq, Repr

def MergeError.message : MergeError → Bytes
  | format theirs ours =>
    "merge datapack: pack format " ++ Bytes.signedDecimal theirs ++ " differs from "
      ++ Bytes.signedDecimal ours
  | duplicate resource => "merge datapack: duplicate function " ++ resource

namespace Datapack

def format (d : Datapack) : Int := if d.statedFormat = 0 then PackFormat.standard else d.statedFormat

/-- Adds a value to a tag in a list of tags; a new tag comes last. -/
def addToTags (group path value : Bytes) : List TagFile → List TagFile
  | [] => [⟨group, path, [value]⟩]
  | tag :: tags =>
    if tag.group = group ∧ tag.path = path then tag.add value :: tags
    else tag :: addToTags group path value tags

/-- Has a tag run a function. -/
def addTag (d : Datapack) (group path value : Bytes) : Datapack :=
  { d with tags := addToTags group path value d.tags }

def addFunction (d : Datapack) (f : PackFunction) : Datapack :=
  { d with functions := d.functions ++ [f] }

/-- The function with a resource location. -/
def function? (d : Datapack) (resource : Bytes) : Option PackFunction :=
  d.functions.find? fun f => f.resource == resource

/-- Takes over the values of a tag. -/
def mergeTag (d : Datapack) (tag : TagFile) : Datapack :=
  tag.values.foldl (fun d value => d.addTag tag.group tag.path value) d

/-- Appends the functions and merges the tags of another pack, whose files have to be others. When that
fails the functions before the first clash have been appended. -/
def merge (d other : Datapack) : Datapack × Option MergeError :=
  if d.format ≠ other.format then (d, some (.format other.format d.format))
  else
    let taken := d.functions.map (·.path)
    let isFree (f : PackFunction) : Bool := !taken.contains f.path
    let appended := { d with functions := d.functions ++ other.functions.takeWhile isFree }
    match other.functions.dropWhile isFree with
    | clash :: _ => (appended, some (.duplicate clash.resource))
    | [] => (other.tags.foldl mergeTag appended, none)

/-- The end of a line unless another is asked for. -/
def standardLineEnd : Bytes := "\r\n"

/-- A document with tabs for indentation. Line feeds occur only between lines, and each is replaced by
the end of a line that is asked for. -/
def documentLines (doc : Json) (lineEnd : Bytes) : Bytes :=
  Bytes.replaceByte lineFeed lineEnd (doc.indented "\t" 0) ++ lineEnd

def metaFile (d : Datapack) (lineEnd : Bytes) : Bytes :=
  documentLines (.object (Json.field "pack" (.object
    (Json.field "pack_format" (.int d.format) ++ Json.field "description" (.text d.description)))))
    lineEnd

def tagFile (t : TagFile) (lineEnd : Bytes) : Bytes :=
  documentLines (.object (Json.field "values" (.list (t.values.map .text)))) lineEnd

def functionFile (f : PackFunction) (lineEnd : Bytes) : Bytes :=
  f.lines.flatMap (· ++ lineEnd)

/-- The files of a pack with their contents: its description, functions, tags. An empty end of line
stands for the standard one. -/
def files (d : Datapack) (lineEnd : Bytes) : List (Bytes × Bytes) :=
  let lineEnd := if lineEnd.isEmpty then standardLineEnd else lineEnd
  (Bytes.ofString "pack.mcmeta", d.metaFile lineEnd)
    :: d.functions.map (fun f => (f.path, functionFile f lineEnd))
    ++ d.tags.map (fun t => (t.file d.format, tagFile t lineEnd))

end Datapack

end Craftlang
