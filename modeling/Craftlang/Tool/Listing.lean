import Craftlang.Build.Compile
import Craftlang.Report.Outline
import Craftlang.Token.Lexer
import Craftlang.Tool.Failure
import Craftlang.Report.Diagnostics
import Craftlang.Tool.Call

/-!
# Listings

What commands print about units: their diagnostics, in one of three formats, and how long their stages
took.
-/

/-!
## Sources

Which units a list of paths stands for: a file is a unit, and a directory stands for all sources below
it, in the order of their paths.
-/

namespace Craftlang.Sources

/-- Reads a unit. -/
def unitAt (path : Bytes) : Asking UnitInput := do
  match ← Query.content path with
  | .ok content => pure ⟨path, content⟩
  | .error fault => throw (.load path fault)

/-- The paths of the sources below a directory. -/
def below (directory : Bytes) (files : List Place) : List Bytes :=
  Bytes.sort ((files.map fun names => Path.join (directory :: names)).filter fun path =>
    path.endsWith Failure.sourceEnding)

/-- Reads the units that a path stands for. -/
def unitsAt (path : Bytes) : Asking (List UnitInput) := do
  match ← Query.kind path with
  | .error cause => throw (.load path ⟨"stat", path, cause⟩)
  | .ok .file => do
    let unit ← unitAt path
    pure [unit]
  | .ok .directory =>
    match ← Query.filesBelow path with
    | .error cause => throw (.load path ⟨"open", path, cause⟩)
    | .ok files => (below path files).mapM unitAt

/-- Reads all units of a list of paths; there has to be one. -/
def load (paths : List Bytes) : Asking (List UnitInput) := do
  let units ← paths.mapM unitsAt
  if units.flatten.isEmpty then throw .noSources else pure units.flatten

/-- Reads a single source for a command that shows something of it. -/
def single (path : Bytes) : Asking UnitInput := do
  match ← Query.content path with
  | .ok content => pure ⟨path, content⟩
  | .error fault => throw (.readSource path fault)

end Craftlang.Sources

namespace Craftlang

inductive ListingFormat where
  | pretty | json | short
deriving DecidableEq, Repr

namespace ListingFormat

def name : ListingFormat → String
  | pretty => "pretty"
  | json => "json"
  | short => "short"

def ofName? (name : Bytes) : Option ListingFormat :=
  [pretty, json, short].find? fun format => Bytes.ofString format.name = name

end ListingFormat

/-- How diagnostics are listed. -/
structure ListingStyle where
  format : ListingFormat := .pretty
  notes : Bool := false
  paths : PathStyle := .asGiven
  color : Bool := false
  limit : Int := 0

namespace CompilationUnit

/-- The files of a unit, with relative paths from a directory. -/
def filesFrom (u : CompilationUnit) (workingDir : Bytes) : FileSet :=
  { u.files with workingDir }

/-- A line for the unit and one for each of its phases. -/
def timingLines (u : CompilationUnit) : Bytes :=
  let origin : String := if u.isCached then "cached" else "unit"
  let phaseLine (p : Phase) : Bytes :=
    "  " ++ Bytes.padRight 10 p.name ++ " " ++ Bytes.padLeft 8 (Phase.millis 2 p.nanos) ++ " ms"
      ++ Bytes.onlyIf (!p.note.isEmpty) ("  " ++ p.note) ++ [lineFeed]
  u.name ++ ": " ++ Phase.millis 1 (Phase.total u.phases) ++ " ms (" ++ Bytes.ofString origin
    ++ ")\n" ++ u.phases.flatMap phaseLine

/-- The same as a document; times are in whole milliseconds. -/
def timingJson (u : CompilationUnit) : Json :=
  let millis (nanos : Int) : Json := .int (nanos / 1000000)
  .object (Json.field "kind" (.text (if u.isCached then "cached" else "unit"))
    ++ Json.fieldIf (!u.name.isEmpty) "path" (.text u.name)
    ++ Json.field "total_ms" (millis (Phase.total u.phases))
    ++ Json.field "phases" (.list (u.phases.map fun p =>
      .object (Json.field "name" (.text p.name) ++ Json.field "duration_ms" (millis p.nanos)
        ++ Json.fieldIf (!p.note.isEmpty) "note" (.text p.note)))))

end CompilationUnit

namespace Listing

/-- The diagnostics of units, in the order of the units. -/
def diagnostics (style : ListingStyle) (workingDir : Bytes) (units : List CompilationUnit) : Bytes :=
  match style.format with
  | .json =>
    (Report.documentOf
      { positions := true, paths := style.paths, limit := style.limit, notes := style.notes }
      (units.map fun u => (u.filesFrom workingDir, u.bag.items))).pretty ++ [lineFeed]
  | .short => units.flatMap fun u => Report.short (u.filesFrom workingDir) style.notes u.bag.items
  | .pretty =>
    units.flatMap fun u =>
      Report.snippets (u.filesFrom workingDir)
        { color := style.color, context := 1, paths := style.paths, notes := style.notes }
        u.bag.items

/-- How long the stages of units took, as text or as documents, one a line. -/
def timings (format : ListingFormat) (units : List CompilationUnit) : Bytes :=
  match format with
  | .json => units.flatMap fun u => u.timingJson.compact ++ [lineFeed]
  | .pretty | .short => units.flatMap CompilationUnit.timingLines

end Listing

inductive ColorChoice where
  | on | off | auto
deriving DecidableEq, Repr

namespace ColorChoice

def ofName? (name : Bytes) : Option ColorChoice :=
  if name = Bytes.ofString "on" then some on
  else if name = Bytes.ofString "off" then some off
  else if name = Bytes.ofString "auto" || name.isEmpty then some auto
  else none

/-- Is color used where the output is a terminal, or is none? -/
def isUsed (choice : ColorChoice) (isTerminal : Bool) : Bool :=
  match choice with
  | on => true
  | off => false
  | auto => isTerminal

end ColorChoice

end Craftlang

/-!
## Looking at sources

Commands that change nothing: they show the diagnostics of sources, or the tokens or the tree of one.
-/

namespace Craftlang

namespace Inspect

/-- Compiles sources and shows their diagnostics. -/
def diagnostics (a : Arguments) (env : Environment) (settings : Settings) (color : ColorChoice) :
    Asking Reply := do
  let name := a.text "format" "pretty"
  match ListingFormat.ofName? name with
  | none => throw (.unknownFormat name)
  | some format =>
    let inputs ← Sources.load a.operands
    let options : BuildOptions :=
      { limit := settings.limit, warnShadow := a.isOn "warn-shadow" }
    let (session, units) := ({ parsed := some {} } : Session).compileAll options inputs
    let style : ListingStyle :=
      { format, notes := a.isOn "with-notes"
        paths := if a.isOn "fullpath" then .absolute else .asGiven
        color := color.isUsed env.outIsTerminal, limit := settings.limit }
    match units.findSome? (·.failure) with
    | some failure => pure { failure := some (.unit failure), trace := session.trace }
    | none =>
      pure
        { out := Listing.diagnostics style env.workingDir units
          err := Bytes.onlyIf settings.showsTimings (Listing.timings format units)
          failure := if units.any (·.bag.hasErrors) then some .compilation else none
          trace := session.trace }

/-- Diagnostics as they are shown beside what a command is about. -/
def asides (env : Environment) (color : ColorChoice) (u : CompilationUnit) : Bytes :=
  Listing.diagnostics { color := color.isUsed env.errIsTerminal } env.workingDir [u]

/-- Shows the tokens of a source. -/
def tokens (a : Arguments) (env : Environment) (settings : Settings) (color : ColorChoice) :
    Asking Reply := do
  let format := a.text "format" "pretty"
  let input ← Sources.single (a.operands.headD [])
  let start := CompilationUnit.start input { limit := settings.limit }
  let u := start.report start.file.lexicalDiagnostics
  let found := u.file.tokenize
  let err := asides env color u
  if format = Bytes.ofString "pretty" then
    pure { out := Report.tokenLines u.files found, err }
  else if format = Bytes.ofString "json" then pure { out := Report.tokensJson found, err }
  else pure { err, failure := some (.unknownFormat format) }

/-- Shows the tree of a source. -/
def tree (a : Arguments) (env : Environment) (settings : Settings) (color : ColorChoice) :
    Asking Reply := do
  let format := a.text "format" "pretty"
  let input ← Sources.single (a.operands.headD [])
  let (session, u) := ({} : Session).parse { limit := settings.limit } input
  let program := u.findings.program
  let err := asides env color u
  let shown (out : Bytes) : Reply :=
    { out, err, trace := session.trace
      failure := if u.bag.hasErrors then some .compilation else none }
  match u.failure with
  | some failure => pure (.fail (.unit failure))
  | none =>
    if format = Bytes.ofString "pretty" then
      pure (shown ((program.map (Report.programLines u.files)).getD []))
    else if format = Bytes.ofString "json" then
      pure (shown ((program.map Report.programJson).getD []))
    else pure { err, trace := session.trace, failure := some (.unknownFormat format) }

/-- Shows which release of the tool this is. -/
def version (a : Arguments) (env : Environment) (color : ColorChoice) : Reply :=
  let format := a.text "format" "pretty"
  let release := Release.current
  if Utf8.spells format "pretty" then
    { out := release.info (color.isUsed env.outIsTerminal) ++ [lineFeed] }
  else if Utf8.spells format "json" then
    { out := (Json.object (Json.field "tool" (.text "craftc")
        ++ Json.field "version" (.text release.version)
        ++ Json.fieldIf (!release.commit.isEmpty) "git_commit" (.text release.commit)
        ++ Json.fieldIf (!release.date.isEmpty) "build_date" (.text release.date))).pretty
        ++ [lineFeed] }
  else .fail (.unsupportedFormat format)

end Inspect

end Craftlang
