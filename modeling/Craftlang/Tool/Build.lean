import Craftlang.Build.Cache
import Craftlang.Tool.Plan
import Craftlang.Tool.Failure
import Craftlang.Tool.Listing

/-!
# Building a pack

A build is decided before anything is changed: what to compile and where the pack goes is found out by
asking only. The destination is touched last, once all units are compiled and put together.
-/

/-!
## Stored results on disk

Every stored result is a file of its own, named by its key, in a directory that all builds share.
-/

namespace Craftlang

namespace ResultDirectory

/-- The directory of stored results, below the directory for caches or the one for caches at home. -/
def path (env : Environment) : Except Failure Bytes :=
  match env.cacheHome, env.home with
  | some base, _ => .ok (Path.join [base, "craftc"])
  | none, some home => .ok (Path.join [Path.join [home, ".cache"], "craftc"])
  | none, none => .error .noHome

def units (directory : Bytes) : Bytes := Path.join [directory, "units"]

/-- The file of a result. -/
def file (directory key : Bytes) : Bytes :=
  Path.join [units directory, Bytes.hex key ++ ".unit"]

/-- The stored results with some keys. -/
def read (directory : Bytes) : List Bytes → Query ResultCache
  | [] => pure {}
  | key :: keys => do
    let others ← read directory keys
    match ← Query.content (file directory key) with
    | .ok content => pure ⟨(key, .ofBytes content) :: others.entries⟩
    | .error _ => pure others

/-- The changes that store the results that can be used; results that are stored already are not
stored again. -/
def storing (directory : Bytes) (before after : ResultCache) : List Change :=
  after.entries.flatMap fun (key, entry) =>
    match entry with
    | .unreadable => []
    | .readable unit =>
      if (before.usable? key).isSome then []
      else [.makeDirs (units directory), .write (file directory key) unit.packed]

/-- Removes all stored results. -/
def clear (env : Environment) (isQuiet : Bool) : Script Reply :=
  match path env with
  | .error failure => pure (.fail failure)
  | .ok directory => do
    match ← Script.performUntilFault
        [(.makeDirs directory, .openCache), (.remove (units directory), .dropCache directory)] with
    | some failure => pure (.fail failure)
    | none => pure { out := Bytes.onlyIf (!isQuiet) ("removed " ++ directory ++ "\n") }

end ResultDirectory

/-! ## Preparing and running a build -/

/-- Can the progress display be asked for in these words? -/
def isUiChoice (value : Bytes) : Bool :=
  let choice := Utf8.trim value
  choice.isEmpty || ["auto", "on", "off"].any (Utf8.spells choice)

/-- A build with everything that it needs to know. -/
structure PreparedBuild where
  plan : BuildPlan
  format : ListingFormat
  inputs : List UnitInput
  options : BuildOptions

namespace PreparedBuild

/-- Finds out everything that a build needs to know. -/
def ofRequest (env : Environment) (settings : Settings) (r : BuildRequest) :
    Asking PreparedBuild := do
  let plan ← r.plan env.workingDir
  if !isUiChoice settings.ui then throw (.badUi settings.ui)
  match ListingFormat.ofName? r.format, PackFormat.fault? plan.packFormat with
  | none, _ => throw (.unknownFormat r.format)
  | _, some fault => throw (.badPackFormat fault)
  | some format, none => do
    let found ← Query.kind plan.destination
    if found.isOk && !plan.force then throw (.destinationExists plan.destination)
    let inputs ← Sources.load plan.sources
    pure
      { plan, format, inputs
        options :=
          { limit := settings.limit, space := r.space, packFormat := plan.packFormat
            description := plan.description, warnShadow := r.warnShadow } }

/-- The keys of the results of the units. -/
def keys (b : PreparedBuild) : List Bytes :=
  let options := if 1 < b.inputs.length then { b.options with space := [] } else b.options
  b.inputs.map fun input =>
    Digest.ofUnit input.name (CompilationUnit.start input options).file options

end PreparedBuild

/-- The results of the units of a build, and what it has told the trace. -/
structure CompiledBuild where
  units : List CompilationUnit
  results : ResultCache
  trace : List Trace.Step

namespace PreparedBuild

/-- Compiles the units; results are used and kept if there are any to start with. -/
def compile (b : PreparedBuild) (results : Option ResultCache) : CompiledBuild :=
  let (session, units) := ({ parsed := some {}, results } : Session).compileAll b.options b.inputs
  ⟨units, session.results.getD {}, session.trace⟩

/-- What is said about compiled units, whatever becomes of them. -/
def report (b : PreparedBuild) (env : Environment) (settings : Settings) (color : ColorChoice)
    (c : CompiledBuild) : Reply :=
  let style : ListingStyle :=
    { format := b.format, color := color.isUsed env.errIsTerminal, limit := settings.limit }
  { err := Listing.diagnostics style env.workingDir c.units
      ++ Bytes.onlyIf settings.showsTimings (Listing.timings b.format c.units)
    trace := c.trace }

/-- The summary of a pack that has been built. -/
def summary (b : PreparedBuild) (units : List CompilationUnit) (pack : Datapack) : Bytes :=
  "built " ++ b.plan.destination ++ " (" ++ Bytes.decimal units.length ++ " unit(s), "
    ++ Bytes.decimal pack.functions.length ++ " function(s), " ++ Bytes.decimal pack.tags.length
    ++ " tag(s))\n"

/-- Compiles the units and, if all is well, puts the pack in its place. -/
def finish (b : PreparedBuild) (env : Environment) (settings : Settings) (color : ColorChoice)
    (c : CompiledBuild) : Script Reply :=
  match c.units.findSome? (·.failure) with
  | some failure => pure { trace := c.trace, failure := some (.unit failure) }
  | none =>
    let reply := b.report env settings color c
    let errors := c.units.foldl (fun n u => n + u.bag.errorCount) 0
    if c.units.any (·.bag.hasErrors) then
      pure { reply with
        err := reply.err ++ Bytes.onlyIf (!settings.isQuiet)
          ("build failed: " ++ Bytes.decimal errors ++ " error(s)\n")
        failure := some .compilation }
    else
      match linkPacks b.options (c.units.map CompilationUnit.output) with
      | .error error => pure { reply with failure := some (.link error) }
      | .ok pack => do
        let failure ← Destination.replace b.plan pack
        let out := Bytes.onlyIf (!settings.isQuiet && failure.isNone) (b.summary c.units pack)
        let written : List Trace.Step :=
          [.enter .build "write", .leave (if failure.isNone then b.plan.destination else "failed")]
        pure { reply with out, failure, trace := reply.trace ++ written }

end PreparedBuild

namespace BuildRequest

/-- The stored results that a build may use; none if it is to use no results. -/
def openResults (r : BuildRequest) (env : Environment) (b : PreparedBuild) :
    Script (Except Failure (Option (Bytes × ResultCache))) :=
  if !r.usesCache then pure (.ok none)
  else match ResultDirectory.path env with
    | .error failure => pure (.error failure)
    | .ok directory => do
      match ← Script.perform (.makeDirs directory) with
      | .error fault => pure (.error (.openCache fault))
      | .ok () =>
        let results ← Script.ofQuery (ResultDirectory.read directory b.keys)
        pure (.ok (some (directory, results)))

def run (r : BuildRequest) (env : Environment) (settings : Settings) (color : ColorChoice) :
    Script Reply := do
  match ← Script.ofQuery (PreparedBuild.ofRequest env settings r).run with
  | .error failure => pure (.fail failure)
  | .ok b =>
    match ← r.openResults env b with
    | .error failure => pure (.fail failure)
    | .ok stored =>
      let compiled := b.compile (stored.map (·.2))
      match stored with
      | none => b.finish env settings color compiled
      | some (directory, results) => do
        Script.performAll (ResultDirectory.storing directory results compiled.results)
        b.finish env settings color compiled

end BuildRequest

end Craftlang
