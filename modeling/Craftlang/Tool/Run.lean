import Craftlang.Tool.Plan
import Craftlang.Tool.Build
import Craftlang.Tool.Listing

/-!
# Running the tool

A run reads its arguments, sets up what every command may use, runs the command and cleans up. What it
writes to its two outputs and its exit status are its outcome.
-/

/-!
## Starting a project

A new project has a manifest and a first source. An existing manifest is never overwritten, and an
existing source is left alone.
-/

namespace Craftlang

namespace Project

/-- The source that a new project starts with. -/
def firstSource : Bytes := Bytes.ofString
  "# Runs once when the datapack is loaded.

fun greet(name: string)
    print(\"Hello, \" .. name .. \"!\")

tag load
fun start()
    greet(\"Craftlang\")
"

/-- The directory of a new project: the working directory unless another is given. -/
def directoryFor (workingDir : Bytes) (operand : Option Bytes) : Bytes :=
  match operand with
  | none => workingDir
  | some path =>
    if path = Bytes.ofString "." then workingDir
    else if Path.isAbsolute path then path
    else Path.join [workingDir, path]

/-- The name of a project in a directory. -/
def nameFor (directory : Bytes) : Bytes :=
  let name := Utf8.trim (Path.base directory)
  if name.isEmpty || name = Bytes.ofString "." || name = [Path.slash] then "craft-project" else name

/-- A project that is about to be started. -/
structure Draft where
  directory : Bytes
  name : Bytes

namespace Draft

def manifestPath (d : Draft) : Bytes := Path.join [d.directory, Manifest.fileName]

def sourceName (d : Draft) : Bytes := (Namespace.ofFileName d.name).name ++ Failure.sourceEnding

def sourcePath (d : Draft) : Bytes := Path.join [d.directory, "src", d.sourceName]

/-- Makes the directory of a project if there is none. -/
def makeDirectory (d : Draft) : Doing Unit := do
  match ← Doing.kind d.directory with
  | .ok .directory => pure ()
  | .ok .file => throw (.projectNotDirectory d.directory)
  | .error .missing => Doing.perform (.makeDirs d.directory) (.makeProject d.directory)
  | .error cause => throw (.statProject ⟨"stat", d.directory, cause⟩)

/-- Writes the manifest, if there is none. -/
def writeManifest (d : Draft) : Doing Unit := do
  if (← Doing.kind d.manifestPath).isOk then throw (.projectExists d.manifestPath)
  Doing.perform (.write d.manifestPath (Manifest.template d.name)) (.writeProject "write manifest")

/-- Writes the first source if its place is free; says whether it was. -/
def writeSource (d : Draft) : Doing Bool := do
  match ← Doing.kind d.sourcePath with
  | .error .missing =>
    Doing.perform (.makeDirs (Path.directory d.sourcePath)) (.writeProject "create src")
    Doing.perform (.write d.sourcePath firstSource) (.writeProject ("write " ++ d.sourceName))
    pure true
  | _ => pure false

/-- What is said about a project that has been started. -/
def summary (d : Draft) (workingDir : Bytes) (hasNewSource : Bool) : Bytes :=
  let shown := (Path.relative? workingDir d.directory).getD d.directory
  "Initialized Craftlang project in " ++ shown ++ "\n  - " ++ Manifest.fileName ++ "\n  - src/"
    ++ d.sourceName ++ Bytes.onlyIf (!hasNewSource) " (existing)" ++ "\n"

end Draft

/-- Starts a project. -/
def start (env : Environment) (operand : Option Bytes) : Script Reply :=
  let directory := directoryFor env.workingDir operand
  let draft : Draft := ⟨directory, nameFor directory⟩
  Reply.ofExcept <$> ExceptT.run do
    draft.makeDirectory
    draft.writeManifest
    let hasNewSource ← draft.writeSource
    pure { out := draft.summary env.workingDir hasNewSource }

end Project

/-! ## Running a command -/

/-- What a run leaves behind besides its files: what it wrote to its two outputs, and why it failed if it did. -/
structure Outcome where
  out : Bytes := []
  err : Bytes := []
  failure : Option Failure := none
deriving DecidableEq, Repr

/-- How a failure is announced. -/
def Failure.line (f : Failure) : Bytes := "Error: " ++ f.message ++ "\n"

/-- What every command may use: colors, and a tracer with the path it writes to. -/
structure Setup where
  color : ColorChoice
  tracer : Trace.Tracer
  traceOutput : Bytes
  heapProfile : Bytes

namespace Settings

/-- The tracer that is asked for. An output asks for phases if no level is given. -/
def tracer (s : Settings) : Except Failure Trace.Tracer :=
  match Trace.Level.ofName? s.traceLevel with
  | none => .error (.badTraceLevel s.traceLevel)
  | some level =>
    let level := if level = .off && !s.traceOutput.isEmpty then .phase else level
    if level = .off then .ok .silent
    else match Trace.Mode.ofName? s.traceMode, Trace.Format.ofName? s.traceFormat with
      | none, _ => .error (.badTraceMode s.traceMode)
      | _, none => .error (.badTraceFormat s.traceFormat)
      | some mode, some format =>
        .ok ((Trace.Tracer.ofMode? level mode format s.traceOutput s.ringSize).getD .silent)

/-- Does a tracer write to a file, and not to the output for errors? -/
def writesTraceFile (s : Settings) (t : Trace.Tracer) : Bool :=
  t.stream.isSome && !s.traceOutput.isEmpty && s.traceOutput != Bytes.ofString "-"

/-- The files that are opened before a command runs. -/
def openings (s : Settings) (t : Trace.Tracer) : List (Change × (DiskFault → Failure)) :=
  (if s.writesTraceFile t then [(Change.write s.traceOutput [], Failure.traceOutput)] else [])
    ++ (if s.cpuProfile.isEmpty then [] else
      [(Change.write s.cpuProfile [], Failure.profile .cpu)])
    ++ if s.runtimeTrace.isEmpty then [] else
      [(Change.write s.runtimeTrace [], Failure.profile .runtime)]

/-- Sets up what every command may use. -/
def setUp (s : Settings) : Script (Except Failure Setup) :=
  match ColorChoice.ofName? s.color, s.tracer with
  | none, _ => pure (.error (.badColor s.color))
  | _, .error failure => pure (.error failure)
  | some color, .ok tracer => do
    match ← Script.performUntilFault (s.openings tracer) with
    | some failure => pure (.error failure)
    | none =>
      let traceOutput := if s.writesTraceFile tracer then s.traceOutput else []
      pure (.ok ⟨color, tracer, traceOutput, s.heapProfile⟩)

end Settings

namespace Setup

/-- Writes what is left to write; answers with what is said about it. -/
def tearDown (s : Setup) (trace : List Trace.Step) : Script Bytes := do
  let traced := (trace.foldl Trace.Tracer.follow s.tracer).written
  let profiled ←
    if s.heapProfile.isEmpty then pure []
    else match ← Script.perform (.write s.heapProfile []) with
      | .ok () => pure []
      | .error fault =>
        pure (Bytes.ofString "profile: " ++ (Failure.profile .heap fault).message ++ [lineFeed])
  if s.traceOutput.isEmpty then pure (profiled ++ traced)
  else do
    let _ ← Script.perform (.write s.traceOutput traced)
    pure profiled

end Setup

/-- Runs a command. -/
def Verb.run (v : Verb) (a : Arguments) (env : Environment) (settings : Settings)
    (color : ColorChoice) : Script Reply :=
  let asking (query : Asking Reply) : Script Reply :=
    Script.ofQuery (Reply.ofExcept <$> query.run)
  match v with
  | .build => (BuildRequest.ofArguments a).run env settings color
  | .diag => asking (Inspect.diagnostics a env settings color)
  | .tokenize => asking (Inspect.tokens a env settings color)
  | .parse => asking (Inspect.tree a env settings color)
  | .init => Project.start env a.operands.head?
  | .clean => ResultDirectory.clear env settings.isQuiet
  | .version => pure (Inspect.version a env color)

namespace Outcome

/-- The exit status; zero unless the run failed. -/
def status (o : Outcome) : Nat := (o.failure.map Failure.status).getD 0

def ofFailure (f : Failure) : Outcome := { err := f.line, failure := some f }

/-- The outcome of a command: what it said, the failure if there is one, and what cleaning up said. -/
def ofReply (r : Reply) (afterwards : Bytes) : Outcome where
  out := r.out
  err := r.err ++ (r.failure.map Failure.line).getD [] ++ afterwards
  failure := r.failure

end Outcome

namespace Tool

/-- Runs a command between setting up and cleaning up. -/
def runVerb (env : Environment) (v : Verb) (a : Arguments) : Script Outcome := do
  let settings := Settings.ofArguments a
  match ← settings.setUp with
  | .error failure => pure (.ofFailure failure)
  | .ok setup => do
    let reply ← v.run a env settings setup.color
    let afterwards ← setup.tearDown reply.trace
    pure (.ofReply reply afterwards)

/-- What follows the message about a command that is not known. -/
def hint : ArgumentFault → Bytes
  | .unknownCommand _ command _ =>
    Bytes.onlyIf (command = Bytes.ofString "craftc") "Run 'craftc --help' for usage.\n"
  | _ => []

/-- Runs the tool with a list of arguments. -/
def run (env : Environment) (arguments : List Bytes) : Script Outcome :=
  match Call.ofArguments arguments with
  | .error fault =>
    let failed := Outcome.ofFailure (.arguments fault)
    pure { failed with err := failed.err ++ hint fault }
  | .ok .help => pure { out := Call.helpText }
  | .ok .showVersion => pure { out := "craftc version " ++ Release.current.version ++ [lineFeed] }
  | .ok (.run verb a) => runVerb env verb a

end Tool

end Craftlang
