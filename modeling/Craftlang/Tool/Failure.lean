import Craftlang.Build.Link
import Craftlang.Disk.Script
import Craftlang.Tool.Argument
import Craftlang.Tool.Manifest

/-!
# Failures

Why the tool gives up, how it says so, and the exit status that goes with it: 2 for a call that asks for
something impossible, 3 for what should not happen, 1 for everything else.
-/

namespace Craftlang

/-- A profile that a run can be asked to write. -/
inductive Profile where
  | cpu | heap | runtime
deriving DecidableEq, Repr

def Profile.name : Profile → String
  | cpu => "cpu profile"
  | heap => "heap profile"
  | runtime => "runtime trace"

inductive Failure where
  /-- The arguments are no call. -/
  | arguments (fault : ArgumentFault)
  | badColor (value : Bytes)
  | badUi (value : Bytes)
  | badTraceLevel (value : Bytes)
  | badTraceMode (value : Bytes)
  | badTraceFormat (value : Bytes)
  | unknownFormat (value : Bytes)
  | unsupportedFormat (value : Bytes)
  | negativePackFormat
  | badPackFormat (text : Bytes)
  | noDestination
  | traceOutput (fault : DiskFault)
  | profile (which : Profile) (fault : DiskFault)
  | findManifest (path : Bytes) (fault : DiskFault)
  | readManifest (path : Bytes) (fault : DiskFault)
  | manifest (path : Bytes) (fault : ManifestFault)
  | load (path : Bytes) (fault : DiskFault)
  | readSource (path : Bytes) (fault : DiskFault)
  | noSources
  | noHome
  | openCache (fault : DiskFault)
  | dropCache (path : Bytes) (fault : DiskFault)
  /-- Diagnostics have been shown that are errors. -/
  | compilation
  | unit (failure : UnitFailure)
  | link (error : LinkError)
  | destinationExists (path : Bytes)
  | statDestination (fault : DiskFault)
  /-- The destination could not be removed. -/
  | removeDestination (fault : DiskFault)
  /-- The destination could not be written; `what` says at which point. -/
  | writeDestination (what : Bytes) (fault : DiskFault)
  /-- A file has too long a name for an archive. -/
  | archiveName (name : Bytes)
  | statProject (fault : DiskFault)
  | makeProject (path : Bytes) (fault : DiskFault)
  | projectNotDirectory (path : Bytes)
  | projectExists (path : Bytes)
  | writeProject (what : Bytes) (fault : DiskFault)
deriving DecidableEq, Repr

namespace Failure

/-- The end of every source file's name. -/
def sourceEnding : Bytes := ".craft"

def message : Failure → Bytes
  | arguments fault => fault.message
  | badColor value =>
    "invalid --color value " ++ Quoted.encode value ++ " (expected auto|on|off)"
  | badUi value => "invalid --ui value " ++ Quoted.encode value ++ " (expected auto|on|off)"
  | badTraceLevel value => "invalid trace level: " ++ Trace.Level.invalidName value
  | badTraceMode value => "invalid trace mode: " ++ Trace.Mode.invalidName value
  | badTraceFormat value => "invalid trace format: " ++ Trace.Format.invalidName value
  | unknownFormat value => "unknown format: " ++ value
  | unsupportedFormat value =>
    "unsupported format " ++ Quoted.encode value ++ " (must be pretty or json)"
  | negativePackFormat => "--pack-format must not be negative"
  | badPackFormat text => text
  | noDestination =>
    "missing destination and no " ++ Manifest.fileName
      ++ " found\nusage: craftc build <sources...> <destination>"
  | traceOutput fault => "failed to create tracer: failed to open trace output: " ++ fault.message
  | profile which fault => Bytes.ofString which.name ++ ": " ++ fault.message
  | findManifest path fault => "failed to stat " ++ Quoted.encode path ++ ": " ++ fault.message
  | readManifest path fault => path ++ ": failed to parse TOML: " ++ fault.message
  | manifest path fault => path ++ ": " ++ fault.message
  | load path fault => "load " ++ path ++ ": " ++ fault.message
  | readSource path fault => "failed to read " ++ path ++ ": " ++ fault.message
  | noSources => "no " ++ sourceEnding ++ " sources found"
  | noHome => "$HOME is not defined"
  | openCache fault => "open cache: " ++ fault.message
  | dropCache path fault => "failed to remove " ++ Quoted.encode path ++ ": " ++ fault.message
  | compilation => "compilation failed"
  | unit failure => "internal error: " ++ failure.message
  | link error => "internal error: " ++ error.message
  | destinationExists path =>
    "destination " ++ path ++ " already exists (use --force to overwrite)"
  | statDestination fault => "failed to stat destination: " ++ fault.message
  | removeDestination fault => "failed to delete destination: " ++ fault.message
  | writeDestination what fault => "failed to " ++ what ++ ": " ++ fault.message
  | archiveName name => "failed to add " ++ name ++ ": zip: FileHeader.Name too long"
  | statProject fault => fault.message
  | makeProject path fault =>
    "failed to create directory " ++ Quoted.encode path ++ ": " ++ fault.message
  | projectNotDirectory path => Quoted.encode path ++ " is not a directory"
  | projectExists path => "project already initialized: " ++ path ++ " exists"
  | writeProject what fault => "failed to " ++ what ++ ": " ++ fault.message

/-- The exit status of a run that fails. -/
def status : Failure → Nat
  | badColor _ | badUi _ | badTraceLevel _ | badTraceMode _ | badTraceFormat _ | unknownFormat _
  | unsupportedFormat _ | negativePackFormat | badPackFormat _ | noDestination => 2
  | unit _ | link _ => 3
  | _ => 1

end Failure

/-- A program that asks about files and can fail. -/
abbrev Asking (α : Type) := ExceptT Failure Query α

/-- A program that asks about files, changes them and can fail. -/
abbrev Doing (α : Type) := ExceptT Failure Script α

namespace Doing

def kind (path : Bytes) : Doing (Except DiskCause FileKind) :=
  ExceptT.lift (Script.ofQuery (Query.kind path))

/-- Makes a change; `failure` says what a fault means. -/
def perform (c : Change) (failure : DiskFault → Failure) : Doing Unit :=
  ExceptT.mk do
    match ← Script.perform c with
    | .ok () => pure (.ok ())
    | .error fault => pure (.error (failure fault))

end Doing

/-- Where the tool runs. -/
structure Environment where
  workingDir : Bytes
  /-- The directory for caches, if one is set. -/
  cacheHome : Option Bytes := none
  home : Option Bytes := none
  outIsTerminal : Bool := false
  errIsTerminal : Bool := false

/-- What a command has to say, what it has told the trace, and why it gave up if it did. -/
structure Reply where
  out : Bytes := []
  err : Bytes := []
  failure : Option Failure := none
  trace : List Trace.Step := []

def Reply.fail (failure : Failure) : Reply := { failure := some failure }

/-- A failure as a reply. -/
def Reply.ofExcept : Except Failure Reply → Reply
  | .ok reply => reply
  | .error failure => .fail failure

end Craftlang
