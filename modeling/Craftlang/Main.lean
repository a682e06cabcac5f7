import Craftlang.Tool.Run

/-!
# The program

Performs the scripts of the tool on the real disk.
-/

namespace Craftlang

/-- A text of the system. -/
def Bytes.toText (s : Bytes) : String := (String.fromUTF8? ⟨s.toArray⟩).getD ""

/-- Why the system refuses a path that has no fault of its own. -/
def DiskCause.ofError (otherwise : DiskCause) : IO.Error → DiskCause
  | .noFileOrDirectory .. => .missing
  | .inappropriateType .. => otherwise
  | .invalidArgument .. => .nameTooLong
  | _ => otherwise

/-- Does the work at a path, and says why it could not be done. -/
def attempt {α : Type} (path : Bytes) (otherwise : DiskCause) (work : String → IO α) :
    IO (Except DiskCause α) := do
  match Disk.pathFault? path with
  | some cause => pure (.error cause)
  | none =>
    match ← (work path.toText).toBaseIO with
    | .ok value => pure (.ok value)
    | .error e => pure (.error (.ofError otherwise e))

/-- The entries of a directory. -/
def directoryEntries (path : Bytes) : IO (Except DiskCause (List IO.FS.DirEntry)) :=
  attempt path .notDirectory fun p => (·.toList) <$> (System.mkFilePath [p]).readDir

/-- A directory can be listed, a file can be opened. -/
def kindOnDisk (path : Bytes) : IO (Except DiskCause FileKind) := do
  match ← directoryEntries path with
  | .ok _ => pure (.ok .directory)
  | .error .missing => pure (.error .missing)
  | .error _ =>
    match ← attempt path .notDirectory (IO.FS.Handle.mk · .read) with
    | .ok _ => pure (.ok .file)
    | .error cause => pure (.error cause)

/-- Every file below a directory, by the names that lead to it. -/
partial def filesOnDisk (path : Bytes) (names : Place) : IO (List Place) := do
  match ← directoryEntries path with
  | .error _ => pure [names]
  | .ok entries =>
    let found ← entries.mapM fun entry =>
      let name := Bytes.ofString entry.fileName
      filesOnDisk (Path.join [path, name]) (names ++ [name])
    pure found.flatten

def answerOnDisk : (q : Question) → IO q.Answer
  | .kind path => kindOnDisk path
  | .content path => do
    match ← kindOnDisk path with
    | .error cause => pure (.error ⟨"open", path, cause⟩)
    | .ok .directory => pure (.error ⟨"read", path, .isDirectory⟩)
    | .ok .file =>
      match ← attempt path .missing (IO.FS.readBinFile ·) with
      | .error cause => pure (.error ⟨"open", path, cause⟩)
      | .ok content => pure (.ok content.toList)
  | .filesBelow path => attempt path .notDirectory fun _ => filesOnDisk path []

def removeOnDisk (path : Bytes) : IO (Except DiskCause Unit) := do
  match ← kindOnDisk path with
  | .error .missing => pure (.ok ())
  | .error cause => pure (.error cause)
  | .ok .directory => attempt path .invalid (IO.FS.removeDirAll ·)
  | .ok .file => attempt path .invalid (IO.FS.removeFile ·)

/-- Makes a directory at every path that there is none at. -/
def makeAlongOnDisk : List (Bytes × Bytes) → IO (Except DiskFault Unit)
  | [] => pure (.ok ())
  | (_, path) :: rest => do
    match ← kindOnDisk path with
    | .ok .directory => makeAlongOnDisk rest
    | .ok .file => pure (.error ⟨"mkdir", path, .notDirectory⟩)
    | .error _ =>
      match ← attempt path .notDirectory (IO.FS.createDir ·) with
      | .ok () => makeAlongOnDisk rest
      | .error cause => pure (.error ⟨"mkdir", path, cause⟩)

def changeOnDisk (c : Change) : IO (Except DiskFault Unit) := do
  let failing (action path : Bytes) (result : Except DiskCause Unit) : Except DiskFault Unit :=
    match result with
    | .ok () => .ok ()
    | .error cause => .error ⟨action, path, cause⟩
  match c with
  | .write path content =>
    failing "open" path <$>
      attempt path .isDirectory (IO.FS.writeBinFile · ⟨content.toArray⟩)
  | .makeDirs path =>
    if path.isEmpty then pure (.error ⟨"mkdir", path, .missing⟩)
    else makeAlongOnDisk (Disk.waypoints [] (Bytes.splitOn Path.slash path))
  | .remove path => failing "unlinkat" path <$> removeOnDisk path

def Script.onDisk {α : Type} : Script α → IO α
  | .done value => pure value
  | .ask q next => do
    let answer ← answerOnDisk q
    (next answer).onDisk
  | .change c next => do
    let result ← changeOnDisk c
    (next result).onDisk

/-- A variable of the environment that is set to something. -/
def environmentValue (name : String) : IO (Option Bytes) := do
  let value ← IO.getEnv name
  pure ((value.filter (!·.isEmpty)).map Bytes.ofString)

end Craftlang

open Craftlang in
def main (arguments : List String) : IO UInt32 := do
  let out ← IO.getStdout
  let err ← IO.getStderr
  let workingDir ← IO.currentDir
  let cacheHome ← environmentValue "XDG_CACHE_HOME"
  let home ← environmentValue "HOME"
  let env : Environment :=
    { workingDir := Bytes.ofString workingDir.toString, cacheHome, home
      outIsTerminal := ← out.isTty
      errIsTerminal := ← err.isTty }
  let outcome ← (Tool.run env (arguments.map Bytes.ofString)).onDisk
  err.write ⟨outcome.err.toArray⟩
  out.write ⟨outcome.out.toArray⟩
  pure outcome.status.toUInt32
