import Craftlang.Pack.Archive
import Craftlang.Tool.Call
import Craftlang.Tool.Failure

/-!
# Plans

What a build compiles and where its pack goes. A call says both, or leaves it to the project that it is
made in.
-/

/-!
## Projects

A directory belongs to the project whose manifest is in it, or in the nearest directory that it is in.
-/

namespace Craftlang

/-- A manifest and the directory it was found in. -/
structure Project where
  root : Bytes
  manifest : Manifest

namespace Project

/-- A directory and those that it is in, innermost first. -/
def ancestors (directory : Bytes) : List Bytes :=
  let names := Path.cleanComponents directory
  (List.range (names.length + 1)).map fun up =>
    Path.slash :: Bytes.join [Path.slash] (names.take (names.length - up))

/-- The first of several directories that has a manifest. -/
def findIn : List Bytes → Asking (Option Bytes)
  | [] => pure none
  | directory :: others => do
    let path := Path.join [directory, Manifest.fileName]
    match ← Query.kind path with
    | .ok _ => pure (some directory)
    | .error .missing => findIn others
    | .error cause => throw (.findManifest path ⟨"stat", path, cause⟩)

/-- The project that a directory belongs to, if it belongs to one. -/
def find (directory : Bytes) : Asking (Option Project) := do
  match ← findIn (ancestors directory) with
  | none => pure none
  | some root =>
    let path := Path.join [root, Manifest.fileName]
    match ← Query.content path with
    | .error fault => throw (.readManifest path fault)
    | .ok content =>
      match Manifest.ofText content with
      | .error fault => throw (.manifest path fault)
      | .ok manifest => pure (some ⟨root, manifest⟩)

end Project

/-! ## What is built -/

/-- What a build is going to do. -/
structure BuildPlan where
  sources : List Bytes
  destination : Bytes
  zip : Bool
  force : Bool
  packFormat : Int
  description : Bytes
deriving DecidableEq, Repr

namespace BuildRequest

/-- The plan of a request that says both what to compile and where to; the last operand is the
destination unless a flag gives it. -/
def ownPlan? (r : BuildRequest) : Option BuildPlan :=
  let plan (sources : List Bytes) (destination : Bytes) : BuildPlan :=
    { sources, destination, zip := r.zip.getD false, force := r.force
      packFormat := r.packFormat.getD 0, description := r.description.getD [] }
  match r.output.isEmpty, r.operands.reverse with
  | true, destination :: source :: sources => some (plan (source :: sources).reverse destination)
  | false, _ :: _ => some (plan r.operands r.output)
  | _, _ => none

/-- The plan of a request in a project, which says what the request leaves open. -/
def planIn (r : BuildRequest) (p : Project) : BuildPlan :=
  let zip := r.zip.getD p.manifest.zip
  { sources := if r.operands.length = 1 then r.operands else p.manifest.sourcePaths p.root
    destination := if r.output.isEmpty then p.manifest.outputPath p.root zip else r.output
    zip
    force := r.force
    packFormat := r.packFormat.getD p.manifest.packFormat
    description := r.description.getD p.manifest.description }

def plan (r : BuildRequest) (workingDir : Bytes) : Asking BuildPlan :=
  if r.packFormat.getD 0 < 0 then throw .negativePackFormat
  else match r.ownPlan? with
    | some plan => pure plan
    | none => do
      match ← Project.find workingDir with
      | none => throw .noDestination
      | some project => pure (r.planIn project)

end BuildRequest

end Craftlang

/-!
## Destinations

How a pack is put in its place, as a directory or as an archive. What stood there is removed first, and
only if the plan allows it.
-/

namespace Craftlang

namespace Destination

/-- The changes that write a pack as a directory. -/
def writingDirectory (destination : Bytes) (files : List (Bytes × Bytes)) :
    List (Change × (DiskFault → Failure)) :=
  (.makeDirs destination, .writeDestination "create destination directory")
    :: files.flatMap fun (name, content) =>
      let path := Path.join [destination, name]
      let directory := Path.directory path
      [(.makeDirs directory, .writeDestination ("create " ++ directory)),
       (.write path content, .writeDestination ("write " ++ path))]

/-- The changes that write a pack as an archive, as far as there is room for the names of its files. -/
def writingArchive (destination : Bytes) (files : List (Bytes × Bytes)) :
    List (Change × (DiskFault → Failure)) :=
  [(.makeDirs (Path.directory destination), .writeDestination "create destination directory"),
   (.write destination (Archive.encode (files.takeWhile Archive.admits)), .writeDestination "create archive")]

/-- Why a pack does not fit into an archive: the first of its files with too long a name. -/
def archiveFailure? (files : List (Bytes × Bytes)) : Option Failure :=
  (files.find? fun file => !Archive.admits file).map fun file => .archiveName file.1

/-- Makes room for a pack. -/
def clear (plan : BuildPlan) : Script (Option Failure) := do
  match ← Script.ofQuery (Query.kind plan.destination) with
  | .error .missing => pure none
  | .error cause => pure (some (.statDestination ⟨"lstat", plan.destination, cause⟩))
  | .ok _ =>
    if plan.force then
      match ← Script.perform (.remove plan.destination) with
      | .ok () => pure none
      | .error fault => pure (some (.removeDestination fault))
    else pure (some (.destinationExists plan.destination))

/-- Writes a pack; what was written is removed if that fails. -/
def write (plan : BuildPlan) (pack : Datapack) : Script (Option Failure) := do
  let files := pack.files []
  let changes :=
    if plan.zip then writingArchive plan.destination files
    else writingDirectory plan.destination files
  let failure ← Script.performUntilFault changes
  match failure <|> (if plan.zip then archiveFailure? files else none) with
  | none => pure none
  | some failure => do
    let _ ← Script.perform (.remove plan.destination)
    pure (some failure)

/-- Puts a pack in place of what is at the destination. -/
def replace (plan : BuildPlan) (pack : Datapack) : Script (Option Failure) := do
  match ← clear plan with
  | some failure => pure (some failure)
  | none => write plan pack

end Destination

end Craftlang
