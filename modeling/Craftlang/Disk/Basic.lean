import Craftlang.Source.Path

/-!
# Disks

A disk holds files and directories. Each has a place, the names that lead to it from the root, and the
root itself is always there. A path is followed name by name, as it is written: every name but the last
has to lead to a directory.
-/

namespace Craftlang

/-- The names that lead from the root to a file or a directory. -/
abbrev Place := List Bytes

/-- Places in the order of a walk that takes the names of each directory in order. -/
def Place.le : Place → Place → Bool
  | [], _ => true
  | _ :: _, [] => false
  | a :: as, b :: bs => if a = b then Place.le as bs else Bytes.lt a b

inductive DiskEntry where
  | directory
  | file (content : Bytes)
deriving DecidableEq, Repr

inductive FileKind where
  | directory
  | file
deriving DecidableEq, Repr

def DiskEntry.kind : DiskEntry → FileKind
  | directory => .directory
  | file _ => .file

/-- Why a path cannot be used. -/
inductive DiskCause where
  | missing
  | notDirectory
  | isDirectory
  | nameTooLong
  | notEmpty
  | invalid
deriving DecidableEq, Repr

def DiskCause.message : DiskCause → Bytes
  | missing => "no such file or directory"
  | notDirectory => "not a directory"
  | isDirectory => "is a directory"
  | nameTooLong => "file name too long"
  | notEmpty => "directory not empty"
  | invalid => "invalid argument"

/-- What could not be done with a path, and why. -/
structure DiskFault where
  action : Bytes
  path : Bytes
  cause : DiskCause
deriving DecidableEq, Repr

def DiskFault.message (f : DiskFault) : Bytes :=
  f.action ++ " " ++ f.path ++ ": " ++ f.cause.message

/-- The entries of a disk by place. -/
structure Disk where
  entries : List (Place × DiskEntry) := []
deriving Repr

namespace Disk

def get? (d : Disk) (place : Place) : Option DiskEntry :=
  if place = [] then some .directory else d.entries.lookup place

/-- Puts an entry at a place, whatever was there. -/
def put (d : Disk) (place : Place) (entry : DiskEntry) : Disk :=
  ⟨d.entries.filter (fun e => e.1 != place) ++ [(place, entry)]⟩

/-- Takes away everything at and below a place. -/
def erase (d : Disk) (place : Place) : Disk :=
  ⟨d.entries.filter fun e => !place.isPrefixOf e.1⟩

/-- Takes away everything below a place. -/
def eraseBelow (d : Disk) (place : Place) : Disk :=
  ⟨d.entries.filter fun e => !place.isPrefixOf e.1 || e.1 == place⟩

/-- The files below a place, each by the names that lead to it from there, in the order of a walk. -/
def filesBelow (d : Disk) (place : Place) : List Place :=
  let below := d.entries.filterMap fun (p, entry) =>
    if place.isPrefixOf p && entry.kind == .file then some (p.drop place.length) else none
  below.mergeSort Place.le

/-- The longest name that a file can have. -/
def longestName : Nat := 255

/-- The longest path that can be followed. -/
def longestPath : Nat := 4095

/-- What is wrong with a path whatever is on the disk: no path holds a zero byte, none is empty, and none
is longer than the longest. -/
def pathFault? (path : Bytes) : Option DiskCause :=
  if path.contains 0 then some .invalid
  else if path.isEmpty then some .missing
  else if longestPath < path.length then some .nameTooLong
  else none

/-- One step along a path. Above the root there is only the root. -/
def step (place : Place) (name : Bytes) : Place :=
  if name = Bytes.ofString "." then place
  else if name = Bytes.ofString ".." then place.dropLast
  else place ++ [name]

/-- The names of a path; a slash at its end asks for a directory. -/
def names (path : Bytes) : List Bytes :=
  Path.components path
    ++ if path.getLast? = some Path.slash then [Bytes.ofString "."] else []

/-- Where the names of a path start. -/
def origin (workingDir : Place) (path : Bytes) : Place :=
  if Path.isAbsolute path then [] else workingDir

/-- Follows names to a place, which may itself be free. -/
def follow (d : Disk) (place : Place) : List Bytes → Except DiskCause Place
  | [] => .ok place
  | name :: rest =>
    match d.get? place with
    | none => .error .missing
    | some (.file _) => .error .notDirectory
    | some .directory =>
      if longestName < name.length then .error .nameTooLong else d.follow (step place name) rest

/-- The place that a path leads to, and what is there. -/
def locate (d : Disk) (workingDir : Place) (path : Bytes) : Except DiskCause (Place × DiskEntry) :=
  match pathFault? path, d.follow (origin workingDir path) (names path) with
  | some cause, _ => .error cause
  | none, .error cause => .error cause
  | none, .ok place =>
    match d.get? place with
    | none => .error .missing
    | some entry => .ok (place, entry)

def kind (d : Disk) (workingDir : Place) (path : Bytes) : Except DiskCause FileKind :=
  (d.locate workingDir path).map fun (_, entry) => entry.kind

def content (d : Disk) (workingDir : Place) (path : Bytes) : Except DiskFault Bytes :=
  match d.locate workingDir path with
  | .error cause => .error ⟨"open", path, cause⟩
  | .ok (_, .directory) => .error ⟨"read", path, .isDirectory⟩
  | .ok (_, .file content) => .ok content

/-- The names that lead to where a file is written. With a slash at the end of the path, they lead to the
directory that the last name is in: no file can be written there. -/
def targetNames (path : Bytes) : List Bytes :=
  if path.getLast? = some Path.slash then (Path.components path).dropLast ++ [Bytes.ofString "."]
  else Path.components path

/-- Writes a file, new or in place of an old one; its directory has to be there. -/
def write (d : Disk) (workingDir : Place) (path content : Bytes) : Disk × Except DiskFault Unit :=
  let fault (cause : DiskCause) : Disk × Except DiskFault Unit := (d, .error ⟨"open", path, cause⟩)
  match pathFault? path, d.follow (origin workingDir path) (targetNames path) with
  | some cause, _ => fault cause
  | none, .error cause => fault cause
  | none, .ok place =>
    if d.get? place = some .directory then fault .isDirectory
    else (d.put place (.file content), .ok ())

/-- The names of a path, given as its pieces between slashes, each with the part of the path that leads
to it; `before` holds the pieces that have been passed. -/
def waypoints (before : List Bytes) : List Bytes → List (Bytes × Bytes)
  | [] => []
  | piece :: rest =>
    let later := waypoints (before ++ [piece]) rest
    if piece.isEmpty then later
    else (piece, Bytes.join [Path.slash] (before ++ piece :: rest.takeWhile (·.isEmpty))) :: later

/-- Why no directory can be made under a name, with the path that leads to it. -/
def nameFault? (name path : Bytes) : Option DiskCause :=
  if longestName < name.length then some .nameTooLong else pathFault? path

/-- Makes a directory at every place that the names lead through, and stops at the first that cannot be
made. -/
def makeAlong (d : Disk) (place : Place) : List (Bytes × Bytes) → Disk × Except DiskFault Unit
  | [] => (d, .ok ())
  | (name, path) :: rest =>
    let next := step place name
    match nameFault? name path, d.get? next with
    | some cause, _ => (d, .error ⟨"mkdir", path, cause⟩)
    | none, some (.file _) => (d, .error ⟨"mkdir", path, .notDirectory⟩)
    | none, some .directory => d.makeAlong next rest
    | none, none => (d.put next .directory).makeAlong next rest

/-- Makes a directory, with all those that it is in. Where one of them cannot be made, those before it
stay, and the fault is at the path that leads to it. -/
def makeDirs (d : Disk) (workingDir : Place) (path : Bytes) : Disk × Except DiskFault Unit :=
  if path.isEmpty then (d, .error ⟨"mkdir", path, .missing⟩)
  else d.makeAlong (origin workingDir path) (waypoints [] (Bytes.splitOn Path.slash path))

/-- A path that ends in `..` as it is named once the directory has been emptied. -/
def upwards (path : Bytes) : Bytes :=
  let path := (path.reverse.dropWhile (· == Path.slash)).reverse
  if path.contains Path.slash then path else "./" ++ path

/-- Removes a file, or a directory with everything in it; nothing happens if there is none. The
directory that one is in cannot be removed by the name `.`, and of the one above only what is in it goes
by the name `..`. -/
def remove (d : Disk) (workingDir : Place) (path : Bytes) : Disk × Except DiskFault Unit :=
  if (Bytes.splitOn Path.slash path).getLast? = some (Bytes.ofString ".") then
    (d, .error ⟨"RemoveAll", path, .invalid⟩)
  else
    match d.locate workingDir path with
    | .error .missing => (d, .ok ())
    | .error cause => (d, .error ⟨"unlinkat", path, cause⟩)
    | .ok (place, _) =>
      if (Path.components path).getLast? = some (Bytes.ofString "..") then
        (d.eraseBelow place, .error ⟨"unlinkat", upwards path, .notEmpty⟩)
      else (d.erase place, .ok ())

end Disk

end Craftlang
