import Craftlang.Text.Bytes

/-!
# Paths

Slash-separated paths as text. A path is cleaned by dropping empty and `.` components and by letting
`..` cancel the component before it; a cleaned path is never empty.
-/

namespace Craftlang.Path

def slash : UInt8 := byte '/'

def isAbsolute (p : Bytes) : Bool := p.head? == some slash

/-- The non-empty components of a path. -/
def components (p : Bytes) : List Bytes := (Bytes.splitOn slash p).filter (!·.isEmpty)

/-- Adds a component to the cleaned components so far, innermost first. Above the root there is
nothing, so `..` is dropped there; a relative path keeps the `..` it starts with. -/
def pushComponent (rooted : Bool) (above : List Bytes) (component : Bytes) : List Bytes :=
  if component == Bytes.ofString "." then above
  else if component == Bytes.ofString ".." then
    match above with
    | [] => if rooted then [] else [component]
    | c :: rest => if c == Bytes.ofString ".." then component :: above else rest
  else component :: above

/-- The components of a path once it is cleaned. -/
def cleanComponents (p : Bytes) : List Bytes :=
  ((components p).foldl (pushComponent (isAbsolute p)) []).reverse

def clean (p : Bytes) : Bytes :=
  let body := Bytes.join [slash] (cleanComponents p)
  if isAbsolute p then slash :: body
  else if body.isEmpty then "." else body

/-- The last component: `.` of an empty path, `/` of the root. -/
def base (p : Bytes) : Bytes :=
  if p.isEmpty then "."
  else ((components p).getLast?).getD [slash]

/-- The cleaned path without its last component. -/
def directory (p : Bytes) : Bytes :=
  clean (p.reverse.dropWhile (· != slash)).reverse

/-- Paths one below the other; empty ones are left out. -/
def join (parts : List Bytes) : Bytes :=
  match parts.filter (!·.isEmpty) with
  | [] => []
  | ps => clean (Bytes.join [slash] ps)

/-- The file-name ending that starts at the last dot of the last component. -/
def ending (p : Bytes) : Bytes :=
  let last := (p.reverse.takeWhile (· != slash)).reverse
  match last.reverse.dropWhile (· != byte '.') with
  | [] => []
  | _ => byte '.' :: (last.reverse.takeWhile (· != byte '.')).reverse

/-- What is left of two lists when the components they start with in common are taken off. -/
def dropCommon : List Bytes → List Bytes → List Bytes × List Bytes
  | a :: as, b :: bs => if a == b then dropCommon as bs else (a :: as, b :: bs)
  | as, bs => (as, bs)

/-- The path from a directory to an absolute path; a relative path is already one. There is none
from a relative directory. -/
def relative? (dir p : Bytes) : Option Bytes :=
  if !isAbsolute p then some p
  else if !isAbsolute dir then none
  else
    let (up, down) := dropCommon (cleanComponents dir) (cleanComponents p)
    match up.map (fun _ => Bytes.ofString "..") ++ down with
    | [] => some "."
    | steps => some (Bytes.join [slash] steps)

/-- What is said when `relative?` finds no path. -/
def relativeFailure (dir p : Bytes) : Bytes := "Rel: can't make " ++ p ++ " relative to " ++ dir

end Craftlang.Path
