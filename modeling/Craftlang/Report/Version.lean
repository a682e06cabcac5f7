import Craftlang.Text.Terminal

/-!
# The version

Which release of the compiler this is. The version takes part in the keys of cached results.
-/

namespace Craftlang

/-- A version, and the commit and date of the build if they are known. -/
structure Release where
  version : Bytes
  commit : Bytes := []
  date : Bytes := []
deriving DecidableEq, Repr

namespace Release

/-- This release. -/
def current : Release := { version := "0.1.0-dev" }

/-- The text up to the first occurrences of a byte, at most `limit` times, and the rest. -/
def splitAtMost (b : UInt8) : Nat → Bytes → List Bytes
  | 0, s => [s]
  | n + 1, s =>
    match Bytes.cut b s with
    | (before, some after) => before :: splitAtMost b n after
    | (before, none) => [before]

/-- The version with its three numbers in different colors; what follows a hyphen is plain. A version
that has no three numbers stays as it is. -/
def colored (r : Release) (isOn : Bool) : Bytes :=
  let (core, suffix) := Bytes.cut (byte '-') r.version
  match splitAtMost (byte '.') 2 core with
  | [major, minor, patch] =>
    Paint.yellow.bold.apply isOn major ++ "." ++ Paint.green.bold.apply isOn minor ++ "."
      ++ Paint.blue.bold.apply isOn patch
      ++ Bytes.onlyIf (!(suffix.getD []).isEmpty) ("-" ++ suffix.getD [])
  | _ => r.version

/-- One line that describes the release. -/
def info (r : Release) (isOn : Bool) : Bytes :=
  let origin := Bytes.join ", " ([r.commit, r.date].filter (!·.isEmpty))
  "craftc " ++ r.colored isOn ++ Bytes.onlyIf (!origin.isEmpty) (" (" ++ origin ++ ")")

end Release

end Craftlang
