import Craftlang.Text.Bytes
import Craftlang.Text.Letter
import Craftlang.Text.Json
import Craftlang.Text.Quoted

/-!
# Trace events

A trace tells what a run does: spans begin and end, and points mark an instant. A level decides by scope
which events are kept. Events are written as lines of text or as JSON documents, one a line.
-/

/-!
## Points in time

A point in time is a number of microseconds since the start of 1970, written as a date and a time of day.
-/

namespace Craftlang.Timestamp

structure Date where
  year : Int
  month : Nat
  day : Nat
deriving DecidableEq, Repr

/-- The date of a day counted from the start of 1970. Years are counted from March, so that a leap day is
the last of its year; 400 years have 146097 days. -/
def Date.ofDay (day : Int) : Date :=
  let shifted := day + 719468
  let era := shifted.fdiv 146097
  let dayOfEra := (shifted.fmod 146097).toNat
  let yearOfEra := (dayOfEra - dayOfEra / 1460 + dayOfEra / 36524 - dayOfEra / 146096) / 365
  let dayOfYear := dayOfEra - (365 * yearOfEra + yearOfEra / 4 - yearOfEra / 100)
  let fromMarch := (5 * dayOfYear + 2) / 153
  let month := if fromMarch < 10 then fromMarch + 3 else fromMarch - 9
  ⟨(yearOfEra : Int) + era * 400 + (if month ≤ 2 then 1 else 0), month,
    dayOfYear - (153 * fromMarch + 2) / 5 + 1⟩

def digits (width : Nat) (n : Nat) : Bytes := Bytes.inBasePadded 10 width n

/-- A year with at least four digits. -/
def yearDigits (year : Int) : Bytes :=
  Bytes.onlyIf (year < 0) "-" ++ digits 4 year.natAbs

/-- The text `2006-01-02T15:04:05.000000Z` of a point in time. -/
def render (micros : Int) : Bytes :=
  let perDay : Nat := 86400000000
  let date := Date.ofDay (micros.fdiv perDay)
  let rest := (micros.fmod perDay).toNat
  let seconds := rest / 1000000
  yearDigits date.year ++ "-" ++ digits 2 date.month ++ "-" ++ digits 2 date.day ++ "T"
    ++ digits 2 (seconds / 3600) ++ ":" ++ digits 2 (seconds / 60 % 60) ++ ":"
    ++ digits 2 (seconds % 60) ++ "." ++ digits 6 (rest % 1000000) ++ "Z"

end Craftlang.Timestamp

namespace Craftlang.Trace

/-- How much is traced. -/
inductive Level where
  | off | error | phase | detail | debug | unknown
deriving DecidableEq, Repr, Inhabited

/-- The granularity of an event; a larger number is finer. -/
structure Scope where
  number : Nat
deriving DecidableEq, Repr, Inhabited

namespace Scope

/-- A whole run. -/
def build : Scope := ⟨1⟩
/-- One unit. -/
def unit : Scope := ⟨2⟩
/-- One stage of a unit. -/
def stage : Scope := ⟨3⟩
/-- One generated function. -/
def function : Scope := ⟨4⟩

def name (s : Scope) : String :=
  match s.number with
  | 1 => "build"
  | 2 => "unit"
  | 3 => "stage"
  | 4 => "function"
  | _ => "unknown"

end Scope

namespace Level

def name : Level → String
  | off => "off"
  | error => "error"
  | phase => "phase"
  | detail => "detail"
  | debug => "debug"
  | unknown => "unknown"

def ofNumber : Nat → Level
  | 0 => off
  | 1 => error
  | 2 => phase
  | 3 => detail
  | 4 => debug
  | _ => unknown

/-- Are events of a scope kept? -/
def admits (l : Level) (s : Scope) : Bool :=
  match l with
  | phase => s.number ≤ Scope.unit.number
  | detail => s.number ≤ Scope.stage.number
  | debug => true
  | off | error | unknown => false

def isEnabled (l : Level) : Bool := l != off

/-- The level with a name, in letters of either case; no name is `off`. -/
def ofName? (s : Bytes) : Option Level :=
  if s.isEmpty then some off
  else [off, error, phase, detail, debug].find? fun l => Utf8.spells s l.name

/-- What is said about a name that no level has. -/
def invalidName (s : Bytes) : Bytes :=
  "invalid trace level: " ++ Quoted.encode s ++ " (expected: off|error|phase|detail|debug)"

end Level

/-- Where events go: written at once, kept in memory, or both. -/
inductive Mode where
  | stream | ring | both | unknown
deriving DecidableEq, Repr, Inhabited

namespace Mode

def name : Mode → String
  | stream => "stream"
  | ring => "ring"
  | both => "both"
  | unknown => "unknown"

def ofNumber : Nat → Mode
  | 1 => stream
  | 2 => ring
  | 3 => both
  | _ => unknown

def ofName? (s : Bytes) : Option Mode :=
  [stream, ring, both].find? fun m => Utf8.spells s m.name

def invalidName (s : Bytes) : Bytes :=
  "invalid storage mode: " ++ Quoted.encode s ++ " (expected: stream|ring|both)"

end Mode

/-- How events are written; `auto` leaves the choice to the name of the output. -/
inductive Format where
  | auto | text | ndjson
deriving DecidableEq, Repr, Inhabited

namespace Format

/-- The format with a number; numbers without a format are written as text. -/
def ofNumber : Nat → Format
  | 0 => auto
  | 2 => ndjson
  | _ => text

def number : Format → Nat
  | auto => 0
  | text => 1
  | ndjson => 2

def ofName? (s : Bytes) : Option Format :=
  if s.isEmpty || Utf8.spells s "auto" then some auto
  else if Utf8.spells s "text" then some text
  else if Utf8.spells s "ndjson" || Utf8.spells s "json" then some ndjson
  else none

def invalidName (s : Bytes) : Bytes :=
  "invalid trace format: " ++ Quoted.encode s ++ " (expected: auto|text|ndjson)"

/-- The format for an output: documents for files whose names say so. -/
def forOutput (f : Format) (path : Bytes) : Format :=
  if f = auto then
    if path.endsWith ".ndjson" || path.endsWith ".jsonl" then ndjson else text
  else f

end Format

inductive EventKind where
  | spanBegin | spanEnd | point | unknown
deriving DecidableEq, Repr, Inhabited

namespace EventKind

def name : EventKind → String
  | spanBegin => "begin"
  | spanEnd => "end"
  | point => "point"
  | unknown => "unknown"

def ofNumber : Nat → EventKind
  | 1 => spanBegin
  | 2 => spanEnd
  | 3 => point
  | _ => unknown

/-- The sign of an event in text. -/
def sign : EventKind → String
  | spanBegin => "→ "
  | spanEnd => "← "
  | point => "• "
  | unknown => ""

end EventKind

structure Event where
  kind : EventKind
  scope : Scope
  name : Bytes
  span : Nat := 0
  parent : Nat := 0
  detail : Bytes := []
  extra : List (Bytes × Bytes) := []
  micros : Int := 0
  seq : Nat := 0
  worker : Nat := 0
deriving DecidableEq, Repr, Inhabited

namespace Event

/-- What is attached to an event, by key. -/
def sortedExtra (e : Event) : List (Bytes × Bytes) :=
  e.extra.mergeSort fun a b => Bytes.le a.1 b.1

/-- The line of text of an event, indented by scope. -/
def line (e : Event) : Bytes :=
  "#" ++ Bytes.padRight 5 (Bytes.decimal e.seq) ++ " g" ++ Bytes.padRight 3 (Bytes.decimal e.worker)
    ++ " " ++ List.replicate (2 * (e.scope.number - Scope.build.number)) (byte ' ')
    ++ Bytes.ofString e.kind.sign ++ e.name
    ++ Bytes.onlyIf (!e.detail.isEmpty) (" (" ++ e.detail ++ ")")
    ++ Bytes.onlyIf (!e.extra.isEmpty)
      (" \x7b" ++ Bytes.join ", " (e.sortedExtra.map fun (k, v) => k ++ "=" ++ v) ++ "\x7d")
    ++ "\n"

def json (e : Event) : Json :=
  .object
    (Json.field "time" (.text (Timestamp.render e.micros))
      ++ Json.field "seq" (.int e.seq)
      ++ Json.field "kind" (.text e.kind.name)
      ++ Json.field "scope" (.text e.scope.name)
      ++ Json.field "span_id" (.int e.span)
      ++ Json.fieldIf (e.parent != 0) "parent_id" (.int e.parent)
      ++ Json.fieldIf (e.worker != 0) "gid" (.int e.worker)
      ++ Json.field "name" (.text e.name)
      ++ Json.fieldIf (!e.detail.isEmpty) "detail" (.text e.detail)
      ++ Json.fieldIf (!e.extra.isEmpty) "extra"
        (.object (e.sortedExtra.map fun (k, v) => (k, .text v))))

/-- The event as it is written; where no format is chosen, as text. -/
def render (e : Event) (format : Format) : Bytes :=
  match format with
  | .ndjson => e.json.compact ++ "\n"
  | .auto | .text => e.line

end Event

end Craftlang.Trace
