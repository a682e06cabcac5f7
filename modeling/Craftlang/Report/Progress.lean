import Craftlang.Build.Options
import Craftlang.Text.Terminal

/-!
# The progress display

What a terminal shows while a build runs: a headline with a spinner, one line for each unit, and a
bar. The bar stays empty until the build is over and is full from then on.
-/

namespace Craftlang

def Stage.activity : Stage → String
  | parse => "parsing"
  | resolve => "resolving"
  | check => "checking"
  | generate => "generating"
  | link => "linking"

/-- What the display says of a unit after an event; a unit at work in no stage changes nothing. -/
def ProgressEvent.label (event : ProgressEvent) : Option String :=
  match event.status with
  | .working => event.stage.map Stage.activity
  | status => some status.name

structure UnitLine where
  unit : Bytes
  label : String := "queued"
deriving DecidableEq, Repr, Inhabited

structure ProgressView where
  title : Bytes
  units : List UnitLine
  /-- What the build as a whole is doing, once that is known. -/
  activity : Option String := none
  width : Nat := 80
  barWidth : Nat := 76
  ticks : Nat := 0
  finished : Bool := false
deriving DecidableEq, Repr, Inhabited

/-- What can happen to the display. -/
inductive ProgressSignal where
  | event (event : ProgressEvent)
  | tick
  | resized (width : Int)
  | finished
deriving DecidableEq, Repr, Inhabited

namespace ProgressView

def start (title : Bytes) (units : List Bytes) : ProgressView :=
  { title, units := units.map fun unit => { unit } }

/-- The line of a unit relabelled; of several lines for one unit, the last. -/
def relabel (unit : Bytes) (label : String) (lines : List UnitLine) : List UnitLine :=
  match lines with
  | [] => []
  | line :: rest =>
    if line.unit = unit && !rest.any (·.unit = unit) then { line with label } :: rest
    else line :: relabel unit label rest

def record (view : ProgressView) (event : ProgressEvent) : ProgressView :=
  match event.label with
  | none => view
  | some label =>
    if event.unit.isEmpty then { view with activity := some label }
    else { view with units := relabel event.unit label view.units }

def receive (view : ProgressView) : ProgressSignal → ProgressView
  | .event event => view.record event
  | .tick => if view.finished then view else { view with ticks := view.ticks + 1 }
  | .resized width =>
    if width ≤ 0 then view
    else { view with width := width.toNat, barWidth := max (width.toNat - 4) 10 }
  | .finished => { view with finished := true }

def spinnerFrames : List String := ["⣾ ", "⣽ ", "⣻ ", "⢿ ", "⡿ ", "⣟ ", "⣯ ", "⣷ "]

def spinner (ticks : Nat) : String := spinnerFrames.getD (ticks % spinnerFrames.length) ""

/-- Lines padded on the right to the widest of them. -/
def block (lines : List Bytes) : List Bytes :=
  let widest := (lines.map Bytes.displayWidth).foldl max 0
  lines.map fun line => line ++ List.replicate (widest - line.displayWidth) (byte ' ')

/-- A headline as a terminal can show it: a tab is four spaces, and of several lines all are equally
wide. -/
def shown (headline : Bytes) : Bytes :=
  let spaced := Bytes.replaceByte (byte '\t') "    " headline
  Bytes.join [lineFeed] (block (Bytes.splitOn lineFeed spaced))

def headline (view : ProgressView) : Bytes :=
  let title := match view.activity with
    | none => view.title
    | some activity => view.title ++ Bytes.ofString s!" ({activity})"
  if view.finished then Bytes.ofString "done: " ++ title
  else Bytes.ofString (spinner view.ticks) ++ Bytes.ofString " " ++ title

/-- The room for a unit's name beside its label. -/
def nameWidth (view : ProgressView) : Nat := max (view.width - 16) 20

def unitLine (view : ProgressView) (line : UnitLine) : Bytes :=
  Bytes.ofString "  " ++ Bytes.padLeft 12 line.label ++ Bytes.ofString " "
    ++ line.unit.truncateToWidth view.nameWidth "..." ++ [lineFeed]

def bar (view : ProgressView) : Bytes :=
  let cell := if view.finished then "█" else "░"
  let share := if view.finished then " 100%" else "   0%"
  (List.replicate (view.barWidth - 5) (Bytes.ofString cell)).flatten ++ Bytes.ofString share

def render (view : ProgressView) : Bytes :=
  if view.units.isEmpty then []
  else
    shown view.headline ++ [lineFeed, lineFeed] ++ view.units.flatMap view.unitLine
      ++ [lineFeed] ++ view.bar ++ [lineFeed]

end ProgressView

end Craftlang
