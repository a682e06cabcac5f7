import Craftlang.Diagnostic.Basic
import Craftlang.Source.File
import Craftlang.Text.Json
import Craftlang.Text.Utf8
import Craftlang.Text.Terminal

/-!
# Showing diagnostics

Diagnostics can be shown with the lines they are about, on one line each, or as a JSON document; always
in the order in which they came.
-/

namespace Craftlang.Report

/-- How diagnostics are shown together with their lines. -/
structure SnippetStyle where
  color : Bool := false
  /-- How many lines are shown above the one that matters. -/
  context : Int := 0
  paths : PathStyle := .asGiven
  notes : Bool := false

/-- The path of a file as it is shown. -/
def pathOf (files : FileSet) (style : PathStyle) (file : Nat) : Bytes :=
  match files.get? file with
  | none => "<unknown>"
  | some f => f.showPath style files.baseDir

/-- The color of a severity. -/
def severityPaint (s : Severity) : Paint :=
  if s = .error then Paint.red.bold
  else if s = .warning then Paint.yellow.bold
  else Paint.cyan.bold

/-- Every tab becomes four spaces. -/
def expandTabs (s : Bytes) : Bytes := Bytes.replaceByte (byte '\t') "    " s

/-- The gutter in front of a line. -/
def gutter (color : Bool) (label : Bytes) : Bytes :=
  " " ++ Paint.blue.apply color (label ++ " |") ++ " "

/-- The mark below the part of a line from one column up to another: the width of that part as it is
shown, and at least one. -/
def underline (color : Bool) (line : Bytes) (start stop : Nat) : Bytes :=
  let pad := Bytes.displayWidth (expandTabs (line.take start))
  let width :=
    if start < stop then max (Bytes.displayWidth (expandTabs ((line.take stop).drop start))) 1 else 1
  List.replicate pad (byte ' ')
    ++ Paint.red.bold.apply color (byte '^' :: List.replicate (width - 1) (byte '~'))

/-- The first line of a span, with lines above it, and a mark below. A span over several lines is
marked to the end of the first. -/
def snippet (files : FileSet) (span : Span) (context : Int) (color : Bool) : Bytes :=
  match files.get? span.file, files.resolve? span with
  | some f, some (start, stop) =>
    let width := (Bytes.decimal start.line).length
    let first := (max ((start.line : Int) - context) 1).toNat
    let shown := (List.range (start.line + 1 - first)).map (first + ·)
    let line := f.line start.line
    let left := min (start.col - 1) line.length
    let right := if stop.line = start.line then min (stop.col - 1) line.length else line.length
    shown.flatMap (fun n =>
        gutter color (Bytes.padLeft width (Bytes.decimal n)) ++ expandTabs (f.line n) ++ [lineFeed])
      ++ gutter color (List.replicate width (byte ' ')) ++ underline color line left right
      ++ [lineFeed]
  | _, _ => []

/-- A place as it is shown before a message. -/
def placeOf (files : FileSet) (style : PathStyle) (span : Span) : Bytes :=
  let p := files.lineCol span
  pathOf files style span.file ++ ":" ++ Bytes.decimal p.line ++ ":" ++ Bytes.decimal p.col

/-- A note below a diagnostic. -/
def noteSnippet (files : FileSet) (style : SnippetStyle) (n : Note) : Bytes :=
  "  " ++ placeOf files style.paths n.span ++ ": " ++ Paint.cyan.apply style.color "note:" ++ " "
    ++ n.message ++ "\n" ++ snippet files n.span 0 style.color

/-- A diagnostic with the line it is about. -/
def diagnosticSnippet (files : FileSet) (style : SnippetStyle) (d : Diagnostic) : Bytes :=
  placeOf files style.paths d.span ++ ": "
    ++ (severityPaint d.severity).apply style.color (Bytes.toLower d.severity.name) ++ " "
    ++ Paint.magenta.apply style.color d.code.id ++ " [" ++ d.code.category.label ++ "]: "
    ++ Paint.plainBold.apply style.color d.message ++ "\n"
    ++ snippet files d.span style.context style.color
    ++ Bytes.onlyIf style.notes (d.notes.flatMap (noteSnippet files style))

/-- All diagnostics with the lines they are about; nothing without files. -/
def snippets (files : Option FileSet) (style : SnippetStyle) (ds : List Diagnostic) : Bytes :=
  match files with
  | none => []
  | some files => ds.flatMap (diagnosticSnippet files style)

/-- A message on a single line. -/
def oneLine (s : Bytes) : Bytes :=
  Utf8.trim (Bytes.replaceByte lineFeed " " (normalizeLineEnds s))

/-- A path without the `./` it may start with. -/
def dropCurrent : Bytes → Bytes
  | 0x2E :: 0x2F :: rest => dropCurrent rest
  | p => p

/-- The word for a severity on a line. -/
def severityWord (s : Severity) : Bytes :=
  if s = .error then "error" else if s = .warning then "warning" else "info"

def shortLine (files : FileSet) (label : Bytes) (code : Code) (span : Span) (message : Bytes) :
    Bytes :=
  label ++ " " ++ code.id ++ " " ++ dropCurrent (placeOf files .relative span) ++ " "
    ++ oneLine message

/-- A line for every diagnostic and, if they are asked for, for every note. -/
def shortLines (files : FileSet) (notes : Bool) (ds : List Diagnostic) : List Bytes :=
  ds.flatMap fun d =>
    shortLine files (severityWord d.severity) d.code d.span d.message
      :: (if notes then d.notes.map fun n => shortLine files "note" d.code n.span n.message else [])

/-- All diagnostics, one to a line; an empty line stands for those whose files are missing. -/
def short (files : Option FileSet) (notes : Bool) (ds : List Diagnostic) : Bytes :=
  match files, ds with
  | _, [] => []
  | none, _ => [lineFeed]
  | some files, ds => (shortLines files notes ds).flatMap (· ++ [lineFeed])

/-- How diagnostics are written as a document. -/
structure DocumentStyle where
  positions : Bool := false
  paths : PathStyle := .asGiven
  /-- The number of diagnostics that are written, if it is positive. -/
  limit : Int := 0
  notes : Bool := false

def locationJson (files : FileSet) (style : DocumentStyle) (span : Span) : Json :=
  let (start, stop) := (files.resolve? span).getD (⟨0, 0⟩, ⟨0, 0⟩)
  let place (key : Bytes) (n : Nat) : List (Bytes × Json) :=
    Json.fieldIf (style.positions && n != 0) key (.int n)
  .object (Json.field "file" (.text (pathOf files style.paths span.file))
    ++ Json.field "start_byte" (.int span.start) ++ Json.field "end_byte" (.int span.stop)
    ++ place "start_line" start.line ++ place "start_col" start.col
    ++ place "end_line" stop.line ++ place "end_col" stop.col)

def diagnosticJson (files : FileSet) (style : DocumentStyle) (d : Diagnostic) : Json :=
  .object (Json.field "severity" (.text (Bytes.toLower d.severity.name))
    ++ Json.field "code" (.text d.code.id)
    ++ Json.field "category" (.text d.code.category.label)
    ++ Json.field "message" (.text d.message)
    ++ Json.field "location" (locationJson files style d.span)
    ++ Json.fieldIf (style.notes && !d.notes.isEmpty) "notes"
      (.list (d.notes.map fun n =>
        .object (Json.field "message" (.text n.message)
          ++ Json.field "location" (locationJson files style n.span)))))

/-- The diagnostics of one file set that a document shows: as many as the limit allows. -/
def shownDiagnostics (files : FileSet) (style : DocumentStyle) (ds : List Diagnostic) : List Json :=
  (if 0 < style.limit then ds.take style.limit.toNat else ds).map (diagnosticJson files style)

/-- One document for several units, each with its files and its diagnostics. The limit is for each unit;
the count is that of all diagnostics, also of those beyond the limit. -/
def documentOf (style : DocumentStyle) (units : List (FileSet × List Diagnostic)) : Json :=
  .object
    (Json.field "diagnostics"
        (.list (units.flatMap fun (files, ds) => shownDiagnostics files style ds))
      ++ Json.field "count" (.int (units.foldl (fun n (_, ds) => n + ds.length) 0)))

/-- The diagnostics as a document; none without files. -/
def document (files : Option FileSet) (style : DocumentStyle) (ds : List Diagnostic) : Json :=
  documentOf style ((files.map fun files => (files, ds)).toList)

end Craftlang.Report
