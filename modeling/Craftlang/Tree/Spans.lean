import Craftlang.Source.File
import Craftlang.Tree.Basic

/-!
# Spans in trees

The spans of a program fit its source: the program spans the file, its header and its items lie in
it one after the other, and the names in a function's head lie in the function. `spanFault?` finds
the first place where that fails.
-/

namespace Craftlang

/-- How spans can fail to fit. -/
inductive SpanFault where
  | emptyFile (span : Span)
  | otherFile (found wanted : Nat)
  | beyondContent (stop size : Nat)
  | headerOutside (span file : Span)
  | emptyItem (span : Span)
  | itemInOtherFile (found wanted : Nat)
  | itemOutside (span file : Span)
  | itemOverlap (span : Span) (previous : Nat)
  | nameOutside (span item : Span)
  | paramOutside (span item : Span)
deriving DecidableEq, Repr

namespace SpanFault

def message : SpanFault → Bytes
  | emptyFile span => "file span is empty: " ++ span.render
  | otherFile found wanted =>
    "file span points to different file id: got=" ++ Bytes.decimal found
      ++ " want=" ++ Bytes.decimal wanted
  | beyondContent stop size =>
    "file span end beyond content: " ++ Bytes.decimal stop ++ " > " ++ Bytes.decimal size
  | headerOutside span file =>
    "namespace span " ++ span.render ++ " is outside file span " ++ file.render
  | emptyItem span => "empty item span: " ++ span.render
  | itemInOtherFile found wanted =>
    "item span file mismatch: got=" ++ Bytes.decimal found ++ " want=" ++ Bytes.decimal wanted
  | itemOutside span file =>
    "item span " ++ span.render ++ " is outside file span " ++ file.render
  | itemOverlap span previous =>
    "item span " ++ span.render ++ " overlaps the previous item ending at "
      ++ Bytes.decimal previous
  | nameOutside span item =>
    "function name span " ++ span.render ++ " is outside " ++ item.render
  | paramOutside span item =>
    "parameter span " ++ span.render ++ " is outside " ++ item.render

end SpanFault

namespace Item

/-- What is wrong with the names in the head of a function. -/
def headFault? : Item → Option SpanFault
  | function f =>
    if !f.node.span.contains f.name.span then some (.nameOutside f.name.span f.node.span)
    else (f.params.find? fun p => !f.node.span.contains p.name.span).map fun p =>
      .paramOutside p.name.span f.node.span
  | _ => none

/-- What is wrong with the span of an item that comes after `previous`. -/
def spanFault? (file : Nat) (whole : Span) (previous : Nat) (item : Item) : Option SpanFault :=
  let span := item.span
  if span.stop ≤ span.start then some (.emptyItem span)
  else if span.file ≠ file then some (.itemInOtherFile span.file file)
  else if !whole.contains span then some (.itemOutside span whole)
  else if span.start < previous then some (.itemOverlap span previous)
  else item.headFault?

end Item

/-- The first fault among items that come after `previous`. -/
def firstItemFault? (file : Nat) (whole : Span) (previous : Nat) : List Item → Option SpanFault
  | [] => none
  | item :: items =>
    match item.spanFault? file whole previous with
    | some fault => some fault
    | none => firstItemFault? file whole item.span.stop items

/-- The first fault in the spans of a program read from a file. -/
def Program.spanFault? (p : Program) (file : File) : Option SpanFault :=
  if p.span.stop ≤ p.span.start then some (.emptyFile p.span)
  else if p.span.file ≠ file.id then some (.otherFile p.span.file file.id)
  else if file.size < p.span.stop then some (.beyondContent p.span.stop file.size)
  else match p.header with
    | none => firstItemFault? file.id p.span p.span.start p.items
    | some name =>
      if !p.span.contains name.span then some (.headerOutside name.span p.span)
      else firstItemFault? file.id p.span name.span.stop p.items

end Craftlang
