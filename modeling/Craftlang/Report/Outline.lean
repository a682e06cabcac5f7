import Craftlang.Source.File
import Craftlang.Text.Json
import Craftlang.Text.Quoted
import Craftlang.Token.Basic
import Craftlang.Tree.Basic

/-!
# Lists of tokens

Tokens as text, one to a line, or as a JSON document. Layout tokens are shown without their text.
-/

namespace Craftlang.Report

/-- A span as a JSON object. -/
def spanJson (s : Span) : Json :=
  .object [("File", .int s.file), ("Start", .int s.start), ("End", .int s.stop)]

/-- Two positions with a dash between them. -/
def positionRange (range : LineCol × LineCol) : Bytes :=
  let position (p : LineCol) : Bytes := Bytes.decimal p.line ++ ":" ++ Bytes.decimal p.col
  position range.1 ++ "-" ++ position range.2

/-- The positions of a span; zeros when its file is unknown. -/
def rangeOf (files : FileSet) (span : Span) : LineCol × LineCol :=
  (files.resolve? span).getD (⟨0, 0⟩, ⟨0, 0⟩)

/-- The tokens up to the end of the file. -/
def upToEnd : List Token → List Token
  | [] => []
  | t :: rest => if t.kind = .eof then [t] else t :: upToEnd rest

/-- The text of a token as it is shown. -/
def shownText (t : Token) : Bytes := if t.kind.isLayout then [] else t.text

/-- One token on a line. -/
def tokenLine (files : FileSet) (t : Token) (number : Nat) : Bytes :=
  let leading : List Bytes := t.leading.map fun trivia => trivia.kind.name
  Bytes.padLeft 4 (Bytes.decimal number) ++ ": " ++ Bytes.padRight 12 t.kind.name
    ++ Bytes.onlyIf (!(shownText t).isEmpty) (" " ++ Quoted.encode t.text)
    ++ " at " ++ positionRange (rangeOf files t.span)
    ++ Bytes.onlyIf (!leading.isEmpty) (" (leading: " ++ Bytes.join ", " leading ++ ")")
    ++ "\n"

def tokenLines (files : FileSet) (tokens : List Token) : Bytes :=
  ((upToEnd tokens).zipIdx 1).flatMap fun (t, number) => tokenLine files t number

def tokenJson (t : Token) : Json :=
  .object (Json.field "kind" (.text t.kind.name)
    ++ Json.fieldIf (!(shownText t).isEmpty) "text" (.text (shownText t))
    ++ Json.field "span" (spanJson t.span)
    ++ Json.fieldIf (!t.leading.isEmpty) "leading"
      (.list (t.leading.map fun trivia => .text trivia.kind.name)))

def tokensJson (tokens : List Token) : Bytes :=
  (Json.list ((upToEnd tokens).map tokenJson)).pretty ++ "\n"

end Craftlang.Report

/-!
## Outlines of programs

A program as a tree of labelled nodes, drawn with branches or written as nested JSON objects.
-/

namespace Craftlang.Report

/-- A node of an outline; one that was made up for the outline has the empty span. -/
inductive Outline where
  | node (kind : Bytes) (text : Bytes) (span : Span) (children : List Outline)

namespace Outline

/-- A node that stands for no text of its own. -/
def grouping (kind : Bytes) (children : List Outline) : Outline := .node kind [] ⟨0, 0, 0⟩ children

/-- A name as a node. -/
def ofName (kind : Bytes) (name : Name) : Outline := .node kind name.text name.span []

def ofConstant : Constant → Bytes
  | .int text => text
  | .bool true => "true"
  | .bool false => "false"
  | .string value => Quoted.encode value

mutual

def ofExpr : Expr → Outline
  | .error n => .node "Error" [] n.span []
  | .constant n value => .node "Literal" (ofConstant value) n.span []
  | .ident i => .node "Ident" i.name i.node.span []
  | .binary n op _ left right => .node "Binary" op.spelling n.span [ofExpr left, ofExpr right]
  | .unary n op operand => .node "Unary" op.spelling n.span [ofExpr operand]
  | .call n target args => .node "Call" [] n.span (ofExpr target :: ofArgs args)
  | .group n inner => .node "Group" [] n.span [ofExpr inner]
  | .assign n op _ target value =>
    .node "Assign" op.spelling n.span
      [.node "Ident" target.name target.node.span [], ofExpr value]

def ofArgs : List Expr → List Outline
  | [] => []
  | arg :: args => grouping "Arg" [ofExpr arg] :: ofArgs args

end

def ofType (kind : Bytes) (type : Option Name) : List Outline := (type.map (ofName kind)).toList

def ofValue (value : Option Expr) : List Outline := (value.map ofExpr).toList

mutual

def ofStmt : Stmt → Outline
  | .error n => .node "Error" [] n.span []
  | .var n name type value =>
    .node "Var" name.text n.span (ofType "Type" type ++ ofValue value)
  | .expr n e => .node "Expr" [] n.span [ofExpr e]
  | .branch n cond body otherwise =>
    .node "If" [] n.span (ofExpr cond :: ofBlock body :: ofOtherwise otherwise)
  | .loop n kind cond body =>
    .node (match kind with | .before => "While" | .after => "DoWhile") [] n.span
      [ofExpr cond, ofBlock body]
  | .leave n => .node "Break" [] n.span []
  | .again n => .node "Continue" [] n.span []
  | .give n value => .node "Return" [] n.span (ofValue value)
  | .command n text => .node "Command" ("/" ++ text) n.span []

def ofBlock : Block → Outline
  | .mk n stmts => .node "Block" [] n.span (ofStmts stmts)

def ofStmts : List Stmt → List Outline
  | [] => []
  | stmt :: stmts => ofStmt stmt :: ofStmts stmts

def ofOtherwise : Otherwise → List Outline
  | .none => []
  | .block body => [grouping "Else" [ofBlock body]]
  | .chain stmt => [grouping "Else" [ofStmt stmt]]

end

def ofDottedName (kind : Bytes) (name : DottedName) : Outline :=
  .node kind name.render name.span []

def ofItem : Item → Outline
  | .error n => .node "Error" [] n.span []
  | .function f =>
    .node "Fn" f.name.text f.node.span
      (f.tags.map (ofDottedName "Tag")
        ++ f.params.map (fun p =>
          .node "Param" p.name.text p.name.span [ofName "Type" p.type])
        ++ ofType "Returns" f.result ++ [ofBlock f.body])
  | .typeAlias a => .node "TypeAlias" a.name.text a.node.span [ofName "Target" a.target]
  | .stmt _ s => ofStmt s

def ofProgram (p : Program) : Outline :=
  .node "File" [] p.span
    ((p.header.map (ofDottedName "Namespace")).toList ++ p.items.map ofItem)

/-- The label of a node: its kind, its text, and its place when files are given. -/
def label (files : Option FileSet) : Outline → Bytes
  | .node kind text span _ =>
    kind ++ Bytes.onlyIf (!text.isEmpty) (" " ++ text)
      ++ match files with
        | some fs => Bytes.onlyIf (!span.isEmpty) (" @" ++ positionRange (rangeOf fs span))
        | none => []

mutual

/-- The lines below a node; `margin` holds the branches of the nodes above it. -/
def drawBelow (files : Option FileSet) (margin : Bytes) : Outline → Bytes
  | .node _ _ _ children => drawChildren files margin children

def drawChildren (files : Option FileSet) (margin : Bytes) : List Outline → Bytes
  | [] => []
  | [child] =>
    margin ++ "└─ " ++ label files child ++ "\n" ++ drawBelow files (margin ++ "   ") child
  | child :: next :: rest =>
    margin ++ "├─ " ++ label files child ++ "\n" ++ drawBelow files (margin ++ "│  ") child
      ++ drawChildren files margin (next :: rest)

end

/-- The outline as a drawing; with files the first line names the file. -/
def draw (files : Option FileSet) (outline : Outline) : Bytes :=
  let .node _ _ span _ := outline
  (match files.bind fun fs => fs.get? span.file with
    | some file => "File " ++ file.path
    | none => label files outline)
  ++ "\n" ++ drawBelow files [] outline

mutual

def json : Outline → Json
  | .node kind text span children =>
    .object (Json.field "kind" (.text kind)
      ++ Json.fieldIf (!text.isEmpty) "text" (.text text)
      ++ Json.field "span" (spanJson span)
      ++ Json.fieldIf (!children.isEmpty) "children" (.list (jsonList children)))

def jsonList : List Outline → List Json
  | [] => []
  | o :: os => json o :: jsonList os

end

end Outline

/-- The drawing of a program. -/
def programLines (files : Option FileSet) (p : Program) : Bytes := (Outline.ofProgram p).draw files

/-- A program as a JSON document. -/
def programJson (p : Program) : Bytes := (Outline.ofProgram p).json.pretty ++ "\n"

end Craftlang.Report
