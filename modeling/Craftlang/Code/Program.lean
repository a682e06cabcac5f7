import Craftlang.Code.Expr
import Craftlang.Diagnostic.Basic
import Craftlang.Pack.Datapack
import Craftlang.Typing.Program

/-!
# Code of a program

A unit becomes a data pack with the entry, which runs the statements outside all functions, the declared
functions, and a loader that creates the objectives and runs the entry. The loader is run when the
pack is loaded. Strings are joined by pasting them into a command unescaped, so a unit that joins strings
must not have literals with quotes or backslashes.
-/

/-!
## Code of statements

Branches and loops become pieces of their own that are called if a test holds; a loop is a piece that
calls itself. Where a statement may leave through `break`, `continue` or `return`, the rest of its
block becomes a piece that is called only if no signal is pending.
-/

namespace Craftlang

/-- May a signal be pending after the statement? -/
def Stmt.mayJump (s : Stmt) : Bool := s.mayGive || s.mayLeave || s.mayRepeat

def Block.mayJump (b : Block) : Bool := b.mayGive || b.mayLeave || b.mayRepeat

namespace Emission

def callIf (s : Emission) (cond : Operand) (value : Nat) (piece : FunctionName) : Emission :=
  let (s, score) := s.scoreOf cond
  s.emit (.callIf (.is score value) piece)

/-- Takes a pending signal back, if the body of the loop can raise it. -/
def consume (s : Emission) (signal : Signal) (raised : Bool) : Emission :=
  if raised then s.emit (.setIf (isPending signal) pending Signal.none.number) else s

/-- Calls a piece, only if no signal is pending when one may be. -/
def callUnlessPending (s : Emission) (mayBePending : Bool) (piece : FunctionName) : Emission :=
  s.emit (if mayBePending then .callIf (isPending .none) piece else .call piece)

/-- The commands that hand a value back to the caller. -/
def giveBack (s : Emission) (x : Operand) : Emission :=
  match x.location with
  | some (.score score) => s.emit (.operate ⟨.machine, .result⟩ .copy score)
  | some (.text place) => s.emit (.copyText .result place)
  | none => s

def hasOtherwise : Otherwise → Bool
  | .none => false
  | _ => true

mutual

def stmt (c : EmissionContext) (s : Emission) : Stmt → Emission
  | .error _ => s
  | .var n _ _ value =>
    let (s, place) := variablePlace c s ((c.resolution.declOf? n.id).getD 0)
    match value with
    | some e => store c s place e (fun s => expr c s e)
    | none => s.setDefault place
  | .expr _ e => (expr c s e).1
  | .branch _ cond body otherwise =>
    let (s, x) := expr c s cond
    let (s, x) := if hasOtherwise otherwise then s.ownScore x else (s, x)
    let (s, piece) := s.newPiece
    let s := (s.callIf x 1 piece).inPiece piece fun s => block c s body
    alternative c s x otherwise
  | .loop _ .before cond body =>
    let (s, head) := s.newPiece
    let s := (s.emit (.call head)).inPiece head fun s =>
      let (s, x) := expr c s cond
      let (s, piece) := s.newPiece
      (s.callIf x 1 piece).inPiece piece fun s =>
        ((block c s body).consume .again body.mayRepeat).callUnlessPending body.mayJump head
    s.consume .leave body.mayLeave
  | .loop _ .after cond body =>
    let (s, piece) := s.newPiece
    let s := (s.emit (.call piece)).inPiece piece fun s =>
      let s := (block c s body).consume .again body.mayRepeat
      let check (s : Emission) : Emission :=
        let (s, x) := expr c s cond
        s.callIf x 1 piece
      if body.mayJump then
        let (s, tail) := s.newPiece
        (s.emit (.callIf (isPending .none) tail)).inPiece tail check
      else check s
    s.consume .leave body.mayLeave
  | .leave _ => s.raise .leave
  | .again _ => s.raise .again
  | .give _ value =>
    let s := match value with
      | some e =>
        let (s, x) := expr c s e
        s.giveBack x
      | none => s
    s.raise .give
  | .command _ text => s.emit (.raw text)

def block (c : EmissionContext) (s : Emission) : Block → Emission
  | .mk _ body => stmts c s body

/-- What follows a jump is never reached; what follows a statement that may jump is a piece. -/
def stmts (c : EmissionContext) (s : Emission) : List Stmt → Emission
  | [] => s
  | first :: rest =>
    let s := stmt c s first
    if first.isJump || rest.isEmpty then s
    else if first.mayJump then
      let (s, piece) := s.newPiece
      (s.emit (.callIf (isPending .none) piece)).inPiece piece fun s => stmts c s rest
    else stmts c s rest

/-- What is run when a condition does not hold. -/
def alternative (c : EmissionContext) (s : Emission) (cond : Operand) : Otherwise → Emission
  | .none => s
  | .block body =>
    let (s, piece) := s.newPiece
    (s.callIf cond 0 piece).inPiece piece fun s => block c s body
  | .chain other =>
    let (s, piece) := s.newPiece
    (s.callIf cond 0 piece).inPiece piece fun s => stmt c s other

end

end Emission


namespace Emission

/-- Hands the arguments over to the parameters, counted from one. -/
def takeParams (c : EmissionContext) (s : Emission) (place : Nat) : List Nat → Emission
  | [] => s
  | param :: params =>
    let (s, location) := variablePlace c s param
    let s := match location with
      | .score target => s.emit (.operate target .copy ⟨.machine, .argument place⟩)
      | .text target => s.emit (.copyText target (.argument place))
    takeParams c s (place + 1) params

/-- A function has a frame and an entry for its strings while it runs. -/
def function (c : EmissionContext) (s : Emission) (name : Bytes) (params : List Nat)
    (body : List Stmt) : Emission :=
  let s := { s with owner := name, slots := [], lastSlot := 0, lastPiece := 0, commands := [] }
  let s := s.emitAll [.summonFrame, .numberFrame, .set pending Signal.none.number, .pushTexts]
  let s := stmts c (takeParams c s 1 params) body
  let s := s.emitAll [.removeFrame, .leaveFrame, .popTexts]
  { s with
    functions := s.functions ++ [(.declared name, s.commands)]
    slotCount := max s.slotCount s.lastSlot }

def declaredFunction (c : EmissionContext) (s : Emission) (f : Function) : Emission :=
  match c.typing.functionOfItem? f.node.id with
  | none => s
  | some info => function c s (ResourceName.normalize info.name) info.params f.body.stmts

/-- The commands of the loader: it creates every objective that the code uses and runs the entry. -/
def loader (s : Emission) : List Command :=
  [Command.unlimitedChain, .removeAllFrames]
    ++ [Objective.frameNumber, .innermost, .result, .pending, .printed].map Command.addObjective
    ++ (List.range s.argumentCount).map (fun i => Command.addObjective (.argument (i + 1)))
    ++ (List.range s.slotCount).map (fun i => Command.addObjective (.slot (i + 1)))
    ++ [Command.addObjective .globals, .noFrame, .noTexts, .call (.declared ResourceName.entry)]

end Emission

def Program.topLevel (p : Program) : List Stmt :=
  p.items.filterMap fun
    | .stmt _ s => some s
    | _ => none

/-- The entry and the declared functions of a program. -/
def Program.emit (p : Program) (r : Resolution) (t : Typing) : Emission :=
  let c : EmissionContext := ⟨r, t⟩
  p.functions.foldl (Emission.declaredFunction c)
    (Emission.function c {} ResourceName.entry [] p.topLevel)

/-- Everything that is written to the pack: the program's functions, the function that joins strings if
it is needed, and the loader. -/
def Emission.finished (s : Emission) : List (FunctionName × List Command) :=
  s.functions
    ++ (if s.joinedAt.isSome then [(FunctionName.joiner, [Command.joinedText])] else [])
    ++ [(FunctionName.loader, s.loader)]

/-- The tags of a unit: the loader is run on loading, then come the tags of functions. -/
def Typing.packTags (t : Typing) (ns : Namespace) : List (Bytes × Bytes × Bytes) :=
  (Tag.defaultGroup, Bytes.ofString "load", ns.resource FunctionName.loader.render)
    :: t.functions.flatMap fun f =>
      f.tags.map fun tag => (tag.group, tag.path, ns.resource (ResourceName.normalize f.name))

/-- Writes functions out for a namespace. -/
def packOf (ns : Namespace) (format : Int) (description : Bytes)
    (functions : List (FunctionName × List Command)) (tags : List (Bytes × Bytes × Bytes)) :
    Datapack :=
  let start : Datapack := { statedFormat := format, description }
  let tagged := tags.foldl (fun d (group, path, value) => d.addTag group path value) start
  { tagged with
    functions := functions.map fun (name, commands) =>
      ⟨ns.resource name.render, ns.functionFile name.render tagged.format,
        commands.map (Command.render ns)⟩ }

/-- Why a unit has no data pack. -/
inductive GenerationError where
  | hasErrors
  | unfinished
  | unknownFile (file : Nat)
  | emission (fault : EmissionFault)
  | quotedStrings (count : Nat)
deriving DecidableEq, Repr

namespace GenerationError

def message : GenerationError → Bytes
  | hasErrors => "codegen: diagnostics contain errors"
  | unfinished => "codegen: missing resolver or checker results"
  | unknownFile file => "codegen: unknown file " ++ Bytes.decimal file
  | emission (.notAFunction offset) =>
    "codegen: call target is not a function at offset " ++ Bytes.decimal offset
  | emission .noScore => "codegen: a number is missing"
  | emission .noText => "codegen: a string is missing"
  | emission .noArgument => "codegen: an argument is missing"
  | quotedStrings count =>
    "codegen: " ++ Bytes.decimal count
      ++ " string literal(s) with quotes or backslashes next to '..'"

end GenerationError

/-- Reports a literal that cannot be joined with others. -/
def quotedString (joinedAt literal : Span) : Diagnostic :=
  .error .concatenatedQuote literal
    "string contains '\"' or '\\' and this unit concatenates strings at runtime"
    [⟨joinedAt, "concatenation here"⟩]

/-- What the stages before have found out about the file of a unit. -/
structure Findings where
  program : Option Program := none
  resolution : Option Resolution := none
  typing : Option Typing := none

namespace Findings

/-- Generates the data pack of a unit. With a bag no code is generated if there are errors in it, and
literals that cannot be joined are reported to it. A unit has one file, with the number 1. -/
def generate (known : Findings) (file : Nat) (ns : Namespace) (format : Int) (description : Bytes)
    (bag : Option Bag) : Except GenerationError Datapack × Option Bag :=
  if (bag.map Bag.hasErrors).getD false then (.error .hasErrors, bag)
  else match known.program, known.resolution, known.typing with
    | some p, some r, some t =>
      if file ≠ 1 then (.error (.unknownFile file), bag)
      else
        let s := p.emit r t
        match s.fault, s.joinedAt, s.quoted with
        | some fault, _, _ => (.error (.emission fault), bag)
        | none, some joinedAt, first :: rest =>
          match bag with
          | none => (.error (.quotedStrings (first :: rest).length), none)
          | some bag =>
            (.error .hasErrors, some (bag.addAll ((first :: rest).map (quotedString joinedAt))))
        | none, _, _ => (.ok (packOf ns format description s.finished (t.packTags ns)), bag)
    | _, _, _ => (.error .unfinished, bag)

end Findings

end Craftlang
