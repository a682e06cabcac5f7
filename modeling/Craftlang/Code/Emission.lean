import Craftlang.Code.Command
import Craftlang.Typing.Basic

/-!
# Code under construction

`Emission` is the code of a unit so far. While a function is emitted its commands are collected, its
variables get slots of the frame, and the pieces that control flow cuts off are numbered; a piece is
finished before the function it belongs to. Each global variable has a place of its own.
-/

namespace Craftlang

/-- A pending way out: none, out of the loop, to its next round, out of the function. -/
inductive Signal where
  | none | leave | again | give
deriving DecidableEq, Repr, Inhabited

/-- The score that stands for a signal. -/
def Signal.number : Signal → Nat
  | none => 0
  | leave => 1
  | again => 2
  | give => 3

/-- Where a value is kept. -/
inductive Location where
  | score (s : Score)
  | text (p : TextPlace)
deriving DecidableEq, Repr, Inhabited

/-- The value of an expression: where it is kept, if there is one, and whether it belongs to the
expression alone. The value of a variable does not: it may change before it is used. -/
structure Operand where
  location : Option Location := none
  isOwn : Bool := false
deriving DecidableEq, Repr, Inhabited

/-- Why no code can be emitted: a call of something that is no function, or a value that is missing where
one is needed. Types rule this out for programs without errors. -/
inductive EmissionFault where
  | notAFunction (offset : Nat)
  | noScore
  | noText
  | noArgument
deriving DecidableEq, Repr

structure Emission where
  functions : List (FunctionName × List Command) := []
  /-- The places of global variables by symbol. -/
  globals : List (Nat × Location) := []
  /-- The largest number of slots that a function needs. -/
  slotCount : Nat := 0
  /-- The largest number of arguments of a call. -/
  argumentCount : Nat := 0
  /-- Where strings are joined first. -/
  joinedAt : Option Span := none
  /-- The string literals that hold quotes or backslashes. -/
  quoted : List Span := []
  fault : Option EmissionFault := none
  owner : Bytes := []
  /-- Its variables by symbol, with their slots. -/
  slots : List (Nat × Nat) := []
  lastSlot : Nat := 0
  lastPiece : Nat := 0
  /-- The commands of the function or piece that is emitted. -/
  commands : List Command := []

namespace Emission

def emit (s : Emission) (c : Command) : Emission := { s with commands := s.commands ++ [c] }

def emitAll (s : Emission) (cs : List Command) : Emission :=
  { s with commands := s.commands ++ cs }

/-- Notes what went wrong; the first fault stays. -/
def fail (s : Emission) (f : EmissionFault) : Emission :=
  { s with fault := s.fault.or (some f) }

/-- The score of an operand that has to have one. -/
def scoreOf (s : Emission) (x : Operand) : Emission × Score :=
  match x.location with
  | some (.score score) => (s, score)
  | _ => (s.fail .noScore, ⟨.machine, .result⟩)

/-- The string of an operand that has to have one. -/
def textOf (s : Emission) (x : Operand) : Emission × TextPlace :=
  match x.location with
  | some (.text place) => (s, place)
  | _ => (s.fail .noText, .result)

def newPiece (s : Emission) : Emission × FunctionName :=
  ({ s with lastPiece := s.lastPiece + 1 }, .piece s.owner (s.lastPiece + 1))

/-- Emits a piece of the function and finishes it. -/
def inPiece (s : Emission) (name : FunctionName) (body : Emission → Emission) : Emission :=
  let inner := body { s with commands := [] }
  { inner with
    functions := inner.functions ++ [(name, inner.commands)]
    commands := s.commands }

def newSlot (s : Emission) : Emission × Nat :=
  ({ s with lastSlot := s.lastSlot + 1 }, s.lastSlot + 1)

def newScore (s : Emission) : Emission × Score :=
  let (s, n) := s.newSlot
  (s, ⟨.frame, .slot n⟩)

def newText (s : Emission) : Emission × TextPlace :=
  let (s, n) := s.newSlot
  (s, .slot n)

/-- The slot of a local variable, which is chosen when it is first used. -/
def slotOf (s : Emission) (symbol : Nat) : Emission × Nat :=
  match s.slots.lookup symbol with
  | some n => (s, n)
  | none =>
    let (s, n) := s.newSlot
    ({ s with slots := s.slots ++ [(symbol, n)] }, n)

/-- The place of a global variable, which is chosen when it is first used. -/
def globalOf (s : Emission) (symbol : Nat) (name : Bytes) (isScore : Bool) : Emission × Location :=
  match s.globals.lookup symbol with
  | some location => (s, location)
  | none =>
    let number := s.globals.length + 1
    let location : Location :=
      if isScore then .score ⟨.global (ResourceName.normalize name) number, .globals⟩
      else .text (.global number)
    ({ s with globals := s.globals ++ [(symbol, location)] }, location)

/-- Copies a score to one of the expression's own. -/
def copyScore (s : Emission) (x : Operand) : Emission × Operand :=
  let (s, t) := s.newScore
  let (s, source) := s.scoreOf x
  (s.emit (.operate t .copy source), ⟨some (.score t), true⟩)

def copyText (s : Emission) (x : Operand) : Emission × Operand :=
  let (s, t) := s.newText
  let (s, source) := s.textOf x
  (s.emit (.copyText t source), ⟨some (.text t), true⟩)

/-- The score itself if it belongs to the expression, a copy otherwise. -/
def ownScore (s : Emission) (x : Operand) : Emission × Operand :=
  if x.isOwn then (s, x) else s.copyScore x

def ownText (s : Emission) (x : Operand) : Emission × Operand :=
  if x.isOwn then (s, x) else s.copyText x

/-- The value itself if it belongs to the expression, a copy otherwise. -/
def own (s : Emission) (x : Operand) : Emission × Operand :=
  match x.location with
  | some (.score _) => s.ownScore x
  | some (.text _) => s.ownText x
  | none => (s, x)

/-- Remembers where strings are joined first. -/
def joinAt (s : Emission) (span : Span) : Emission := { s with joinedAt := s.joinedAt.or (some span) }

/-- Sets a string to a literal and remembers the literal if it holds quotes or backslashes. -/
def setText (s : Emission) (target : TextPlace) (value : Bytes) (span : Span) : Emission :=
  let s := s.emit (.setText target value)
  if value.any fun b => b == byte '"' || b == byte '\\' then { s with quoted := s.quoted ++ [span] }
  else s

def setDefault (s : Emission) : Location → Emission
  | .score target => s.emit (.set target 0)
  | .text target => s.emit (.setText target [])

/-- The score in which a frame keeps its pending signal. -/
def pending : Score := ⟨.frame, .pending⟩

def raise (s : Emission) (signal : Signal) : Emission := s.emit (.set pending signal.number)

def isPending (signal : Signal) : Test := .is pending signal.number

end Emission

/-- What code is emitted from: the meaning of names and the types of a program. -/
structure EmissionContext where
  resolution : Resolution
  typing : Typing

namespace Emission

/-- The place of a variable or parameter. -/
def variablePlace (c : EmissionContext) (s : Emission) (symbol : Nat) : Emission × Location :=
  let isScore := (c.typing.typeOfSymbol symbol).isScore
  let isGlobal := ((c.resolution.table.symbol? symbol).map (·.flags.isGlobal)).getD false
  if isGlobal then s.globalOf symbol (c.resolution.table.nameOf symbol) isScore
  else
    let (s, n) := s.slotOf symbol
    (s, if isScore then .score ⟨.frame, .slot n⟩ else .text (.slot n))

def identPlace (c : EmissionContext) (s : Emission) (i : Ident) : Emission × Location :=
  variablePlace c s ((c.resolution.refOf? i.node.id).getD 0)

end Emission

end Craftlang
