import Craftlang.Code.Emission
import Craftlang.Token.Literal
import Craftlang.Tree.Basic

/-!
# Code of expressions

Operands are evaluated from left to right. A variable is used where it is kept; every other value gets
a slot of its own. The left operand of an operator is copied before the right one is evaluated, and so
is an argument if a later one has effects.
-/

namespace Craftlang

namespace Emission

/-- The value of a literal that is a score, with any number of signs before it if it is an integer. -/
def foldConstant (t : Typing) : Expr → Option Int
  | .group _ inner => foldConstant t inner
  | .unary _ .minus operand =>
    match foldConstant t operand with
    | some v => if t.typeOfExpr operand.id = .int then some (-v) else none
    | none => none
  | .constant _ (.bool b) => some (if b then 1 else 0)
  | .constant _ (.int text) =>
    match Literal.integer text with
    | .ok n => if n ≤ largestInt + 1 then some n else none
    | .error _ => none
  | _ => none

/-- The commands that apply an operator to a score; the result takes its place. Booleans are 0 and 1: a
conjunction is a product, and a disjunction is a sum that is positive. -/
def applyOp (target source : Score) : BinaryOp → List Command
  | .add => [.operate target .add source]
  | .sub => [.operate target .sub source]
  | .mul => [.operate target .mul source]
  | .div => [.operate target .div source]
  | .mod => [.operate target .mod source]
  | .and => [.operate target .mul source]
  | .or => [.operate target .add source, .storeTest target (.positive target)]
  | .xor => [.operate target .add source, .storeTest target (.is target 1)]
  | .eq => [.storeTest target (.compare .eq target source)]
  | .notEq => [.storeTest target (.compare .notEq target source)]
  | .less => [.storeTest target (.compare .less target source)]
  | .lessEq => [.storeTest target (.compare .lessEq target source)]
  | .greater => [.storeTest target (.compare .greater target source)]
  | .greaterEq => [.storeTest target (.compare .greaterEq target source)]
  | .concat => []

def constantScore (s : Emission) (value : Int) : Emission × Operand :=
  let (s, t) := s.newScore
  (s.emit (.set t value), ⟨some (.score t), true⟩)

/-- The value of a literal in a slot of its own. -/
def literal (c : EmissionContext) (s : Emission) (node : Node) (value : Constant) :
    Emission × Operand :=
  match value with
  | .string text =>
    let (s, t) := s.newText
    (s.setText t text node.span, ⟨some (.text t), true⟩)
  | _ => s.constantScore ((foldConstant c.typing (.constant node value)).getD 0)

def variableOperand (placed : Emission × Location) : Emission × Operand :=
  (placed.1, ⟨some placed.2, false⟩)

/-- Stores the value of an expression at a place. Literals are stored at once; all else is evaluated by
`emitted` and copied, unless it is there already. -/
def store (c : EmissionContext) (s : Emission) (target : Location) (value : Expr)
    (emitted : Emission → Emission × Operand) : Emission :=
  match target with
  | .score t =>
    match foldConstant c.typing value with
    | some v => s.emit (.set t v)
    | none =>
      let (s, x) := emitted s
      match x.location with
      | some (.score source) => if source = t then s else s.emit (.operate t .copy source)
      | _ => s
  | .text t =>
    match value.unwrap with
    | .constant n (.string text) => s.setText t text n.span
    | _ =>
      let (s, x) := emitted s
      match x.location with
      | some (.text source) => if source = t then s else s.emit (.copyText t source)
      | _ => s

/-- Tells all players a value of a type. -/
def print (s : Emission) (type : Ty) (x : Operand) : Emission :=
  match type with
  | .string =>
    let (s, place) := s.textOf x
    s.emit (.tellText place)
  | .bool =>
    let (s, score) := s.scoreOf x
    s.emitAll [.operate ⟨.machine, .printed⟩ .copy score, .tellBool true, .tellBool false]
  | _ =>
    let (s, score) := s.scoreOf x
    s.emitAll [.operate ⟨.machine, .printed⟩ .copy score, .tellNumber]

/-- Hands arguments over, counted from one. -/
def passArguments (s : Emission) (place : Nat) : List Operand → Emission
  | [] => s
  | x :: xs =>
    let s := match x.location with
      | some (.score score) => s.emit (.operate ⟨.machine, .argument place⟩ .copy score)
      | some (.text source) => s.emit (.copyText (.argument place) source)
      | none => s
    s.passArguments (place + 1) xs

/-- The result of a call, taken out of reach of the next one. -/
def takeResult (s : Emission) (type : Ty) : Emission × Operand :=
  match type with
  | .int | .bool =>
    let (s, t) := s.newScore
    (s.emit (.operate t .copy ⟨.machine, .result⟩), ⟨some (.score t), true⟩)
  | .string =>
    let (s, t) := s.newText
    (s.emit (.copyText t .result), ⟨some (.text t), true⟩)
  | _ => (s, {})

def calleeOf (c : EmissionContext) (target : Expr) : Nat :=
  match target.unwrap with
  | .ident i => (c.resolution.refOf? i.node.id).getD 0
  | _ => 0

def isPrint (c : EmissionContext) (symbol : Nat) : Bool :=
  match c.resolution.table.symbol? symbol with
  | some y => y.flags.builtin && y.name == "print"
  | none => false

/-- Calls a function with arguments that are evaluated; `first` is the type of the first. -/
def call (c : EmissionContext) (s : Emission) (node : Node) (symbol : Nat) (first : Ty)
    (args : List Operand) : Emission × Operand :=
  if isPrint c symbol then
    match args with
    | x :: _ => (s.print first x, {})
    | [] => (s.fail .noArgument, {})
  else match c.typing.functionOf? symbol with
    | none => (s.fail (.notAFunction node.span.start), {})
    | some f =>
      let s := s.passArguments 1 args
      let s := { s with argumentCount := max s.argumentCount args.length }
      let s := s.emit (.call (.declared (ResourceName.normalize f.name)))
      s.takeResult (c.typing.typeOfExpr node.id)

/-- Joins two strings; the result takes the place of the left one. -/
def join (s : Emission) (left right : Operand) : Emission × Operand :=
  let (s, l) := s.textOf left
  let (s, r) := s.textOf right
  (s.emitAll [.copyText .left l, .copyText .right r, .joinTexts, .copyText l .result], left)

/-- Applies an operator to scores; the result takes the place of the left one. -/
def applyScores (s : Emission) (op : BinaryOp) (left right : Operand) : Emission × Operand :=
  let (s, l) := s.scoreOf left
  let (s, r) := s.scoreOf right
  (s.emitAll (applyOp l r op), left)

def negate (s : Emission) (x : Operand) : Emission × Operand :=
  let (s, t) := s.newScore
  let (s, score) := s.scoreOf x
  (s.emitAll [.set t 0, .operate t .sub score], ⟨some (.score t), true⟩)

def invert (s : Emission) (x : Operand) : Emission × Operand :=
  let (s, t) := s.newScore
  let (s, score) := s.scoreOf x
  (s.emit (.storeTest t (.is score 0)), ⟨some (.score t), true⟩)

mutual

def expr (c : EmissionContext) (s : Emission) : Expr → Emission × Operand
  | .error _ => (s, {})
  | .constant n value => literal c s n value
  | .ident i => variableOperand (identPlace c s i)
  | .group _ inner => expr c s inner
  | .unary _ .plus operand => expr c s operand
  | .unary n .minus operand =>
    match foldConstant c.typing (.unary n .minus operand) with
    | some v => s.constantScore v
    | none =>
      let (s, x) := expr c s operand
      s.negate x
  | .unary _ .not operand =>
    let (s, x) := expr c s operand
    s.invert x
  | .binary _ op opSpan left right =>
    if op = .concat then
      let (s, l) := expr c (s.joinAt opSpan) left
      let (s, l) := s.ownText l
      let (s, r) := expr c s right
      s.join l r
    else
      let (s, l) := expr c s left
      let (s, l) := s.ownScore l
      let (s, r) := expr c s right
      s.applyScores op l r
  | .call n target args =>
    let (s, operands) := arguments c s args
    call c s n (calleeOf c target) ((args.head?.map fun e => c.typing.typeOfExpr e.id).getD .invalid)
      operands
  | .assign _ op _ target value =>
    let (s, place) := identPlace c s target
    match op.binary? with
    | none => variableOperand (store c s place value (fun s => expr c s value), place)
    | some binary =>
      let (s, x) := expr c s value
      s.applyScores binary ⟨some place, false⟩ x

/-- Evaluates arguments. A variable is copied if a later argument may change it. -/
def arguments (c : EmissionContext) (s : Emission) : List Expr → Emission × List Operand
  | [] => (s, [])
  | e :: es =>
    let (s, x) := expr c s e
    let (s, x) := if es.any Expr.hasEffects then s.own x else (s, x)
    let (s, xs) := arguments c s es
    (s, x :: xs)

end

end Emission

end Craftlang
