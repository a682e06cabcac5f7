import Craftlang.Tree.Basic
import Craftlang.Token.Literal
import Craftlang.Types.Table
import Craftlang.Code.Program

/-!
# What a program means

A program is evaluated from left to right, with every operand and every argument evaluated before it is
used. A compound assignment evaluates its value before it reads its target. `fuel` bounds how deep
evaluation may nest, so a run that ends is one that ends for some bound. Where evaluation has no result
it says why: a run that ends reads no variable before it holds a value, and no function that returns a
value ends without one.
-/

/-!
## Values

What a running program computes with: integers of 32 bits, booleans and strings. Arithmetic wraps
around; a quotient is rounded down, and dividing by zero leaves the dividend. What a run shows to the
outside is a list of actions: printed values and commands that the program spells out.
-/

namespace Craftlang

namespace Word

/-- The integer of 32 bits that a number is reduced to. -/
def wrap (n : Int) : Int := n.bmod 4294967296

def add (a b : Int) : Int := wrap (a + b)
def sub (a b : Int) : Int := wrap (a - b)
def mul (a b : Int) : Int := wrap (a * b)
def div (a b : Int) : Int := if b = 0 then a else wrap (a.fdiv b)
def mod (a b : Int) : Int := if b = 0 then a else wrap (a.fmod b)

end Word

inductive Value where
  | int (n : Int)
  | bool (b : Bool)
  | string (s : Bytes)
deriving DecidableEq, Repr

namespace Value

def type : Value → Ty
  | int _ => .int
  | bool _ => .bool
  | string _ => .string

/-- What a variable of a type holds when it is declared without a value. -/
def default? : Ty → Option Value
  | .int => some (int 0)
  | .bool => some (bool false)
  | .string => some (string [])
  | _ => none

end Value

/-- A text without its carriage returns. -/
def Bytes.withoutReturns (s : Bytes) : Bytes := s.filter (· != byte '\r')

/-- The value of a literal. Strings lose their carriage returns. -/
def Constant.value? : Constant → Option Value
  | int text => (Literal.integer text).toOption.map fun n => .int (Word.wrap n)
  | bool b => some (.bool b)
  | string s => some (.string s.withoutReturns)

def UnaryOp.eval? : UnaryOp → Value → Option Value
  | .plus, .int n => some (.int n)
  | .minus, .int n => some (.int (Word.sub 0 n))
  | .not, .bool b => some (.bool (!b))
  | _, _ => none

def BinaryOp.eval? : BinaryOp → Value → Value → Option Value
  | .add, .int a, .int b => some (.int (Word.add a b))
  | .sub, .int a, .int b => some (.int (Word.sub a b))
  | .mul, .int a, .int b => some (.int (Word.mul a b))
  | .div, .int a, .int b => some (.int (Word.div a b))
  | .mod, .int a, .int b => some (.int (Word.mod a b))
  | .less, .int a, .int b => some (.bool (a < b))
  | .lessEq, .int a, .int b => some (.bool (a ≤ b))
  | .greater, .int a, .int b => some (.bool (b < a))
  | .greaterEq, .int a, .int b => some (.bool (b ≤ a))
  | .eq, .int a, .int b => some (.bool (a == b))
  | .notEq, .int a, .int b => some (.bool (a != b))
  | .eq, .bool a, .bool b => some (.bool (a == b))
  | .notEq, .bool a, .bool b => some (.bool (a != b))
  | .and, .bool a, .bool b => some (.bool (a && b))
  | .or, .bool a, .bool b => some (.bool (a || b))
  | .xor, .bool a, .bool b => some (.bool (a ^^ b))
  | .concat, .string a, .string b => some (.string (a ++ b))
  | _, _, _ => none

/-- What a run shows to the outside. -/
inductive Action where
  | shown (v : Value)
  | command (text : Bytes)
deriving DecidableEq, Repr

/-! ## Evaluation -/

/-- Why evaluation has no result: the fuel is used up, a variable is read that holds no value yet, a
function that returns a value ends without one, or the program makes no sense. -/
inductive Stop where
  | exhausted
  | unset (symbol : Nat)
  | noResult
  | meaningless
deriving DecidableEq, Repr

/-- Goes on with what is there, and stops if nothing is. -/
def Stop.ifNone {α : Type} (stop : Stop) : Option α → Except Stop α
  | some a => .ok a
  | none => .error stop

/-- What a running program remembers: the global variables and those of the running call, by symbol, and
what was shown so far. -/
structure World where
  globals : Nat → Option Value := fun _ => none
  locals : Nat → Option Value := fun _ => none
  actions : List Action := []

/-- A store in which a symbol has a value. -/
def assigned (store : Nat → Option Value) (symbol : Nat) (v : Value) : Nat → Option Value :=
  fun y => if y = symbol then some v else store y

/-- Does a symbol live as long as the program? -/
def Resolution.isGlobal (r : Resolution) (symbol : Nat) : Bool :=
  ((r.table.symbol? symbol).map (·.flags.isGlobal)).getD false

namespace World

def read? (w : World) (r : Resolution) (symbol : Nat) : Option Value :=
  if r.isGlobal symbol then w.globals symbol else w.locals symbol

def write (w : World) (r : Resolution) (symbol : Nat) (v : Value) : World :=
  if r.isGlobal symbol then { w with globals := assigned w.globals symbol v }
  else { w with locals := assigned w.locals symbol v }

def act (w : World) (a : Action) : World := { w with actions := w.actions ++ [a] }

end World

/-- How a statement ends: it goes on to the next one, or it leaves the loop, starts its next round, or
returns from the function. -/
inductive Ending where
  | next | leave | again
  | give (v : Option Value)
deriving DecidableEq, Repr

/-- The function that a symbol stands for. -/
def Program.functionOf? (p : Program) (r : Resolution) (symbol : Nat) : Option Function :=
  p.functions.find? fun f => (r.itemOf? f.node.id).map (·.symbol) == some symbol

/-- The symbols of the parameters of a function. -/
def Resolution.paramsOf (r : Resolution) (f : Function) : List Nat :=
  ((r.itemOf? f.node.id).map (·.params)).getD []

/-- A store in which every parameter has its argument. -/
def bindParams (store : Nat → Option Value) : List Nat → List Value → Except Stop (Nat → Option Value)
  | [], [] => .ok store
  | y :: ys, v :: vs => bindParams (assigned store y v) ys vs
  | _, _ => .error .meaningless

/-- What a call gives back: a value if and only if the function has a result type. -/
def Function.giveBack (f : Function) : Ending → Except Stop (Option Value)
  | .next => if f.result.isSome then .error .noResult else .ok none
  | .give v => if v.isSome = f.result.isSome then .ok v else .error .meaningless
  | .leave | .again => .error .meaningless

namespace Evaluation

/-- The value of an expression that has to have one. -/
def asValue (r : Except Stop (World × Option Value)) : Except Stop (World × Value) := do
  let (w, v) ← r
  let v ← Stop.meaningless.ifNone v
  .ok (w, v)

/-- Shows a value; there is no result. -/
def print (w : World) : List Value → Except Stop (World × Option Value)
  | [v] => .ok (w.act (.shown v), none)
  | _ => .error .meaningless

variable (p : Program) (c : EmissionContext)

mutual

def expr : Nat → World → Expr → Except Stop (World × Option Value)
  | 0, _, _ => .error .exhausted
  | _ + 1, _, .error _ => .error .meaningless
  | _ + 1, w, .constant _ k => do
    let v ← Stop.meaningless.ifNone k.value?
    .ok (w, some v)
  | _ + 1, w, .ident i => do
    let symbol := (c.resolution.refOf? i.node.id).getD 0
    let v ← (Stop.unset symbol).ifNone (w.read? c.resolution symbol)
    .ok (w, some v)
  | fuel + 1, w, .group _ inner => expr fuel w inner
  | fuel + 1, w, .unary _ op operand => do
    let (w, v) ← asValue (expr fuel w operand)
    let v ← Stop.meaningless.ifNone (op.eval? v)
    .ok (w, some v)
  | fuel + 1, w, .binary _ op _ left right => do
    let (w, a) ← asValue (expr fuel w left)
    let (w, b) ← asValue (expr fuel w right)
    let v ← Stop.meaningless.ifNone (op.eval? a b)
    .ok (w, some v)
  | fuel + 1, w, .call _ target args => do
    let (w, vs) ← arguments fuel w args
    call fuel w (Emission.calleeOf c target) vs
  | fuel + 1, w, .assign _ op _ target operand => do
    let symbol := (c.resolution.refOf? target.node.id).getD 0
    let (w, v) ← asValue (expr fuel w operand)
    match op.binary? with
    | none => .ok (w.write c.resolution symbol v, some v)
    | some binary =>
      let old ← (Stop.unset symbol).ifNone (w.read? c.resolution symbol)
      let v ← Stop.meaningless.ifNone (binary.eval? old v)
      .ok (w.write c.resolution symbol v, some v)

def arguments : Nat → World → List Expr → Except Stop (World × List Value)
  | 0, _, _ => .error .exhausted
  | _ + 1, w, [] => .ok (w, [])
  | fuel + 1, w, e :: es => do
    let (w, v) ← asValue (expr fuel w e)
    let (w, vs) ← arguments fuel w es
    .ok (w, v :: vs)

/-- A call has variables of its own; those of the caller are there again when it ends. -/
def call : Nat → World → Nat → List Value → Except Stop (World × Option Value)
  | 0, _, _, _ => .error .exhausted
  | fuel + 1, w, symbol, args =>
    if Emission.isPrint c symbol then print w args
    else do
      let f ← Stop.meaningless.ifNone (p.functionOf? c.resolution symbol)
      let locals ← bindParams (fun _ => none) (c.resolution.paramsOf f) args
      let (inner, ending) ← stmts fuel { w with locals } f.body.stmts
      let v ← f.giveBack ending
      .ok ({ inner with locals := w.locals }, v)

def stmt : Nat → World → Stmt → Except Stop (World × Ending)
  | 0, _, _ => .error .exhausted
  | _ + 1, _, .error _ => .error .meaningless
  | fuel + 1, w, .var n _ _ init => do
    let symbol := (c.resolution.declOf? n.id).getD 0
    match init with
    | some e =>
      let (w, v) ← asValue (expr fuel w e)
      .ok (w.write c.resolution symbol v, .next)
    | none =>
      let v ← Stop.meaningless.ifNone (Value.default? (c.typing.typeOfSymbol symbol))
      .ok (w.write c.resolution symbol v, .next)
  | fuel + 1, w, .expr _ e => do
    let (w, _) ← expr fuel w e
    .ok (w, .next)
  | fuel + 1, w, .branch _ cond body otherwise => do
    let (w, v) ← asValue (expr fuel w cond)
    match v with
    | .bool true => stmts fuel w body.stmts
    | .bool false => alternative fuel w otherwise
    | _ => .error .meaningless
  | fuel + 1, w, .loop n .before cond body => do
    let (w, v) ← asValue (expr fuel w cond)
    match v with
    | .bool true =>
      let (w, ending) ← stmts fuel w body.stmts
      match ending with
      | .next | .again => stmt fuel w (.loop n .before cond body)
      | .leave => .ok (w, .next)
      | .give v => .ok (w, .give v)
    | .bool false => .ok (w, .next)
    | _ => .error .meaningless
  | fuel + 1, w, .loop n .after cond body => do
    let (w, ending) ← stmts fuel w body.stmts
    match ending with
    | .next | .again =>
      let (w, v) ← asValue (expr fuel w cond)
      match v with
      | .bool true => stmt fuel w (.loop n .after cond body)
      | .bool false => .ok (w, .next)
      | _ => .error .meaningless
    | .leave => .ok (w, .next)
    | .give v => .ok (w, .give v)
  | _ + 1, w, .leave _ => .ok (w, .leave)
  | _ + 1, w, .again _ => .ok (w, .again)
  | fuel + 1, w, .give _ result =>
    match result with
    | some e => do
      let (w, v) ← asValue (expr fuel w e)
      .ok (w, .give (some v))
    | none => .ok (w, .give none)
  | _ + 1, w, .command _ text => .ok (w.act (.command text), .next)

def stmts : Nat → World → List Stmt → Except Stop (World × Ending)
  | 0, _, _ => .error .exhausted
  | _ + 1, w, [] => .ok (w, .next)
  | fuel + 1, w, s :: rest => do
    let (w, ending) ← stmt fuel w s
    match ending with
    | .next => stmts fuel w rest
    | _ => .ok (w, ending)

def alternative : Nat → World → Otherwise → Except Stop (World × Ending)
  | 0, _, _ => .error .exhausted
  | _ + 1, w, .none => .ok (w, .next)
  | fuel + 1, w, .block body => stmts fuel w body.stmts
  | fuel + 1, w, .chain other => stmt fuel w other

end

attribute [grind =] expr arguments call stmt stmts alternative

/-- Runs the statements outside all functions. -/
def run (fuel : Nat) : Except Stop World := do
  let (w, ending) ← stmts p c fuel {} p.topLevel
  if ending = .next then .ok w else .error .meaningless

end Evaluation

end Craftlang
