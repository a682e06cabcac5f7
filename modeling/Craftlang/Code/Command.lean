import Craftlang.Pack.Namespace
import Craftlang.Text.Quoted

/-!
# Commands

The commands that a program is made of. Integers and booleans are scores: every call of a function has
an entity, its frame, whose scores are the local variables. Strings are kept in a storage, in a list with
one entry for every call. Commands are values; `render` writes them out for a namespace.
-/

namespace Craftlang

/-- What scores are counted for: the bookkeeping of frames, results, pending jumps and printing, then
arguments and local variables by number, and the global variables. -/
inductive Objective where
  | frameNumber | innermost | result | pending | printed
  | argument (n : Nat)
  | slot (n : Nat)
  | globals
deriving DecidableEq, Repr, Inhabited

/-- Who holds a score: the frame of the running call, the machine itself, or a global variable. -/
inductive Holder where
  | frame
  | machine
  | global (name : Bytes) (number : Nat)
deriving DecidableEq, Repr, Inhabited

structure Score where
  holder : Holder
  objective : Objective
deriving DecidableEq, Repr, Inhabited

/-- Where a string is kept: in a slot of the running call, in a global variable, as an argument, as the
result of a call, or as one of the two strings to be joined. -/
inductive TextPlace where
  | slot (n : Nat)
  | global (number : Nat)
  | argument (n : Nat)
  | result
  | left
  | right
deriving DecidableEq, Repr, Inhabited

inductive Comparison where
  | eq | notEq | less | lessEq | greater | greaterEq
deriving DecidableEq, Repr, Inhabited

inductive Test where
  | is (score : Score) (value : Nat)
  | positive (score : Score)
  | compare (op : Comparison) (left right : Score)
deriving DecidableEq, Repr, Inhabited

inductive ScoreOp where
  | copy | add | sub | mul | div | mod
deriving DecidableEq, Repr, Inhabited

/-- The functions of a unit: the declared ones and the entry, the pieces that control flow cuts off from
one of them, the loader, and the function that joins two strings. -/
inductive FunctionName where
  | declared (name : Bytes)
  | piece (owner : Bytes) (number : Nat)
  | loader
  | joiner
deriving DecidableEq, Repr, Inhabited

inductive Command where
  /-- A command as the program spells it. -/
  | raw (text : Bytes)
  | summonFrame
  /-- Gives the frame that has no number the next one. -/
  | numberFrame
  | removeFrame
  /-- Makes the frame before the innermost. -/
  | leaveFrame
  /-- Adds an entry for the strings of a call. -/
  | pushTexts
  | popTexts
  | set (target : Score) (value : Int)
  | setIf (test : Test) (target : Score) (value : Int)
  | operate (target : Score) (op : ScoreOp) (source : Score)
  /-- Stores 1 if the test holds and 0 if not. -/
  | storeTest (target : Score) (test : Test)
  | setText (target : TextPlace) (value : Bytes)
  | copyText (target source : TextPlace)
  | call (f : FunctionName)
  | callIf (test : Test) (f : FunctionName)
  /-- Calls the function that joins two strings. -/
  | joinTexts
  /-- The body of that function. -/
  | joinedText
  | tellText (source : TextPlace)
  | tellBool (value : Bool)
  | tellNumber
  /-- Lets any number of commands run in a row. -/
  | unlimitedChain
  | removeAllFrames
  | addObjective (objective : Objective)
  /-- Says that there is no frame. -/
  | noFrame
  /-- Starts with no entry for strings. -/
  | noTexts
deriving DecidableEq, Repr

def shortNumber (n : Nat) : Bytes := Bytes.inBase 36 n

namespace Objective

def render (ns : Namespace) : Objective → Bytes
  | frameNumber => "cr_id"
  | innermost => "cr_fp"
  | result => "cr_ret"
  | pending => "cr_ctl"
  | printed => "cr_out"
  | argument n => "cr_arg_" ++ shortNumber n
  | slot n => "cr_s" ++ shortNumber n
  | globals => ns.objective

end Objective

def machineHolder : Bytes := "#cr"

def frameTag : Bytes := "cr_frame"

/-- The storage in which programs run. -/
def runStorage : Bytes := "craftlang:rt"

def Holder.render : Holder → Bytes
  | frame => "@s"
  | machine => machineHolder
  | global name number => "$" ++ name ++ "_" ++ shortNumber number

def Score.render (ns : Namespace) (s : Score) : Bytes :=
  s.holder.render ++ " " ++ s.objective.render ns

namespace TextPlace

def storage (ns : Namespace) : TextPlace → Bytes
  | global _ => ns.storage
  | _ => runStorage

def path : TextPlace → Bytes
  | slot n => "frames[-1].s" ++ shortNumber n
  | global number => "g" ++ shortNumber number
  | argument n => "args.a" ++ shortNumber n
  | result => "ret"
  | left => "cat.a"
  | right => "cat.b"

def render (ns : Namespace) (p : TextPlace) : Bytes :=
  "storage " ++ p.storage ns ++ " " ++ p.path

end TextPlace

def Comparison.sign : Comparison → String
  | eq | notEq => "="
  | less => "<"
  | lessEq => "<="
  | greater => ">"
  | greaterEq => ">="

def Test.render (ns : Namespace) : Test → Bytes
  | is score value => "if score " ++ score.render ns ++ " matches " ++ Bytes.decimal value
  | positive score => "if score " ++ score.render ns ++ " matches 1.."
  | compare op left right =>
    (if op = .notEq then Bytes.ofString "unless" else Bytes.ofString "if") ++ " score "
      ++ left.render ns ++ " " ++ Bytes.ofString op.sign ++ " " ++ right.render ns

def ScoreOp.sign : ScoreOp → String
  | copy => "="
  | add => "+="
  | sub => "-="
  | mul => "*="
  | div => "/="
  | mod => "%="

/-- The directory of functions that the program does not declare. -/
def hiddenDirectory : Bytes := ".craftlang/"

def FunctionName.render : FunctionName → Bytes
  | declared name => name
  | piece owner number => hiddenDirectory ++ owner ++ "." ++ shortNumber number
  | loader => hiddenDirectory ++ "load"
  | joiner => hiddenDirectory ++ "concat"

namespace Command

/-- What selects the frame of the running call: the one that has the number of the innermost. -/
def frameSelection : Bytes :=
  "execute as @e[tag=" ++ frameTag ++ "] if score @s cr_id = " ++ machineHolder ++ " cr_fp"

def inFrame (command : Bytes) : Bytes := frameSelection ++ " run " ++ command

def inFrameIf (ns : Namespace) (test : Test) (command : Bytes) : Bytes :=
  frameSelection ++ " " ++ test.render ns ++ " run " ++ command

def setting (ns : Namespace) (target : Score) (value : Int) : Bytes :=
  "scoreboard players set " ++ target.render ns ++ " " ++ Bytes.signedDecimal value

def calling (ns : Namespace) (f : FunctionName) : Bytes := "function " ++ ns.resource f.render

def render (ns : Namespace) : Command → Bytes
  | raw text => text
  | summonFrame =>
    "summon minecraft:area_effect_cloud ~ ~ ~ \x7bTags:[\"" ++ frameTag ++ "\"]\x7d"
  | numberFrame =>
    "execute as @e[tag=" ++ frameTag ++ "] unless score @s cr_id matches 1.. store result score @s "
      ++ "cr_id run scoreboard players add " ++ machineHolder ++ " cr_fp 1"
  | removeFrame => inFrame "kill @s"
  | leaveFrame => "scoreboard players remove " ++ machineHolder ++ " cr_fp 1"
  | pushTexts => "data modify storage " ++ runStorage ++ " frames append value \x7b\x7d"
  | popTexts => "data remove storage " ++ runStorage ++ " frames[-1]"
  | set target value => inFrame (setting ns target value)
  | setIf test target value => inFrameIf ns test (setting ns target value)
  | operate target op source =>
    inFrame ("scoreboard players operation " ++ target.render ns ++ " " ++ Bytes.ofString op.sign
      ++ " " ++ source.render ns)
  | storeTest target test =>
    frameSelection ++ " store success score " ++ target.render ns ++ " " ++ test.render ns
  | setText target value =>
    "data modify " ++ target.render ns ++ " set value " ++ Snbt.quote value
  | copyText target source =>
    "data modify " ++ target.render ns ++ " set from " ++ source.render ns
  | call f => calling ns f
  | callIf test f => inFrameIf ns test (calling ns f)
  | joinTexts => calling ns .joiner ++ " with storage " ++ runStorage ++ " cat"
  | joinedText =>
    "$data modify storage " ++ runStorage ++ " ret set value \"$(a)$(b)\""
  | tellText source =>
    "tellraw @a \x7b\"nbt\":\"" ++ source.path ++ "\",\"storage\":\"" ++ source.storage ns
      ++ "\"\x7d"
  | tellBool true =>
    "execute if score " ++ machineHolder ++ " cr_out matches 1 run tellraw @a \"true\""
  | tellBool false =>
    "execute if score " ++ machineHolder ++ " cr_out matches 0 run tellraw @a \"false\""
  | tellNumber =>
    "tellraw @a \x7b\"score\":\x7b\"name\":\"" ++ machineHolder
      ++ "\",\"objective\":\"cr_out\"\x7d\x7d"
  | unlimitedChain => "gamerule maxCommandChainLength 2147483647"
  | removeAllFrames => "kill @e[tag=" ++ frameTag ++ "]"
  | addObjective objective => "scoreboard objectives add " ++ objective.render ns ++ " dummy"
  | noFrame => setting ns ⟨.machine, .innermost⟩ 0
  | noTexts => "data modify storage " ++ runStorage ++ " frames set value []"

end Command

end Craftlang
