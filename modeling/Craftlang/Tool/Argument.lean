import Craftlang.Text.Letter
import Craftlang.Text.Numeral

/-!
# Arguments

How a list of arguments is divided into flags with their values and operands. A flag is `--name`, with
its value behind an equals sign or in the next argument, or a letter, `-n`; several letters may share a
dash. A switch needs no value. Everything after `--` is an operand.
-/

namespace Craftlang

inductive FlagKind where
  | text
  | switch
  | number
deriving DecidableEq, Repr

structure Flag where
  name : Bytes
  kind : FlagKind
  letter : Option UInt8 := none
deriving DecidableEq, Repr

namespace Flag

/-- A flag as it is named in messages. -/
def label (f : Flag) : Bytes :=
  match f.letter with
  | some letter => "-" ++ [letter] ++ ", --" ++ f.name
  | none => "--" ++ f.name

end Flag

inductive FlagValue where
  | text (s : Bytes)
  | switch (isOn : Bool)
  | number (n : Int)
deriving DecidableEq, Repr

/-- Why a value does not fit its flag. -/
inductive ValueFault where
  | notSwitch
  | number (fault : Numeral.Fault)
deriving DecidableEq, Repr

def ValueFault.message (value : Bytes) : ValueFault → Bytes
  | notSwitch => "strconv.ParseBool: parsing " ++ Quoted.encode value ++ ": invalid syntax"
  | number .malformed => "strconv.ParseInt: parsing " ++ Quoted.encode value ++ ": invalid syntax"
  | number .tooLarge =>
    "strconv.ParseInt: parsing " ++ Quoted.encode value ++ ": value out of range"

/-- The words for a switch that is on or off. -/
def switchWords : List (String × Bool) :=
  [("1", true), ("t", true), ("T", true), ("TRUE", true), ("true", true), ("True", true),
   ("0", false), ("f", false), ("F", false), ("FALSE", false), ("false", false), ("False", false)]

def FlagKind.read (kind : FlagKind) (value : Bytes) : Except ValueFault FlagValue :=
  match kind with
  | .text => .ok (.text value)
  | .switch =>
    match switchWords.find? fun (word, _) => Bytes.ofString word = value with
    | some (_, isOn) => .ok (.switch isOn)
    | none => .error .notSwitch
  | .number =>
    match Numeral.integer value with
    | .ok n => .ok (.number n)
    | .error fault => .error (.number fault)

/-- How many operands a command takes. -/
inductive OperandCount where
  | any
  | none
  | exactly (n : Nat)
  | atLeast (n : Nat)
  | atMost (n : Nat)
deriving DecidableEq, Repr

/-- What is wrong with a list of arguments. -/
inductive ArgumentFault where
  | malformedFlag (argument : Bytes)
  | unknownFlag (name : Bytes)
  | unknownLetter (letter : UInt8) (letters : Bytes)
  | missingValue (name : Bytes)
  | missingLetterValue (letter : UInt8) (letters : Bytes)
  | badValue (flag : Flag) (value : Bytes) (fault : ValueFault)
  | unknownCommand (name command : Bytes) (suggestions : List Bytes)
  | operands (expected : OperandCount) (count : Nat)
deriving DecidableEq, Repr

/-- The character that a message shows for a letter: the one numbered by the first byte with which the
letter is spelled in UTF-8. An ASCII letter is shown as itself. -/
def shownLetter (letter : UInt8) : Nat :=
  ((Utf8.encode letter.toNat).headD letter).toNat

def ArgumentFault.message : ArgumentFault → Bytes
  | malformedFlag argument => "bad flag syntax: " ++ argument
  | unknownFlag name => "unknown flag: --" ++ name
  | unknownLetter letter letters =>
    "unknown shorthand flag: " ++ Quoted.encodeRune (shownLetter letter) ++ " in -" ++ letters
  | missingValue name => "flag needs an argument: --" ++ name
  | missingLetterValue letter letters =>
    "flag needs an argument: " ++ Quoted.encodeRune (shownLetter letter) ++ " in -" ++ letters
  | badValue flag value fault =>
    "invalid argument " ++ Quoted.encode value ++ " for " ++ Quoted.encode flag.label ++ " flag: "
      ++ fault.message value
  | unknownCommand name command suggestions =>
    "unknown command " ++ Quoted.encode name ++ " for " ++ Quoted.encode command
      ++ Bytes.onlyIf (!suggestions.isEmpty)
        (Bytes.ofString "\n\nDid you mean this?\n"
          ++ suggestions.flatMap fun s => [byte '\t'] ++ s ++ [lineFeed])
  | operands (.exactly n) count =>
    "accepts " ++ Bytes.decimal n ++ " arg(s), received " ++ Bytes.decimal count
  | operands (.atLeast n) count =>
    "requires at least " ++ Bytes.decimal n ++ " arg(s), only received " ++ Bytes.decimal count
  | operands (.atMost n) count =>
    "accepts at most " ++ Bytes.decimal n ++ " arg(s), received " ++ Bytes.decimal count
  | operands _ count => "accepts 0 arg(s), received " ++ Bytes.decimal count

/-- Flags with their values, in the order given, and operands. -/
structure Arguments where
  flags : List (Bytes × FlagValue) := []
  operands : List Bytes := []
deriving DecidableEq, Repr

namespace Arguments

def addFlag (name : Bytes) (value : FlagValue) (a : Arguments) : Arguments :=
  { a with flags := (name, value) :: a.flags }

def addOperand (operand : Bytes) (a : Arguments) : Arguments :=
  { a with operands := operand :: a.operands }

/-- The value of a flag; of several the last. -/
def value? (a : Arguments) (name : String) : Option FlagValue :=
  (a.flags.reverse.find? fun (n, _) => n = Bytes.ofString name).map (·.2)

def text? (a : Arguments) (name : String) : Option Bytes :=
  match a.value? name with
  | some (.text s) => some s
  | _ => none

def text (a : Arguments) (name : String) (standard : Bytes := []) : Bytes :=
  (a.text? name).getD standard

def switch? (a : Arguments) (name : String) : Option Bool :=
  match a.value? name with
  | some (.switch isOn) => some isOn
  | _ => none

def isOn (a : Arguments) (name : String) : Bool := (a.switch? name).getD false

def number? (a : Arguments) (name : String) : Option Int :=
  match a.value? name with
  | some (.number n) => some n
  | _ => none

def number (a : Arguments) (name : String) (standard : Int) : Int := (a.number? name).getD standard

/-! ## Reading -/

def named? (known : List Flag) (name : Bytes) : Option Flag := known.find? (·.name = name)

def lettered? (known : List Flag) (letter : UInt8) : Option Flag :=
  known.find? (·.letter = some letter)

def readValue (flag : Flag) (value : Bytes) : Except ArgumentFault (Bytes × FlagValue) :=
  match flag.kind.read value with
  | .ok found => .ok (flag.name, found)
  | .error fault => .error (.badValue flag value fault)

/-- What one argument of flags yields: flags with values, and perhaps a flag whose value is the next
argument, with the fault if there is none. -/
structure FlagArgument where
  flags : List (Bytes × FlagValue) := []
  pending : Option (Flag × ArgumentFault) := none

/-- A flag by its name, from behind the dashes. -/
def readNamed (known : List Flag) (body : Bytes) : Except ArgumentFault FlagArgument :=
  let argument : Bytes := "--" ++ body
  if body.head? = some (byte '-') || body.head? = some (byte '=') then .error (.malformedFlag argument)
  else
    let (name, given) := Bytes.cut (byte '=') body
    match named? known name, given with
    | none, _ => .error (.unknownFlag name)
    | some flag, some value => (readValue flag value).map fun found => ⟨[found], none⟩
    | some flag, none =>
      if flag.kind = .switch then (readValue flag "true").map fun found => ⟨[found], none⟩
      else .ok ⟨[], some (flag, .missingValue name)⟩

/-- Flags by their letters, from behind the dash. What follows the letter of a flag that needs a value
is that value. -/
def readLetters (known : List Flag) : Bytes → Except ArgumentFault FlagArgument
  | [] => .ok {}
  | letter :: rest =>
    match lettered? known letter with
    | none => .error (.unknownLetter letter (letter :: rest))
    | some flag =>
      let whole (value : Bytes) : Except ArgumentFault FlagArgument :=
        (readValue flag value).map fun found => ⟨[found], none⟩
      match rest with
      | e :: v :: value =>
        if e = byte '=' then whole (v :: value)
        else if flag.kind = .switch then withSwitch flag (readLetters known rest)
        else whole rest
      | _ =>
        if flag.kind = .switch then withSwitch flag (readLetters known rest)
        else if rest.isEmpty then .ok ⟨[], some (flag, .missingLetterValue letter (letter :: rest))⟩
        else whole rest
where
  withSwitch (flag : Flag) (others : Except ArgumentFault FlagArgument) :
      Except ArgumentFault FlagArgument :=
    others.map fun others => { others with flags := (flag.name, .switch true) :: others.flags }

/-- Reads arguments from left to right; the first fault ends it. -/
def read (known : List Flag) : List Bytes → Except ArgumentFault Arguments
  | [] => .ok {}
  | argument :: rest =>
    match argument with
    | d :: body@(e :: name) =>
      if d ≠ byte '-' then (read known rest).map (addOperand argument)
      else if e = byte '-' && name.isEmpty then .ok { operands := rest }
      else
        match if e = byte '-' then readNamed known name else readLetters known body with
        | .error fault => .error fault
        | .ok ⟨flags, none⟩ => (read known rest).map (withFlags flags)
        | .ok ⟨flags, some (flag, fault)⟩ =>
          match rest with
          | [] => .error fault
          | value :: rest =>
            match readValue flag value with
            | .error fault => .error fault
            | .ok found => (read known rest).map (withFlags (flags ++ [found]))
    | _ => (read known rest).map (addOperand argument)
where
  withFlags (flags : List (Bytes × FlagValue)) (a : Arguments) : Arguments :=
    flags.foldr (fun (name, value) a => a.addFlag name value) a

/-! ## Looking for a command -/

/-- Does an argument take the next one as its value? One that is not known counts as if it did. -/
def takesNext (known : List Flag) (argument : Bytes) : Bool :=
  let isSwitch (flag : Option Flag) : Bool := flag.any (·.kind == .switch)
  !argument.contains (byte '=') &&
    match argument with
    | d :: e :: rest =>
      d == byte '-' &&
        if e = byte '-' then !isSwitch (named? known rest)
        else rest.isEmpty && !isSwitch (lettered? known e)
    | _ => false

def isFlag (argument : Bytes) : Bool := argument.head? == some (byte '-')

/-- The arguments that are neither flags nor values of flags. -/
def words (known : List Flag) : List Bytes → List Bytes
  | [] => []
  | argument :: rest =>
    if argument = Bytes.ofString "--" then []
    else if takesNext known argument then
      match rest with
      | _ :: next :: more => words known (next :: more)
      | _ => []
    else if !argument.isEmpty && !isFlag argument then argument :: words known rest
    else words known rest

/-- The arguments without the first that is a given word. -/
def withoutWord (known : List Flag) (word : Bytes) : List Bytes → List Bytes
  | [] => []
  | argument :: rest =>
    if argument = Bytes.ofString "--" then argument :: rest
    else if takesNext known argument then
      match rest with
      | [] => [argument]
      | value :: rest => argument :: value :: withoutWord known word rest
    else if !isFlag argument && argument = word then rest
    else argument :: withoutWord known word rest

end Arguments

/-! ## Suggestions -/

/-- The next row of a table of edit distances, for one more byte of the first text. The rows are for the
prefixes of the second; `left` and `corner` are the entries before in this row and the last. -/
def editRow (a : UInt8) (left corner : Nat) : Bytes → List Nat → List Nat
  | b :: bs, above :: row =>
    let entry := if a = b then corner else min above (min left corner) + 1
    entry :: editRow a entry above bs row
  | _, _ => []

/-- How many bytes have to be put in, taken out or changed to get from one text to another. -/
def editDistance (s t : Bytes) : Nat :=
  let rows := s.foldl (fun row a =>
    match row with
    | [] => []
    | first :: rest => (first + 1) :: editRow a (first + 1) first t rest)
    (List.range (t.length + 1))
  rows.getLast?.getD 0

/-- The known words that a word may have been meant for: those at most two edits away and those that
start with it, whatever the case. -/
def suggestionsFor (word : Bytes) (known : List Bytes) : List Bytes :=
  known.filter fun name =>
    editDistance (Utf8.toLower word) name ≤ 2 || name.startsWith (Utf8.toLower word)

end Craftlang
