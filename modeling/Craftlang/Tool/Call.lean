import Craftlang.Tool.Argument

/-!
# Calls

The commands of the tool, the flags that each of them knows, and the way from a list of arguments to a
command with its flags and operands.
-/

namespace Craftlang

inductive Verb where
  | build | diag | tokenize | parse | init | clean | version
deriving DecidableEq, Repr

namespace Verb

def all : List Verb := [build, diag, tokenize, parse, init, clean, version]

def name : Verb → String
  | build => "build"
  | diag => "diag"
  | tokenize => "tokenize"
  | parse => "parse"
  | init => "init"
  | clean => "clean"
  | version => "version"

def summary : Verb → String
  | build => "Compile Craftlang sources into a datapack"
  | diag => "Run diagnostics on Craftlang sources"
  | tokenize => "Tokenize a Craftlang source file"
  | parse => "Parse a Craftlang source file and print its syntax tree"
  | init => "Initialize a new Craftlang project"
  | clean => "Remove the persistent build cache"
  | version => "Show craftc version"

def ofName? (name : Bytes) : Option Verb := all.find? fun v => Bytes.ofString v.name = name

def flags : Verb → List Flag
  | build =>
    [⟨"output", .text, some (byte 'o')⟩, ⟨"force", .switch, some (byte 'f')⟩,
     ⟨"zip", .switch, some (byte 'z')⟩, ⟨"cache", .switch, none⟩, ⟨"namespace", .text, none⟩,
     ⟨"pack-format", .number, none⟩, ⟨"description", .text, none⟩, ⟨"warn-shadow", .switch, none⟩,
     ⟨"jobs", .number, none⟩, ⟨"format", .text, none⟩]
  | diag =>
    [⟨"format", .text, none⟩, ⟨"with-notes", .switch, none⟩, ⟨"fullpath", .switch, none⟩,
     ⟨"warn-shadow", .switch, none⟩, ⟨"jobs", .number, none⟩]
  | tokenize | parse | version => [⟨"format", .text, none⟩]
  | init | clean => []

def operands : Verb → OperandCount
  | build | version => .any
  | diag => .atLeast 1
  | tokenize | parse => .exactly 1
  | init => .atMost 1
  | clean => .none

/-- What is wrong with the operands of a command, if anything is. -/
def operandFault? (v : Verb) (operands : List Bytes) : Option ArgumentFault :=
  let count := operands.length
  let faultUnless (isRight : Bool) : Option ArgumentFault :=
    if isRight then none else some (.operands v.operands count)
  match v.operands with
  | .any => none
  | .none => operands.head?.map fun first => .unknownCommand first ("craftc " ++ v.name) []
  | .exactly n => faultUnless (count == n)
  | .atLeast n => faultUnless (n ≤ count)
  | .atMost n => faultUnless (count ≤ n)

end Verb

/-- The flags that every command knows. -/
def sharedFlags : List Flag :=
  [⟨"color", .text, none⟩, ⟨"quiet", .switch, none⟩, ⟨"timings", .switch, none⟩,
   ⟨"max-diagnostics", .number, none⟩, ⟨"ui", .text, none⟩, ⟨"trace", .text, none⟩,
   ⟨"trace-level", .text, none⟩, ⟨"trace-mode", .text, none⟩, ⟨"trace-format", .text, none⟩,
   ⟨"trace-ring-size", .number, none⟩, ⟨"cpuprofile", .text, none⟩, ⟨"memprofile", .text, none⟩,
   ⟨"runtime-trace", .text, none⟩]

def helpFlag : Flag := ⟨"help", .switch, some (byte 'h')⟩

def versionFlag : Flag := ⟨"version", .switch, some (byte 'v')⟩

/-- What the tool is asked to do. -/
inductive Call where
  | help
  | showVersion
  | run (verb : Verb) (arguments : Arguments)
deriving DecidableEq, Repr

namespace Call

/-- The words that name a command, in the order in which they are suggested. -/
def commandNames : List Bytes :=
  (Verb.all.map Verb.name ++ ["help", "completion"]).map Bytes.ofString

/-- A call without a command. -/
def withoutVerb (arguments : List Bytes) : Except ArgumentFault Call :=
  (Arguments.read (sharedFlags ++ [helpFlag, versionFlag]) arguments).map fun a =>
    if a.isOn "help" then .help else if a.isOn "version" then .showVersion else .help

/-- A call of a command. -/
def withVerb (verb : Verb) (arguments : List Bytes) : Except ArgumentFault Call :=
  match Arguments.read (verb.flags ++ sharedFlags ++ [helpFlag]) arguments with
  | .error fault => .error fault
  | .ok a =>
    if a.isOn "help" then .ok .help
    else match verb.operandFault? a.operands with
      | some fault => .error fault
      | none => .ok (.run verb a)

/-- The call that a list of arguments is. The first argument that is no flag, nor the value of one that
every command knows, names the command. -/
def ofArguments (arguments : List Bytes) : Except ArgumentFault Call :=
  match Arguments.words sharedFlags arguments with
  | [] => withoutVerb arguments
  | word :: _ =>
    match Verb.ofName? word with
    | some verb => withVerb verb (Arguments.withoutWord sharedFlags word arguments)
    | none =>
      if word = Bytes.ofString "help" || word = Bytes.ofString "completion" then .ok .help
      else .error (.unknownCommand word "craftc" (suggestionsFor word commandNames))

/-- What is said when help is asked for. -/
def helpText : Bytes :=
  Bytes.ofString "craftc compiles Craftlang sources into a Minecraft datapack\n\nUsage:\n"
    ++ Bytes.ofString "  craftc [command]\n\nAvailable Commands:\n"
    ++ Verb.all.flatMap fun v =>
      Bytes.ofString "  " ++ Bytes.padRight 11 v.name ++ Bytes.ofString v.summary ++ [lineFeed]

end Call

/-- What the flags say that every command knows. -/
structure Settings where
  color : Bytes
  isQuiet : Bool
  showsTimings : Bool
  limit : Int
  ui : Bytes
  traceOutput : Bytes
  traceLevel : Bytes
  traceMode : Bytes
  traceFormat : Bytes
  ringSize : Int
  cpuProfile : Bytes
  heapProfile : Bytes
  runtimeTrace : Bytes
deriving DecidableEq, Repr

def Settings.ofArguments (a : Arguments) : Settings where
  color := a.text "color" "auto"
  isQuiet := a.isOn "quiet"
  showsTimings := a.isOn "timings"
  limit := a.number "max-diagnostics" 100
  ui := a.text "ui" "auto"
  traceOutput := a.text "trace"
  traceLevel := a.text "trace-level" "off"
  traceMode := a.text "trace-mode" "stream"
  traceFormat := a.text "trace-format" "auto"
  ringSize := a.number "trace-ring-size" 4096
  cpuProfile := a.text "cpuprofile"
  heapProfile := a.text "memprofile"
  runtimeTrace := a.text "runtime-trace"

/-- What the flags of a build say. -/
structure BuildRequest where
  operands : List Bytes
  output : Bytes
  force : Bool
  zip : Option Bool
  usesCache : Bool
  space : Bytes
  packFormat : Option Int
  description : Option Bytes
  warnShadow : Bool
  format : Bytes
deriving DecidableEq, Repr

def BuildRequest.ofArguments (a : Arguments) : BuildRequest where
  operands := a.operands
  output := a.text "output"
  force := a.isOn "force"
  zip := a.switch? "zip"
  usesCache := a.isOn "cache"
  space := a.text "namespace"
  packFormat := a.number? "pack-format"
  description := a.text? "description"
  warnShadow := a.isOn "warn-shadow"
  format := a.text "format" "pretty"

end Craftlang
