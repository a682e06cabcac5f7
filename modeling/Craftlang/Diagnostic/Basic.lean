import Craftlang.Text.Bytes
import Craftlang.Source.Span

/-!
# Diagnostics

A diagnostic says what is wrong at a place in a source; notes point at other places that matter.
Diagnostics are collected in a `Bag`: it keeps them in the order they came and, if it has a limit,
refuses what comes once it is full.
-/

/-!
## Diagnostic codes and severities

Every diagnostic carries a code, a number below 2^16 whose thousands say which part of the compiler
speaks, and a severity. Numbers without a meaning of their own are allowed: they count as unknown.
-/

namespace Craftlang

structure Code where
  number : Nat
deriving DecidableEq, Repr, Inhabited

/-- The higher the rank, the graver the diagnostic. Ranks above that of errors are possible, but have no name. -/
structure Severity where
  rank : Nat
deriving DecidableEq, Repr, Inhabited

namespace Severity

def info : Severity := ⟨0⟩
def warning : Severity := ⟨1⟩
def error : Severity := ⟨2⟩

/-- Anything at least as grave as an error is one. -/
def isError (s : Severity) : Bool := 2 ≤ s.rank

/-- Anything at least as grave as a warning is one, errors among it. -/
def isWarning (s : Severity) : Bool := 1 ≤ s.rank

def name (s : Severity) : Bytes :=
  match s.rank with
  | 0 => "INFO"
  | 1 => "WARNING"
  | 2 => "ERROR"
  | _ => "UNKNOWN"

end Severity

namespace Code

/-- What codes without a meaning of their own are shown as. -/
def unknown : Code := ⟨0⟩

-- What the lexer finds.
def unknownCharacter : Code := ⟨1001⟩
def unterminatedString : Code := ⟨1002⟩
def malformedNumber : Code := ⟨1003⟩
def badEscape : Code := ⟨1004⟩
def badIndentation : Code := ⟨1005⟩

-- What the parser finds.
def unexpectedToken : Code := ⟨2001⟩
def expectedExpression : Code := ⟨2002⟩
def expectedIdentifier : Code := ⟨2003⟩
def expectedType : Code := ⟨2004⟩
def expectedLineEnd : Code := ⟨2005⟩
def expectedBlock : Code := ⟨2006⟩
/-- A line is indented further although no block can start there. -/
def unexpectedIndentation : Code := ⟨2007⟩
def tagWithoutFunction : Code := ⟨2008⟩
def namespacePosition : Code := ⟨2009⟩
def badAssignmentTarget : Code := ⟨2010⟩

-- Names.
def unresolvedName : Code := ⟨3101⟩
def duplicateName : Code := ⟨3102⟩
def shadowedName : Code := ⟨3103⟩
def notAType : Code := ⟨3104⟩
/-- Two functions whose resource names are the same. -/
def nameCollision : Code := ⟨3105⟩
/-- An operator is applied to a name that nothing declares. -/
def undeclaredAssignment : Code := ⟨3106⟩

-- Types.
def typeMismatch : Code := ⟨3201⟩
def badOperand : Code := ⟨3202⟩
def notBoolean : Code := ⟨3203⟩
def notCallable : Code := ⟨3204⟩
def voidValue : Code := ⟨3205⟩
def returnMismatch : Code := ⟨3206⟩
def integerRange : Code := ⟨3207⟩
def notAssignable : Code := ⟨3208⟩
/-- A variable without a type and without a value. -/
def missingTypeInfo : Code := ⟨3209⟩
/-- A function that has a result may end without one. -/
def missingReturn : Code := ⟨3210⟩
def functionAsValue : Code := ⟨3211⟩
def typeAsValue : Code := ⟨3212⟩
def aliasCycle : Code := ⟨3213⟩

def arityMismatch : Code := ⟨3301⟩

-- Statements that leave what they do not stand in.
def breakOutsideLoop : Code := ⟨3401⟩
def continueOutsideLoop : Code := ⟨3402⟩
def returnOutsideFunction : Code := ⟨3403⟩

-- What has no place in a data pack.
def tagWithParameters : Code := ⟨3501⟩
def badTagName : Code := ⟨3502⟩
/-- A literal that cannot be pasted into a command. -/
def concatenatedQuote : Code := ⟨3503⟩

-- The units of a build together.
def duplicateNamespace : Code := ⟨5001⟩

/-- What a code says in a few words. -/
def title (c : Code) : Bytes :=
  match c.number with
  | 1000 => "Lexical information"
  | 1001 => "Unknown character"
  | 1002 => "Unterminated string literal"
  | 1003 => "Malformed number literal"
  | 1004 => "Invalid escape sequence"
  | 1005 => "Inconsistent indentation"
  | 2000 => "Syntax information"
  | 2001 => "Unexpected token"
  | 2002 => "Expected expression"
  | 2003 => "Expected identifier"
  | 2004 => "Expected type"
  | 2005 => "Expected end of line"
  | 2006 => "Expected indented block"
  | 2007 => "Unexpected indentation"
  | 2008 => "Tag must precede a function"
  | 2009 => "Namespace must be the first declaration"
  | 2010 => "Invalid assignment target"
  | 3000 => "Semantic information"
  | 3101 => "Undeclared name"
  | 3102 => "Name already declared"
  | 3103 => "Declaration shadows outer name"
  | 3104 => "Unknown type"
  | 3105 => "Function names collide"
  | 3106 => "Compound assignment to undeclared name"
  | 3201 => "Type mismatch"
  | 3202 => "Unsupported operation"
  | 3203 => "Not a boolean expression"
  | 3204 => "Unknown function"
  | 3205 => "Function does not return a value"
  | 3206 => "Return does not match the function signature"
  | 3207 => "Integer literal out of range"
  | 3208 => "Cannot assign to this name"
  | 3209 => "Variable needs a type or an initializer"
  | 3210 => "Missing return"
  | 3211 => "Function used as a value"
  | 3212 => "Type used as a value"
  | 3213 => "Recursive type alias"
  | 3301 => "Passed arguments don't match the function signature"
  | 3401 => "break outside of a loop"
  | 3402 => "continue outside of a loop"
  | 3403 => "return outside of a function"
  | 3501 => "Can't tag a function with a non-empty parameter list"
  | 3502 => "Invalid tag name"
  | 3503 => "String with quotes or backslashes in a concatenating unit"
  | 4001 => "I/O load file error"
  | 4002 => "I/O write error"
  | 4003 => "Output already exists"
  | 5000 => "Project information"
  | 5001 => "Duplicate namespace"
  | 5002 => "Invalid project manifest"
  | 5003 => "No sources to compile"
  | _ => "Unknown error"

end Code

/-- The class of errors a code belongs to. -/
inductive Category where
  | lexical | grammar | name | type | arity | controlFlow | semantic | inputOutput | project | unknown
deriving DecidableEq, Repr

namespace Category

/-- How the class is called in listings. -/
def label : Category → Bytes
  | lexical => "LexicalError"
  | grammar => "SyntaxError"
  | name => "NameError"
  | type => "TypeError"
  | arity => "ArityError"
  | controlFlow => "ControlFlowError"
  | semantic => "SemanticError"
  | inputOutput => "IOError"
  | project => "ProjectError"
  | unknown => "Error"

end Category

namespace Code

/-- The thousands of a code say which part of the compiler speaks, and the hundreds tell semantic codes apart. -/
def category (c : Code) : Category :=
  match c.number / 1000 with
  | 1 => .lexical
  | 2 => .grammar
  | 3 =>
    match c.number / 100 with
    | 31 => .name
    | 32 => .type
    | 33 => .arity
    | 34 => .controlFlow
    | _ => .semantic
  | 4 => .inputOutput
  | 5 => .project
  | _ => .unknown

/-- The stable identifier, such as `SYN2001`. -/
def id (c : Code) : Bytes :=
  match c.number / 1000 with
  | 1 => "LEX" ++ Bytes.decimal c.number
  | 2 => "SYN" ++ Bytes.decimal c.number
  | 3 => "SEM" ++ Bytes.decimal c.number
  | 4 => "IO" ++ Bytes.decimal c.number
  | 5 => "PRJ" ++ Bytes.decimal c.number
  | _ => "E0000"

end Code

/-- A place that matters for a diagnostic, and why it does. -/
structure Note where
  span : Span
  message : Bytes
deriving DecidableEq, Repr, Inhabited

/-- What is wrong, how grave it is, and where it is; notes are shown below. -/
structure Diagnostic where
  severity : Severity
  code : Code
  message : Bytes
  span : Span
  notes : List Note := []
deriving DecidableEq, Repr, Inhabited

namespace Diagnostic

def error (code : Code) (span : Span) (message : Bytes) (notes : List Note := []) : Diagnostic :=
  ⟨.error, code, message, span, notes⟩

def warning (code : Code) (span : Span) (message : Bytes) (notes : List Note := []) : Diagnostic :=
  ⟨.warning, code, message, span, notes⟩

def isError (d : Diagnostic) : Bool := d.severity.isError

/-- The diagnostic that says nothing. -/
def blank : Diagnostic := ⟨.info, .unknown, [], ⟨0, 0, 0⟩, []⟩

end Diagnostic

/-- Diagnostics in the order they came. A limit of zero is none. -/
structure Bag where
  limit : Nat := 0
  items : List Diagnostic := []
deriving Repr

namespace Bag

/-- An empty bag; a negative limit is none. -/
def ofLimit (limit : Int) : Bag := ⟨limit.toNat, []⟩

/-- Can the bag take no more? -/
def isFull (b : Bag) : Bool := 0 < b.limit && b.limit ≤ b.items.length

/-- A bag that is full drops what comes, whatever it is. -/
def add (b : Bag) (d : Diagnostic) : Bag :=
  if b.isFull then b else ⟨b.limit, b.items ++ [d]⟩

/-- Adds diagnostics one after the other, as far as there is room. -/
def addAll (b : Bag) (ds : List Diagnostic) : Bag := ds.foldl add b

/-- Takes over all diagnostics of another bag; the limit grows if it has to. -/
def merge (b : Bag) (ds : List Diagnostic) : Bag :=
  let total := b.items.length + ds.length
  ⟨if 0 < b.limit && b.limit < total then total else b.limit, b.items ++ ds⟩

/-- Errors that were dropped do not count. -/
def hasErrors (b : Bag) : Bool := b.items.any (·.severity.isError)

def hasWarnings (b : Bag) : Bool := b.items.any (·.severity.isWarning)

def errorCount (b : Bag) : Nat := b.items.countP (·.severity.isError)

/-- The diagnostics of one category. -/
def ofCategory (b : Bag) (label : Bytes) : List Diagnostic :=
  b.items.filter fun d => d.code.category.label == label

end Bag

end Craftlang
