import Craftlang.Tree.Operator

/-!
# A table of numbered types

Types can be handed around as numbers. The first six numbers are the types without parts; function
types follow in the order in which they are asked for, and asking for one again gives the same number.
-/

/-!
## Types

Values are integers, booleans and strings. `void` is the result of a function that returns nothing,
`any` is a parameter that takes every value, and `invalid` stands for a type that is not known because
something is wrong; whatever depends on it is not reported again.
-/

namespace Craftlang

inductive Ty where
  | invalid | void | int | bool | string | any
deriving DecidableEq, Repr, Inhabited

namespace Ty

def label : Ty → String
  | invalid => "invalid"
  | void => "void"
  | int => "int"
  | bool => "bool"
  | string => "string"
  | any => "any"

/-- Can a variable hold values of the type? -/
def isValue : Ty → Bool
  | int | bool | string => true
  | _ => false

/-- Are values of the type kept as scores? Strings are kept in a storage. -/
def isScore : Ty → Bool
  | int | bool => true
  | _ => false

/-- The type a name stands for when it comes with the language. -/
def ofName? (name : Bytes) : Option Ty :=
  if name == "int" then some int
  else if name == "bool" then some bool
  else if name == "string" then some string
  else none

/-- May a value of type `source` be stored where `target` is expected? -/
def accepts (target source : Ty) : Bool :=
  if target = invalid || source = invalid then true
  else if target = any then source.isValue
  else target = source

end Ty

/-- The result type of an operator, if it can be applied to the types of its operands. -/
def BinaryOp.result? (op : BinaryOp) (left right : Ty) : Option Ty :=
  match op with
  | .or | .xor | .and => if left = .bool && right = .bool then some .bool else none
  | .eq | .notEq => if left = right && left.isScore then some .bool else none
  | .less | .lessEq | .greater | .greaterEq =>
    if left = .int && right = .int then some .bool else none
  | .concat => if left = .string && right = .string then some .string else none
  | .add | .sub | .mul | .div | .mod => if left = .int && right = .int then some .int else none

/-- The result type of a prefix operator, if it can be applied to the type of its operand. -/
def UnaryOp.result? (op : UnaryOp) (operand : Ty) : Option Ty :=
  match op with
  | .plus | .minus => if operand = .int then some .int else none
  | .not => if operand = .bool then some .bool else none

/-- Operators take values and give values. -/
theorem UnaryOp.isValue_of_result? {op : UnaryOp} {s ty : Ty} (h : op.result? s = some ty) :
    s.isValue = true ∧ ty.isValue = true := by
  cases op <;> cases s <;> cases h <;> exact ⟨rfl, rfl⟩

theorem BinaryOp.isValue_of_result? {op : BinaryOp} {s t ty : Ty} (h : op.result? s t = some ty) :
    s.isValue = true ∧ t.isValue = true ∧ ty.isValue = true := by
  cases op <;> cases s <;> cases t <;> cases h <;> exact ⟨rfl, rfl, rfl⟩

/-- The types of the parameters of a function and of its result. -/
structure Signature where
  params : List Ty
  result : Ty
deriving DecidableEq, Repr, Inhabited

namespace Signature

/-- Parameter labels and, unless it is nothing, the label of the result. -/
def describe (params : List Bytes) (result : Option Bytes) : Bytes :=
  "fn(" ++ Bytes.join ", " params ++ ")" ++ match result with
    | some r => ": " ++ r
    | none => []

def label (s : Signature) : Bytes :=
  describe (s.params.map fun p => p.label) (if s.result = .void then none else some s.result.label)

end Signature

/-- What is known about a name or an expression: the type of its value, or how it is called. -/
inductive TypeInfo where
  | value (type : Ty)
  | function (signature : Signature)
deriving DecidableEq, Repr, Inhabited

def TypeInfo.label : TypeInfo → Bytes
  | value t => t.label
  | function s => s.label

/-- The largest integer; scores are 32-bit numbers. -/
def largestInt : Nat := 2147483647

end Craftlang

namespace Craftlang

/-- What kind of type an entry is; kinds that are not known are kept by number. -/
inductive TypeKind where
  | simple (type : Ty)
  | function
  | unknown (number : Nat)
deriving DecidableEq, Repr, Inhabited

namespace TypeKind

def ofNumber : Nat → TypeKind
  | 0 => simple .invalid
  | 1 => simple .void
  | 2 => simple .int
  | 3 => simple .bool
  | 4 => simple .string
  | 5 => simple .any
  | 6 => function
  | n => unknown n

def number : TypeKind → Nat
  | simple .invalid => 0
  | simple .void => 1
  | simple .int => 2
  | simple .bool => 3
  | simple .string => 4
  | simple .any => 5
  | function => 6
  | unknown n => n

def name : TypeKind → Bytes
  | simple t => t.label
  | function => "fn"
  | unknown n => "Kind(" ++ Bytes.decimal n ++ ")"

/-- The type of this kind as operators see it; a function is no operand. -/
def type : TypeKind → Ty
  | simple t => t
  | _ => .invalid

/-- The number of the family of operands that a kind belongs to; zero is none. -/
def family : TypeKind → Nat
  | simple .int => 2
  | simple .bool => 4
  | simple .string => 8
  | _ => 0

end TypeKind

/-- An entry of the table; for a function the payload is the slot of its signature. -/
structure TypeEntry where
  kind : TypeKind
  payload : Nat := 0
deriving DecidableEq, Repr, Inhabited

/-- A signature by numbers. -/
structure NumberedSignature where
  params : List Nat
  result : Nat
deriving DecidableEq, Repr, Inhabited

/-- Entries by number, and the signatures of the functions; slot 0 belongs to no function. -/
structure TypeTable where
  entries : List TypeEntry
  signatures : List NumberedSignature
deriving Repr

namespace TypeTable

/-- The table with the types without parts. -/
def start : TypeTable :=
  ⟨[.invalid, .void, .int, .bool, .string, .any].map fun t => ⟨.simple t, 0⟩, [⟨[], 0⟩]⟩

/-- The entry with a number; number 0 counts as unknown. -/
def get? (t : TypeTable) (id : Nat) : Option TypeEntry := if id = 0 then none else t.entries[id]?

/-- The kind of a number; unknown numbers are invalid. -/
def kindOf (t : TypeTable) (id : Nat) : TypeKind :=
  ((t.get? id).map (·.kind)).getD (.simple .invalid)

/-- The number of an entry, the latest if it stands there twice; it is added if it is new. -/
def intern (t : TypeTable) (entry : TypeEntry) : TypeTable × Nat :=
  if entry.kind = .simple .invalid then (t, 0)
  else match t.entries.reverse.idxOf? entry with
    | some behind => (t, t.entries.length - 1 - behind)
    | none => ({ t with entries := t.entries ++ [entry] }, t.entries.length)

/-- The signature of a function entry. -/
def signatureOf? (t : TypeTable) (entry : TypeEntry) : Option NumberedSignature :=
  if entry.kind = .function then t.signatures[entry.payload]? else none

/-- The signature of the function with a number. -/
def signature? (t : TypeTable) (id : Nat) : Option NumberedSignature :=
  (t.get? id).bind t.signatureOf?

/-- The number of a function type, which is added if it is new. -/
def register (t : TypeTable) (signature : NumberedSignature) : TypeTable × Nat :=
  match (t.entries.map t.signatureOf?).idxOf? (some signature) with
  | some id => (t, id)
  | none =>
    (⟨t.entries ++ [⟨.function, t.signatures.length⟩], t.signatures ++ [signature]⟩,
      t.entries.length)

/-- The label of a number, to a bounded depth of functions inside functions. -/
def labelWithin (t : TypeTable) : Nat → Nat → Bytes
  | 0, _ => []
  | depth + 1, id =>
    match t.signature? id with
    | none => (t.kindOf id).name
    | some s =>
      Signature.describe (s.params.map (t.labelWithin depth))
        (if t.kindOf s.result = .simple .void then none else some (t.labelWithin depth s.result))

/-- The label of a number; functions nest no deeper than there are entries, save in a cycle. -/
def label (t : TypeTable) (id : Nat) : Bytes := t.labelWithin (t.entries.length + 1) id

/-- May a value of the type `source` be stored where `target` is expected? -/
def accepts (t : TypeTable) (target source : Nat) : Bool :=
  if target = 0 || source = 0 then true
  else if t.kindOf target = .simple .any then (t.kindOf source).type.isValue
  else target = source

end TypeTable

end Craftlang
