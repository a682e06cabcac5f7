import Craftlang.Text.Bytes

/-!
# Numbered names

A table gives each name a number when it first sees it; number zero is the empty name.
-/

namespace Craftlang

structure NameTable where
  names : List Bytes := [[]]
deriving Repr

namespace NameTable

def size (t : NameTable) : Nat := t.names.length

def number? (t : NameTable) (name : Bytes) : Option Nat := t.names.findIdx? (· == name)

/-- The number of a name, a new one if the name is new. -/
def intern (t : NameTable) (name : Bytes) : NameTable × Nat :=
  match t.number? name with
  | some n => (t, n)
  | none => (⟨t.names ++ [name]⟩, t.names.length)

def get? (t : NameTable) (number : Nat) : Option Bytes := t.names[number]?

end NameTable

end Craftlang
