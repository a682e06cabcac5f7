import Craftlang.Source.File

/-!
# Cursors

A place in a file that moves one byte at a time. At the end of the file it reads as zero and does
not move.
-/

namespace Craftlang

structure Cursor where
  file : Nat
  content : Bytes
  offset : Nat := 0

namespace Cursor

def start (f : File) : Cursor := ⟨f.id, f.content, 0⟩

def atEnd (c : Cursor) : Bool := c.content.length ≤ c.offset

/-- The byte here, zero at the end. -/
def peek (c : Cursor) : UInt8 := (c.content[c.offset]?).getD 0

/-- The byte here and the one after it, if both are there. -/
def peekPair? (c : Cursor) : Option (UInt8 × UInt8) :=
  match c.content.drop c.offset with
  | a :: b :: _ => some (a, b)
  | _ => none

/-- Steps over the byte here and says which one it was. -/
def bump (c : Cursor) : UInt8 × Cursor :=
  if c.atEnd then (0, c) else (c.peek, { c with offset := c.offset + 1 })

/-- Steps over the byte here if it is `b`. -/
def eat (c : Cursor) (b : UInt8) : Bool × Cursor :=
  if !c.atEnd && c.peek == b then (true, { c with offset := c.offset + 1 }) else (false, c)

/-- From a mark to here. -/
def spanFrom (c : Cursor) (mark : Nat) : Span := ⟨c.file, mark, c.offset⟩

/-- Goes back to a mark. -/
def reset (c : Cursor) (mark : Nat) : Cursor := { c with offset := mark }

end Cursor

end Craftlang
