import Craftlang.Text.Bytes

/-!
# Spans

A span is a half-open range of bytes in one file. Offsets are numbers below 2^32.
-/

namespace Craftlang

structure Span where
  file : Nat
  start : Nat
  stop : Nat
deriving DecidableEq, Repr, Inhabited

namespace Span

/-- The empty span at an offset. -/
def point (file offset : Nat) : Span := ⟨file, offset, offset⟩

def isEmpty (s : Span) : Bool := s.start == s.stop

/-- The number of bytes, in the arithmetic of 32-bit words: a span that ends before it starts wraps
around. -/
def length (s : Span) : Nat := (s.stop + 0x100000000 - s.start) % 0x100000000

/-- The smallest span that holds both; a span of another file is left aside. -/
def cover (s other : Span) : Span :=
  if s.file = other.file then ⟨s.file, min s.start other.start, max s.stop other.stop⟩ else s

/-- Does `other` lie within `s`? -/
def contains (s other : Span) : Bool :=
  s.file == other.file && s.start ≤ other.start && other.stop ≤ s.stop

def startPoint (s : Span) : Span := ⟨s.file, s.start, s.start⟩

def endPoint (s : Span) : Span := ⟨s.file, s.stop, s.stop⟩

/-- The text `file:start-stop`. -/
def render (s : Span) : Bytes :=
  Bytes.decimal s.file ++ ":" ++ Bytes.decimal s.start ++ "-" ++ Bytes.decimal s.stop

end Span

end Craftlang
