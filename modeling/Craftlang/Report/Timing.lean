import Craftlang.Text.Numeral
import Craftlang.Text.Utf8

/-!
# Timings

How long the phases of a run took, in nanoseconds, and how that is reported in milliseconds.
-/

namespace Craftlang

structure Phase where
  name : Bytes
  nanos : Int := 0
  note : Bytes := []
deriving DecidableEq, Repr, Inhabited

namespace Phase

/-- Nanoseconds in milliseconds, with a number of decimal places. -/
def millis (places : Nat) (nanos : Int) : Bytes :=
  let whole := Fixed.nearest ⟨nanos.natAbs, 1⟩
  Bytes.onlyIf (nanos < 0) "-"
    ++ Fixed.places places (Fixed.nearest ⟨whole.num, whole.den * 1000000⟩)

/-- The time of all phases; durations are 64-bit numbers. -/
def total (phases : List Phase) : Int := 
  (phases.foldl (fun (n : Int) (p : Phase) => n + p.nanos) 0).bmod 0x10000000000000000

/-- One line of the table: a name and a duration, with a note if there is one. -/
def row (name : Bytes) (nanos : Int) (note : Bytes) : Bytes :=
  "  " ++ name ++ List.replicate (20 - Utf8.count name) (byte ' ') ++ " "
    ++ Bytes.padLeft 7 (millis 2 nanos) ++ " ms"
    ++ Bytes.onlyIf (!note.isEmpty) ("  // " ++ note) ++ "\n"

/-- The table of all phases and their total. -/
def summary (phases : List Phase) : Bytes :=
  "timings:\n" ++ phases.flatMap (fun p => row p.name p.nanos p.note)
    ++ row "total" (total phases) []

end Phase

end Craftlang
