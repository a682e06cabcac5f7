import Craftlang.Diagnostic.Basic

/-!
# Pending reports

A pending report is a diagnostic on its way to a bag: it is delivered once, however often it is sent. A
`Desk` takes reports in and counts the errors among them, also those the bag has no room for.
-/

namespace Craftlang

structure Desk where
  bag : Bag := {}
  errors : Nat := 0

/-- Takes a diagnostic in. -/
def Desk.receive (desk : Desk) (d : Diagnostic) : Desk :=
  ⟨desk.bag.add d, if d.isError then desk.errors + 1 else desk.errors⟩

structure PendingReport where
  diagnostic : Diagnostic
  isDelivered : Bool := false

namespace PendingReport

/-- Delivers the report unless that was done before. -/
def send (r : PendingReport) (desk : Desk) : PendingReport × Desk :=
  if r.isDelivered then (r, desk) else ({ r with isDelivered := true }, desk.receive r.diagnostic)

/-- Sends the report a number of times. -/
def sendTimes (r : PendingReport) (desk : Desk) : Nat → PendingReport × Desk
  | 0 => (r, desk)
  | n + 1 => let (r, desk) := r.send desk; r.sendTimes desk n

end PendingReport

end Craftlang
