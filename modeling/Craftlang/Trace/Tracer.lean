import Craftlang.Trace.Event

/-!
# Tracers

A tracer numbers the events that its level admits, writes them out, and keeps the latest in a ring. It
also knows the open spans: an event belongs to the innermost of those that were admitted.
-/

namespace Craftlang.Trace

/-- The latest events. The next one is written at `head`; once all slots were written, there stands the oldest. -/
structure Ring where
  slots : List Event
  head : Nat := 0
  /-- Was every slot written? -/
  isFull : Bool := false
deriving Repr

namespace Ring

/-- How many events a ring keeps if a number of them is asked for; the standard number unless it is positive. -/
def capacityFor (size : Int) : Nat := if size ≤ 0 then 4096 else size.toNat

/-- A ring in which nothing was written. -/
def ofSize (size : Int) : Ring := { slots := List.replicate (capacityFor size) default }

def push (r : Ring) (e : Event) : Ring :=
  let next := (r.head + 1) % r.slots.length
  { slots := r.slots.set r.head e, head := next, isFull := r.isFull || next == 0 }

/-- The events that are kept, oldest first. -/
def snapshot (r : Ring) : List Event :=
  if r.isFull then r.slots.drop r.head ++ r.slots.take r.head else r.slots.take r.head

def render (r : Ring) (format : Format) : Bytes := r.snapshot.flatMap (·.render format)

end Ring

/-- A span that has begun; number 0 is a span that was not admitted. -/
structure OpenSpan where
  id : Nat
  parent : Nat
  scope : Scope
  name : Bytes
  extra : List (Bytes × Bytes) := []
deriving Repr

structure Tracer where
  level : Level
  /-- The format in which events are written out, if they are. -/
  stream : Option Format := none
  ring : Option Ring := none
  written : Bytes := []
  lastSeq : Nat := 0
  lastSpan : Nat := 0
  /-- The open spans, innermost first. -/
  spans : List OpenSpan := []

namespace Tracer

/-- The tracer that traces nothing. -/
def silent : Tracer := { level := .off }

/-- A tracer that keeps events in memory. -/
def inMemory (level : Level) (size : Int) : Tracer := { level, ring := some (.ofSize size) }

/-- What is wrong with a mode that is not known. -/
def unknownMode (mode : Mode) : Bytes :=
  "unknown storage mode: " ++ Bytes.ofString mode.name

/-- A tracer that sends events where a mode says. -/
def ofMode? (level : Level) (mode : Mode) (format : Format) (path : Bytes) (size : Int) :
    Option Tracer :=
  if level = .off then some silent
  else match mode with
    | .stream => some { level, stream := some (format.forOutput path) }
    | .ring => some (inMemory level size)
    | .both => some { inMemory level size with stream := some (format.forOutput path) }
    | .unknown => none

def isEnabled (t : Tracer) : Bool := t.level.isEnabled

def admits (t : Tracer) (s : Scope) : Bool := t.isEnabled && t.level.admits s

/-- Writes an event out, under the next number. -/
def write (t : Tracer) (e : Event) : Tracer :=
  match t.stream with
  | none => t
  | some format =>
    { t with
      lastSeq := t.lastSeq + 1
      written := t.written ++ { e with seq := t.lastSeq + 1 }.render format }

/-- Keeps an event, under the next number. -/
def keep (t : Tracer) (e : Event) : Tracer :=
  match t.ring with
  | none => t
  | some ring =>
    { t with
      lastSeq := t.lastSeq + 1
      ring := some (ring.push { e with seq := t.lastSeq + 1 }) }

/-- Takes an event in, if it is admitted. -/
def emit (t : Tracer) (e : Event) : Tracer :=
  if t.admits e.scope then (t.write e).keep e else t

/-- The innermost open span that was admitted; 0 if there is none. -/
def current (t : Tracer) : Nat := ((t.spans.find? fun s => s.id != 0).map (·.id)).getD 0

/-- Begins a span inside the current one. -/
def enter (t : Tracer) (scope : Scope) (name : Bytes) : Tracer :=
  if t.admits scope then
    let id := t.lastSpan + 1
    let parent := t.current
    let begun := { t with lastSpan := id, spans := ⟨id, parent, scope, name, []⟩ :: t.spans }
    begun.emit { kind := .spanBegin, scope, name, span := id, parent }
  else { t with spans := ⟨0, 0, scope, name, []⟩ :: t.spans }

/-- Attaches a value to the innermost span; it replaces an earlier one under the same key. -/
def attach (t : Tracer) (key value : Bytes) : Tracer :=
  match t.spans with
  | [] => t
  | s :: rest =>
    { t with spans := { s with extra := s.extra.filter (·.1 != key) ++ [(key, value)] } :: rest }

/-- Ends the innermost span. -/
def leave (t : Tracer) (detail : Bytes) : Tracer :=
  match t.spans with
  | [] => t
  | s :: rest =>
    let ended := { t with spans := rest }
    if s.id = 0 then ended
    else ended.emit
      { kind := .spanEnd, scope := s.scope, name := s.name, span := s.id, parent := s.parent,
        detail, extra := s.extra }

/-- Marks an instant inside the current span. -/
def mark (t : Tracer) (scope : Scope) (name detail : Bytes) : Tracer :=
  if t.admits scope then
    let id := t.lastSpan + 1
    { t with lastSpan := id }.emit
      { kind := .point, scope, name, span := id, parent := t.current, detail }
  else t

end Tracer

/-- What a run tells a tracer. -/
inductive Step where
  | enter (scope : Scope) (name : Bytes)
  | attach (key value : Bytes)
  | leave (detail : Bytes)
  | mark (scope : Scope) (name detail : Bytes)
deriving DecidableEq, Repr

def Tracer.follow (t : Tracer) : Step → Tracer
  | .enter scope name => t.enter scope name
  | .attach key value => t.attach key value
  | .leave detail => t.leave detail
  | .mark scope name detail => t.mark scope name detail

end Craftlang.Trace
