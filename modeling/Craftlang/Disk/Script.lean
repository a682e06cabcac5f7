import Craftlang.Disk.Basic

/-!
# Scripts

What a program does with files, as data. A `Query` only asks: it cannot change anything. A `Script` asks
and changes. Both can be run on a disk in memory, which is what statements are about, or be performed on
a real one.

Main statements: running a sequence is running its parts one after the other.
-/

namespace Craftlang

/-- What can be asked about files. -/
inductive Question where
  | kind (path : Bytes)
  | content (path : Bytes)
  /-- Every file below a directory, by the names that lead to it from there. -/
  | filesBelow (path : Bytes)
deriving DecidableEq, Repr

def Question.Answer : Question → Type
  | kind _ => Except DiskCause FileKind
  | content _ => Except DiskFault Bytes
  | filesBelow _ => Except DiskCause (List Place)

/-- What can be changed. -/
inductive Change where
  | write (path content : Bytes)
  | makeDirs (path : Bytes)
  | remove (path : Bytes)
deriving DecidableEq, Repr

/-- A disk, and the directory where relative paths start. -/
structure Workspace where
  disk : Disk
  workingDir : Place := []

namespace Workspace

def answer (w : Workspace) : (q : Question) → q.Answer
  | .kind path => w.disk.kind w.workingDir path
  | .content path => w.disk.content w.workingDir path
  | .filesBelow path =>
    (w.disk.locate w.workingDir path).map fun (place, _) => w.disk.filesBelow place

/-- Makes a change. -/
def change (w : Workspace) (c : Change) : Workspace × Except DiskFault Unit :=
  let (disk, result) := match c with
    | .write path content => w.disk.write w.workingDir path content
    | .makeDirs path => w.disk.makeDirs w.workingDir path
    | .remove path => w.disk.remove w.workingDir path
  ({ w with disk }, result)

end Workspace

/-- A program that asks about files. -/
inductive Query (α : Type) where
  | done (value : α)
  | ask (q : Question) (next : q.Answer → Query α)

namespace Query

variable {α β : Type}

def bind : Query α → (α → Query β) → Query β
  | done value, f => f value
  | ask q next, f => ask q fun answer => (next answer).bind f

instance : Monad Query where
  pure := done
  bind := bind

def kind (path : Bytes) : Query (Except DiskCause FileKind) := ask (.kind path) done

def content (path : Bytes) : Query (Except DiskFault Bytes) := ask (.content path) done

def filesBelow (path : Bytes) : Query (Except DiskCause (List Place)) :=
  ask (.filesBelow path) done

/-- What a query finds out. -/
def run (w : Workspace) : Query α → α
  | done value => value
  | ask q next => (next (w.answer q)).run w

@[simp]
theorem run_pure (w : Workspace) (value : α) : (pure value : Query α).run w = value := rfl

@[simp]
theorem run_bind (w : Workspace) (q : Query α) (f : α → Query β) :
    (q >>= f).run w = (f (q.run w)).run w := by
  induction q with
  | done => rfl
  | ask q next ih => exact ih (w.answer q)

end Query

/-- A program that asks about files and changes them. -/
inductive Script (α : Type) where
  | done (value : α)
  | ask (q : Question) (next : q.Answer → Script α)
  | change (c : Change) (next : Except DiskFault Unit → Script α)

namespace Script

variable {α β : Type}

def bind : Script α → (α → Script β) → Script β
  | done value, f => f value
  | ask q next, f => ask q fun answer => (next answer).bind f
  | change c next, f => change c fun result => (next result).bind f

instance : Monad Script where
  pure := done
  bind := bind

/-- A query as a script. -/
def ofQuery : Query α → Script α
  | .done value => done value
  | .ask q next => ask q fun answer => ofQuery (next answer)

/-- Makes a change. -/
def perform (c : Change) : Script (Except DiskFault Unit) := change c done

/-- What a script makes of a workspace, and its result. -/
def run (w : Workspace) : Script α → Workspace × α
  | done value => (w, value)
  | ask q next => (next (w.answer q)).run w
  | change c next => (next (w.change c).2).run (w.change c).1

@[simp]
theorem run_pure (w : Workspace) (value : α) : (pure value : Script α).run w = (w, value) := rfl

@[simp]
theorem run_perform (w : Workspace) (c : Change) : (perform c).run w = w.change c := rfl

@[simp]
theorem run_bind (w : Workspace) (s : Script α) (f : α → Script β) :
    (s >>= f).run w = (f (s.run w).2).run (s.run w).1 := by
  induction s generalizing w with
  | done => rfl
  | ask q next ih => exact ih _ w
  | change c next ih => exact ih _ _

/-- Makes changes whether or not those before have failed. -/
def performAll : List Change → Script Unit
  | [] => pure ()
  | c :: rest => do
    let _ ← perform c
    performAll rest

/-- Makes changes until one fails; each comes with what a fault would mean. -/
def performUntilFault {ε : Type} : List (Change × (DiskFault → ε)) → Script (Option ε)
  | [] => pure none
  | (c, failure) :: rest => do
    match ← perform c with
    | .error fault => pure (some (failure fault))
    | .ok () => performUntilFault rest

/-- Asking changes nothing. -/
@[simp]
theorem run_ofQuery (w : Workspace) (q : Query α) : (ofQuery q).run w = (w, q.run w) := by
  induction q with
  | done => rfl
  | ask q next ih => exact ih (w.answer q)

end Script

end Craftlang
