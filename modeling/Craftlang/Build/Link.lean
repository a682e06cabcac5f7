import Craftlang.Build.Compile

/-!
# Building several units

Units are compiled one after the other and then put together to one pack. No two units may have the same
namespace: the later one is reported and loses its pack.
-/

namespace Craftlang

/-- Reports that a namespace is taken. -/
def CompilationUnit.duplicateSpace (u : CompilationUnit) (space owner : Bytes) : Diagnostic :=
  let span := ((u.findings.program.bind (·.header)).map (·.span)).getD ⟨u.file.id, 0, 0⟩
  .error .duplicateNamespace span
    ("namespace '" ++ space ++ "' is already used by " ++ owner)

/-- Takes the pack away from every unit whose namespace an earlier one has. The owners are the
namespaces met so far with the names of their units. -/
def checkSpaces (owners : List (Bytes × Bytes)) : List CompilationUnit → List CompilationUnit
  | [] => []
  | u :: us =>
    match u.failure, u.space with
    | none, some space =>
      match owners.lookup space.render with
      | none => u :: checkSpaces (owners ++ [(space.render, u.name)]) us
      | some owner =>
        { u.report [u.duplicateSpace space.render owner] with datapack := none }
          :: checkSpaces owners us
    | _, _ => u :: checkSpaces owners us

namespace Session

/-- Compiles units in order. Once one is given up, so are those that follow. -/
def compileEach (s : Session) (o : BuildOptions) : List UnitInput → Session × List CompilationUnit
  | [] => (s, [])
  | input :: inputs =>
    let (s, u) := s.compile o input
    let s := { s with isCancelled := s.isCancelled || u.failure.isSome }
    let (s, us) := s.compileEach o inputs
    (s, u :: us)

/-- Compiles all units of a build. A namespace that the options give holds for a single unit only. -/
def compileAll (s : Session) (o : BuildOptions) (inputs : List UnitInput) :
    Session × List CompilationUnit :=
  let start := s.tell (.enter .build "compile")
  let start := start.tell (.attach "units" (Bytes.decimal inputs.length))
  let queued := inputs.foldl (fun s input => s.announce ⟨input.name, none, .queued, none⟩) start
  let o := if 1 < inputs.length then { o with space := [] } else o
  let (done, us) := queued.compileEach o inputs
  ({ done with isCancelled := s.isCancelled }.tell (.leave []), checkSpaces [] us)

end Session

/-- Why units cannot be put together. -/
inductive LinkError where
  | noOutput (unit : Bytes)
  | merge (error : MergeError)
deriving DecidableEq, Repr

def LinkError.message : LinkError → Bytes
  | noOutput unit => "link: " ++ unit ++ " has no output"
  | merge error => "link: " ++ error.message

/-- Adds the packs of units to a pack; every unit has to have one. -/
def linkInto (pack : Datapack) : List (Bytes × Option Datapack) → Except LinkError Datapack
  | [] => .ok pack
  | (name, none) :: _ => .error (.noOutput name)
  | (_, some d) :: rest =>
    match pack.merge d with
    | (merged, none) => linkInto merged rest
    | (_, some e) => .error (.merge e)

/-- The pack of a whole build, from the packs of its units by name. -/
def linkPacks (o : BuildOptions) (packs : List (Bytes × Option Datapack)) :
    Except LinkError Datapack :=
  linkInto { statedFormat := o.format, description := o.description } packs

/-- What a unit has to offer for a build. -/
def CompilationUnit.output (u : CompilationUnit) : Bytes × Option Datapack := (u.name, u.datapack)

/-- Puts the packs of a build together and announces it. -/
def Session.link (s : Session) (o : BuildOptions) (packs : List (Bytes × Option Datapack)) :
    Session × Except LinkError Datapack :=
  match linkPacks o packs with
  | .ok d => (s.announce ⟨[], some .link, .done, none⟩, .ok d)
  | .error e => (s, .error e)

end Craftlang
