import Craftlang.Build.Cache
import Craftlang.Build.Options
import Craftlang.Code.Program
import Craftlang.Report.Timing
import Craftlang.Scope.Validity
import Craftlang.Trace.Tracer

/-!
# Compiling a unit

A unit goes through the stages one after the other, and its diagnostics are collected in one bag. A pack
is generated only if no error was reported. A `Session` is what units share: the caches, the events
for whoever watches, and the trace.
-/

namespace Craftlang

/-- Why a unit was given up, for reasons that are not in its source. -/
inductive UnitFailure where
  | cancelled
  | invalidTable (unit : Bytes) (faults : List Bytes)
  | generation (unit : Bytes) (error : GenerationError)
deriving DecidableEq, Repr

namespace UnitFailure

def message : UnitFailure → Bytes
  | cancelled => "context canceled"
  | invalidTable unit faults => "internal error in " ++ unit ++ ": " ++ Bytes.join "\n" faults
  | generation unit error => "generate " ++ unit ++ ": " ++ error.message

end UnitFailure

/-- A unit and everything that was found out about it. -/
structure CompilationUnit where
  name : Bytes
  files : FileSet
  file : File
  bag : Bag
  /-- The namespace, once it is known. -/
  space : Option Namespace := none
  phases : List Phase := []
  findings : Findings := {}
  datapack : Option Datapack := none
  /-- Does the result come from the cache? -/
  isCached : Bool := false
  failure : Option UnitFailure := none

namespace CompilationUnit

def start (input : UnitInput) (o : BuildOptions) : CompilationUnit :=
  let (files, file) := ({} : FileSet).addNormalized input.name input.content { isVirtual := true }
  { name := input.name, files, file, bag := .ofLimit o.limit }

def status (u : CompilationUnit) : Status := if u.bag.hasErrors then .error else .done

/-- The namespace as text; empty as long as it is not known. -/
def spaceText (u : CompilationUnit) : Bytes := (u.space.map Namespace.render).getD []

def report (u : CompilationUnit) (ds : List Diagnostic) : CompilationUnit :=
  { u with bag := u.bag.addAll ds }

def addPhase (u : CompilationUnit) (name note : Bytes) : CompilationUnit :=
  { u with phases := u.phases ++ [{ name, note }] }

/-- The namespace of a unit: what the options say, what its source says, or what its name says. -/
def deriveSpace (u : CompilationUnit) (o : BuildOptions) : Namespace :=
  if !o.space.isEmpty then .ofDotted o.space
  else match u.findings.program.bind (·.header) with
    | some header => .ofParts header.parts
    | none => .ofFileName u.name

end CompilationUnit

/-- What the units of a build share. -/
structure Session where
  parsed : Option ParseCache := none
  results : Option ResultCache := none
  isCancelled : Bool := false
  events : List ProgressEvent := []
  trace : List Trace.Step := []

namespace Session

def announce (s : Session) (e : ProgressEvent) : Session := { s with events := s.events ++ [e] }

def tell (s : Session) (step : Trace.Step) : Session := { s with trace := s.trace ++ [step] }

/-- Runs a stage, which answers with a note. It is announced before and after. -/
def stage (s : Session) (u : CompilationUnit) (stage : Stage)
    (work : Session → CompilationUnit → Session × CompilationUnit × Bytes) :
    Session × CompilationUnit :=
  let working : ProgressEvent := ⟨u.name, some stage, .working, none⟩
  let s := (s.tell (.enter .stage stage.name)).announce working
  let (s, u, note) := work s u
  ((s.tell (.leave note)).announce working, u.addPhase stage.name note)

/-- Parses a file and keeps as many diagnostics as the limit allows. The parser itself reports no more
errors than that, but it does not count what is wrong with the text. -/
def parseWithin (file : File) (limit : Int) : ParsedFile :=
  let parsed := file.parseUpTo limit.toNat
  { parsed with diagnostics := ((Bag.ofLimit limit).addAll parsed.diagnostics).items }

/-- The parsed file of a unit, from the cache if there is one; says whether it was there. -/
def loadParsed (s : Session) (u : CompilationUnit) (o : BuildOptions) :
    Session × ParsedFile × Bool :=
  match s.parsed with
  | none => (s, parseWithin u.file o.limit, false)
  | some cache =>
    let (cache, found, hit) := cache.load (Digest.ofParsed u.file) fun _ =>
      parseWithin u.file o.limit
    ({ s with parsed := some cache }, found, hit)

/-- Parses a unit. -/
def parseStage (s : Session) (u : CompilationUnit) (o : BuildOptions) : Session × CompilationUnit :=
  s.stage u .parse fun s u =>
    let (s, parsed, hit) := s.loadParsed u o
    let u := { u with findings := { program := some parsed.program } }.report parsed.diagnostics
    let verb : Bytes := if hit then "ast cache hit" else "parsed"
    (s, u, verb ++ ", " ++ Bytes.decimal parsed.program.items.length ++ " items")

/-- Resolves the names of a unit. -/
def resolveStage (s : Session) (u : CompilationUnit) (o : BuildOptions) (p : Program) :
    Session × CompilationUnit × Resolution :=
  let r := p.resolve o.warnShadow
  let (s, u) := s.stage u .resolve fun s u =>
    (s, { u with findings := { u.findings with resolution := some r } }.report r.diagnostics,
      Bytes.decimal r.table.symbols.length ++ " symbols")
  (s, u, r)

/-- Types a unit. -/
def checkStage (s : Session) (u : CompilationUnit) (p : Program) (r : Resolution) :
    Session × CompilationUnit :=
  s.stage u .check fun s u =>
    let t := p.typed r
    (s, { u with findings := { u.findings with typing := some t } }.report t.diagnostics,
      Bytes.decimal t.functions.length ++ " functions")

/-- Generates the pack of a unit. Errors that generating reports are like those of other stages; all
else gives the unit up. -/
def generateStage (s : Session) (u : CompilationUnit) (o : BuildOptions) :
    Session × CompilationUnit :=
  s.stage u .generate fun s u =>
    let (result, bag) := u.findings.generate 1 (u.space.getD .anonymous) o.format o.description
      (some u.bag)
    let u := { u with bag := bag.getD u.bag }
    match result with
    | .ok pack =>
      (s, { u with datapack := some pack },
        Bytes.decimal pack.functions.length ++ " functions")
    | .error .hasErrors => (s, u, "failed")
    | .error e => (s, { u with failure := some (.generation u.name e) }, "failed")

/-- Marks the generated functions in the trace. -/
def markFunctions (s : Session) (d : Datapack) : Session :=
  d.functions.foldl (fun s f =>
    s.tell (.mark .function f.resource (Bytes.decimal f.lines.length ++ " lines"))) s

/-- Runs the stages of a unit. -/
def run (s : Session) (u : CompilationUnit) (o : BuildOptions) : Session × CompilationUnit :=
  if s.isCancelled then (s, { u with failure := some .cancelled })
  else
    let (s, u) := s.parseStage u o
    let u := { u with space := some (u.deriveSpace o) }
    match u.findings.program with
    | none => (s, u)
    | some p =>
      let (s, u, r) := s.resolveStage u o p
      let faults := r.table.faults
      if !faults.isEmpty then
        (s, { u with failure := some (.invalidTable u.name (faults.map (·.message))) })
      else
        let (s, u) := s.checkStage u p r
        if u.bag.hasErrors then (s, u)
        else
          let (s, u) := s.generateStage u o
          match u.datapack with
          | some d => (s.markFunctions d, u)
          | none => (s, u)

/-- Fills a unit from the cache of results, if it has one that can be used. -/
def loadResult? (s : Session) (u : CompilationUnit) (key : Bytes) :
    Option (Session × CompilationUnit) :=
  match s.results.bind fun cache => cache.usable? key with
  | none => none
  | some (found, pack) =>
    let inUnit (span : Span) : Span := { span with file := u.file.id }
    let ds := found.diagnostics.map fun d =>
      { d with
        span := inUnit d.span
        notes := d.notes.map fun n => { n with span := inUnit n.span } }
    let u := { u with space := some found.space, datapack := some pack, isCached := true }.report ds
    some (s.tell (.mark .stage "cache" ("hit " ++ (Bytes.hex key).take 12)),
      u.addPhase "cache" "disk hit")

/-- Keeps the result of a unit that has a pack. -/
def storeResult (s : Session) (u : CompilationUnit) (key : Bytes) : Session :=
  match s.results, u.datapack with
  | some cache, some pack =>
    let kept : CachedUnit :=
      ⟨CachedUnit.currentSchema, u.name, u.space.getD .anonymous, some pack, u.bag.items⟩
    { s with results := some (cache.put key kept) }
  | _, _ => s

/-- Compiles a unit. A result from the cache is taken even if the build was cancelled. -/
def compile (s : Session) (o : BuildOptions) (input : UnitInput) : Session × CompilationUnit :=
  let u := CompilationUnit.start input o
  let s := s.tell (.enter .unit ("unit:" ++ input.name))
  let key := Digest.ofUnit input.name u.file o
  let finish (s : Session) (u : CompilationUnit) (status : Status) : Session × CompilationUnit :=
    let s := s.announce
      ⟨u.name, some .generate, status, u.failure.map UnitFailure.message⟩
    let s := s.tell (.attach "diagnostics" (Bytes.decimal u.bag.items.length))
    let s := s.tell (.attach "namespace" u.spaceText)
    (s.tell (.leave u.status.name), u)
  match s.loadResult? u key with
  | some (s, u) => finish s u .done
  | none =>
    let (s, u) := s.run u o
    if u.failure.isSome then finish s u .error else finish (s.storeResult u key) u u.status

/-- Parses a unit and finds out its namespace. -/
def parse (s : Session) (o : BuildOptions) (input : UnitInput) : Session × CompilationUnit :=
  let u := CompilationUnit.start input o
  let s := s.tell (.enter .unit ("parse:" ++ input.name))
  if s.isCancelled then
    (s.tell (.leave Status.done.name), { u with failure := some .cancelled })
  else
    let (s, u) := s.parseStage u o
    (s.tell (.leave Status.done.name), { u with space := some (u.deriveSpace o) })

end Session

end Craftlang
