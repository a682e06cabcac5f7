import Craftlang.Build.Link
import Craftlang.Proofs.Diagnostic.Truncation

/-!
# A unit without caches

What the stages find out about an input depends on its text and on whether shadowing is to be
reported; the limit on diagnostics decides only what is kept of it. This file says what the stages
report, when a unit is given up, and what a unit that was not given up looks like.
-/

namespace Craftlang

/-- What generating reports: the literals that cannot be joined, if strings are joined at all. -/
def Emission.unjoinable (s : Emission) : List Diagnostic :=
  match s.joinedAt with
  | none => []
  | some joinedAt => s.quoted.map (quotedString joinedAt)

/-- Every literal that cannot be joined is reported as an error. -/
theorem Emission.isError_of_mem_unjoinable {s : Emission} {d : Diagnostic}
    (hd : d ∈ s.unjoinable) : d.isError = true := by
  rw [unjoinable] at hd
  split at hd
  · cases hd
  · obtain ⟨span, -, rfl⟩ := List.mem_map.mp hd
    rfl

/-- Generating goes by the emitted code as long as no error has been kept. -/
theorem Findings.generate_eq {p : Program} {r : Resolution} {t : Typing} {s : Emission}
    (hs : p.emit r t = s) (ns : Namespace) (format : Int) (description : Bytes) {b : Bag}
    (hb : b.hasErrors = false) :
    (⟨some p, some r, some t⟩ : Findings).generate 1 ns format description (some b) =
      match s.fault with
      | some fault => (.error (.emission fault), some b)
      | none =>
        if s.unjoinable.isEmpty then
          (.ok (packOf ns format description s.finished (t.packTags ns)), some b)
        else (.error .hasErrors, some (b.addAll s.unjoinable)) := by
  rw [generate]
  simp only [Option.map_some, Option.getD_some, hb, hs]
  obtain hf | ⟨fault, hf⟩ := Option.eq_none_or_eq_some s.fault
  · obtain hj | ⟨joinedAt, hj⟩ := Option.eq_none_or_eq_some s.joinedAt
    · simp [Emission.unjoinable, hf, hj]
    · cases hq : s.quoted with
      | nil => simp [Emission.unjoinable, hf, hj, hq]
      | cons first rest => simp [Emission.unjoinable, hf, hj, hq]
  · simp [hf]

namespace UnitInput

variable (input : UnitInput) (shadow : Bool)

def file : File :=
  (({} : FileSet).addNormalized input.name input.content { isVirtual := true }).2

def program : Program := input.file.parse.program

def resolution : Resolution := input.program.resolve shadow

def typing : Typing := input.program.typed (input.resolution shadow)

def emission : Emission := input.program.emit (input.resolution shadow) (input.typing shadow)

/-- What parsing, resolving and typing report, in this order. -/
def reports : List Diagnostic :=
  input.file.parse.diagnostics ++ (input.resolution shadow).diagnostics
    ++ (input.typing shadow).diagnostics

/-- Everything that is known once the unit is typed. -/
def findings : Findings :=
  ⟨some input.program, some (input.resolution shadow), some (input.typing shadow)⟩

/-- Is an error among the reports that a limit lets through? Only these keep a pack from being
generated. -/
def isStopped (limit : Nat) : Bool := (Bag.keep limit (input.reports shadow)).any (·.isError)

/-- Everything the bag of the unit is given. -/
def given (limit : Nat) : List Diagnostic :=
  if input.isStopped shadow limit then input.reports shadow
  else input.reports shadow ++ (input.emission shadow).unjoinable

/-- Do the stages end with a pack? -/
def isPacked (limit : Nat) : Bool :=
  !input.isStopped shadow limit && (input.emission shadow).unjoinable.isEmpty

/-- The namespace of the unit; the options can ask for one. -/
def space (asked : Bytes) : Namespace :=
  if !asked.isEmpty then .ofDotted asked
  else match input.program.header with
    | some header => .ofParts header.parts
    | none => .ofFileName input.name

end UnitInput

/-- The unit of an input after stages that did not give it up. -/
structure CompilationUnit.Judged (o : BuildOptions) (input : UnitInput) (u : CompilationUnit) :
    Prop where
  failure : u.failure = none
  name : u.name = input.name
  file : u.file = input.file
  program : u.findings.program = some input.program
  space : u.space = some (input.space o.space)
  limit : u.bag.limit = o.limit.toNat
  bag : u.bag.Received (input.given o.warnShadow o.limit.toNat)
  datapack : u.datapack.isSome = input.isPacked o.warnShadow o.limit.toNat

/-- The stages can end without the unit being given up: the symbols are in order, and so is the code,
if it comes to that. -/
def UnitInput.IsSound (input : UnitInput) (o : BuildOptions) : Prop :=
  (input.resolution o.warnShadow).table.faults = [] ∧
    (input.isStopped o.warnShadow o.limit.toNat = false →
      (input.emission o.warnShadow).fault = none)

/-- A unit on its way: what is known of its input, and what its bag was given so far. -/
structure CompilationUnit.Reached (o : BuildOptions) (input : UnitInput) (known : Findings)
    (ns : Option Namespace) (ds : List Diagnostic) (u : CompilationUnit) : Prop where
  failure : u.failure = none
  name : u.name = input.name
  file : u.file = input.file
  findings : u.findings = known
  space : u.space = ns
  limit : u.bag.limit = o.limit.toNat
  bag : u.bag.Received ds
  datapack : u.datapack = none

open CompilationUnit (Reached Judged)

namespace Session

/-- A session that keeps neither parsed files nor results. -/
def KeepsNothing (s : Session) : Prop := s.parsed = none ∧ s.results = none

variable {s : Session} {o : BuildOptions} {input : UnitInput} {u : CompilationUnit}
  {known : Findings} {ns : Option Namespace} {ds : List Diagnostic}

/-- The session takes a unit for what parsing it gives. -/
def Reads (s : Session) (o : BuildOptions) (input : UnitInput) : Prop :=
  (s.loadParsed (.start input o) o).2.1 = parseWithin input.file o.limit

theorem reads_of_parsed (o : BuildOptions) (input : UnitInput) (hp : s.parsed = none) :
    s.Reads o input := by
  rw [Reads, loadParsed, hp]
  rfl

/-- What a session finds out about a file depends on the files it keeps. -/
theorem loadParsed_parsed {s s' : Session} (hp : s'.parsed = s.parsed) :
    (s'.loadParsed u o).2 = (s.loadParsed u o).2 := by
  rw [loadParsed, hp, loadParsed]
  split <;> rfl

theorem Reads.congr {s' : Session} (h : s.Reads o input) (hp : s'.parsed = s.parsed) :
    s'.Reads o input := by
  rw [Reads, loadParsed_parsed hp]
  exact h

/-- What parsing a unit gives it, if its file was parsed within some limit, its own or another. -/
theorem parseStage_within {limit : Int}
    (h : (s.loadParsed (.start input o) o).2.1 = parseWithin input.file limit) :
    (s.parseStage (.start input o) o).2.Reached o input { program := some input.program } none
      (Bag.keep limit.toNat input.file.parse.diagnostics) := by
  have hu : ∃ note, (s.parseStage (.start input o) o).2
      = ({ CompilationUnit.start input o with
          findings := { program := some input.program } }.report
            (parseWithin input.file limit).diagnostics).addPhase Stage.parse.name note := by
    generalize hs' : (s.tell (.enter .stage Stage.parse.name)).announce
      ⟨input.name, some .parse, .working, none⟩ = s'
    have hr : (s'.loadParsed (.start input o) o).2.1 = parseWithin input.file limit := by
      have hp : s'.parsed = s.parsed := by rw [← hs']; rfl
      rw [← h, loadParsed_parsed hp]
    have hstage : ∃ note, (s.parseStage (.start input o) o).2
        = ({ CompilationUnit.start input o with
            findings := { program := some (s'.loadParsed (.start input o) o).2.1.program } }.report
              (s'.loadParsed (.start input o) o).2.1.diagnostics).addPhase Stage.parse.name note :=
      ⟨_, by rw [← hs']; rfl⟩
    rw [hr] at hstage
    exact hstage
  obtain ⟨note, hu⟩ := hu
  rw [hu]
  refine ⟨rfl, rfl, rfl, rfl, rfl, Bag.limit_addAll _ _, ?_, rfl⟩
  rw [← diagnostics_parseWithin]
  exact (Bag.received_ofLimit o.limit).addAll (parseWithin input.file limit).diagnostics

theorem parseStage_reached (h : s.Reads o input) :
    (s.parseStage (.start input o) o).2.Reached o input { program := some input.program } none
      input.file.parse.diagnostics := by
  have hu := parseStage_within h
  exact ⟨hu.failure, hu.name, hu.file, hu.findings, hu.space, hu.limit, hu.bag.keep_left hu.limit rfl,
    hu.datapack⟩

/-- The namespace of a unit that is parsed. -/
theorem deriveSpace_of_reached (h : u.Reached o input { program := some input.program } ns ds) :
    u.deriveSpace o = input.space o.space := by
  rw [CompilationUnit.deriveSpace, UnitInput.space, h.findings, h.name]
  rfl

theorem resolveStage_reached (h : u.Reached o input known ns ds) :
    (s.resolveStage u o input.program).2.1.Reached o input
      { known with resolution := some (input.resolution o.warnShadow) } ns
      (ds ++ (input.resolution o.warnShadow).diagnostics) :=
  ⟨h.failure, h.name, h.file, by rw [← h.findings]; rfl, h.space,
    (Bag.limit_addAll _ _).trans h.limit, h.bag.addAll _, h.datapack⟩

theorem checkStage_reached (h : u.Reached o input known ns ds) (shadow : Bool) :
    (s.checkStage u input.program (input.resolution shadow)).2.Reached o input
      { known with typing := some (input.typing shadow) } ns
      (ds ++ (input.typing shadow).diagnostics) :=
  ⟨h.failure, h.name, h.file, by rw [← h.findings]; rfl, h.space,
    (Bag.limit_addAll _ _).trans h.limit, h.bag.addAll _, h.datapack⟩

/-- The unit that generating leaves, by what it answers. -/
theorem generateStage_unit : ∃ note, (s.generateStage u o).2 =
    (match u.findings.generate 1 (u.space.getD .anonymous) o.format o.description (some u.bag) with
      | (.ok pack, bag) => { u with bag := bag.getD u.bag, datapack := some pack }
      | (.error .hasErrors, bag) => { u with bag := bag.getD u.bag }
      | (.error e, bag) =>
        { u with bag := bag.getD u.bag, failure := some (.generation u.name e) }).addPhase
      Stage.generate.name note := by
  simp only [generateStage, stage]
  generalize u.findings.generate 1 (u.space.getD .anonymous) o.format o.description
    (some u.bag) = answer
  obtain ⟨result, bag⟩ := answer
  rcases result with e | pack
  · cases e <;> exact ⟨_, rfl⟩
  · exact ⟨_, rfl⟩

/-- A unit without kept errors is given up by generating exactly if its code is at fault. -/
theorem generateStage_failure {shadow : Bool} (h : u.Reached o input (input.findings shadow) ns ds)
    (hb : u.bag.hasErrors = false) :
    (s.generateStage u o).2.failure = none ↔ (input.emission shadow).fault = none := by
  obtain ⟨note, hu⟩ := generateStage_unit (s := s) (o := o) (u := u)
  rw [hu, h.findings, UnitInput.findings, Findings.generate_eq rfl _ _ _ hb]
  change _ ↔ (input.program.emit _ _).fault = none
  generalize input.program.emit (input.resolution shadow) (input.typing shadow) = code
  cases code.fault with
  | some fault => simp [CompilationUnit.addPhase]
  | none => by_cases hj : code.unjoinable.isEmpty <;> simp [hj, CompilationUnit.addPhase, h.failure]

/-- What generating makes of a unit without kept errors and with code that is not at fault. -/
theorem generateStage_judged {shadow : Bool} (h : u.Reached o input (input.findings shadow) ns ds)
    (hb : u.bag.hasErrors = false) (hf : (input.emission shadow).fault = none) :
    let v := (s.generateStage u o).2
    v.name = input.name ∧ v.file = input.file ∧ v.findings = input.findings shadow ∧
      v.space = ns ∧ v.bag.limit = o.limit.toNat ∧
      v.bag.Received (ds ++ (input.emission shadow).unjoinable) ∧
      v.datapack.isSome = (input.emission shadow).unjoinable.isEmpty := by
  intro v
  obtain ⟨note, hu⟩ := generateStage_unit (s := s) (o := o) (u := u)
  rw [h.findings, UnitInput.findings, Findings.generate_eq rfl _ _ _ hb] at hu
  change (input.program.emit _ _).fault = none at hf
  change _ ∧ _ ∧ _ ∧ _ ∧ _ ∧ v.bag.Received (ds ++ (input.program.emit _ _).unjoinable) ∧
    v.datapack.isSome = (input.program.emit _ _).unjoinable.isEmpty
  generalize input.program.emit (input.resolution shadow) (input.typing shadow) = code at *
  rw [hf] at hu
  change v = _ at hu
  by_cases hj : code.unjoinable.isEmpty
  · rw [if_pos hj] at hu
    rw [List.isEmpty_iff.mp hj, List.append_nil, hu]
    exact ⟨h.name, h.file, rfl, h.space, h.limit, h.bag, rfl⟩
  · rw [if_neg hj] at hu
    rw [Bool.eq_false_iff.mpr hj, hu]
    refine ⟨h.name, h.file, rfl, h.space, ?_, h.bag.addAll _, ?_⟩
    · exact (Bag.limit_addAll _ _).trans h.limit
    · simp [CompilationUnit.addPhase, h.datapack]

/-- The stages type a unit that is parsed, and what they make of it then depends on its symbols and
its bag. -/
theorem run_parsed {ds : List Diagnostic} (hu : (s.parseStage (.start input o) o).2.Reached o input
      { program := some input.program } none ds) (hc : s.isCancelled = false) :
    ∃ (s' : Session) (u : CompilationUnit),
    u.Reached o input (input.findings o.warnShadow) (some (input.space o.space))
      (ds ++ (input.resolution o.warnShadow).diagnostics ++ (input.typing o.warnShadow).diagnostics) ∧
    if (input.resolution o.warnShadow).table.faults = [] then
      (s.run (.start input o) o).2 = if u.bag.hasErrors then u else (s'.generateStage u o).2
    else (s.run (.start input o) o).2.failure ≠ none := by
  rw [run, if_neg (by simp [hc])]
  generalize s.parseStage (.start input o) o = next at hu ⊢
  obtain ⟨s₁, u₁⟩ := next
  have hs := deriveSpace_of_reached hu
  have hu₁ : ({ u₁ with space := some (u₁.deriveSpace o) } : CompilationUnit).Reached o input
      { program := some input.program } (some (input.space o.space)) ds :=
    ⟨hu.failure, hu.name, hu.file, hu.findings, by rw [hs], hu.limit, hu.bag, hu.datapack⟩
  have hk : u₁.findings.program = some input.program := congrArg Findings.program hu.findings
  simp only [hk]
  have hu₂ := resolveStage_reached (s := s₁) hu₁
  have hr : (s₁.resolveStage { u₁ with space := some (u₁.deriveSpace o) } o input.program).2.2
      = input.resolution o.warnShadow := rfl
  generalize s₁.resolveStage { u₁ with space := some (u₁.deriveSpace o) } o input.program = next
    at hu₂ hr ⊢
  obtain ⟨s₂, u₂, r⟩ := next
  simp only at hr hu₂
  subst hr
  have hu₃ := checkStage_reached (s := s₂) hu₂ o.warnShadow
  simp only
  generalize s₂.checkStage u₂ input.program (input.resolution o.warnShadow) = next at hu₃ ⊢
  obtain ⟨s₃, u₃⟩ := next
  refine ⟨s₃, u₃, hu₃, ?_⟩
  by_cases hf : (input.resolution o.warnShadow).table.faults = []
  · rw [if_pos hf, if_neg (by simp [hf])]
    by_cases hb : u₃.bag.hasErrors
    · simp only [hb, if_true]
    · simp only [hb]
      cases (s₃.generateStage u₃ o).2.datapack <;> rfl
  · rw [if_neg hf, if_pos (by simpa using hf)]
    simp

theorem run_unit (hp : s.Reads o input) (hc : s.isCancelled = false) :
    ∃ (s' : Session) (u : CompilationUnit),
    u.Reached o input (input.findings o.warnShadow) (some (input.space o.space))
      (input.reports o.warnShadow) ∧
    if (input.resolution o.warnShadow).table.faults = [] then
      (s.run (.start input o) o).2 = if u.bag.hasErrors then u else (s'.generateStage u o).2
    else (s.run (.start input o) o).2.failure ≠ none := run_parsed (parseStage_reached hp) hc

theorem run_of_cancelled (hc : s.isCancelled = true) : (s.run u o).2.failure ≠ none := by
  simp [run, hc]

/-- The stages go through exactly for a unit that is sound, in a build that was not cancelled. -/
theorem run_failure_iff (hp : s.Reads o input) :
    (s.run (.start input o) o).2.failure = none ↔ s.isCancelled = false ∧ input.IsSound o := by
  by_cases hc : s.isCancelled = true
  · simp [hc, run_of_cancelled hc]
  rw [Bool.not_eq_true] at hc
  obtain ⟨s', u, hu, hrun⟩ := run_unit hp hc
  rw [UnitInput.IsSound, UnitInput.isStopped, ← hu.limit, ← hu.bag.hasErrors_eq]
  by_cases hf : (input.resolution o.warnShadow).table.faults = []
  · rw [if_pos hf] at hrun
    rw [hrun]
    by_cases hb : u.bag.hasErrors = true
    · simp [hb, hc, hf, hu.failure]
    · rw [if_neg hb, generateStage_failure hu (by simpa using hb)]
      simp [hb, hc, hf]
  · rw [if_neg hf] at hrun
    simp [hrun, hf]

/-- A unit that was not given up is what its input says. -/
theorem run_judged (hp : s.Reads o input) (hf : (s.run (.start input o) o).2.failure = none) :
    (s.run (.start input o) o).2.Judged o input := by
  obtain ⟨hc, ht, hq⟩ := (run_failure_iff hp).mp hf
  obtain ⟨s', u, hu, hrun⟩ := run_unit hp hc
  have hs : u.bag.hasErrors = input.isStopped o.warnShadow o.limit.toNat := by
    rw [UnitInput.isStopped, ← hu.limit, ← hu.bag.hasErrors_eq]
  rw [if_pos ht] at hrun
  by_cases hb : u.bag.hasErrors = true
  · rw [if_pos hb] at hrun
    rw [hrun]
    refine ⟨hu.failure, hu.name, hu.file, by rw [hu.findings]; rfl, hu.space, hu.limit, ?_, ?_⟩
    · rw [UnitInput.given, ← hs, if_pos hb]
      exact hu.bag
    · rw [UnitInput.isPacked, ← hs, hb, hu.datapack]
      rfl
  · rw [if_neg hb] at hrun
    rw [Bool.not_eq_true] at hb
    obtain ⟨hn, hfile, hk, hns, hl, hbag, hd⟩ :=
      generateStage_judged (s := s') hu hb (hq (hs ▸ hb))
    refine ⟨hf, hrun ▸ hn, hrun ▸ hfile, ?_, hrun ▸ hns, hrun ▸ hl, ?_, ?_⟩
    · rw [hrun, hk]
      rfl
    · rw [hrun, UnitInput.given, ← hs, if_neg (by simp [hb])]
      exact hbag
    · rw [hrun, UnitInput.isPacked, ← hs, hb, hd]
      rfl

/-- What of a session decides how units are compiled; the rest is for whoever watches. -/
def means (s : Session) : Option ParseCache × Option ResultCache × Bool :=
  (s.parsed, s.results, s.isCancelled)

theorem KeepsNothing.of_means {s' : Session} (h : s.KeepsNothing) (hmeans : s'.means = s.means) :
    s'.KeepsNothing :=
  ⟨(congrArg (·.1) hmeans).trans h.1, (congrArg (·.2.1) hmeans).trans h.2⟩

theorem means_markFunctions (s : Session) (d : Datapack) : (s.markFunctions d).means = s.means := by
  rw [markFunctions]
  induction d.functions generalizing s with
  | nil => rfl
  | cons f fs ih => exact ih _

theorem means_stage {stage : Stage}
    {work : Session → CompilationUnit → Session × CompilationUnit × Bytes}
    (hw : ∀ s' : Session, s'.means = s.means → (work s' u).1.means = s.means) :
    (s.stage u stage work).1.means = s.means :=
  hw ((s.tell (.enter .stage stage.name)).announce ⟨u.name, some stage, .working, none⟩) rfl

theorem means_loadParsed {s s' : Session} (h : s'.means = s.means) :
    (s'.loadParsed u o).1.means = (s.loadParsed u o).1.means := by
  have hp : s'.parsed = s.parsed := congrArg Prod.fst h
  rw [loadParsed, hp, loadParsed]
  split
  · exact h
  · exact congrArg (fun m => (some _, m.2)) h

theorem means_parseStage (s : Session) :
    (s.parseStage u o).1.means = (s.loadParsed u o).1.means := by
  let s' := (s.tell (.enter .stage Stage.parse.name)).announce ⟨u.name, some .parse, .working, none⟩
  have hm : s'.means = s.means := rfl
  exact means_loadParsed hm

/-- Of the stages only parsing changes what units share. -/
theorem means_run (hc : s.isCancelled = false) : (s.run u o).1.means = (s.loadParsed u o).1.means := by
  have h₁ := means_parseStage (u := u) (o := o) s
  have h₂ : ∀ (s : Session) u p, (s.resolveStage u o p).1.means = s.means := fun _ _ _ => rfl
  have h₃ : ∀ (s : Session) u p r, (s.checkStage u p r).1.means = s.means := fun _ _ _ _ => rfl
  have h₄ : ∀ (s : Session) u, (s.generateStage u o).1.means = s.means := fun s u =>
    means_stage fun s' hs => by
      dsimp only
      split <;> exact hs
  rw [run, if_neg (by simp [hc])]
  dsimp only
  split
  · exact h₁
  · split
    · rw [h₂, h₁]
    · split
      · rw [h₃, h₂, h₁]
      · split
        · rw [means_markFunctions, h₄, h₃, h₂, h₁]
        · rw [h₄, h₃, h₂, h₁]

/-- Running the stages of a unit leaves the results that are kept alone. -/
theorem results_run (s : Session) : (s.run u o).1.results = s.results := by
  by_cases hc : s.isCancelled = true
  · rw [run, if_pos hc]
  · have hmeans := congrArg (·.2.1) (means_run (u := u) (o := o) (Bool.eq_false_iff.mpr hc))
    refine hmeans.trans ?_
    rw [loadParsed]
    split <;> rfl

theorem means_run_of_parsed (hp : s.parsed = none) : (s.run u o).1.means = s.means := by
  by_cases hc : s.isCancelled = true
  · rw [run, if_pos hc]
  · rw [means_run (Bool.eq_false_iff.mpr hc), loadParsed, hp]

/-- If no result can be used, compiling is running the stages, and the result is kept unless the unit was
given up. -/
theorem compile_missed (o : BuildOptions) (input : UnitInput)
    (hmissed : (s.results.bind fun cache =>
      cache.usable? (Digest.ofUnit input.name input.file o)) = none) :
    ∃ s' : Session, s'.means = s.means ∧
    (s.compile o input).2 = (s'.run (.start input o) o).2 ∧
    (s.compile o input).1.means = (if (s'.run (.start input o) o).2.failure.isSome then
      (s'.run (.start input o) o).1 else (s'.run (.start input o) o).1.storeResult
        (s'.run (.start input o) o).2 (Digest.ofUnit input.name input.file o)).means := by
  refine ⟨s.tell (.enter .unit ("unit:" ++ input.name)), rfl, ?_⟩
  have hload : (s.tell (.enter .unit ("unit:" ++ input.name))).loadResult? (.start input o)
      (Digest.ofUnit input.name (CompilationUnit.start input o).file o) = none := by
    change (s.results.bind fun cache => cache.usable?
      (Digest.ofUnit input.name (CompilationUnit.start input o).file o)) = none at hmissed
    have hresults : (s.tell (.enter .unit ("unit:" ++ input.name))).results = s.results := rfl
    rw [loadResult?, hresults, hmissed]
  rw [compile]
  simp only [hload]
  split
  · exact ⟨rfl, rfl⟩
  · exact ⟨rfl, rfl⟩

/-- Without a cache of results, compiling is running the stages. -/
theorem compile_run (o : BuildOptions) (input : UnitInput) (hr : s.results = none) :
    ∃ s' : Session, s'.means = s.means ∧
    (s.compile o input).2 = (s'.run (.start input o) o).2 ∧
    (s.compile o input).1.means = (s'.run (.start input o) o).1.means := by
  obtain ⟨s', hm, hu, hs⟩ := compile_missed (s := s) o input (by rw [hr]; rfl)
  have hrun : (s'.run (.start input o) o).1.results = none :=
    (results_run s').trans ((congrArg (·.2.1) hm).trans hr)
  refine ⟨s', hm, hu, hs.trans ?_⟩
  split
  · rfl
  · rw [storeResult, hrun]

theorem compile_unit (o : BuildOptions) (input : UnitInput) (hk : s.KeepsNothing) :
    ∃ s' : Session, s'.means = s.means ∧
    (s.compile o input).2 = (s'.run (.start input o) o).2 ∧
    (s.compile o input).1.means = s.means := by
  obtain ⟨s', hm, hu, hs⟩ := compile_run o input hk.2
  refine ⟨s', hm, hu, ?_⟩
  rw [hs, means_run_of_parsed ((congrArg Prod.fst hm).trans hk.1), hm]

theorem compile_failure_iff (hk : s.KeepsNothing) :
    (s.compile o input).2.failure = none ↔ s.isCancelled = false ∧ input.IsSound o := by
  obtain ⟨s', hm, hu, -⟩ := compile_unit o input hk
  rw [hu, run_failure_iff (reads_of_parsed o input ((congrArg Prod.fst hm).trans hk.1))]
  rw [show s'.isCancelled = s.isCancelled from congrArg (·.2.2) hm]

theorem compile_judged (hk : s.KeepsNothing) (hf : (s.compile o input).2.failure = none) :
    (s.compile o input).2.Judged o input := by
  obtain ⟨s', hm, hu, -⟩ := compile_unit o input hk
  rw [hu] at hf ⊢
  exact run_judged (reads_of_parsed o input ((congrArg Prod.fst hm).trans hk.1)) hf

end Session

/-!
## A limit on diagnostics only truncates

The stages up to typing give their diagnostics to one bag. Without a limit it takes all of them, with a limit the
first ones: what is let in does not depend on which stage found it, and no stage looks at the bag of another.
-/

namespace Session

/-- Parses, resolves and types a unit. -/
def analyze (s : Session) (o : BuildOptions) (input : UnitInput) : Session × CompilationUnit :=
  let (s, u) := s.parseStage (.start input o) o
  match u.findings.program with
  | none => (s, u)
  | some p =>
    let (s, u, r) := s.resolveStage u o p
    s.checkStage u p r

variable {s : Session} {o : BuildOptions} {input : UnitInput}

/-- A unit that is parsed anew, resolved and typed. -/
theorem analyze_reached (h : s.Reads o input) :
    (s.analyze o input).2.Reached o input (input.findings o.warnShadow) none
      (input.reports o.warnShadow) := by
  have hu := parseStage_reached h
  rw [analyze]
  generalize s.parseStage (.start input o) o = next at hu ⊢
  obtain ⟨s₁, u₁⟩ := next
  have hprogram : u₁.findings.program = some input.program := congrArg Findings.program hu.findings
  simp only [hprogram]
  exact checkStage_reached (resolveStage_reached (s := s₁) hu) o.warnShadow

/-- What the bag shows once a unit is typed is a beginning of all that the stages report. -/
theorem items_analyze (h : s.Reads o input) :
    (s.analyze o input).2.bag.items = Bag.keep o.limit.toNat (input.reports o.warnShadow) := by
  have hu := analyze_reached h
  rw [hu.bag, hu.limit]

/-- The diagnostics of parsing, resolving and typing a unit with a limit are the first ones of those without
a limit. -/
theorem items_analyze_eq_take {s s' : Session} (hs : s.parsed = none) (hs' : s'.parsed = none)
    (o : BuildOptions) (input : UnitInput) {n : Nat} (hn : 1 ≤ n) :
    (s.analyze { o with limit := n } input).2.bag.items
      = (s'.analyze { o with limit := 0 } input).2.bag.items.take n := by
  rw [items_analyze (reads_of_parsed _ input hs), items_analyze (reads_of_parsed _ input hs')]
  change Bag.keep n _ = (Bag.keep 0 _).take n
  rw [Bag.keep_of_pos hn, Bag.keep_zero]

/-- A stray character between two lines without an expression, and a name that is not declared. -/
def faulty : UnitInput := ⟨"faulty.craft", ")\n@\nprint(x)\n)\n"⟩

/-- With room for three diagnostics the undeclared name is not reported; the stray character is reported
between the two lines, although the parser does not count it. -/
theorem items_analyze_faulty :
    (({} : Session).analyze { limit := (3 : Nat) } faulty).2.bag.items
        = (({} : Session).analyze { limit := 0 } faulty).2.bag.items.take 3 ∧
      (({} : Session).analyze { limit := 0 } faulty).2.bag.items.map (·.code)
        = [.expectedExpression, .unknownCharacter, .expectedExpression, .unresolvedName] := by
  refine ⟨items_analyze_eq_take rfl rfl {} faulty (by decide), ?_⟩
  obtain ⟨htext, horder, htotal, hnames⟩ : Parse.lexicalFindings 0 faulty.file.scan
        = [(2, .error .unknownCharacter ⟨0, 2, 3⟩ "unexpected character '@'")] ∧
      (Parse.program faulty.file faulty.file.tokenize.dropLast).2
        = [⟨10, .expected .expression "')'", ⟨0, 0, 1⟩⟩, ⟨1, .expected .expression "')'", ⟨0, 13, 14⟩⟩] ∧
      faulty.file.tokenize.dropLast.length = 11 ∧
      ((faulty.resolution false).diagnostics ++ (faulty.typing false).diagnostics).map (·.code)
        = [.unresolvedName] := by decide +kernel
  rw [items_analyze (reads_of_parsed _ _ rfl)]
  change (faulty.reports false).map (·.code) = _
  rw [UnitInput.reports, List.append_assoc, List.map_append, hnames, File.parse_interleaves, htext,
    horder, htotal]
  simp [Parse.interleave, Parse.Finding.diagnostic, Parse.Problem.report, Parse.Problem.code,
    Parse.Expectation.code, Diagnostic.error]

end Session

end Craftlang
