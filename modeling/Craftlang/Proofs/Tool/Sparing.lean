import Craftlang.Proofs.Disk.Descent
import Craftlang.Tool.Run

/-!
# What builds leave alone

A build touches its destination last. Until then only the trace, the profiles and the stored results are written, so
a build that fails before leaves everything else on the disk as it was.
-/

namespace Craftlang

/-! ## Scripts that leave a place alone -/

/-- Nothing has changed at a place or below, and the directory where relative paths start is still there. -/
structure Workspace.Keeps (place : Place) (w w' : Workspace) : Prop where
  workingDir : w'.workingDir = w.workingDir
  rooted : w'.disk.IsRooted w'.workingDir
  same : ∀ other, place <+: other → w'.disk.get? other = w.disk.get? other

namespace Workspace.Keeps

variable {place : Place} {w w' w'' : Workspace}

theorem refl (place : Place) (h : w.disk.IsRooted w.workingDir) : w.Keeps place w := ⟨rfl, h, fun _ _ => rfl⟩

theorem trans (h : w.Keeps place w') (h' : w'.Keeps place w'') : w.Keeps place w'' :=
  ⟨h'.workingDir.trans h.workingDir, h'.rooted, fun other hother => (h'.same other hother).trans (h.same other hother)⟩

/-- What has only changed off a place, and where there was no directory, keeps the place. -/
theorem of_disk {disk : Disk} (hrooted : w.disk.IsRooted w.workingDir)
    (h : ∀ other, disk.get? other = w.disk.get? other ∨ w.disk.get? other ≠ some .directory ∧ ¬ place <+: other) :
    w.Keeps place { w with disk } := by
  refine ⟨rfl, fun other hother => ?_, fun other hother => ?_⟩
  · rcases h other with hsame | ⟨hnone, -⟩
    · exact hsame.trans (hrooted other hother)
    · exact absurd (hrooted other hother) hnone
  · rcases h other with hsame | ⟨-, hoff⟩
    · exact hsame
    · exact absurd hother hoff

end Workspace.Keeps

/-- A change that is made neither at a place nor below: a file that is written elsewhere, or directories along a path
that leads down to somewhere else. -/
def Change.Spares (workingDir place : Place) : Change → Prop
  | .write path _ => ¬ place <+: Disk.placeOf workingDir path
  | .makeDirs path => Path.Descends (Path.components path) ∧ ¬ place <+: Disk.placeOf workingDir path
  | .remove _ => False

theorem Change.Spares.keeps {c : Change} {place : Place} {w : Workspace} (h : c.Spares w.workingDir place)
    (hrooted : w.disk.IsRooted w.workingDir) : w.Keeps place (w.change c).1 := by
  cases c with
  | write path content =>
    refine .of_disk hrooted fun other => ?_
    rcases w.disk.get?_write w.workingDir other path content with hsame | ⟨hfree, hother⟩
    · exact .inl hsame
    · exact .inr ⟨hfree, hother ▸ h⟩
  | makeDirs path =>
    refine .of_disk hrooted fun other => ?_
    rcases Disk.get?_makeDirs hrooted h.1 other with hsame | ⟨hfree, hother⟩
    · exact .inl hsame
    · exact .inr ⟨hfree, fun hplace => h.2 (hplace.trans hother)⟩
  | remove path => exact h.elim

/-- If the script ends with a result of some kind, it has left a place alone. -/
def Script.Spares {α : Type} (workingDir place : Place) (s : Script α) (p : α → Prop) : Prop :=
  ∀ w : Workspace, w.workingDir = workingDir → w.disk.IsRooted workingDir → p (s.run w).2 → w.Keeps place (s.run w).1

namespace Script.Spares

variable {α β ε : Type} {workingDir place : Place} {p : α → Prop} {q : β → Prop}

theorem pure (value : α) : (pure value : Script α).Spares workingDir place p :=
  fun _ hdir hrooted _ => .refl place (hdir ▸ hrooted)

theorem ofQuery (query : Query α) : (Script.ofQuery query).Spares workingDir place p := by
  intro w hdir hrooted _
  rw [run_ofQuery]
  exact .refl place (hdir ▸ hrooted)

/-- What comes first has to leave the place alone if what follows can end with a result of the kind. -/
theorem bind {s : Script α} {f : α → Script β} (hs : s.Spares workingDir place p) {r : α → Prop}
    (hr : ∀ w, r (s.run w).2) (hf : ∀ value, r value → (f value).Spares workingDir place q)
    (hp : ∀ value w, q ((f value).run w).2 → p value) : (s >>= f).Spares workingDir place q := by
  intro w hdir hrooted hq
  rw [run_bind] at hq ⊢
  have hfirst := hs w hdir hrooted (hp _ _ hq)
  have hdir' := hfirst.workingDir.trans hdir
  exact hfirst.trans (hf _ (hr w) _ hdir' (hdir' ▸ hfirst.rooted) hq)

/-- The same if what comes first leaves the place alone anyway. -/
theorem andThen {s : Script α} {f : α → Script β} (hs : s.Spares workingDir place fun _ => True)
    (hf : ∀ value, (f value).Spares workingDir place q) : (s >>= f).Spares workingDir place q :=
  hs.bind (fun _ => trivial) (fun value (_ : True) => hf value) fun _ _ _ => trivial

theorem perform {c : Change} {p : Except DiskFault Unit → Prop} (h : c.Spares workingDir place) :
    (Script.perform c).Spares workingDir place p := by
  rintro _ rfl hrooted -
  exact h.keeps hrooted

theorem write {path content : Bytes} {p : Except DiskFault Unit → Prop} (h : ¬ place <+: Disk.placeOf workingDir path) :
    (Script.perform (.write path content)).Spares workingDir place p :=
  .perform h

theorem makeDirs {path : Bytes} {p : Except DiskFault Unit → Prop} (hpath : Path.Descends (Path.components path))
    (h : ¬ place <+: Disk.placeOf workingDir path) : (Script.perform (.makeDirs path)).Spares workingDir place p :=
  .perform ⟨hpath, h⟩

theorem performAll {changes : List Change} {p : Unit → Prop} (h : ∀ c ∈ changes, c.Spares workingDir place) :
    (Script.performAll changes).Spares workingDir place p := by
  induction changes with
  | nil => exact .pure ()
  | cons c rest ih =>
    exact (perform (h c List.mem_cons_self)).andThen fun _ => ih fun c hc => h c (List.mem_cons_of_mem _ hc)

theorem performUntilFault {changes : List (Change × (DiskFault → ε))} {p : Option ε → Prop}
    (h : ∀ c ∈ changes, c.1.Spares workingDir place) : (Script.performUntilFault changes).Spares workingDir place p := by
  induction changes with
  | nil => exact .pure none
  | cons c rest ih =>
    obtain ⟨c, failure⟩ := c
    refine (perform (h _ List.mem_cons_self)).andThen fun result => ?_
    cases result with
    | error fault => exact .pure _
    | ok _ => exact ih fun c hc => h c (List.mem_cons_of_mem _ hc)

end Script.Spares

/-! ## What a run writes besides the pack -/

section Outputs

variable {workingDir place : Place}

/-- The files in which a run leaves its trace and its profiles. -/
def Settings.outputs (s : Settings) : List Bytes :=
  (match s.tracer with
    | .ok t => if s.writesTraceFile t then [s.traceOutput] else []
    | .error _ => [])
  ++ [s.cpuProfile, s.runtimeTrace, s.heapProfile].filter (!·.isEmpty)

/-- Files that are open when a command runs, and those that are written in the end. -/
theorem Settings.mem_outputs {s : Settings} {t : Trace.Tracer} (ht : s.tracer = .ok t) :
    (∀ c ∈ s.openings t, ∃ path ∈ s.outputs, c.1 = .write path []) ∧
      (s.writesTraceFile t = true → s.traceOutput ∈ s.outputs) ∧ (s.heapProfile ≠ [] → s.heapProfile ∈ s.outputs) := by
  have hprofile {path : Bytes} (hpath : path ∈ [s.cpuProfile, s.runtimeTrace, s.heapProfile]) (hne : path.isEmpty = false) :
      path ∈ s.outputs :=
    List.mem_append_right _ (List.mem_filter.mpr ⟨hpath, by rw [hne]; rfl⟩)
  have htrace (hwrites : s.writesTraceFile t = true) : s.traceOutput ∈ s.outputs := by
    refine List.mem_append_left _ ?_
    rw [ht]
    dsimp only
    rw [if_pos hwrites]
    exact List.mem_singleton_self _
  refine ⟨fun c hc => ?_, htrace, fun hne => hprofile (by simp) (by simpa using hne)⟩
  rw [openings] at hc
  rcases List.mem_append.mp hc with hc | hc
  · rcases List.mem_append.mp hc with hc | hc
    · split at hc
      · rename_i hwrites
        exact ⟨_, htrace hwrites, by rw [List.mem_singleton.mp hc]⟩
      · cases hc
    · split at hc
      · cases hc
      · rename_i hne
        exact ⟨s.cpuProfile, hprofile (by simp) (by simpa using hne), by rw [List.mem_singleton.mp hc]⟩
  · split at hc
    · cases hc
    · rename_i hne
      exact ⟨s.runtimeTrace, hprofile (by simp) (by simpa using hne), by rw [List.mem_singleton.mp hc]⟩

theorem Settings.spares_setUp {s : Settings} {p : Except Failure Setup → Prop}
    (h : ∀ path ∈ s.outputs, ¬ place <+: Disk.placeOf workingDir path) : s.setUp.Spares workingDir place p := by
  rw [setUp]
  split
  · exact .pure _
  · exact .pure _
  · rename_i color tracer _ htracer
    refine Script.Spares.andThen (.performUntilFault fun c hc => ?_) fun result => ?_
    · obtain ⟨path, hpath, hwrite⟩ := (mem_outputs htracer).1 c hc
      rw [hwrite]
      exact h path hpath
    · cases result <;> exact .pure _

/-- What is written in the end is among the files of the run. -/
def Setup.WritesTo (s : Setup) (paths : List Bytes) : Prop :=
  (s.traceOutput ≠ [] → s.traceOutput ∈ paths) ∧ (s.heapProfile ≠ [] → s.heapProfile ∈ paths)

theorem Settings.writesTo_setUp (s : Settings) (w : Workspace) :
    ∀ setup, (s.setUp.run w).2 = .ok setup → setup.WritesTo s.outputs := by
  intro setup hsetup
  rw [setUp] at hsetup
  split at hsetup
  · cases hsetup
  · cases hsetup
  · rename_i color tracer _ htracer
    obtain ⟨-, htrace, hheap⟩ := mem_outputs htracer
    rw [Script.run_bind] at hsetup
    split at hsetup
    · cases hsetup
    · cases hsetup
      refine ⟨fun hne => ?_, hheap⟩
      dsimp only at hne ⊢
      split at hne
      · rename_i hwrites
        rw [if_pos hwrites]
        exact htrace hwrites
      · exact absurd rfl hne

theorem Setup.spares_tearDown {s : Setup} {paths : List Bytes} {p : Bytes → Prop} (hs : s.WritesTo paths)
    (h : ∀ path ∈ paths, ¬ place <+: Disk.placeOf workingDir path) (trace : List Trace.Step) :
    (s.tearDown trace).Spares workingDir place p := by
  have htrace (profiled : Bytes) : Script.Spares workingDir place
      (if s.traceOutput.isEmpty then pure (profiled ++ (trace.foldl Trace.Tracer.follow s.tracer).written)
        else do
          let _ ← Script.perform (.write s.traceOutput (trace.foldl Trace.Tracer.follow s.tracer).written)
          pure profiled) p := by
    split
    · exact .pure _
    · rename_i hne
      exact (Script.Spares.write (h _ (hs.1 fun hnil => hne (by rw [hnil]; rfl)))).andThen fun _ => .pure _
  rw [tearDown]
  dsimp only
  split
  · exact (Script.Spares.pure []).andThen htrace
  · rename_i hne
    refine (Script.Spares.write (h _ (hs.2 fun hnil => hne (by rw [hnil]; rfl)))).andThen fun result => ?_
    cases result with
    | ok _ => exact (Script.Spares.pure []).andThen htrace
    | error fault => exact (Script.Spares.pure _).andThen htrace

/-- What a build with stored results writes to keep them: their directories, and a file for each. -/
inductive ResultDirectory.Keeps (directory : Bytes) : Bytes → Prop
  | top : Keeps directory directory
  | units : Keeps directory (units directory)
  | file (key : Bytes) : Keeps directory (file directory key)

theorem ResultDirectory.descends_path {env : Environment} {directory : Bytes} (h : path env = .ok directory) :
    Path.Descends (Path.components directory) := by
  rw [path] at h
  split at h
  · cases h
    exact Path.descends_join _
  · cases h
    exact Path.descends_join _
  · cases h

theorem ResultDirectory.spares_storing {directory : Bytes} {p : Unit → Prop} (before after : ResultCache)
    (h : ∀ path, Keeps directory path → ¬ place <+: Disk.placeOf workingDir path) :
    (Script.performAll (storing directory before after)).Spares workingDir place p := by
  refine .performAll fun c hc => ?_
  obtain ⟨⟨key, entry⟩, -, hc⟩ := List.mem_flatMap.mp hc
  cases entry with
  | unreadable => cases hc
  | readable unit =>
    dsimp only at hc
    split at hc
    · cases hc
    · simp only [List.mem_cons, List.not_mem_nil, or_false] at hc
      rcases hc with rfl | rfl
      · exact ⟨Path.descends_join _, h _ .units⟩
      · exact h _ (.file key)

end Outputs

/-! ## Builds -/

namespace Failure

/-- Did the run fail while the pack was put in its place? -/
def isOfWriting : Failure → Bool
  | removeDestination _ | writeDestination .. | archiveName _ => true
  | _ => false

end Failure

/-- A failure before the pack was put in its place. -/
def FailsEarly (failure : Option Failure) : Prop := ∃ f, failure = some f ∧ f.isOfWriting = false

section Builds

variable {workingDir place : Place}

theorem Script.failure_of_performUntilFault {ε : Type} {changes : List (Change × (DiskFault → ε))} {w : Workspace}
    {failure : ε} (h : ((Script.performUntilFault changes).run w).2 = some failure) :
    ∃ c ∈ changes, ∃ fault, failure = c.2 fault := by
  induction changes generalizing w with
  | nil => cases h
  | cons c rest ih =>
    obtain ⟨c, failure'⟩ := c
    rw [performUntilFault, run_bind] at h
    split at h
    · rename_i fault _
      cases h
      exact ⟨_, List.mem_cons_self, fault, rfl⟩
    · obtain ⟨c', hc', hfailure⟩ := ih h
      exact ⟨c', List.mem_cons_of_mem _ hc', hfailure⟩

/-- Whatever goes wrong when a pack is written is of that kind. -/
theorem Destination.not_failsEarly_write (plan : BuildPlan) (pack : Datapack) (w : Workspace) :
    ¬ FailsEarly ((write plan pack).run w).2 := by
  have hchanges : ∀ c ∈ (if plan.zip then writingArchive plan.destination (pack.files [])
      else writingDirectory plan.destination (pack.files [])), ∀ fault, (c.2 fault).isOfWriting = true := by
    intro c hc fault
    split at hc
    · simp only [writingArchive, List.mem_cons, List.not_mem_nil, or_false] at hc
      rcases hc with rfl | rfl <;> rfl
    · rcases List.mem_cons.mp hc with rfl | hc
      · rfl
      · obtain ⟨⟨name, content⟩, -, hc⟩ := List.mem_flatMap.mp hc
        simp only [List.mem_cons, List.not_mem_nil, or_false] at hc
        rcases hc with rfl | rfl <;> rfl
  have hrefused : ∀ failure, (if plan.zip then archiveFailure? (pack.files []) else none) = some failure →
      failure.isOfWriting = true := by
    intro failure h
    split at h
    · obtain ⟨file, -, rfl⟩ := Option.map_eq_some_iff.mp h
      rfl
    · cases h
  rintro ⟨failure, hfailure, hearly⟩
  rw [write] at hfailure
  generalize (if plan.zip then writingArchive plan.destination (pack.files [])
    else writingDirectory plan.destination (pack.files [])) = changes at hchanges hfailure
  generalize (if plan.zip then archiveFailure? (pack.files []) else none) = refused at hrefused hfailure
  rw [Script.run_bind] at hfailure
  split at hfailure
  · cases hfailure
  · rename_i failure' hfound
    rw [Script.run_bind, Script.run_pure] at hfailure
    obtain rfl := Option.some_inj.mp hfailure
    rw [Option.orElse_eq_orElse, Option.orElse_eq_or] at hfound
    rcases Option.or_eq_some_iff.mp hfound with hwritten | ⟨-, hrefusal⟩
    · obtain ⟨c, hc, fault, rfl⟩ := Script.failure_of_performUntilFault hwritten
      rw [hchanges c hc fault] at hearly
      cases hearly
    · rw [hrefused _ hrefusal] at hearly
      cases hearly

/-- A pack is put in its place after all else, so whoever fails before has left it alone. -/
theorem Destination.spares_replace (plan : BuildPlan) (pack : Datapack) :
    (replace plan pack).Spares workingDir place FailsEarly := by
  have hclear : (clear plan).Spares workingDir place FailsEarly := by
    refine Script.Spares.andThen (.ofQuery _) fun found => ?_
    cases found with
    | error cause => cases cause <;> exact .pure _
    | ok kind =>
      dsimp only
      split
      · -- the destination is removed, so a failure is one of removing
        rintro w - - ⟨failure, hfailure, hearly⟩
        rw [Script.run_bind] at hfailure
        split at hfailure
        · cases hfailure
        · cases hfailure
          cases hearly
      · exact .pure _
  refine hclear.bind (fun _ => trivial) (fun failure (_ : True) => ?_) fun failure w hearly => ?_
  · cases failure with
    | some failure => exact .pure _
    | none => exact fun w _ _ hearly => absurd hearly (not_failsEarly_write plan pack w)
  · cases failure with
    | some failure => exact hearly
    | none => exact absurd hearly (not_failsEarly_write plan pack w)

theorem PreparedBuild.spares_finish (b : PreparedBuild) (env : Environment) (settings : Settings) (color : ColorChoice)
    (c : CompiledBuild) : (b.finish env settings color c).Spares workingDir place fun reply => FailsEarly reply.failure := by
  rw [finish]
  split
  · exact .pure _
  dsimp only
  split
  · exact .pure _
  split
  · exact .pure _
  · exact (Destination.spares_replace b.plan _).bind (fun _ => trivial) (fun _ (_ : True) => .pure _)
      fun _ _ hearly => hearly

/-- Stored results are opened in their directory. -/
theorem BuildRequest.usesCache_of_openResults {r : BuildRequest} {env : Environment} {b : PreparedBuild} {w : Workspace}
    {directory : Bytes} {results : ResultCache}
    (hopened : ((r.openResults env b).run w).2 = .ok (some (directory, results))) :
    r.usesCache = true ∧ ResultDirectory.path env = .ok directory := by
  rw [openResults] at hopened
  split at hopened
  · cases hopened
  · rename_i hcache
    split at hopened
    · cases hopened
    · rename_i directory' hpath
      rw [Script.run_bind] at hopened
      split at hopened
      · cases hopened
      · rw [Script.run_bind, Script.run_pure] at hopened
        cases hopened
        exact ⟨by simpa using hcache, hpath⟩

theorem BuildRequest.spares_run {r : BuildRequest} {env : Environment} (settings : Settings) (color : ColorChoice)
    (h : ∀ directory, r.usesCache = true → ResultDirectory.path env = .ok directory →
      ∀ path, ResultDirectory.Keeps directory path → ¬ place <+: Disk.placeOf workingDir path) :
    (r.run env settings color).Spares workingDir place fun reply => FailsEarly reply.failure := by
  rw [run]
  refine Script.Spares.andThen (.ofQuery _) fun prepared => ?_
  cases prepared with
  | error failure => exact .pure _
  | ok b =>
    let fromCache (opened : Except Failure (Option (Bytes × ResultCache))) : Prop :=
      ∀ directory results, opened = .ok (some (directory, results)) →
        r.usesCache = true ∧ ResultDirectory.path env = .ok directory
    refine Script.Spares.bind (p := fun _ => True) (r := fromCache) ?_ (fun w _ _ => usesCache_of_openResults)
      (fun opened hopened => ?_) fun _ _ _ => trivial
    · rw [openResults]
      split
      · exact .pure _
      · rename_i hcache
        split
        · exact .pure _
        · rename_i directory hpath
          have hcache' : r.usesCache = true := by simpa using hcache
          have hjoined : Path.Descends (Path.components directory) := ResultDirectory.descends_path hpath
          refine (Script.Spares.makeDirs hjoined (h directory hcache' hpath _ .top)).andThen fun result => ?_
          cases result with
          | error fault => exact .pure _
          | ok _ => exact (Script.Spares.ofQuery _).andThen fun _ => .pure _
    · cases opened with
      | error failure => exact .pure _
      | ok stored =>
        cases stored with
        | none => exact b.spares_finish env settings color _
        | some stored =>
          obtain ⟨directory, results⟩ := stored
          obtain ⟨hcache, hpath⟩ := hopened directory results rfl
          exact (ResultDirectory.spares_storing _ _ (h directory hcache hpath)).andThen fun _ =>
            b.spares_finish env settings color _

end Builds

/-- The files and directories that a build writes besides its pack: the trace, the profiles and the stored results. -/
def Arguments.Writes (a : Arguments) (env : Environment) (path : Bytes) : Prop :=
  path ∈ (Settings.ofArguments a).outputs ∨ (BuildRequest.ofArguments a).usesCache = true ∧
    ∃ directory, ResultDirectory.path env = .ok directory ∧ ResultDirectory.Keeps directory path

namespace Tool

theorem spares_runVerb {workingDir place : Place} {env : Environment} {a : Arguments}
    (h : ∀ path, a.Writes env path → ¬ place <+: Disk.placeOf workingDir path) :
    (runVerb env .build a).Spares workingDir place fun outcome => FailsEarly outcome.failure := by
  have houtputs : ∀ path ∈ (Settings.ofArguments a).outputs, ¬ place <+: Disk.placeOf workingDir path :=
    fun path hpath => h path (.inl hpath)
  let ready (found : Except Failure Setup) : Prop :=
    ∀ setup, found = .ok setup → setup.WritesTo (Settings.ofArguments a).outputs
  refine (Settings.spares_setUp houtputs).bind (p := fun _ => True) (r := ready) (Settings.ofArguments a).writesTo_setUp
    (fun found hready => ?_) fun _ _ _ => trivial
  cases found with
  | error failure => exact .pure _
  | ok setup =>
    refine (BuildRequest.spares_run _ _ fun directory hcache hpath path hkeeps =>
      h path (.inr ⟨hcache, directory, hpath, hkeeps⟩)).bind (fun _ => trivial) (fun reply (_ : True) => ?_)
      fun reply w hearly => ?_
    · exact (Setup.spares_tearDown (hready setup rfl) houtputs reply.trace).andThen fun _ => .pure _
    · rw [Script.run_bind, Script.run_pure] at hearly
      exact hearly

/-- A call of the tool to build is a build, a call for help, or a fault in its arguments. -/
theorem ofArguments_build {arguments : List Bytes}
    (h : (Arguments.words sharedFlags arguments).head? = some (Bytes.ofString "build")) :
    Call.ofArguments arguments = Call.withVerb .build (Arguments.withoutWord sharedFlags (Bytes.ofString "build") arguments) := by
  rw [Call.ofArguments]
  cases hwords : Arguments.words sharedFlags arguments with
  | nil =>
    rw [hwords] at h
    cases h
  | cons word rest =>
    rw [hwords] at h
    obtain rfl := Option.some_inj.mp h
    rfl

end Tool

end Craftlang
