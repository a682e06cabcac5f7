import Mathlib
import Craftlang.Proofs.Build.Linking
import Craftlang.Proofs.Build.Replay
import Craftlang.Proofs.Tool.Sparing

/-!
# What a failed build leaves at its destination

If a build fails before the destination is removed or written, whatever stands at the destination or below is as it
was, also if the build was to replace it. A pack that has no room in an archive fails later than that.
-/

namespace Craftlang

/-!
## Building one source again

A source is built into an archive that is there already. Everything up to the source itself is settled whatever the
source and the namespace are.
-/

/-- A unit alone has its namespace for itself. -/
theorem checkSpaces_singleton (u : CompilationUnit) : checkSpaces [] [u] = [u] := by
  rw [checkSpaces]
  split <;> rfl

namespace PreparedBuild

/-- A build of one source about which parsing has nothing to report has one unit, and the stages decide about it. -/
theorem compile_single {b : PreparedBuild} {input : UnitInput} (hinputs : b.inputs = [input])
    (hparse : input.file.parse.diagnostics = []) :
    ∃ u, (b.compile none).units = [u] ∧ u.outcome = input.outcome b.options [] := by
  obtain ⟨s, hmeans, hunits⟩ := Session.compileAll_units { parsed := some {} } b.options [input]
  have hremembers : s.Remembers input := by
    intro cache hcache parsed hparsed
    rw [show s.parsed = some {} from congrArg Prod.fst hmeans] at hcache
    cases hcache
    cases hparsed
  refine ⟨(s.compile b.options input).2, ?_, ?_⟩
  · rw [compile, hinputs]
    exact hunits.trans (checkSpaces_singleton _)
  · rw [Session.outcome_compile (Session.reads_of_remembers hremembers hparse) (congrArg (·.2.1) hmeans)
      (congrArg (·.2.2) hmeans), hparse]

end PreparedBuild

namespace Rebuilding

/-- A source, and the pack of an earlier build. -/
def workspace (source : Bytes) : Workspace where
  disk := ⟨[([Bytes.ofString "a.craft"], .file source), ([Bytes.ofString "out.zip"], .file "old")]⟩

def environment : Environment := { workingDir := "/" }

/-- A build of the source that replaces the pack, in a namespace of one's choice. -/
def arguments (space : Bytes) : List Bytes :=
  ["build", "a.craft", "out.zip", "--zip", "--force", "--namespace", space]

/-- The arguments once they are read. -/
def read (space : Bytes) : Arguments where
  flags := [(Bytes.ofString "zip", .switch true), (Bytes.ofString "force", .switch true),
    (Bytes.ofString "namespace", .text space)]
  operands := ["a.craft", "out.zip"]

def request (space : Bytes) : BuildRequest where
  operands := ["a.craft", "out.zip"]
  output := []
  force := true
  zip := some true
  usesCache := false
  space := space
  packFormat := none
  description := none
  warnShadow := false
  format := "pretty"

def plan : BuildPlan where
  sources := ["a.craft"]
  destination := "out.zip"
  zip := true
  force := true
  packFormat := 0
  description := []

def build (source space : Bytes) : PreparedBuild where
  plan := plan
  format := .pretty
  inputs := [⟨"a.craft", source⟩]
  options := { limit := 100, space }

variable (source space : Bytes)

theorem head_words : (Arguments.words sharedFlags (arguments space)).head? = some (Bytes.ofString "build") := by
  cbv

theorem ofArguments_arguments : Call.ofArguments (arguments space) = .ok (.run .build (read space)) := by
  have hothers : Arguments.withoutWord sharedFlags (Bytes.ofString "build") (arguments space)
      = (arguments space).tail := by
    cbv
  have hread : Arguments.read (Verb.build.flags ++ sharedFlags ++ [helpFlag]) (arguments space).tail
      = .ok (read space) := by
    cbv
  have hhelp : (read space).isOn "help" = false := by
    cbv
  rw [Tool.ofArguments_build (head_words space), hothers, Call.withVerb, hread]
  dsimp only
  rw [hhelp]
  rfl

theorem ofArguments_read : BuildRequest.ofArguments (read space) = request space := by
  cbv

/-- No flag is given that every command knows. -/
theorem settings_read : Settings.ofArguments (read space) = Settings.ofArguments {} := by
  cbv

theorem ofRequest_request : ((PreparedBuild.ofRequest environment (Settings.ofArguments {})
    (request space)).run).run (workspace source) = .ok (build source space) := by
  cbv

theorem isRooted_workspace : (workspace source).disk.IsRooted [] := by
  intro place hplace
  rw [List.prefix_nil.mp hplace]
  rfl

/-- Nothing but the pack is written. -/
theorem not_writes {a : Arguments} (hcall : Call.ofArguments (arguments space) = .ok (.run .build a)) (path : Bytes) :
    ¬ a.Writes environment path := by
  rw [ofArguments_arguments] at hcall
  cases hcall
  rw [Arguments.Writes, settings_read, ofArguments_read]
  rintro (houtput | ⟨hcache, -⟩)
  · rw [show (Settings.ofArguments {}).outputs = [] by cbv] at houtput
    cases houtput
  · cases hcache

/-- The run is what comes after preparing and compiling. -/
theorem run_arguments :
    let done := ((build source space).finish environment (Settings.ofArguments {}) .auto
      ((build source space).compile none)).run (workspace source)
    ((Tool.run environment (arguments space)).run (workspace source)).1 = done.1 ∧
      ((Tool.run environment (arguments space)).run (workspace source)).2.failure = done.2.failure := by
  intro done
  have hsetUp : (Settings.ofArguments {}).setUp.run (workspace source)
      = (workspace source, .ok ⟨.auto, .silent, [], []⟩) := by
    cbv
  have hbuild : ((request space).run environment (Settings.ofArguments {}) .auto).run (workspace source) = done := by
    rw [BuildRequest.run, Script.run_bind, Script.run_ofQuery, ofRequest_request]
    rfl
  have hverb : Verb.run .build (read space) environment (Settings.ofArguments {}) .auto
      = (request space).run environment (Settings.ofArguments {}) .auto := by
    rw [← ofArguments_read]
    rfl
  have hrun : (Tool.run environment (arguments space)).run (workspace source) = (done.1, .ofReply done.2
      ((Setup.tearDown ⟨.auto, .silent, [], []⟩ done.2.trace).run done.1).2) := by
    rw [Tool.run, ofArguments_arguments]
    dsimp only
    rw [Tool.runVerb, settings_read, Script.run_bind, hsetUp]
    dsimp only
    rw [hverb, Script.run_bind, hbuild]
    rfl
  rw [hrun]
  exact ⟨rfl, rfl⟩

theorem failure_of_break : ((Tool.run environment (arguments "demo")).run (workspace "break\n")).2.failure
    = some .compilation := by
  let input : UnitInput := ⟨"a.craft", "break\n"⟩
  let b := build "break\n" "demo"
  obtain ⟨hlexical, hfound, herrors⟩ : input.file.lexicalDiagnostics = [] ∧
      (Parse.program input.file input.file.tokenize.dropLast).2 = [] ∧
      (⟨100, Bag.keep 100 ((input.resolution false).diagnostics ++ (input.typing false).diagnostics)⟩ : Bag).hasErrors
        = true := by
    decide +kernel
  obtain ⟨u, hunits, houtcome⟩ := PreparedBuild.compile_single (b := b) rfl (File.parse_silent hlexical hfound)
  have hstopped : u.outcome = (some _, _, none, none) := houtcome.trans (if_pos herrors)
  simp only [CompilationUnit.outcome, Prod.mk.injEq] at hstopped
  obtain ⟨-, hbag, -, hfailure⟩ := hstopped
  have hnone : (b.compile none).units.findSome? (·.failure) = none := by
    rw [hunits, List.findSome?_cons, hfailure, List.findSome?_nil]
  have hany : (b.compile none).units.any (·.bag.hasErrors) = true := by
    rw [hunits, List.any_cons, (congrArg Bag.hasErrors hbag).trans herrors, Bool.true_or]
  rw [(run_arguments _ _).2, PreparedBuild.finish, hnone]
  dsimp only
  rw [if_pos hany]
  rfl

end Rebuilding

namespace Tool

/-- A build that fails before its pack is put in its place leaves its destination alone, with everything below, and so
every path that nothing else is written at: neither its trace, nor a profile, nor a stored result. What fails may be
anything from the arguments to putting the units together, and the destination is safe also if it is to be replaced. -/
theorem run_leaves_destination {env : Environment} {arguments : List Bytes} {w : Workspace} {destination : Bytes}
    (hbuild : (Arguments.words sharedFlags arguments).head? = some (Bytes.ofString "build"))
    (hrooted : w.disk.IsRooted w.workingDir)
    (hapart : ∀ a, Call.ofArguments arguments = .ok (.run .build a) → ∀ path, a.Writes env path →
      ¬ Disk.placeOf w.workingDir destination <+: Disk.placeOf w.workingDir path)
    (hfails : FailsEarly ((run env arguments).run w).2.failure) :
    ∀ place, Disk.placeOf w.workingDir destination <+: place →
      ((run env arguments).run w).1.disk.get? place = w.disk.get? place := by
  have hspares : (run env arguments).Spares w.workingDir (Disk.placeOf w.workingDir destination)
      fun outcome => FailsEarly outcome.failure := by
    rw [run]
    split
    · exact .pure _
    · exact .pure _
    · exact .pure _
    · rename_i verb a hcall
      have hverb : verb = .build := by
        rw [ofArguments_build hbuild, Call.withVerb] at hcall
        split at hcall
        · cases hcall
        split at hcall
        · cases hcall
        split at hcall
        · cases hcall
        · cases hcall
          rfl
      rw [hverb] at hcall ⊢
      exact spares_runVerb (hapart a hcall)
  exact (hspares w rfl hrooted hfails).same

/-- A break where there is no loop is an error, so the pack that is there stays, although it is to be replaced. -/
theorem run_leaves_destination_of_break :
    let run := (run Rebuilding.environment (Rebuilding.arguments "demo")).run (Rebuilding.workspace "break\n")
    run.2.failure = some .compilation ∧ ∀ place, Disk.placeOf [] "out.zip" <+: place →
      run.1.disk.get? place = (Rebuilding.workspace "break\n").disk.get? place := by
  have hfailure := Rebuilding.failure_of_break
  have hearly : FailsEarly _ := ⟨_, hfailure, rfl⟩
  exact ⟨hfailure, run_leaves_destination (Rebuilding.head_words _) (Rebuilding.isRooted_workspace _)
    (fun _ hcall path hwrites => absurd hwrites (Rebuilding.not_writes _ hcall path)) hearly⟩

end Tool

/-!
## Names that an archive has no room for

The names of the files in an archive have a limit, and a namespace can be too long for it. That is found out while the
archive is written, when what it is to replace has been removed.
-/

namespace ResourceName

theorem flatMap_runes_replicate (n : Nat) :
    (Utf8.runes (List.replicate n (byte 'a'))).flatMap (fun (rune, _) => ofRune rune) = List.replicate n (byte 'a') := by
  induction n with
  | zero => rw [List.replicate_zero, Utf8.runes, List.flatMap_nil]
  | succ n ih =>
    have hfirst : Utf8.decodeCons (byte 'a') (List.replicate n (byte 'a')) = .point 97 1 := rfl
    have hname : ofRune (.point 97 1) = [byte 'a'] := by decide
    rw [List.replicate_succ, Utf8.runes_cons, hfirst, List.flatMap_cons]
    dsimp only
    rw [hname]
    exact congrArg (byte 'a' :: ·) ih

theorem normalize_replicate (n : Nat) :
    normalize (List.replicate (n + 1) (byte 'a')) = List.replicate (n + 1) (byte 'a') := by
  rw [normalize, flatMap_runes_replicate]
  rfl

end ResourceName

namespace Rebuilding

/-- A source without any text. -/
def blank : UnitInput := ⟨"a.craft", []⟩

theorem isSilent_blank : blank.IsSilent false ∧ (blank.emission false).unjoinable = [] ∧
    (blank.emission false).finished.head?.isSome = true := by
  decide +kernel

/-- A namespace with as many letters as asked for. -/
def longSpace (n : Nat) : Bytes := List.replicate (n + 1) (byte 'a')

variable {n : Nat}

/-- In a long namespace all functions have long names. -/
theorem archiveFailure_longSpace (hn : Archive.longestName ≤ n) {o : BuildOptions} (ho : o.warnShadow = false)
    (hspace : o.space = longSpace n) {d : Datapack} (hd : d.functions = (blank.pack o).functions) :
    ∃ name, Destination.archiveFailure? (d.files []) = some (.archiveName name) := by
  have hname : (blank.space o.space).name = List.replicate (n + 1) (byte 'a') := by
    rw [hspace, UnitInput.space, if_pos (by rfl), Namespace.ofDotted, longSpace,
      Bytes.splitOn_of_notMem fun hmem => absurd (List.eq_of_mem_replicate hmem) (by decide)]
    exact ResourceName.normalize_replicate n
  obtain ⟨e, he⟩ := Option.isSome_iff_exists.mp isSilent_blank.2.2
  have hfinished : e ∈ (blank.emission o.warnShadow).finished := by
    rw [ho]
    exact List.mem_of_mem_head? he
  have hmem := List.mem_map_of_mem hfinished (f := fun e => PackFunction.mk ((blank.space o.space).resource e.1.render)
    ((blank.space o.space).functionFile e.1.render (blank.pack o).format)
    (e.2.map (Command.render (blank.space o.space))))
  rw [← UnitInput.functions_pack, ← hd] at hmem
  have hlong : ((blank.space o.space).functionFile e.1.render (blank.pack o).format).length > Archive.longestName := by
    rw [Namespace.functionFile, hname]
    simp only [List.length_append, List.length_replicate]
    omega
  have hfound : ((d.files []).find? fun file => !Archive.admits file).isSome = true := by
    refine List.find?_isSome.mpr ⟨_, List.mem_cons_of_mem _ (List.mem_append_left _ (List.mem_map_of_mem hmem)), ?_⟩
    simpa [Archive.admits] using hlong
  obtain ⟨file, hfile⟩ := Option.isSome_iff_exists.mp hfound
  exact ⟨file.1, by rw [Destination.archiveFailure?, hfile]; rfl⟩

/-- What is left once the pack that is there has been removed. -/
def cleared (source : Bytes) : Workspace where
  disk := ⟨[([Bytes.ofString "a.craft"], .file source)]⟩

/-- A pack that does not fit into an archive takes the place of the earlier one with it. -/
theorem replace_unfit (source : Bytes) {pack : Datapack} {failure : Failure}
    (h : Destination.archiveFailure? (pack.files []) = some failure) :
    (Destination.replace plan pack).run (workspace source) = (cleared source, some failure) := by
  let written (content : Bytes) : Workspace :=
    ⟨⟨(cleared source).disk.entries ++ [([Bytes.ofString "out.zip"], .file content)]⟩, []⟩
  have hclear : (Destination.clear plan).run (workspace source) = (cleared source, none) := by
    cbv
  have hwrite (content : Bytes) : (Script.performUntilFault
      [(Change.makeDirs (Path.directory plan.destination), Failure.writeDestination "create destination directory"),
       (Change.write plan.destination content, Failure.writeDestination "create archive")]).run (cleared source)
      = (written content, none) := by
    cbv
  have hremove (content : Bytes) : ((Script.perform (.remove plan.destination)).run (written content)).1
      = cleared source := by
    cbv
  rw [Destination.replace, Script.run_bind, hclear]
  dsimp only
  rw [Destination.write, Script.run_bind, if_pos (show plan.zip = true from rfl), Destination.writingArchive, hwrite]
  dsimp only
  rw [if_pos (show plan.zip = true from rfl), h]
  exact congrArg (·, some failure) (hremove _)

theorem run_longSpace (hn : Archive.longestName ≤ n) :
    ((Tool.run environment (arguments (longSpace n))).run (workspace [])).1 = cleared [] ∧ ∃ name,
      ((Tool.run environment (arguments (longSpace n))).run (workspace [])).2.failure = some (.archiveName name) := by
  let b := build [] (longSpace n)
  obtain ⟨u, hunits, houtcome⟩ := @PreparedBuild.compile_single b blank rfl isSilent_blank.1.isAccepted.parse.1
  rw [isSilent_blank.1.outcome (o := b.options) isSilent_blank.2.1] at houtcome
  simp only [CompilationUnit.outcome, Prod.mk.injEq] at houtcome
  obtain ⟨-, hbag, hpack, hfailure⟩ := houtcome
  obtain ⟨d, hlink, hfunctions⟩ := linkPacks_singleton b.options u.name blank
  obtain ⟨name, harchive⟩ := archiveFailure_longSpace hn (o := b.options) rfl rfl hfunctions
  have hnone : (b.compile none).units.findSome? (·.failure) = none := by
    rw [hunits, List.findSome?_cons, hfailure, List.findSome?_nil]
  have hany : (b.compile none).units.any (·.bag.hasErrors) = false := by
    rw [hunits, List.any_cons, hbag]
    rfl
  have hlinked : linkPacks b.options ((b.compile none).units.map CompilationUnit.output) = .ok d := by
    rw [hunits, List.map_singleton, CompilationUnit.output, hpack]
    exact hlink
  have hreplace : (Destination.replace b.plan d).run (workspace []) = (cleared [], some (.archiveName name)) :=
    replace_unfit [] harchive
  rw [(run_arguments _ _).1, (run_arguments _ _).2, PreparedBuild.finish, hnone]
  dsimp only
  rw [hany, if_neg Bool.false_ne_true, hlinked]
  dsimp only
  rw [Script.run_bind, hreplace]
  exact ⟨rfl, name, rfl⟩

end Rebuilding

/-- Did the disk fail while the destination was removed or written? -/
def Failure.isOfDestination : Failure → Bool
  | removeDestination _ | writeDestination .. => true
  | _ => false

namespace Tool

/-- The disk is not all that can fail once the destination has been removed: a function in a namespace of 65536 letters
has too long a name for an archive. -/
theorem not_run_leaves_destination :
    ¬ ∀ (env : Environment) (arguments : List Bytes) (w : Workspace) (destination : Bytes),
      (Arguments.words sharedFlags arguments).head? = some (Bytes.ofString "build") →
      w.disk.IsRooted w.workingDir →
      (∀ a, Call.ofArguments arguments = .ok (.run .build a) → ∀ path, a.Writes env path →
        ¬ Disk.placeOf w.workingDir destination <+: Disk.placeOf w.workingDir path) →
      (∃ f, ((run env arguments).run w).2.failure = some f ∧ f.isOfDestination = false) →
      ∀ place, Disk.placeOf w.workingDir destination <+: place →
        ((run env arguments).run w).1.disk.get? place = w.disk.get? place := by
  intro hsafe
  obtain ⟨hleft, name, hfailure⟩ := Rebuilding.run_longSpace (Nat.le_refl Archive.longestName)
  have hsame := hsafe Rebuilding.environment (Rebuilding.arguments (Rebuilding.longSpace Archive.longestName))
    (Rebuilding.workspace []) "out.zip" (Rebuilding.head_words _) (Rebuilding.isRooted_workspace _)
    (fun _ hcall path hwrites => absurd hwrites (Rebuilding.not_writes _ hcall path))
    ⟨_, hfailure, rfl⟩ _ List.prefix_rfl
  rw [hleft] at hsame
  revert hsame
  decide

end Tool

end Craftlang
