import Craftlang.Proofs.Build.Linking
import Craftlang.Proofs.Build.Rerun
import Craftlang.Proofs.Pack.Lines
import Craftlang.Proofs.Syntax.RawCommands

/-!
# How packs are written out

A command is one line, and the text that a pack takes over from its sources cannot change that: a raw command
ends with its line, strings and the description are quoted, and names are resource names. Sessions keep programs
and packs for later calls, and linking puts packs together; neither brings in other text. So the files of a pack
are its lines, whatever ends them.
-/

namespace Craftlang

open ResourceName (IsName)

/-! ## One pack -/

/-- The raw commands of the program are lines. -/
def Program.IsLined (p : Program) : Prop := ∀ v ∈ p.texts, Bytes.IsLine v

theorem File.isLined_parse (file : File) : file.parse.program.IsLined := file.lineFeed_notMem_texts

/-- The namespace of a unit is made of resource names, wherever it comes from. -/
theorem CompilationUnit.parts_deriveSpace (u : CompilationUnit) (o : BuildOptions) :
    ∀ part ∈ (u.deriveSpace o).parts, IsName part := by
  rw [deriveSpace]
  split
  · exact Namespace.parts_ofParts _
  · split
    · exact Namespace.parts_ofParts _
    · exact Namespace.parts_ofFileName _

namespace Datapack

/-- The code of a program is written in lines. -/
theorem isLined_packOf {p : Program} (h : p.IsLined) {ns : Namespace} (hns : ∀ part ∈ ns.parts, IsName part)
    (r : Resolution) (t : Typing) (format : Int) (description : Bytes) (tags : List Tagging) :
    (packOf ns format description (p.emit r t).finished tags).IsLined := by
  have hbuilt : (p.emit r t).IsBuiltOf .lines := Program.emit_isBuiltOf (m := .lines) h (Materials.supplies_lines _) r t
  intro f hf line hline
  rw [functions_packOf] at hf
  obtain ⟨e, he, rfl⟩ := List.mem_map.mp hf
  obtain ⟨d, hd, rfl⟩ := List.mem_map.mp hline
  exact (hbuilt.finished e he d hd).isLine_render hns

/-- Merging takes over functions of the other pack, even if it fails half way. -/
theorem IsLined.merge {d other : Datapack} (hd : d.IsLined) (hother : other.IsLined) : (d.merge other).1.IsLined := by
  have htaken (free : PackFunction → Bool) : ∀ f ∈ d.functions ++ other.functions.takeWhile free,
      ∀ line ∈ f.lines, line.IsLine := by
    intro f hf
    rcases List.mem_append.mp hf with hf | hf
    · exact hd f hf
    · exact hother f ((List.takeWhile_sublist free).subset hf)
  rw [Datapack.merge]
  split
  · exact hd
  · dsimp only
    split
    · exact htaken _
    · rw [foldl_mergeTag]
      exact htaken _

end Datapack

namespace Session

/-- The programs and the packs that the session keeps are written in lines. -/
structure IsLined (s : Session) : Prop where
  parsed : ∀ cache, s.parsed = some cache → ∀ e ∈ cache.entries, e.2.program.IsLined
  results : ∀ cache, s.results = some cache → ∀ key found, cache.usable? key = some found → found.2.IsLined

variable {s s' : Session} {o : BuildOptions} {input : UnitInput} {inputs : List UnitInput} {u : CompilationUnit}

theorem IsLined.congr (h : s.IsLined) (hp : s'.parsed = s.parsed) (hr : s'.results = s.results) : s'.IsLined :=
  ⟨fun cache hcache => h.parsed cache (hp ▸ hcache), fun cache hcache => h.results cache (hr ▸ hcache)⟩

theorem IsLined.of_means (h : s.IsLined) (hmeans : s'.means = s.means) : s'.IsLined :=
  h.congr (congrArg (·.1) hmeans) (congrArg (·.2.1) hmeans)

/-- A program comes from the session or is parsed, and the session keeps it. -/
theorem IsLined.loadParsed (h : s.IsLined) (u : CompilationUnit) (o : BuildOptions) :
    (s.loadParsed u o).2.1.program.IsLined ∧ (s.loadParsed u o).1.IsLined := by
  have hmade : (parseWithin u.file o.limit).program.IsLined := by
    rw [parseWithin_eq]
    exact u.file.isLined_parse
  rw [Session.loadParsed]
  cases hcache : s.parsed with
  | none => exact ⟨hmade, h⟩
  | some cache =>
    have hentries := h.parsed cache hcache
    dsimp only
    rw [ParseCache.load]
    split
    · rename_i parsed hfound
      obtain ⟨hprogram, hsame⟩ : parsed.program.IsLined ∧
          ({ s with parsed := some { cache with hits := cache.hits + 1 } } : Session).IsLined := by
        refine ⟨?_, fun kept hkept => ?_, h.results⟩
        · exact hentries _ (mem_of_lookup_eq_some hfound)
        · cases hkept
          exact hentries
      exact ⟨hprogram, hsame⟩
    · refine ⟨hmade, fun kept hkept e he => ?_, h.results⟩
      cases hkept
      rcases List.mem_append.mp he with he | he
      · exact hentries e he
      · rw [List.mem_singleton.mp he]
        exact hmade

/-- A unit is parsed to the program that the session has for it. -/
theorem parseStage_unit (s : Session) (u : CompilationUnit) (o : BuildOptions) :
    (s.parseStage u o).2.findings = { program := some (s.loadParsed u o).2.1.program } ∧
      (s.parseStage u o).2.datapack = u.datapack := by
  have hload : ∀ s' : Session, s'.parsed = s.parsed → (s'.loadParsed u o).2 = (s.loadParsed u o).2 :=
    fun _ => loadParsed_parsed
  refine ⟨?_, rfl⟩
  rw [← hload ((s.tell (.enter .stage Stage.parse.name)).announce ⟨u.name, some .parse, .working, none⟩) rfl]
  rfl

/-- A unit on its way: what is known of it and its namespace. It has no pack yet. -/
structure Heads (known : Findings) (ns : Namespace) (u : CompilationUnit) : Prop where
  findings : u.findings = known
  space : u.space = some ns
  datapack : u.datapack = none

variable {known : Findings} {ns : Namespace} {p : Program} {r : Resolution} {t : Typing}

theorem Heads.resolveStage (h : Heads known ns u) (s : Session) (o : BuildOptions) (p : Program) :
    Heads { known with resolution := some (p.resolve o.warnShadow) } ns (s.resolveStage u o p).2.1 :=
  ⟨by rw [← h.findings]; rfl, h.space, h.datapack⟩

theorem Heads.checkStage (h : Heads known ns u) (s : Session) (p : Program) (r : Resolution) :
    Heads { known with typing := some (p.typed r) } ns (s.checkStage u p r).2 :=
  ⟨by rw [← h.findings]; rfl, h.space, h.datapack⟩

/-- If a pack is generated, it is written in lines. -/
theorem Heads.generateStage (h : Heads ⟨some p, some r, some t⟩ ns u) (hp : p.IsLined)
    (hns : ∀ part ∈ ns.parts, IsName part) (hb : u.bag.hasErrors = false) :
    ∀ d, (s.generateStage u o).2.datapack = some d → d.IsLined := by
  intro d hd
  have hnone : u.datapack ≠ some d := by
    rw [h.datapack]
    exact (Option.some_ne_none d).symm
  obtain ⟨note, hu⟩ := generateStage_unit (s := s) (o := o) (u := u)
  rw [h.findings, Findings.generate_eq rfl _ _ _ hb, h.space] at hu
  rw [hu] at hd
  cases hfault : (p.emit r t).fault with
  | some fault =>
    simp only [hfault, CompilationUnit.addPhase] at hd
    exact absurd hd hnone
  | none =>
    by_cases hj : (p.emit r t).unjoinable.isEmpty
    · simp only [hfault, hj, if_true, CompilationUnit.addPhase, Option.getD_some] at hd
      rw [← Option.some.inj hd]
      exact Datapack.isLined_packOf hp hns r t _ _ _
    · simp only [hfault, hj, CompilationUnit.addPhase] at hd
      exact absurd hd hnone

/-- The stages end with a pack that is written in lines, if they end with one. -/
theorem IsLined.run (h : s.IsLined) (hnone : u.datapack = none) (o : BuildOptions) :
    (∀ d, (s.run u o).2.datapack = some d → d.IsLined) ∧ (s.run u o).1.IsLined := by
  obtain ⟨hprogram, hloaded⟩ := h.loadParsed u o
  by_cases hc : s.isCancelled = true
  · rw [Session.run, if_pos hc]
    exact ⟨fun d hd => absurd (hnone.symm.trans hd) (Option.some_ne_none d).symm, h⟩
  refine ⟨fun d => ?_, hloaded.of_means (means_run (Bool.eq_false_iff.mpr hc))⟩
  obtain ⟨hfindings, hpack⟩ := parseStage_unit s u o
  generalize (s.loadParsed u o).2.1.program = p at hprogram hfindings
  rw [Session.run, if_neg hc]
  generalize s.parseStage u o = next at hfindings hpack ⊢
  obtain ⟨s₁, u₁⟩ := next
  have hknown : u₁.findings.program = some p := congrArg Findings.program hfindings
  have hu₁ : Heads { program := some p } (u₁.deriveSpace o) { u₁ with space := some (u₁.deriveSpace o) } :=
    ⟨hfindings, rfl, hpack.trans hnone⟩
  have hns := u₁.parts_deriveSpace o
  simp only [hknown]
  generalize u₁.deriveSpace o = ns at hu₁ hns ⊢
  have hu₂ := hu₁.resolveStage s₁ o p
  have hr : (s₁.resolveStage { u₁ with space := some ns } o p).2.2 = p.resolve o.warnShadow := rfl
  generalize s₁.resolveStage { u₁ with space := some ns } o p = next at hu₂ hr ⊢
  obtain ⟨s₂, u₂, r⟩ := next
  subst hr
  have hu₃ := hu₂.checkStage s₂ p (p.resolve o.warnShadow)
  dsimp only
  generalize s₂.checkStage u₂ p (p.resolve o.warnShadow) = next at hu₃ ⊢
  obtain ⟨s₃, u₃⟩ := next
  have hstopped {v : CompilationUnit} (hv : v.datapack = none) : v.datapack = some d → d.IsLined := fun hd =>
    absurd (hv.symm.trans hd) (Option.some_ne_none d).symm
  split
  · exact hstopped hu₂.datapack
  · dsimp only
    split
    · exact hstopped hu₃.datapack
    · rename_i hb
      have hgenerated := hu₃.generateStage (s := s₃) (o := o) hprogram hns (Bool.eq_false_iff.mpr hb) d
      split <;> exact hgenerated

theorem IsLined.storeResult (h : s.IsLined) (hu : ∀ d, u.datapack = some d → d.IsLined) (key : Bytes) :
    (s.storeResult u key).IsLined := by
  rw [Session.storeResult]
  split
  · rename_i cache pack hcache hpack
    refine ⟨h.parsed, fun kept hkept k found hfound => ?_⟩
    cases hkept
    rw [ResultCache.usable?_put, if_pos rfl] at hfound
    split at hfound
    · cases hfound
      exact hu pack hpack
    · exact h.results cache hcache k found hfound
  · exact h

/-- The pack of a call is written in lines, wherever it comes from, and so is what the session keeps of it. -/
theorem IsLined.compile (h : s.IsLined) (o : BuildOptions) (input : UnitInput) :
    (∀ d, (s.compile o input).2.datapack = some d → d.IsLined) ∧ (s.compile o input).1.IsLined := by
  cases hfound : s.results.bind fun cache => cache.usable? (Digest.ofUnit input.name input.file o) with
  | some found =>
    obtain ⟨cache, hcache, husable⟩ := Option.bind_eq_some_iff.mp hfound
    obtain ⟨houtcome, -, -, hmeans⟩ := compile_hit o input hfound
    have hpack : (s.compile o input).2.datapack = some found.2 := congrArg (·.2.2.1) houtcome
    refine ⟨fun d hd => ?_, h.of_means hmeans⟩
    rw [← Option.some.inj (hpack.symm.trans hd)]
    exact h.results cache hcache _ found husable
  | none =>
    obtain ⟨s', hmeans, hunit, hleft⟩ := compile_missed o input hfound
    obtain ⟨hpack, hrun⟩ := (h.of_means hmeans).run (u := .start input o) rfl o
    rw [hunit]
    refine ⟨hpack, ?_⟩
    split at hleft
    · exact hrun.of_means hleft
    · exact (hrun.storeResult hpack _).of_means hleft

theorem IsLined.compileEach (h : s.IsLined) (o : BuildOptions) (inputs : List UnitInput) :
    (∀ u ∈ (s.compileEach o inputs).2, ∀ d, u.datapack = some d → d.IsLined) ∧ (s.compileEach o inputs).1.IsLined := by
  induction inputs generalizing s with
  | nil => exact ⟨fun _ hu => absurd hu List.not_mem_nil, h⟩
  | cons input inputs ih =>
    obtain ⟨hpack, hleft⟩ := h.compile o input
    obtain ⟨hrest, hend⟩ := ih (s := { (s.compile o input).1 with
      isCancelled := (s.compile o input).1.isCancelled || (s.compile o input).2.failure.isSome }) (hleft.congr rfl rfl)
    refine ⟨fun u hu => ?_, hend⟩
    rcases List.mem_cons.mp hu with rfl | hu
    · exact hpack
    · exact hrest u hu

theorem IsLined.compileAll (h : s.IsLined) (o : BuildOptions) (inputs : List UnitInput) :
    (∀ u ∈ (s.compileAll o inputs).2, ∀ d, u.datapack = some d → d.IsLined) ∧ (s.compileAll o inputs).1.IsLined := by
  obtain ⟨q, hq, hunits, hmeans⟩ := compileAll_eq s o inputs
  obtain ⟨hpacks, hleft⟩ := (h.of_means hq).compileEach (o.forUnits inputs) inputs
  refine ⟨fun u hu d hd => ?_, hleft.congr (congrArg (·.1) hmeans) (congrArg (·.2.1) hmeans)⟩
  rw [hunits] at hu
  obtain ⟨i, hi⟩ := List.mem_iff_getElem?.mp hu
  have hkept := checkSpaces_unit hi (by rw [hd]; exact Option.some_ne_none d)
  exact hpacks u (List.mem_of_getElem? hkept) d hd

theorem IsLined.parse (h : s.IsLined) (o : BuildOptions) (input : UnitInput) : (s.parse o input).1.IsLined := by
  have htold : (s.tell (.enter .unit ("parse:" ++ input.name))).IsLined := h.congr rfl rfl
  rw [Session.parse]
  dsimp only
  split
  · exact htold.congr rfl rfl
  · exact ((htold.loadParsed (.start input o) o).2.of_means (means_parseStage _)).congr rfl rfl

end Session

/-! ## All packs -/

namespace Datapack

variable {d : Datapack}

end Datapack

end Craftlang
