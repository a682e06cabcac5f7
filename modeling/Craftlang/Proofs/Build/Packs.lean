import Craftlang.Proofs.Build.Gate
import Craftlang.Proofs.Build.Generation
import Craftlang.Proofs.Build.Sharing

/-!
# The packs of a build

A unit that ends with a pack has the pack that its input says, and its namespace. Of the units that a
build leaves with packs no two have the same namespace.
-/

namespace Craftlang

/-- The pack of a unit: its code, written out for its namespace. -/
def UnitInput.pack (input : UnitInput) (o : BuildOptions) : Datapack :=
  packOf (input.space o.space) o.format o.description (input.emission o.warnShadow).finished
    ((input.typing o.warnShadow).packTags (input.space o.space))

/-- The unit of an input that ended with a pack. -/
structure CompilationUnit.Packed (o : BuildOptions) (input : UnitInput) (u : CompilationUnit) :
    Prop where
  failure : u.failure = none
  name : u.name = input.name
  space : u.space = some (input.space o.space)
  datapack : u.datapack = some (input.pack o)
  stopped : input.isStopped o.warnShadow o.limit.toNat = false
  joinable : (input.emission o.warnShadow).unjoinable = []

open CompilationUnit (Reached Packed)

/-- Without a limit only accepted units end with a pack. -/
theorem CompilationUnit.Packed.isAccepted {o : BuildOptions} {input : UnitInput}
    {u : CompilationUnit} (h : u.Packed o input) (ho : o.limit ≤ 0) :
    input.IsAccepted o.warnShadow := by
  intro d hd
  have hany := h.stopped
  rw [UnitInput.isStopped, Int.toNat_of_nonpos ho, Bag.keep_zero] at hany
  simpa using List.any_eq_false.mp hany d hd

/-- An accepted unit has a pack if its strings can be joined. -/
theorem UnitInput.IsAccepted.isPacked {input : UnitInput} {shadow : Bool}
    (h : input.IsAccepted shadow) (hj : (input.emission shadow).unjoinable = []) (limit : Nat) :
    input.isPacked shadow limit = true := by
  have hstopped : input.isStopped shadow limit = false := by
    rw [isStopped, List.any_eq_false]
    intro d hd
    rw [h d (Bag.mem_of_mem_keep hd)]
    exact Bool.false_ne_true
  rw [UnitInput.isPacked, hstopped, hj]
  rfl

/-- A unit about which nothing is reported ends with its pack if its strings can be joined. -/
theorem UnitInput.IsSilent.outcome {input : UnitInput} {o : BuildOptions} (h : input.IsSilent o.warnShadow)
    (hj : (input.emission o.warnShadow).unjoinable = []) :
    input.outcome o [] = (some (input.space o.space), ⟨o.limit.toNat, []⟩, some (input.pack o), none) := by
  have hemit : input.program.emit (input.resolution o.warnShadow) (input.typing o.warnShadow)
      = input.emission o.warnShadow := rfl
  have hclean : (⟨o.limit.toNat, []⟩ : Bag).hasErrors = false := rfl
  rw [UnitInput.outcome, h.2.1, h.2.2, List.append_nil, List.append_nil, Bag.keep_nil]
  dsimp only
  rw [hclean, if_neg Bool.false_ne_true, findings, Findings.generate_eq hemit _ _ _ hclean, h.isAccepted.fault, hj]
  rfl

namespace Session

variable {s : Session} {o : BuildOptions} {input : UnitInput} {inputs : List UnitInput}
  {u : CompilationUnit} {known : Findings} {ns : Option Namespace} {ds : List Diagnostic}

theorem generateStage_packed
    (h : u.Reached o input (input.findings o.warnShadow) (some (input.space o.space))
      (input.reports o.warnShadow))
    (hb : u.bag.hasErrors = false) (hd : (s.generateStage u o).2.datapack ≠ none) :
    (s.generateStage u o).2.Packed o input := by
  have hstopped : input.isStopped o.warnShadow o.limit.toNat = false := by
    rw [UnitInput.isStopped, ← h.limit, ← h.bag.hasErrors_eq]
    exact hb
  have hcode : input.program.emit (input.resolution o.warnShadow) (input.typing o.warnShadow)
      = input.emission o.warnShadow := rfl
  obtain ⟨note, hu⟩ := generateStage_unit (s := s) (o := o) (u := u)
  rw [h.findings, UnitInput.findings, Findings.generate_eq hcode _ _ _ hb, h.space] at hu
  rw [hu] at hd ⊢
  cases hfault : (input.emission o.warnShadow).fault with
  | some fault =>
    simp only [hfault, CompilationUnit.addPhase] at hd
    exact absurd h.datapack hd
  | none =>
    by_cases hj : (input.emission o.warnShadow).unjoinable.isEmpty
    · simp only [hj, if_true, CompilationUnit.addPhase]
      exact ⟨h.failure, h.name, rfl, rfl, hstopped, List.isEmpty_iff.mp hj⟩
    · simp only [hfault, hj, CompilationUnit.addPhase] at hd
      exact absurd h.datapack hd

/-- If the stages end with a pack, it is the one that the input says. -/
theorem run_packed (hr : s.Reads o input) (hd : (s.run (.start input o) o).2.datapack ≠ none) :
    (s.run (.start input o) o).2.Packed o input := by
  by_cases hc : s.isCancelled = true
  · rw [run, if_pos hc] at hd
    exact absurd rfl hd
  · obtain ⟨s', u, hu, hrun⟩ := run_unit hr (Bool.eq_false_iff.mpr hc)
    rw [if_pos (input.faults_resolution _)] at hrun
    rw [hrun] at hd ⊢
    by_cases hb : u.bag.hasErrors = true
    · rw [if_pos hb] at hd
      exact absurd hu.datapack hd
    · rw [if_neg hb] at hd ⊢
      exact generateStage_packed hu (Bool.eq_false_iff.mpr hb) hd

theorem KeepsNothing.remembers (hk : s.KeepsNothing) (input : UnitInput) : s.Remembers input := by
  intro cache hcache
  rw [hk.1] at hcache
  cases hcache

/-- A file about which parsing has reported anything ends without a pack, within whatever limit it was
parsed. -/
theorem reads_of_packed (hm : s.Remembers input) (hd : (s.run (.start input o) o).2.datapack ≠ none) :
    s.Reads o input ∧ s.isCancelled = false := by
  have hrunning : s.isCancelled = false := by
    by_contra hc
    rw [Bool.not_eq_false] at hc
    rw [run, if_pos hc] at hd
    exact hd rfl
  refine ⟨?_, hrunning⟩
  cases hp : input.file.parse.diagnostics with
  | nil => exact reads_of_remembers hm hp
  | cons d ds =>
    obtain ⟨limit, hload⟩ := loadParsed_of_remembers hm o
    have hu := parseStage_within hload
    rw [hp, Bag.keep_cons] at hu
    have herror : d.isError = true := File.isError_of_mem_parse (hp ▸ List.mem_cons_self)
    exact absurd (run_of_fault hu herror hrunning).datapack hd

theorem run_packed_of_remembers (hm : s.Remembers input)
    (hd : (s.run (.start input o) o).2.datapack ≠ none) : (s.run (.start input o) o).2.Packed o input :=
  run_packed (reads_of_packed hm hd).1 hd

theorem compile_packed (hm : s.Remembers input) (hn : s.results = none)
    (hd : (s.compile o input).2.datapack ≠ none) : (s.compile o input).2.Packed o input := by
  obtain ⟨s', hmeans, hu, -⟩ := compile_run o input hn
  have hm' : s'.Remembers input := fun cache hcache =>
    hm cache ((congrArg Prod.fst hmeans).symm.trans hcache)
  rw [hu] at hd ⊢
  exact run_packed_of_remembers hm' hd

/-- An accepted unit whose strings can be joined is compiled to its pack. -/
theorem compile_pack (hk : s.KeepsNothing) (hc : s.isCancelled = false)
    (h : input.IsAccepted o.warnShadow) (hj : (input.emission o.warnShadow).unjoinable = []) :
    (s.compile o input).2.datapack = some (input.pack o) := by
  have hfailure := (compile_failure_iff hk).mpr ⟨hc, h.isSound rfl⟩
  have hsome := (compile_judged hk hfailure).datapack
  rw [h.isPacked hj] at hsome
  refine (compile_packed (hk.remembers input) hk.2 fun hnone => ?_).datapack
  rw [hnone] at hsome
  cases hsome

/-- What compiling keeps true of a session and what then holds of the units with packs. A session that
is cancelled leaves everything else as it was. -/
structure Packs (I : Session → Prop) (o : BuildOptions) (inputs : List UnitInput) : Prop where
  session : ∀ s, I s → ∀ input ∈ inputs, ∀ c, I { (s.compile o input).1 with isCancelled := c }
  unit : ∀ s, I s → ∀ input ∈ inputs, (s.compile o input).2.datapack ≠ none →
    (s.compile o input).2.Packed o input

theorem packs_keepsNothing (o : BuildOptions) (inputs : List UnitInput) :
    Packs KeepsNothing o inputs where
  session := by
    intro s hk input _ c
    obtain ⟨-, -, -, hm⟩ := compile_unit o input hk
    exact ⟨(congrArg (·.1) hm).trans hk.1, (congrArg (·.2.1) hm).trans hk.2⟩
  unit := fun s hk input _ hd => compile_packed (hk.remembers input) hk.2 hd

theorem compileEach_packed {I : Session → Prop} (h : Packs I o inputs) (hs : I s) {i : Nat}
    {u : CompilationUnit} (hu : (s.compileEach o inputs).2[i]? = some u) (hd : u.datapack ≠ none) :
    ∃ input, inputs[i]? = some input ∧ u.Packed o input := by
  induction inputs generalizing s i with
  | nil => cases hu
  | cons input inputs ih =>
    cases i with
    | zero =>
      cases hu
      exact ⟨input, rfl, h.unit s hs input List.mem_cons_self hd⟩
    | succ i =>
      have hrest : Packs I o inputs :=
        ⟨fun s hs x hx => h.session s hs x (List.mem_cons_of_mem _ hx),
          fun s hs x hx => h.unit s hs x (List.mem_cons_of_mem _ hx)⟩
      exact ih hrest (h.session s hs input List.mem_cons_self _) hu

end Session

/-- The options that a unit of a build is compiled with: with several units none is told its
namespace. -/
def BuildOptions.forUnits (o : BuildOptions) (inputs : List UnitInput) : BuildOptions :=
  if 1 < inputs.length then { o with space := [] } else o

theorem BuildOptions.forUnits_eq (o : BuildOptions) (inputs : List UnitInput) :
    ∃ space, o.forUnits inputs = { o with space } := by
  rw [forUnits]
  split
  · exact ⟨[], rfl⟩
  · exact ⟨o.space, rfl⟩

/-- A unit that holds a namespace: it was not given up and has a pack. -/
structure CompilationUnit.Holds (u : CompilationUnit) (space : Bytes) : Prop where
  failure : u.failure = none
  datapack : u.datapack ≠ none
  space : u.space.map Namespace.render = some space

open CompilationUnit (Holds)

theorem CompilationUnit.Packed.holds {o : BuildOptions} {input : UnitInput} {u : CompilationUnit}
    (h : u.Packed o input) : u.Holds (input.space o.space).render :=
  ⟨h.failure, by rw [h.datapack]; exact Option.some_ne_none _, by rw [h.space]; rfl⟩

/-- Checking the namespaces leaves a unit that keeps its pack alone. -/
theorem checkSpaces_unit {owners : List (Bytes × Bytes)} {us : List CompilationUnit} {i : Nat}
    {u : CompilationUnit} (hu : (checkSpaces owners us)[i]? = some u) (hd : u.datapack ≠ none) :
    us[i]? = some u := by
  induction us generalizing owners i with
  | nil => cases hu
  | cons w us ih =>
    rw [checkSpaces] at hu
    split at hu
    · split at hu
      · cases i with
        | zero => exact hu
        | succ i => exact ih hu
      · cases i with
        | zero =>
          cases hu
          exact absurd rfl hd
        | succ i => exact ih hu
    · cases i with
      | zero => exact hu
      | succ i => exact ih hu

/-- A unit that is left with its namespace comes after no other with the same. -/
theorem checkSpaces_lookup {owners : List (Bytes × Bytes)} {us : List CompilationUnit}
    {u : CompilationUnit} {space : Bytes} (hu : u ∈ checkSpaces owners us) (h : u.Holds space) :
    owners.lookup space = none := by
  induction us generalizing owners with
  | nil => cases hu
  | cons w us ih =>
    rw [checkSpaces] at hu
    split at hu
    · rename_i ns hfailure hspace
      split at hu
      · rename_i hfree
        rcases List.mem_cons.mp hu with rfl | hu
        · have heq := h.space
          rw [hspace] at heq
          cases heq
          exact hfree
        · have hnone := ih hu
          rw [List.lookup_append, Option.or_eq_none_iff] at hnone
          exact hnone.1
      · rcases List.mem_cons.mp hu with rfl | hu
        · exact absurd rfl h.datapack
        · exact ih hu
    · rename_i hother
      rcases List.mem_cons.mp hu with rfl | hu
      · obtain ⟨ns, hns, -⟩ := Option.map_eq_some_iff.mp h.space
        exact absurd hns (hother ns h.failure)
      · exact ih hu

/-- No two units are left with the same namespace. -/
theorem checkSpaces_pairwise (owners : List (Bytes × Bytes)) (us : List CompilationUnit) :
    (checkSpaces owners us).Pairwise fun u v => ∀ space, u.Holds space → ¬ v.Holds space := by
  induction us generalizing owners with
  | nil => exact List.Pairwise.nil
  | cons w us ih =>
    rw [checkSpaces]
    split
    · rename_i ns hfailure hspace
      split
      · refine List.pairwise_cons.mpr ⟨fun v hv space hw hheld => ?_, ih _⟩
        have heq := hw.space
        rw [hspace] at heq
        cases heq
        have hnone := checkSpaces_lookup hv hheld
        rw [List.lookup_append, Option.or_eq_none_iff] at hnone
        simp at hnone
      · exact List.pairwise_cons.mpr ⟨fun v _ space hw _ => hw.datapack rfl, ih _⟩
    · rename_i hother
      refine List.pairwise_cons.mpr ⟨fun v _ space hw _ => ?_, ih _⟩
      obtain ⟨ns, hns, -⟩ := Option.map_eq_some_iff.mp hw.space
      exact hother ns hw.failure hns

namespace Session

variable {s : Session} {o : BuildOptions} {inputs : List UnitInput}

/-- A session that means the same keeps what compiling goes by. -/
theorem compileAll_packed {I : Session → Prop} (h : Packs I (o.forUnits inputs) inputs)
    (hI : ∀ s' : Session, s'.means = s.means → I s') {i : Nat} {u : CompilationUnit}
    (hu : (s.compileAll o inputs).2[i]? = some u) (hd : u.datapack ≠ none) :
    ∃ input, inputs[i]? = some input ∧ u.Packed (o.forUnits inputs) input := by
  obtain ⟨s', hm, hus⟩ := compileAll_units s o inputs
  rw [hus] at hu
  exact compileEach_packed h (hI s' hm) (checkSpaces_unit hu hd) hd

/-- In a build that was not cancelled every unit has a pack if nothing keeps it from having one and its
namespace is free. -/
theorem compileAll_packs (hk : s.KeepsNothing) (hc : s.isCancelled = false)
    (hin : ∀ input ∈ inputs, input.IsSound (o.forUnits inputs) ∧
      input.isPacked (o.forUnits inputs).warnShadow (o.forUnits inputs).limit.toNat = true)
    (hfree : ∀ ds ∈ takenSpaces (o.forUnits inputs).space [] inputs, ds = []) {i : Nat}
    (hi : i < inputs.length) : ∃ u, (s.compileAll o inputs).2[i]? = some u ∧ u.datapack ≠ none := by
  obtain ⟨s', hm, hus⟩ := compileAll_units s o inputs
  change (s.compileAll o inputs).2 = checkSpaces [] (s'.compileEach (o.forUnits inputs) inputs).2 at hus
  have hk' : s'.KeepsNothing := hk.of_means hm
  have hj := compileEach_judged (o := o.forUnits inputs) hk' ((congrArg (·.2.2) hm).trans hc) hi
    fun input hinput => (hin input (List.mem_of_mem_take hinput)).1
  obtain ⟨u, hu⟩ : ∃ u, (s.compileAll o inputs).2[i]? = some u :=
    ⟨_, List.getElem?_eq_getElem (by rwa [length_compileAll])⟩
  obtain ⟨input, ds, hinput, hds, hsettled⟩ := checkSpaces_settled hj (hus ▸ hu)
  refine ⟨u, hu, fun hnone => ?_⟩
  have hsome := hsettled.datapack
  rw [(hin input (List.mem_of_getElem? hinput)).2, hfree ds (List.mem_of_getElem? hds), hnone] at hsome
  cases hsome

/-- Two units of a build that end with packs have different namespaces. -/
theorem compileAll_spaces {i j : Nat} (hne : i ≠ j) {u v : CompilationUnit} {a b : UnitInput}
    (hu : (s.compileAll o inputs).2[i]? = some u) (hv : (s.compileAll o inputs).2[j]? = some v)
    (ha : u.Packed (o.forUnits inputs) a) (hb : v.Packed (o.forUnits inputs) b) :
    (a.space (o.forUnits inputs).space).render ≠ (b.space (o.forUnits inputs).space).render := by
  obtain ⟨s', -, hus⟩ := compileAll_units s o inputs
  have hpairs := checkSpaces_pairwise [] (s'.compileEach (o.forUnits inputs) inputs).2
  change (s.compileAll o inputs).2 = checkSpaces [] _ at hus
  rw [BuildOptions.forUnits] at *
  rw [← hus] at hpairs
  intro heq
  obtain ⟨hi, rfl⟩ := List.getElem?_eq_some_iff.mp hu
  obtain ⟨hj, rfl⟩ := List.getElem?_eq_some_iff.mp hv
  rcases Nat.lt_or_gt_of_ne hne with hlt | hlt
  · exact List.pairwise_iff_getElem.mp hpairs i j hi hj hlt _ ha.holds (heq ▸ hb.holds)
  · exact List.pairwise_iff_getElem.mp hpairs j i hj hi hlt _ hb.holds (heq ▸ ha.holds)

end Session

end Craftlang
