import Craftlang.Proofs.Build.Reliance
import Mathlib.Data.List.Forall2

/-!
# Checking namespaces again

A namespace that is taken is reported at the header of a unit if its tree is at hand, and at the start of its file
otherwise. So checking units that are compiled again differs for those that were told of nothing but that, and for
no others.
-/

namespace Craftlang

/-- Where the header of a unit stands, if its tree is at hand. -/
def CompilationUnit.headerSpan? (u : CompilationUnit) : Option Span :=
  (u.findings.program.bind (·.header)).map (·.span)

/-- The header of the unit stands in its tree, and the only error about the unit is that its namespace is
taken. -/
structure CompilationUnit.OnlyTaken (u : CompilationUnit) : Prop where
  header : u.headerSpan? ≠ none
  told : ∃ d ∈ u.bag.items, d.code = .duplicateNamespace
  only : ∀ d ∈ u.bag.items, d.isError = true → d.code = .duplicateNamespace

/-- A namespace that is taken is told of at the start of a file. -/
def Diagnostic.withoutHeader (d : Diagnostic) : Diagnostic :=
  if d.code = .duplicateNamespace then { d with span := ⟨0, 0, 0⟩ } else d

/-- A unit of a build, and what building the same units again makes of it. -/
structure CompilationUnit.Rebuilt (u v : CompilationUnit) : Prop where
  name : v.name = u.name
  space : v.space = u.space
  datapack : v.datapack = u.datapack
  failure : v.failure = u.failure
  same : ¬ u.OnlyTaken → v.bag.items = u.bag.items
  moved : u.OnlyTaken → v.bag.items = u.bag.items.map Diagnostic.withoutHeader ∧ v.bag.items ≠ u.bag.items

open CompilationUnit (OnlyTaken Rebuilt)

/-! ## What the check of namespaces goes by -/

/-- Parsing does not report about namespaces of other units. -/
theorem File.code_ne_of_mem_parse {file : File} {d : Diagnostic} (hd : d ∈ file.parse.diagnostics) :
    d.code ≠ .duplicateNamespace := by
  rcases reported_of_mem_parse hd with ⟨problem, span, rfl⟩ | ⟨problem, span, rfl⟩
  · cases problem <;> exact of_decide_eq_true rfl
  · cases problem with
    | expected what got => cases what <;> exact of_decide_eq_true rfl
    | unexpectedIndent => exact of_decide_eq_true rfl
    | badAssignmentTarget => exact of_decide_eq_true rfl
    | lateNamespace => exact of_decide_eq_true rfl

theorem Diagnostic.code_ne_of_isSemantic {d : Diagnostic} (h : d.isSemantic = true) :
    d.code ≠ .duplicateNamespace := by
  intro heq
  rw [isSemantic, heq] at h
  cases h

theorem Emission.code_ne_of_mem_unjoinable {s : Emission} {d : Diagnostic} (hd : d ∈ s.unjoinable) :
    d.code ≠ .duplicateNamespace := by
  rw [unjoinable] at hd
  split at hd
  · cases hd
  · obtain ⟨span, -, rfl⟩ := List.mem_map.mp hd
    exact of_decide_eq_true rfl

/-- A unit before its namespace is checked: its header has some length, nothing was said about its namespace,
no error was kept if it has a pack, and one was kept if there was room and it has none. -/
structure CompilationUnit.Unchecked (u : CompilationUnit) : Prop where
  header : ∀ span, u.headerSpan? = some span → span.start < span.stop
  untold : ∀ d ∈ u.bag.items, d.code ≠ .duplicateNamespace
  accepted : u.datapack ≠ none → ∀ d ∈ u.bag.items, d.isError = false
  refused : u.datapack = none → u.failure = none → u.bag.isFull = true ∨ ∃ d ∈ u.bag.items, d.isError = true

theorem Bag.mem_addAll {b : Bag} {ds : List Diagnostic} {d : Diagnostic} (h : d ∈ (b.addAll ds).items) :
    d ∈ b.items ∨ d ∈ ds := by
  induction ds generalizing b with
  | nil => exact .inl h
  | cons e ds ih =>
    rcases ih h with h | h
    · rw [add] at h
      split at h
      · exact .inl h
      · exact (List.mem_append.mp h).imp_right fun h => List.mem_cons.mpr (.inl (List.mem_singleton.mp h))
    · exact .inr (List.mem_cons_of_mem _ h)

/-- A bag that is given something is full or has its first member. -/
theorem Bag.isFull_or_mem_addAll (b : Bag) (d : Diagnostic) (ds : List Diagnostic) :
    (b.addAll (d :: ds)).isFull = true ∨ d ∈ (b.addAll (d :: ds)).items := by
  have hgrows : ∀ (ds : List Diagnostic) (b : Bag), b.items ⊆ (b.addAll ds).items ∧
      (b.isFull = true → b.addAll ds = b) := by
    intro ds
    induction ds with
    | nil => exact fun b => ⟨List.Subset.refl _, fun _ => rfl⟩
    | cons e ds ih =>
      intro b
      have hadd : b.items ⊆ (b.add e).items := by
        rw [add]
        split
        · exact List.Subset.refl _
        · exact List.subset_append_left _ _
      refine ⟨List.Subset.trans hadd (ih (b.add e)).1, fun hfull => ?_⟩
      have hsame : b.add e = b := by rw [add, if_pos hfull]
      change (b.add e).addAll ds = b
      rw [hsame]
      exact (ih b).2 hfull
  by_cases hfull : b.isFull = true
  · rw [(hgrows (d :: ds) b).2 hfull]
    exact .inl hfull
  · refine .inr ((hgrows ds (b.add d)).1 ?_)
    rw [add, if_neg hfull]
    exact List.mem_append_right _ (List.mem_singleton_self d)

theorem UnitInput.start_lt_of_header {input : UnitInput} {h : DottedName} (hh : input.program.header = some h) :
    h.span.start < h.span.stop := by
  have hmem : h.span ∈ input.file.parse.program.spans := by
    rw [Program.spans]
    refine List.mem_append_left _ ?_
    rw [show input.file.parse.program.header = some h from hh]
    exact List.mem_singleton_self _
  exact (input.file.parse_framed.row.of_mem hmem).2.2.1

/-- What the stages report is nothing about namespaces, whatever parsing has let through. -/
theorem UnitInput.code_ne_of_mem {input : UnitInput} {shadow : Bool} {n : Nat} {ds : List Diagnostic}
    (hds : ds ⊆ input.file.parse.diagnostics) {d : Diagnostic}
    (hd : d ∈ Bag.keep n (ds ++ (input.resolution shadow).diagnostics ++ (input.typing shadow).diagnostics)) :
    d.code ≠ .duplicateNamespace := by
  rcases List.mem_append.mp (Bag.mem_of_mem_keep hd) with hd | hd
  · rcases List.mem_append.mp hd with hd | hd
    · exact File.code_ne_of_mem_parse (hds hd)
    · exact Diagnostic.code_ne_of_isSemantic ((Resolution.records_resolve _ _).semantic d hd)
  · exact Diagnostic.code_ne_of_isSemantic (Program.isOfTypes_of_mem_typed hd).isSemantic

/-- A unit with which the stages are through is not checked yet. -/
theorem UnitInput.unchecked {input : UnitInput} {o : BuildOptions} {u : CompilationUnit}
    {ds : List Diagnostic} (hds : ds ⊆ input.file.parse.diagnostics) (hu : u.outcome = input.outcome o ds)
    (hheader : ∀ span, u.headerSpan? = some span → span.start < span.stop) : u.Unchecked := by
  rw [UnitInput.outcome] at hu
  dsimp only at hu
  generalize hkept : Bag.mk o.limit.toNat (Bag.keep o.limit.toNat (ds ++ (input.resolution o.warnShadow).diagnostics
    ++ (input.typing o.warnShadow).diagnostics)) = kept at hu
  have huntold : ∀ d ∈ kept.items, d.code ≠ .duplicateNamespace := by
    rw [← hkept]
    exact fun d hd => UnitInput.code_ne_of_mem hds hd
  by_cases herrors : kept.hasErrors = true
  · rw [if_pos herrors] at hu
    have hbag : u.bag = kept := congrArg (·.2.1) hu
    have hpack : u.datapack = none := congrArg (·.2.2.1) hu
    exact ⟨hheader, hbag ▸ huntold, fun hsome => absurd hpack hsome,
      fun _ _ => .inr (hbag ▸ List.any_eq_true.mp herrors)⟩
  · rw [if_neg herrors, UnitInput.findings,
      Findings.generate_eq rfl _ _ _ (Bool.eq_false_iff.mpr herrors)] at hu
    have hclean : ∀ d ∈ kept.items, d.isError = false := fun d hd =>
      Bool.eq_false_iff.mpr fun hd' => herrors (List.any_eq_true.mpr ⟨d, hd, hd'⟩)
    change u.outcome = _ at hu
    generalize input.program.emit (input.resolution o.warnShadow) (input.typing o.warnShadow) = code at hu
    cases hfault : code.fault with
    | some fault =>
      rw [hfault] at hu
      have hbag : u.bag = kept := congrArg (·.2.1) hu
      have hpack : u.datapack = none := congrArg (·.2.2.1) hu
      have hfailure : u.failure ≠ none := by
        rw [show u.failure = some _ from congrArg (·.2.2.2) hu]
        exact Option.some_ne_none _
      exact ⟨hheader, hbag ▸ huntold, fun hsome => absurd hpack hsome, fun _ hnone => absurd hnone hfailure⟩
    | none =>
      rw [hfault] at hu
      cases hj : code.unjoinable with
      | nil =>
        simp only [hj, List.isEmpty_nil, if_true] at hu
        have hbag : u.bag = kept := congrArg (·.2.1) hu
        have hpack : u.datapack ≠ none := by
          rw [show u.datapack = some _ from congrArg (·.2.2.1) hu]
          exact Option.some_ne_none _
        exact ⟨hheader, hbag ▸ huntold, fun _ => hbag ▸ hclean, fun hnone => absurd hnone hpack⟩
      | cons first rest =>
        simp only [hj, List.isEmpty_cons, Bool.false_eq_true, if_false] at hu
        have hbag : u.bag = kept.addAll (first :: rest) := congrArg (·.2.1) hu
        have hpack : u.datapack = none := congrArg (·.2.2.1) hu
        have herror : first.isError = true :=
          Emission.isError_of_mem_unjoinable (hj ▸ List.mem_cons_self)
        refine ⟨hheader, fun d hd => ?_, fun hsome => absurd hpack hsome, fun _ _ => ?_⟩
        · rw [hbag] at hd
          rcases Bag.mem_addAll hd with hd | hd
          · exact huntold d hd
          · exact Emission.code_ne_of_mem_unjoinable (hj ▸ hd)
        · rw [hbag]
          exact (Bag.isFull_or_mem_addAll kept first rest).imp_right fun hmem => ⟨first, hmem, herror⟩

/-! ## Checking the namespaces twice -/

/-- A unit, and what compiling it again makes of it before the namespaces are checked: it ends the same, but
its tree is not at hand if its result was kept. -/
structure CompilationUnit.Resumes (u v : CompilationUnit) : Prop where
  name : v.name = u.name
  outcome : v.outcome = u.outcome
  file : u.file.id = 0 ∧ v.file.id = 0
  header : u.failure = none → v.headerSpan? = if u.datapack.isSome then none else u.headerSpan?

namespace CompilationUnit

variable {u v : CompilationUnit}

theorem duplicateSpace_eq (u : CompilationUnit) (space owner : Bytes) : u.duplicateSpace space owner =
    .error .duplicateNamespace (u.headerSpan?.getD ⟨u.file.id, 0, 0⟩)
      ("namespace '" ++ space ++ "' is already used by " ++ owner) := rfl

theorem Unchecked.not_onlyTaken (hu : u.Unchecked) : ¬ u.OnlyTaken := by
  rintro ⟨-, ⟨d, hd, hcode⟩, -⟩
  exact hu.untold d hd hcode

/-- A unit about whose namespace nothing is said is rebuilt as it was. -/
theorem Resumes.rebuilt (h : u.Resumes v) (hu : u.Unchecked) : u.Rebuilt v where
  name := h.name
  space := congrArg (·.1) h.outcome
  datapack := congrArg (·.2.2.1) h.outcome
  failure := congrArg (·.2.2.2) h.outcome
  same := fun _ => congrArg (·.2.1.items) h.outcome
  moved := fun honly => absurd honly hu.not_onlyTaken

theorem map_withoutHeader (hu : u.Unchecked) : u.bag.items.map Diagnostic.withoutHeader = u.bag.items :=
  (List.map_congr_left fun d hd => if_neg (hu.untold d hd)).trans (List.map_id _)

/-- A unit whose namespace another one has. -/
def taken (u : CompilationUnit) (space owner : Bytes) : CompilationUnit :=
  { u.report [u.duplicateSpace space owner] with datapack := none }

variable {space owner : Bytes}

theorem items_taken (hroom : u.bag.isFull = false) :
    (u.taken space owner).bag.items = u.bag.items ++ [u.duplicateSpace space owner] := by
  change (u.bag.add _).items = _
  rw [Bag.add, if_neg (by simp [hroom])]

theorem items_taken_full (hfull : u.bag.isFull = true) :
    (u.taken space owner).bag.items = u.bag.items := by
  change (u.bag.add _).items = _
  rw [Bag.add, if_pos hfull]

/-- A unit is told of nothing but its namespace if there is room and the unit had its header and its pack. -/
theorem Unchecked.onlyTaken_iff (hu : u.Unchecked) (hfailure : u.failure = none) :
    (u.taken space owner).OnlyTaken ↔
      u.bag.isFull = false ∧ u.headerSpan? ≠ none ∧ u.datapack ≠ none := by
  constructor
  · rintro ⟨hheader, ⟨d, hd, hcode⟩, honly⟩
    cases hfull : u.bag.isFull with
    | true =>
      rw [items_taken_full hfull] at hd
      exact absurd hcode (hu.untold d hd)
    | false =>
      refine ⟨rfl, hheader, fun hnone => ?_⟩
      rcases hu.refused hnone hfailure with hfull' | ⟨e, he, herror⟩
      · rw [hfull] at hfull'
        cases hfull'
      · rw [items_taken hfull] at honly
        exact hu.untold e he (honly e (List.mem_append_left _ he) herror)
  · rintro ⟨hroom, hheader, hpack⟩
    refine ⟨hheader, ?_, ?_⟩
    · rw [items_taken hroom]
      exact ⟨_, List.mem_append_right _ (List.mem_singleton_self _), rfl⟩
    · rw [items_taken hroom]
      intro d hd herror
      rcases List.mem_append.mp hd with hd | hd
      · rw [hu.accepted hpack d hd] at herror
        cases herror
      · rw [List.mem_singleton.mp hd]
        rfl

/-- A unit whose namespace is taken is told so elsewhere if it had its header and its pack. -/
theorem Resumes.rebuilt_taken (h : u.Resumes v) (hu : u.Unchecked) (hfailure : u.failure = none) :
    (u.taken space owner).Rebuilt (v.taken space owner) := by
  have hbag : v.bag = u.bag := congrArg (·.2.1) h.outcome
  have hheader := h.header hfailure
  refine ⟨h.name, congrArg (·.1) h.outcome, rfl, congrArg (·.2.2.2) h.outcome, fun hother => ?_, fun honly => ?_⟩
  · rw [hu.onlyTaken_iff hfailure] at hother
    cases hfull : u.bag.isFull with
    | true => rw [items_taken_full hfull, items_taken_full (hbag ▸ hfull), hbag]
    | false =>
      have hplace : v.headerSpan? = u.headerSpan? := by
        rw [hheader]
        split
        · rename_i hpack
          by_contra hne
          exact hother ⟨hfull, Ne.symm hne, Option.isSome_iff_ne_none.mp hpack⟩
        · rfl
      rw [items_taken hfull, items_taken (hbag ▸ hfull), hbag, duplicateSpace_eq, duplicateSpace_eq, hplace,
        h.file.1, h.file.2]
  · obtain ⟨hroom, hsome, hpack⟩ := (hu.onlyTaken_iff hfailure).mp honly
    obtain ⟨span, hspan⟩ := Option.ne_none_iff_exists'.mp hsome
    rw [if_pos (Option.isSome_iff_ne_none.mpr hpack)] at hheader
    rw [items_taken hroom, items_taken (hbag ▸ hroom), hbag, duplicateSpace_eq, duplicateSpace_eq, hheader, hspan,
      h.file.2, Option.getD_none, Option.getD_some]
    refine ⟨?_, fun heq => ?_⟩
    · rw [List.map_append, map_withoutHeader hu]
      rfl
    · have hlast := List.append_cancel_left heq
      have hzero : (⟨0, 0, 0⟩ : Span) = span := congrArg Diagnostic.span (List.cons.inj hlast).1
      have hlt := hu.header span hspan
      rw [← hzero] at hlt
      exact absurd hlt (Nat.lt_irrefl 0)

end CompilationUnit

open CompilationUnit (Resumes Unchecked)

/-- Units that end the same have the same namespaces taken. -/
theorem rebuilt_checkSpaces {us vs : List CompilationUnit}
    (h : List.Forall₂ (fun u v => u.Unchecked ∧ u.Resumes v) us vs) (owners : List (Bytes × Bytes)) :
    List.Forall₂ Rebuilt (checkSpaces owners us) (checkSpaces owners vs) := by
  induction h generalizing owners with
  | nil => exact .nil
  | @cons u v us vs huv _ ih =>
    obtain ⟨hu, hv⟩ := huv
    have hfailure : v.failure = u.failure := congrArg (·.2.2.2) hv.outcome
    have hspace : v.space = u.space := congrArg (·.1) hv.outcome
    rw [checkSpaces, checkSpaces, hfailure, hspace, hv.name]
    cases hf : u.failure with
    | some failure => exact .cons (hv.rebuilt hu) (ih owners)
    | none =>
      cases u.space with
      | none => exact .cons (hv.rebuilt hu) (ih owners)
      | some space =>
        dsimp only
        cases owners.lookup space.render with
        | none => exact .cons (hv.rebuilt hu) (ih _)
        | some owner => exact .cons (hv.rebuilt_taken hu hf) (ih owners)

end Craftlang
