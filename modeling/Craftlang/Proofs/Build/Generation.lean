import Craftlang.Proofs.Build.Stages
import Craftlang.Proofs.Code.Places
import Craftlang.Proofs.Code.Program
import Craftlang.Proofs.Code.Safety
import Craftlang.Proofs.Scope.Functions
import Craftlang.Proofs.Syntax.Acceptance
import Craftlang.Proofs.Syntax.Numbering
import Craftlang.Proofs.Typing.Recorded

/-!
# Accepted programs are generated

A program about which no error is reported is whole, its names are settled and it is well typed. So code
is emitted for it without a fault, and it becomes a data pack unless it joins strings and holds literals
that cannot be joined.
-/

namespace Craftlang

/-- The diagnostic reports a problem with the text of a file. -/
def Diagnostic.IsLexical (d : Diagnostic) : Prop :=
  ∃ (problem : LexicalProblem) (span : Span), d = problem.report span

namespace Scan

theorem isLexical_of_mem_settle {s : Scan} {d : Diagnostic} (hd : d ∈ s.settle.2.diagnostics) :
    d.IsLexical := by
  unfold settle at hd
  dsimp only at hd
  split at hd
  · cases hd
  · cases hd
  · cases hd
  · exact ⟨_, _, List.mem_singleton.mp hd⟩
  · exact ⟨_, _, List.mem_singleton.mp hd⟩

theorem isLexical_of_mem_emit {s : Scan} {l : Lexeme} {d : Diagnostic}
    (hd : d ∈ (s.emit l).2.diagnostics) : d.IsLexical := by
  obtain ⟨f, -, rfl⟩ := List.mem_map.mp hd
  exact ⟨_, _, rfl⟩

theorem isLexical_of_mem_step {s : Scan} {b : UInt8} {rest : Bytes} {d : Diagnostic}
    (hd : d ∈ (s.step b rest).2.diagnostics) : d.IsLexical := by
  change d ∈ (s.take (Piece.read s.atLineStart b rest)).2.diagnostics at hd
  cases hp : Piece.read s.atLineStart b rest with
  | blank size =>
    rw [hp, take] at hd
    split at hd <;> cases hd
  | comment size =>
    rw [hp, take] at hd
    cases hd
  | lineEnd =>
    rw [hp, take] at hd
    split at hd <;> cases hd
  | lexeme l =>
    rw [hp, take] at hd
    rcases List.mem_append.mp hd with hd | hd
    · split at hd
      · exact isLexical_of_mem_settle hd
      · cases hd
    · exact isLexical_of_mem_emit hd

theorem isLexical_of_mem_batches (s : Scan) :
    ∀ b ∈ s.batches, ∀ d ∈ b.diagnostics, d.IsLexical := by
  fun_induction batches s with
  | case1 s h =>
    intro b hb d hd
    rw [List.mem_singleton.mp hb] at hd
    cases hd
  | case2 s c rest h ih =>
    intro b hb d hd
    rcases List.mem_cons.mp hb with rfl | hb
    · exact isLexical_of_mem_step hd
    · exact ih b hb d hd

end Scan

namespace File

/-- Parsing reports problems with the text of a file and with its order. -/
theorem reported_of_mem_parse {file : File} {d : Diagnostic} (hd : d ∈ file.parse.diagnostics) :
    d.IsLexical ∨ ∃ (problem : Parse.Problem) (span : Span), d = problem.report span := by
  rw [parse_interleaves] at hd
  rcases Parse.mem_interleave.mp hd with hd | hd
  · obtain ⟨b, hb, hd⟩ := Parse.mem_lexicalFindings.mp hd
    exact .inl (Scan.isLexical_of_mem_batches _ b hb d hd)
  · obtain ⟨f, -, rfl⟩ := List.mem_map.mp hd
    exact .inr ⟨_, _, rfl⟩

/-- Whatever parsing reports is an error. -/
theorem isError_of_mem_parse {file : File} {d : Diagnostic} (hd : d ∈ file.parse.diagnostics) :
    d.isError = true := by
  rcases reported_of_mem_parse hd with ⟨problem, span, rfl⟩ | ⟨problem, span, rfl⟩
  · rfl
  · rfl

/-- A file in which parsing finds no error is read as a whole. -/
theorem isWhole_of_parse {file : File} (h : ∀ d ∈ file.parse.diagnostics, d.isError = false) :
    file.parse.diagnostics = [] ∧ file.parse.program.isWhole = true := by
  have hnone : file.parse.diagnostics = [] := by
    refine List.eq_nil_iff_forall_not_mem.mpr fun d hd => ?_
    have := (h d hd).symm.trans (isError_of_mem_parse hd)
    cases this
  obtain ⟨hlexical, hfound⟩ := File.nothing_found hnone
  exact ⟨hnone, (Parse.program_reads (kinds_laid hlexical) hfound).2⟩

end File

namespace UnitInput

variable {input : UnitInput} {shadow : Bool}

/-- No error is reported about the unit. -/
def IsAccepted (input : UnitInput) (shadow : Bool) : Prop :=
  ∀ d ∈ input.reports shadow, d.isError = false

/-- Nothing is found in the text of the unit, in the order of its tokens, in its names or in its types. -/
def IsSilent (input : UnitInput) (shadow : Bool) : Prop :=
  (input.file.lexicalDiagnostics = [] ∧ (Parse.program input.file input.file.tokenize.dropLast).2 = []) ∧
    (input.resolution shadow).diagnostics = [] ∧ (input.typing shadow).diagnostics = []

instance : Decidable (input.IsSilent shadow) := inferInstanceAs (Decidable (_ ∧ _))

theorem IsSilent.reports (h : input.IsSilent shadow) : input.reports shadow = [] := by
  rw [UnitInput.reports, File.parse_silent h.1.1 h.1.2, h.2.1, h.2.2]
  rfl

theorem IsSilent.isAccepted (h : input.IsSilent shadow) : input.IsAccepted shadow := fun d hd => by
  rw [h.reports] at hd
  cases hd

theorem IsAccepted.parse (h : input.IsAccepted shadow) :
    input.file.parse.diagnostics = [] ∧ input.program.isWhole = true :=
  File.isWhole_of_parse fun d hd => h d (List.mem_append_left _ (List.mem_append_left _ hd))

theorem nodup_ids (input : UnitInput) : input.program.ids.Nodup :=
  Parse.program_nodup input.file _

/-- An accepted program is well typed. -/
theorem IsAccepted.typed (h : input.IsAccepted shadow) :
    input.program.Typed ⟨input.resolution shadow, input.typing shadow⟩ := by
  have hresolution : (input.resolution shadow).IsClean := fun d hd =>
    h d (List.mem_append_left _ (List.mem_append_right _ hd))
  have htyping : (input.typing shadow).IsClean := fun d hd => h d (List.mem_append_right _ hd)
  exact Program.typed_sound h.parse.2 input.nodup_ids
    (Program.resolve_settles input.nodup_ids hresolution) htyping

theorem IsAccepted.settles (h : input.IsAccepted shadow) :
    (input.resolution shadow).Settles input.program :=
  Program.resolve_settles input.nodup_ids fun d hd =>
    h d (List.mem_append_left _ (List.mem_append_right _ hd))

theorem IsAccepted.ordered (h : input.IsAccepted shadow) :
    (input.emission shadow).Ordered (ResourceName.entry :: input.program.resourceNames) := by
  obtain ⟨hnodup, hentry⟩ := Program.resolve_owns (p := input.program) (w := shadow) fun d hd =>
    h d (List.mem_append_left _ (List.mem_append_right _ hd))
  refine h.typed.ordered hnodup fun hmem => ?_
  obtain ⟨f, hf, heq⟩ := List.mem_map.mp hmem
  exact hentry f hf heq

theorem IsAccepted.fault (h : input.IsAccepted shadow) : (input.emission shadow).fault = none :=
  (Program.emit_safe h.typed).fault

end UnitInput

/-- What is recorded about the functions of a well-typed program is found by their items. -/
theorem Program.Typed.functionOfItem? {c : EmissionContext} {p : Program} (h : p.Typed c) :
    ∀ f ∈ p.functions, (c.typing.functionOfItem? f.node.id).isSome = true := by
  intro f hf
  obtain ⟨info, hinfo, htyped⟩ := Typing.exists_of_forall₂ h.functions hf
  rw [Typing.functionOfItem?, List.find?_isSome]
  exact ⟨info, hinfo, by simp [htyped.item]⟩

/-- Literals cannot be joined exactly if the code joins strings and holds quoted literals. -/
theorem Emission.isEmpty_unjoinable (s : Emission) :
    s.unjoinable.isEmpty = !(s.joinedAt.isSome && !s.quoted.isEmpty) := by
  rw [unjoinable]
  cases s.joinedAt with
  | none => rfl
  | some span => cases s.quoted <;> rfl

namespace UnitInput

variable {input : UnitInput} {shadow : Bool}

theorem IsAccepted.isEmpty_unjoinable (h : input.IsAccepted shadow) :
    (input.emission shadow).unjoinable.isEmpty =
      !(input.program.lowered.any Expr.isJoin && input.program.lowered.any Expr.isQuoted) := by
  have hsees : Emission.Sees input.program.lowered {} (input.emission shadow) :=
    Program.sees_emit (input.resolution shadow) h.typed.functionOfItem?
  rw [Emission.isEmpty_unjoinable, hsees.isSome_joinedAt, hsees.isEmpty_quoted]
  simp

end UnitInput

namespace Session

variable {s : Session} {o : BuildOptions} {input : UnitInput}

/-- What the session keeps of the file of a unit is the file as it was parsed, whatever the limit was. -/
def Remembers (s : Session) (input : UnitInput) : Prop :=
  ∀ cache, s.parsed = some cache → ∀ parsed,
    cache.entries.lookup (Digest.ofParsed input.file) = some parsed →
    ∃ limit, parsed = parseWithin input.file limit

/-- What is known of a file is how it was parsed within some limit. -/
theorem loadParsed_of_remembers (h : s.Remembers input) (o : BuildOptions) :
    ∃ limit, (s.loadParsed (.start input o) o).2.1 = parseWithin input.file limit := by
  rw [loadParsed]
  split
  · exact ⟨o.limit, rfl⟩
  · rename_i cache hs
    change ∃ limit, (cache.load (Digest.ofParsed input.file) fun _ => parseWithin input.file o.limit).2.1
      = parseWithin input.file limit
    rw [ParseCache.load]
    split
    · rename_i parsed hl
      exact h cache hs parsed hl
    · exact ⟨o.limit, rfl⟩

/-- Where nothing is reported the limit does not matter. -/
theorem reads_of_remembers (h : s.Remembers input) (hd : input.file.parse.diagnostics = []) :
    s.Reads o input := by
  have hlimit : ∀ limit, parseWithin input.file limit = ⟨input.file.parse.program, []⟩ := by
    intro limit
    rw [parseWithin_eq, hd, Bag.keep_nil]
  obtain ⟨limit, hload⟩ := loadParsed_of_remembers h o
  rw [Reads, hload, hlimit, hlimit]

/-- A sound unit is not given up, wherever its results come from. -/
theorem compile_failure_of_sound (hr : s.Reads o input) (hc : s.isCancelled = false)
    (hs : input.IsSound o) : (s.compile o input).2.failure = none := by
  have hrun := (run_failure_iff (s := s.tell (.enter .unit ("unit:" ++ input.name)))
    (hr.congr rfl)).mpr ⟨hc, hs⟩
  rw [compile]
  dsimp only
  split
  · rename_i s' u hl
    rw [loadResult?] at hl
    split at hl
    · cases hl
    · cases hl
      rfl
  · split
    · exact hrun
    · exact hrun

end Session

namespace UnitInput

variable {input : UnitInput} {shadow : Bool}

theorem IsAccepted.isSound (h : input.IsAccepted shadow) {o : BuildOptions}
    (ho : o.warnShadow = shadow) : input.IsSound o := by
  subst ho
  exact ⟨Program.resolve_faults _ _, fun _ => h.fault⟩

/-- Generating an accepted unit gives a data pack, or fails because strings are joined and a literal
cannot be joined; nothing else goes wrong, and compiling the unit does not give it up. -/
theorem accepted_generates (h : input.IsAccepted shadow) :
    (input.emission shadow).fault = none ∧
      (∀ (ns : Namespace) (format : Int) (description : Bytes) (b : Bag), b.hasErrors = false →
        if input.program.lowered.any Expr.isJoin && input.program.lowered.any Expr.isQuoted then
          ((input.findings shadow).generate 1 ns format description (some b)).1 = .error .hasErrors
        else
          ∃ pack, ((input.findings shadow).generate 1 ns format description (some b)).1 = .ok pack) ∧
      ∀ (s : Session) (o : BuildOptions), o.warnShadow = shadow → s.isCancelled = false →
        s.Remembers input → (s.compile o input).2.failure = none := by
  refine ⟨h.fault, fun ns format description b hb => ?_, fun s o ho hc hs => ?_⟩
  · have hcode : input.program.emit (input.resolution shadow) (input.typing shadow)
        = input.emission shadow := rfl
    rw [findings, Findings.generate_eq hcode ns format description hb, h.fault, h.isEmpty_unjoinable]
    cases input.program.lowered.any Expr.isJoin && input.program.lowered.any Expr.isQuoted with
    | true => rfl
    | false => exact ⟨_, rfl⟩
  · exact Session.compile_failure_of_sound (Session.reads_of_remembers hs h.parse.1) hc (h.isSound ho)

/-- A unit that joins a string with a quotation mark. -/
def quotation : UnitInput := ⟨"quote.craft", "print(\"a\" .. \"\\\"\")\n"⟩

theorem generate_quotation :
    ((quotation.findings true).generate 1 .anonymous 48 [] (some (Bag.ofLimit 0))).1
      = .error .hasErrors := by
  obtain ⟨hsilent, hboth⟩ : quotation.IsSilent true ∧ (quotation.program.lowered.any Expr.isJoin
      && quotation.program.lowered.any Expr.isQuoted) = true := by decide +kernel
  have hgenerate := (accepted_generates hsilent.isAccepted).2.1 .anonymous 48 [] (Bag.ofLimit 0) rfl
  rw [if_pos hboth] at hgenerate
  exact hgenerate

end UnitInput

end Craftlang
