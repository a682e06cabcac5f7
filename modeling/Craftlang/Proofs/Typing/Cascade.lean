import Craftlang.Proofs.Syntax.Acceptance
import Craftlang.Proofs.Syntax.Rewording
import Craftlang.Proofs.Typing.Acceptance
import Craftlang.Proofs.Typing.Forgiving

/-!
# One wrong name is reported once

Where nothing is reported about a file, let a name that it uses, not one that it declares, give way to a name
that stands for nothing. That is reported where the name stands, and nothing else is: whatever the name stood
for, and however far its type was carried, what depends on it is not reported again.
-/

namespace Craftlang

/-- What parsing, resolving and typing report about a file, in this order. -/
def File.reports (f : File) (w : Bool) : List Diagnostic :=
  f.parse.diagnostics ++ (f.parse.program.resolve w).diagnostics
    ++ (f.parse.program.typed (f.parse.program.resolve w)).diagnostics

/-- In another file one name gives way to an identifier, where the name is used: it is part of an expression,
a target that is updated, or a type. -/
structure File.Renames (f f' : File) (m : Mention) (new : Bytes) : Prop where
  id : f'.id = f.id
  mem : m ∈ f.parse.program.mentions
  uses : m.role ≠ .binds
  identifier : new.IsIdentifier
  text : ∃ a old b, f.content = a ++ (old ++ b) ∧ f'.content = a ++ (new ++ b) ∧
    m.span = ⟨f.id, a.length, a.length + old.length⟩

theorem Role.severity_complaint (role : Role) (name : Bytes) : (role.complaint name).severity = .error := by
  cases role <;> rfl

theorem Role.code_complaint (role : Role) (name : Bytes) : (role.complaint name).code =
    match role with
    | .updates _ => .undeclaredAssignment
    | _ => .unresolvedName := by
  cases role <;> rfl

namespace Misspelling

variable {p : Program} (σ : Misspelling p)

theorem faults_eq_nil {ms : List Mention} (h : ∀ m ∈ ms, m.span ≠ σ.place) : σ.faults ms = [] := by
  rw [faults, List.filter_eq_nil_iff.mpr fun m hm => by simpa using h m hm]
  rfl

/-- A name that is mentioned at a place of its own is reported once. -/
theorem faults_eq_singleton {ms : List Mention} (hms : (Mention.spans ms).Nodup) {m : Mention} (hm : m ∈ ms)
    (hplace : m.span = σ.place) : σ.faults ms = [σ.fault m] := by
  obtain ⟨before, after, rfl⟩ := List.append_of_mem hm
  rw [Mention.spans_append, Mention.spans_cons, List.nodup_append, List.nodup_cons] at hms
  obtain ⟨-, ⟨hafter, -⟩, hbefore⟩ := hms
  have hb : ∀ k ∈ before, k.span ≠ σ.place := fun k hk => hplace ▸
    hbefore _ (List.mem_map_of_mem hk) _ List.mem_cons_self
  have ha : ∀ k ∈ after, k.span ≠ σ.place := fun k hk heq =>
    hafter (hplace.trans heq.symm ▸ List.mem_map_of_mem hk)
  rw [faults_append, faults_cons, σ.faults_eq_nil hb, σ.faults_eq_nil ha, σ.faults_of_eq hplace]
  rfl

end Misspelling

namespace File

variable {f f' : File} {m : Mention} {new : Bytes}

theorem spaced_parse (f : File) : f.parse.program.Spaced f := Program.spaced (parse_framed f)

/-- The other file is parsed to the same program, in which one name is another one. -/
structure Rereads (f f' : File) (ρ : Relabelling) : Prop where
  items : f'.parse.program.items = f.parse.program.items.map (Item.relabel ρ)
  clean : f'.parse.diagnostics = []

theorem Rereads.mentions {ρ : Relabelling} (h : Rereads f f' ρ) :
    f'.parse.program.mentions = f.parse.program.mentions.map ρ.mention := by
  rw [Program.mentions, Program.mentions, h.items, List.flatMap_map, List.map_flatMap]
  exact List.flatMap_congr fun i _ => Item.Mirrors.mentions .plain

/-- Names that stand apart do so afterwards. -/
theorem Rereads.apart {ρ : Relabelling} (h : Rereads f f' ρ) {m k : Mention} (hm : m ∈ f.parse.program.mentions)
    (hk : k ∈ f.parse.program.mentions) (heq : ρ.span m.span = ρ.span k.span) : m.span = k.span := by
  have hnodup := (spaced_parse f').nodup
  rw [h.mentions, Mention.spans, List.map_map] at hnodup
  rw [List.inj_on_of_nodup_map hnodup hm hk heq]

/-- A name gives way to another one without a change to how the file is read. -/
theorem Renames.rereads (h : f.Renames f' m new) (hclean : f.parse.diagnostics = []) :
    Rereads f f' (.rewording f.id m.span.start m.span.stop new) := by
  obtain ⟨a, old, b, hf, hf', hspan⟩ := h.text
  obtain ⟨hlexical, hfound⟩ := nothing_found hclean
  obtain ⟨t, ht, hk, htspan, -⟩ := mention_token h.mem
  obtain ⟨htokens, hlexical'⟩ := tokenize_reworded hlexical h.id hf hf' h.identifier
    (List.dropLast_subset _ ht) hk (htspan.trans hspan)
  obtain ⟨-, hlt, -⟩ := (spaced_parse f).inFile m h.mem
  have hplace : (Relabelling.rewording f.id m.span.start m.span.stop new).place 0 = 0 :=
    Relabelling.place_before (Nat.zero_le _) hlt
  have hdropLast : List.Forall₂ (Token.Mirrors (.rewording f.id m.span.start m.span.stop new))
      f.tokenize.dropLast f'.tokenize.dropLast := by
    rw [List.dropLast_eq_take, List.dropLast_eq_take, ← htokens.length_eq, hspan]
    exact List.forall₂_take _ htokens
  obtain ⟨hitems, hlength⟩ := Parse.program_mirrors h.id hplace hdropLast
  refine ⟨?_, ?_⟩
  · refine Item.map_relabel_of_mirrors hitems fun y hy x text hx => if_neg fun hxm => ?_
    have htag := (spaced_parse f).tags y hy m h.mem
    rw [hspan, ← show x = ⟨f.id, a.length, a.length + old.length⟩ by rw [hxm, hspan], hx] at htag
    cases htag
  · rw [hfound, List.length_nil, List.length_eq_zero_iff] at hlength
    rw [parse_diagnostics hlexical', hlength]
    rfl

/-- The name that is used becomes another one. -/
def Renames.misspelling (h : f.Renames f' m new) (hclean : f.parse.diagnostics = []) :
    Misspelling f.parse.program where
  moves := .rewording f.id m.span.start m.span.stop new
  place := m.span
  name := new
  renames x text := by
    obtain ⟨hfile, -⟩ := (spaced_parse f).inFile m h.mem
    rw [← hfile]
    rfl
  uses k hk hbinds hspan := h.uses ((spaced_parse f).eq_of_span hk h.mem hspan ▸ hbinds)
  apart _ hm _ hk heq := (h.rereads hclean).apart hm hk heq

/-- If nothing is reported about a file, and a name that it uses gives way to one that stands for nothing,
then exactly that is reported, at the place of the name. -/
theorem reports_renamed {w : Bool} (h : f.Renames f' m new) (hclean : f.reports w = [])
    (hunknown : ∀ z ∈ (f.parse.program.resolve w).table.symbols, z.name ≠ new) :
    ∃ d, f'.reports w = [d] ∧ d.isError = true ∧
      d.span = ⟨f.id, m.span.start, m.span.start + new.length⟩ ∧
      d.code = (match m.role with
        | .updates _ => .undeclaredAssignment
        | _ => .unresolvedName) ∧
      d.message = (m.role.complaint new).message := by
  rw [reports, List.append_eq_nil_iff, List.append_eq_nil_iff] at hclean
  obtain ⟨⟨hparse, hresolve⟩, htyped⟩ := hclean
  obtain ⟨hlexical, hfound⟩ := nothing_found hparse
  have hids : f.parse.program.ids.Nodup := Parse.program_nodup f _
  have hwhole : f.parse.program.isWhole = true := (Parse.program_reads (kinds_laid hlexical) hfound).2
  have hq : (f.parse.program.resolve w).Settles f.parse.program := by
    refine Program.resolve_settles hids fun d hd => ?_
    rw [hresolve] at hd
    cases hd
  obtain ⟨⟨js, hd⟩, -⟩ := Program.derives_of_clean hwhole hids hq (Program.isClean_of_nil htyped)
  have hrereads := h.rereads hparse
  let σ := h.misspelling hparse
  -- The name is found wrong where names are resolved; its type has faded where types are found.
  obtain ⟨hblurs, hperm⟩ := σ.resolve_tracks w hids hrereads.items ⟨hresolve, hunknown⟩
  have hsilent := σ.typed_silent hq hids (Program.resolve_tellsApart hids w) hd hblurs hrereads.items
  rw [σ.faults_eq_singleton (spaced_parse f).nodup h.mem rfl, List.perm_singleton] at hperm
  refine ⟨σ.fault m, ?_, ?_, ?_, ?_, rfl⟩
  · rw [reports, hrereads.clean, hperm, hsilent]
    rfl
  · rw [Diagnostic.isError, show (σ.fault m).severity = .error from m.role.severity_complaint new]
    rfl
  · obtain ⟨hfile, hlt, -⟩ := (spaced_parse f).inFile m h.mem
    change Relabelling.span (.rewording f.id m.span.start m.span.stop new) m.span = _
    rw [Relabelling.span, Relabelling.place_before (Nat.le_refl _) hlt, Relabelling.place_behind (Nat.le_refl _),
      hfile, Nat.sub_self, Nat.add_zero]
  · exact m.role.code_complaint new

theorem reports_eq_of_read {w : Bool} (hlexical : f.lexicalDiagnostics = [])
    (hfound : (Parse.program f f.tokenize.dropLast).2 = []) :
    f.reports w = (f.parse.program.resolve w).diagnostics
      ++ (f.parse.program.typed (f.parse.program.resolve w)).diagnostics := by
  rw [reports, parse_diagnostics hlexical, hfound, List.map_nil, List.nil_append]

/-- A variable takes its value, and so its type, from a call by this name. -/
def calling (name : Bytes) : File :=
  ⟨0, "calls.craft", "fun same(n: int): int\n    return n\nw = " ++ (name ++ "(2)\nw += 1\n"), {}⟩

/-- What is found by reading this file, evaluated at once because each part of it reads the file anew. -/
theorem calling_same :
    (calling "same").lexicalDiagnostics = [] ∧
      (Parse.program (calling "same") (calling "same").tokenize.dropLast).2 = [] ∧
      ⟨.value, "same", ⟨0, 39, 43⟩⟩ ∈ (calling "same").parse.program.mentions ∧
      ((calling "same").parse.program.resolve true).diagnostics.isEmpty = true ∧
      ((calling "same").parse.program.typed
        ((calling "same").parse.program.resolve true)).diagnostics.isEmpty = true ∧
      ∀ z ∈ ((calling "same").parse.program.resolve true).table.symbols,
        z.name ≠ "triple" ∧ (z.flags.builtin = false → z.name ≠ "print") := by
  decide +kernel

theorem calling_renames {new : Bytes} (hnew : new.IsIdentifier) :
    (calling "same").Renames (calling new) ⟨.value, "same", ⟨0, 39, 43⟩⟩ new where
  id := rfl
  mem := calling_same.2.2.1
  uses := by decide
  identifier := hnew
  text := ⟨_, _, _, rfl, rfl, by decide⟩

theorem reports_calling_same : (calling "same").reports true = [] := by
  obtain ⟨hlexical, hfound, -, hresolved, htyped, -⟩ := calling_same
  rw [reports_eq_of_read hlexical hfound, List.isEmpty_iff.mp hresolved, List.isEmpty_iff.mp htyped]
  rfl

/-- Where the name of the function is misspelled, neither the variable nor the sum is at fault. -/
theorem reports_renamed_triple :
    ((calling "same").Renames (calling "triple") ⟨.value, "same", ⟨0, 39, 43⟩⟩ "triple" ∧
      (calling "same").reports true = [] ∧
      ∀ z ∈ ((calling "same").parse.program.resolve true).table.symbols, z.name ≠ "triple") ∧
    ∃ d, (calling "triple").reports true = [d] ∧ d.isError = true ∧ d.span = ⟨0, 39, 45⟩ ∧
      d.code = .unresolvedName ∧ d.message = "undefined name 'triple'" := by
  have hrenames := calling_renames (show Bytes.IsIdentifier "triple" from
    ⟨⟨_, _, rfl, ⟨by decide +kernel⟩⟩, by decide +kernel, by decide +kernel⟩)
  obtain ⟨-, -, -, -, -, hnames⟩ := calling_same
  have hunknown : ∀ z ∈ ((calling "same").parse.program.resolve true).table.symbols, z.name ≠ "triple" :=
    fun z hz => (hnames z hz).1
  exact ⟨⟨hrenames, reports_calling_same, hunknown⟩, reports_renamed hrenames reports_calling_same hunknown⟩

/-- A name that the file does not declare can still stand for something: what the language provides. -/
theorem not_reports_renamed_of_undeclared :
    ¬ ∀ (f f' : File) (m : Mention) (new : Bytes) (w : Bool), f.Renames f' m new → f.reports w = [] →
      (∀ z ∈ (f.parse.program.resolve w).table.symbols, z.flags.builtin = false → z.name ≠ new) →
      ∃ d, f'.reports w = [d] ∧ d.span = ⟨f.id, m.span.start, m.span.start + new.length⟩ ∧
        d.code = (match m.role with
          | .updates _ => .undeclaredAssignment
          | _ => .unresolvedName) := by
  intro h
  obtain ⟨-, -, -, -, -, hnames⟩ := calling_same
  obtain ⟨d, hd, -, hcode⟩ := h (calling "same") (calling "print") ⟨.value, "same", ⟨0, 39, 43⟩⟩ "print" true
    (calling_renames ⟨⟨_, _, rfl, ⟨by decide +kernel⟩⟩, by decide +kernel, by decide +kernel⟩)
    reports_calling_same fun z hz => (hnames z hz).2
  -- The call gives no value, and that is reported in the place of an unknown name.
  have hread : (calling "print").lexicalDiagnostics = [] ∧
      (Parse.program (calling "print") (calling "print").tokenize.dropLast).2 = [] ∧
      (((calling "print").parse.program.resolve true).diagnostics ++
        ((calling "print").parse.program.typed
          ((calling "print").parse.program.resolve true)).diagnostics).map (·.code) = [.voidValue] := by
    decide +kernel
  obtain ⟨hlexical, hfound, hcodes⟩ := hread
  rw [← reports_eq_of_read hlexical hfound, hd, List.map_singleton, hcode] at hcodes
  cases hcodes

end File

end Craftlang
