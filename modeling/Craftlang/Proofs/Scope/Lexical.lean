import Mathlib.Data.List.Forall2
import Craftlang.Proofs.Scope.Environment
import Craftlang.Proofs.Scope.Hoisting

/-!
# Names are resolved by lexical scoping

Resolving a piece of a program does to the table of symbols what walking through it does to an
environment: `Mirrors` relates the two, every function of the resolver keeps it along the walk it stands
for, and so it holds of whole programs. Identifiers are therefore bound to the declarations that the
environment finds, and what is reported about names without a declaration is what the walk tells.
-/

namespace Craftlang

/-- How an identifier is bound. -/
def NameEvent.binding? : NameEvent → Option (Nat × Nat)
  | means i number => some (i.node.id, number)
  | lacks i _ => some (i.node.id, SymbolTable.errorSymbol)
  | declares .. | lacksType _ => none

/-- A declaration by `var`, with its number. -/
def NameEvent.variable? : NameEvent → Option (Nat × Nat)
  | declares ⟨_, _, _, .var node⟩ number => some (node, number)
  | _ => none

/-- A declaration by assigning, with its number. -/
def NameEvent.implicit? : NameEvent → Option (Nat × Nat)
  | declares ⟨_, _, _, .target node⟩ number => some (node, number)
  | _ => none

/-- A declaration by an item, with its number. -/
def NameEvent.item? : NameEvent → Option (Nat × Nat)
  | declares ⟨_, _, _, .item node⟩ number => some (node, number)
  | _ => none

/-- What is known of a symbol: its number, its name, its kind and its place. -/
abbrev SymbolEntry := Nat × Bytes × SymbolKind × Span

def NameEvent.symbol? : NameEvent → Option SymbolEntry
  | declares d number => some (number, d.name, d.kind, d.span)
  | _ => none

/-- What is reported about a name that means nothing. -/
def NameEvent.problem? : NameEvent → Option (Severity × Code × Span)
  | lacks i code => some (.error, code, i.node.span)
  | lacksType type => some (.error, .unresolvedName, type.span)
  | declares .. | means .. => none

/-- Does a diagnostic say that a name means nothing? -/
def Diagnostic.isUnresolved (d : Diagnostic) : Bool :=
  d.code == .unresolvedName || d.code == .undeclaredAssignment

/-- What is reported about names that mean nothing. -/
def Resolution.unresolved (r : Resolution) : List (Severity × Code × Span) :=
  (r.diagnostics.filter (·.isUnresolved)).map fun d => (d.severity, d.code, d.span)

/-- The symbols of a table in order. -/
def SymbolTable.entries (t : SymbolTable) : List SymbolEntry :=
  (t.symbols.zipIdx 1).map fun (z, number) => (number, z.name, z.kind, z.span)

theorem SymbolTable.entries_of_append {t t' : SymbolTable} {z : Symbol}
    (h : t'.symbols = t.symbols ++ [z]) :
    t'.entries = t.entries ++ [(t.symbols.length + 1, z.name, z.kind, z.span)] := by
  rw [entries, h, List.zipIdx_append, List.map_append, Nat.add_comm 1]
  rfl

section Tables

theorem Scope.bucket_declare (s : Scope) (other name : Bytes) (y : Nat) :
    (s.declare other y).bucket name = s.bucket name ++ if other = name then [y] else [] := by
  rw [bucket, bucket]
  change (((addToIndex other y s.index).find? _).map _).getD [] = _
  induction s.index with
  | nil =>
    rw [addToIndex]
    by_cases h : other = name <;> simp [h]
  | cons first rest ih =>
    rw [addToIndex]
    by_cases hf : first.1 = name
    · by_cases ho : first.1 = other
      · simp [hf, ← hf ▸ ho]
      · have hne : other ≠ name := fun h => ho (hf.trans h.symm)
        simp [hf, hne, hf ▸ ho]
    · by_cases ho : first.1 = other
      · have hne : other ≠ name := fun h => hf (ho.trans h)
        simp [ho, hne]
      · simp [hf, ho, ih]

/-- A scope means by a name the first that was declared under it. -/
theorem Scope.find?_declare_eq (s : Scope) (other name : Bytes) (y : Nat) :
    (s.declare other y).find? name = (s.find? name).or (if other = name then some y else none) := by
  rw [find?, bucket_declare, find?, List.head?_append]
  split <;> rfl

namespace SymbolTable

variable {t t' : SymbolTable}

theorem findLocal?_declare {here : Nat} {z : Symbol} {number : Nat}
    (h : t.declare? here z = some (t', number)) (scope : Nat) (name : Bytes) :
    t'.findLocal? scope name = if scope = here then
      (t.findLocal? scope name).or (if z.name = name then some number else none)
      else t.findLocal? scope name := by
  have hhere : (t.scope? here).isSome := by
    rw [declare?] at h
    split at h
    · cases h
    · simp [*]
  rw [findLocal?, scope?_declare h, findLocal?]
  by_cases hs : scope = here
  · obtain ⟨s, hscope⟩ := Option.isSome_iff_exists.mp hhere
    subst hs
    simp only [if_true, hscope, Option.map_some, Option.bind_some]
    exact Scope.find?_declare_eq s _ _ _
  · rw [if_neg hs, if_neg hs]

theorem findLocal?_openScope (kind : ScopeKind) {parent : Nat} (span : Span)
    (hp : parent ≤ t.scopes.length) (scope : Nat) (name : Bytes) :
    (t.openScope kind parent span).1.findLocal? scope name =
      if scope = t.scopes.length + 1 then none else t.findLocal? scope name := by
  rw [findLocal?, scope?_openScope t kind parent span hp, findLocal?]
  split
  · rfl
  · split
    · cases t.scope? scope <;> rfl
    · rfl

end SymbolTable

end Tables

namespace Resolution

/-- A scope of the table is there, and means by a name what a frame of an environment does. -/
def Holds (t : SymbolTable) (scope : Nat) (frame : List (Bytes × Nat)) : Prop :=
  (t.scope? scope).isSome ∧ ∀ name, t.findLocal? scope name = frame.lookup name

/-- Scopes in which nothing changed still are what they were. -/
theorem Holds.congr {t t' : SymbolTable} {path : List Nat} {frames : List (List (Bytes × Nat))}
    (h : List.Forall₂ (Holds t) path frames)
    (hsame : ∀ scope ∈ path, (t.scope? scope).isSome → (t'.scope? scope).isSome ∧
      ∀ name, t'.findLocal? scope name = t.findLocal? scope name) :
    List.Forall₂ (Holds t') path frames := by
  induction h with
  | nil => exact .nil
  | @cons scope frame _ _ hhere _ ih =>
    obtain ⟨hsome, hfind⟩ := hsame scope List.mem_cons_self hhere.1
    refine .cons ⟨hsome, fun name => (hfind name).trans (hhere.2 name)⟩ (ih fun other hother => ?_)
    exact hsame other (List.mem_cons_of_mem _ hother)

/-- Along the scopes a name means what it does in the frames. -/
theorem Holds.findAlong? {t : SymbolTable} {path : List Nat} {frames : List (List (Bytes × Nat))}
    (h : List.Forall₂ (Holds t) path frames) (name : Bytes) :
    t.findAlong? path name = frames.findSome? fun frame => frame.lookup name := by
  rw [SymbolTable.findAlong?]
  induction h with
  | nil => rfl
  | cons hhere _ ih => rw [List.findSome?_cons, List.findSome?_cons, hhere.2, ih]

/-- The scopes of a path are the frames of an environment, and declarations are numbered alike. -/
structure Mirrors (path : List Nat) (env : NameEnvironment) (t : SymbolTable) : Prop where
  frames : List.Forall₂ (Holds t) path env.frames
  nodup : path.Nodup
  inside : path ≠ []
  count : env.count = t.symbols.length

/-- What was reported on the way: problems with the meaning of names, and these about names without a
declaration among them. -/
structure Reports (r r' : Resolution) (problems : List (Severity × Code × Span)) : Prop where
  unresolved : r'.unresolved = r.unresolved ++ problems
  semantic : ∀ d ∈ r'.diagnostics, d ∈ r.diagnostics ∨ d.isSemantic

/-- What was recorded and reported is what happened to names. -/
structure Records (es : List NameEvent) (r : Resolution) : Prop where
  entries : r.table.entries = SymbolTable.start.entries ++ es.filterMap NameEvent.symbol?
  refs : r.refs = es.filterMap NameEvent.binding?
  decls : r.decls = es.filterMap NameEvent.variable?
  implicit : r.implicit = es.filterMap NameEvent.implicit?
  items : r.items.map itemKey = es.filterMap NameEvent.item?
  unresolved : r.unresolved = es.filterMap NameEvent.problem?
  semantic : ∀ d ∈ r.diagnostics, d.isSemantic

/-- More happened, and that much more was recorded and reported. -/
theorem Records.append {es es' : List NameEvent} {r r' : Resolution} (h : Records es r)
    (entries : r'.table.entries = r.table.entries ++ es'.filterMap NameEvent.symbol?)
    (refs : r'.refs = r.refs ++ es'.filterMap NameEvent.binding?)
    (decls : r'.decls = r.decls ++ es'.filterMap NameEvent.variable?)
    (implicit : r'.implicit = r.implicit ++ es'.filterMap NameEvent.implicit?)
    (items : r'.items.map itemKey = r.items.map itemKey ++ es'.filterMap NameEvent.item?)
    (reports : Reports r r' (es'.filterMap NameEvent.problem?)) :
    Records (es ++ es') r' :=
  ⟨by rw [entries, h.entries, List.filterMap_append, List.append_assoc],
    by rw [refs, h.refs, List.filterMap_append], by rw [decls, h.decls, List.filterMap_append],
    by rw [implicit, h.implicit, List.filterMap_append],
    by rw [items, h.items, List.filterMap_append],
    by rw [reports.unresolved, h.unresolved, List.filterMap_append],
    fun d hd => (reports.semantic d hd).elim (h.semantic d) id⟩

/-- Opening a scope is nothing that happens to a name. -/
theorem Records.openScope {es : List NameEvent} {r : Resolution} (h : Records es r) (kind : ScopeKind)
    (path : List Nat) (span : Span) : Records es (r.openScope kind path span).1 := by
  refine ⟨?_, h.refs, h.decls, h.implicit, h.items, h.unresolved, h.semantic⟩
  rw [← h.entries, SymbolTable.entries, SymbolTable.entries]
  exact congrArg _ (congrArg (List.zipIdx · 1) (SymbolTable.symbols_openScope _ _ _ _))

/-- A function of the resolver does what a walk does. -/
def Simulates (path : List Nat) (walk : NameWalk) (f : Resolution → Resolution) : Prop :=
  ∀ env es r, Mirrors path env r.table → Records es r →
    Mirrors path (walk env).1 (f r).table ∧ Records (es ++ (walk env).2) (f r)

namespace Mirrors

variable {path : List Nat} {env : NameEnvironment} {t t' : SymbolTable}

theorem isSome_of_mem (h : Mirrors path env t) {scope : Nat} (hs : scope ∈ path) :
    (t.scope? scope).isSome := by
  have hframes := h.frames
  generalize env.frames = frames at hframes
  clear h
  induction hframes with
  | nil => cases hs
  | cons hhere _ ih =>
    rcases List.mem_cons.mp hs with rfl | hs
    · exact hhere.1
    · exact ih hs

theorem scope_isSome (h : Mirrors path env t) : (t.scope? (path.headD 0)).isSome := by
  cases path with
  | nil => exact absurd rfl h.inside
  | cons here outer => exact h.isSome_of_mem List.mem_cons_self

/-- The table finds along a path what the environment finds. -/
theorem findAlong? (h : Mirrors path env t) (name : Bytes) :
    t.findAlong? path name = env.find? name := Holds.findAlong? h.frames name

/-- Declaring in the innermost scope of a path is declaring in the innermost frame. -/
theorem declare (h : Mirrors path env t) {z : Symbol} {number : Nat}
    (hd : t.declare? (path.headD 0) z = some (t', number)) : Mirrors path (env.bind z.name) t' := by
  obtain ⟨hsymbols, rfl⟩ := SymbolTable.symbols_declare hd
  refine ⟨?_, h.nodup, h.inside, ?_⟩
  · have hframes := h.frames
    have hnodup := h.nodup
    cases path with
    | nil => exact absurd rfl h.inside
    | cons here outer =>
      rw [List.forall₂_cons_left_iff] at hframes
      obtain ⟨frame, frames, hhere, houter, hf⟩ := hframes
      rw [List.nodup_cons] at hnodup
      rw [NameEnvironment.bind, hf, List.modifyHead_cons]
      have hsome : ∀ scope, (t.scope? scope).isSome → (t'.scope? scope).isSome :=
        (SymbolTable.Grows.declare hd).scope
      refine .cons ⟨hsome here hhere.1, fun name => ?_⟩ (Holds.congr houter fun scope hs hscope => ?_)
      · rw [SymbolTable.findLocal?_declare hd, List.headD_cons, if_pos rfl, hhere.2, h.count,
          List.lookup_append]
        by_cases hn : z.name = name
        · simp [hn]
        · have hn' : (name == z.name) = false := beq_false_of_ne (Ne.symm hn)
          simp [hn, List.lookup_cons, hn']
      · refine ⟨hsome scope hscope, fun name => ?_⟩
        rw [SymbolTable.findLocal?_declare hd, List.headD_cons, if_neg]
        rintro rfl
        exact hnodup.1 hs
  · rw [NameEnvironment.bind, hsymbols, h.count, List.length_append]
    rfl

/-- Opening a scope is entering a frame. -/
theorem openScope (h : Mirrors path env t) (kind : ScopeKind) (span : Span) :
    Mirrors ((t.openScope kind (path.headD 0) span).2 :: path) env.enter
      (t.openScope kind (path.headD 0) span).1 := by
  obtain ⟨s, hs⟩ := Option.isSome_iff_exists.mp h.scope_isSome
  have hle := (SymbolTable.le_of_scope? hs).2
  have hgrows : t.Grows (t.openScope kind (path.headD 0) span).1 := .openScope t hle
  have hold : ∀ scope, (t.scope? scope).isSome → scope ≠ t.scopes.length + 1 := by
    intro scope hscope
    obtain ⟨s, hs⟩ := Option.isSome_iff_exists.mp hscope
    have := (SymbolTable.le_of_scope? hs).2
    omega
  have hnew : (t.openScope kind (path.headD 0) span).2 = t.scopes.length + 1 := rfl
  rw [hnew]
  refine ⟨.cons ⟨?_, fun name => ?_⟩ (Holds.congr h.frames fun scope _ hscope => ?_), ?_, nofun, ?_⟩
  · rw [SymbolTable.scope?_openScope _ _ _ _ hle, if_pos rfl]
    rfl
  · rw [SymbolTable.findLocal?_openScope kind span hle, if_pos rfl]
    rfl
  · refine ⟨hgrows.scope scope hscope, fun name => ?_⟩
    rw [SymbolTable.findLocal?_openScope kind span hle, if_neg (hold scope hscope)]
  · refine List.nodup_cons.mpr ⟨fun hmem => ?_, h.nodup⟩
    exact hold _ (h.isSome_of_mem hmem) rfl
  · rw [SymbolTable.symbols_openScope]
    exact h.count

/-- Leaving a scope behind is leaving its frame. -/
theorem leave {scope : Nat} (h : Mirrors (scope :: path) env t) (hp : path ≠ []) :
    Mirrors path env.leave t := by
  refine ⟨?_, (List.nodup_cons.mp h.nodup).2, hp, h.count⟩
  have hframes := h.frames
  rw [List.forall₂_cons_left_iff] at hframes
  obtain ⟨frame, frames, -, houter, hf⟩ := hframes
  rw [NameEnvironment.leave, hf]
  exact houter

end Mirrors

namespace Simulates

variable {path : List Nat} {first second : NameWalk} {f g : Resolution → Resolution}

theorem skip : Simulates path .skip id := by
  intro env es r hm hr
  exact ⟨hm, (List.append_nil es).symm ▸ hr⟩

theorem andThen (hf : Simulates path first f) (hg : Simulates path second g) :
    Simulates path (first.andThen second) (g ∘ f) := by
  intro env es r hm hr
  obtain ⟨hm₁, hr₁⟩ := hf env es r hm hr
  obtain ⟨hm₂, hr₂⟩ := hg _ _ _ hm₁ hr₁
  refine ⟨hm₂, ?_⟩
  rw [List.append_assoc] at hr₂
  exact hr₂

/-- A piece that is resolved in a scope of its own. -/
theorem within {inner : NameWalk} {f : Nat → Resolution → Resolution} (kind : ScopeKind) (span : Span)
    (h : ∀ scope, Simulates (scope :: path) inner (f scope)) :
    Simulates path inner.within fun r =>
      f (r.openScope kind path span).2 (r.openScope kind path span).1 := by
  intro env es r hm hr
  obtain ⟨hm', hr'⟩ := h _ _ _ _ (hm.openScope kind span) (hr.openScope kind path span)
  exact ⟨hm'.leave hm.inside, hr'⟩

theorem each {α : Type} {walk : α → NameWalk} {f : Resolution → α → Resolution}
    (h : ∀ a, Simulates path (walk a) (f · a)) (as : List α) :
    Simulates path (NameWalk.each walk as) fun r => as.foldl f r := by
  induction as with
  | nil => exact skip
  | cons a as ih => exact (h a).andThen ih

end Simulates

section Primitives

variable {path : List Nat} {es : List NameEvent} {r : Resolution}

theorem Reports.of_eq {r' : Resolution} (h : r'.diagnostics = r.diagnostics) : Reports r r' [] :=
  ⟨by rw [Resolution.unresolved, h, List.append_nil, Resolution.unresolved],
    fun d hd => .inl (h ▸ hd)⟩

theorem Reports.trans {r' r'' : Resolution} (h : Reports r r' []) (h' : Reports r' r'' []) :
    Reports r r'' [] :=
  ⟨h'.unresolved.trans (by rw [h.unresolved, List.append_nil]),
    fun d hd => (h'.semantic d hd).elim (h.semantic d) .inr⟩

theorem semantic_report {problem : NameProblem} {span : Span} {notes : List Note} :
    ∀ d ∈ (r.report problem span notes).diagnostics, d ∈ r.diagnostics ∨ d.isSemantic := by
  intro d hd
  rcases List.mem_append.mp hd with hd | hd
  · exact .inl hd
  · rw [List.mem_singleton.mp hd]
    cases problem <;> exact .inr rfl

/-- What is reported about other things than names without a meaning. -/
theorem reports_report (r : Resolution) (problem : NameProblem) (span : Span) (notes : List Note)
    (h : (problem.code == .unresolvedName || problem.code == .undeclaredAssignment) = false) :
    Reports r (r.report problem span notes) [] := by
  refine ⟨?_, semantic_report⟩
  rw [Bool.or_eq_false_iff] at h
  simp [unresolved, report, Diagnostic.isUnresolved, h]

/-- What is reported about a name without a meaning. -/
theorem reports_name (r : Resolution) (problem : NameProblem) (span : Span) (notes : List Note)
    (h : problem.code = .unresolvedName ∨ problem.code = .undeclaredAssignment) :
    Reports r (r.report problem span notes) [(problem.severity, problem.code, span)] := by
  refine ⟨?_, semantic_report⟩
  rcases h with h | h <;> simp [unresolved, report, Diagnostic.isUnresolved, h]

theorem reports_checkDeclaration (w : Bool) (path : List Nat) (r : Resolution) (symbol : Symbol) :
    Reports r (r.checkDeclaration w path symbol) [] := by
  unfold checkDeclaration
  split
  · exact .of_eq rfl
  · split
    · exact reports_report _ _ _ _ rfl
    · split
      · exact .of_eq rfl
      · split
        · exact reports_report _ _ _ _ rfl
        · exact .of_eq rfl

/-- An identifier is bound. -/
theorem Records.means (hr : Records es r) (i : Ident) (number : Nat) :
    Records (es ++ [.means i number]) { r with refs := r.refs ++ [(i.node.id, number)] } :=
  hr.append (List.append_nil _).symm rfl (List.append_nil _).symm (List.append_nil _).symm
    (List.append_nil _).symm (.of_eq rfl)

/-- An identifier is reported and bound to the error symbol. -/
theorem Records.lacks (hr : Records es r) (i : Ident) {problem : NameProblem} {code : Code}
    (hcode : problem.code = code) (herror : problem.severity = .error)
    (h : code = .unresolvedName ∨ code = .undeclaredAssignment) :
    Records (es ++ [.lacks i code]) { r.report problem i.node.span [] with
      refs := r.refs ++ [(i.node.id, SymbolTable.errorSymbol)] } := by
  subst hcode
  refine hr.append (List.append_nil _).symm rfl (List.append_nil _).symm (List.append_nil _).symm
    (List.append_nil _).symm ?_
  have hreport := reports_name r problem i.node.span [] h
  rw [herror] at hreport
  exact ⟨hreport.unresolved, hreport.semantic⟩

/-- An identifier is bound to what the environment finds. -/
theorem simulates_ident (path : List Nat) (i : Ident) :
    Simulates path (.ident i) (ident path · i) := by
  intro env es r hm hr
  simp only [ident, NameWalk.ident, hm.findAlong?]
  cases env.find? i.name with
  | some number => exact ⟨hm, hr.means i number⟩
  | none => exact ⟨hm, hr.lacks i rfl rfl (.inl rfl)⟩

theorem reports_declare (w : Bool) (path : List Nat) (r : Resolution) (symbol : Symbol) :
    Reports r (r.declare w path symbol).1 [] := by
  have hchecked := reports_checkDeclaration w path r symbol
  rw [declare]
  dsimp only
  split
  · exact ⟨hchecked.unresolved, hchecked.semantic⟩
  · exact hchecked

/-- Declaring a symbol makes its name mean the next number, and reports no name without a meaning. -/
theorem declare_mirrors (w : Bool) {env : NameEnvironment} (hm : Mirrors path env r.table)
    (symbol : Symbol) : ∃ ds table,
    r.declare w path symbol = ({ r with table, diagnostics := r.diagnostics ++ ds },
      env.count + 1) ∧
    Mirrors path (env.bind symbol.name) table ∧
    table.entries = r.table.entries ++ [(env.count + 1, symbol.name, symbol.kind, symbol.span)] ∧
    Reports r { r with table, diagnostics := r.diagnostics ++ ds } [] := by
  obtain ⟨ds, table, heq, hd⟩ := declare_eq w hm.scope_isSome symbol
  have hreports := reports_declare w path r symbol
  rw [heq] at hreports
  have hmirrors := hm.declare hd
  have hentries := SymbolTable.entries_of_append (symbols_of_declare hd)
  rw [hm.count]
  exact ⟨ds, table, heq, hmirrors, hentries, hreports⟩

/-- The target of an assignment. -/
theorem simulates_target (w : Bool) (path : List Nat) (op : AssignOp) (i : Ident) :
    Simulates path (.target op i) (target w path · op i) := by
  intro env es r hm hr
  have hfind := hm.findAlong? i.name
  dsimp only
  rw [NameWalk.target]
  cases hf : env.find? i.name with
  | some number =>
    rw [target, hfind, hf]
    exact ⟨hm, hr.means i number⟩
  | none =>
    rw [hf] at hfind
    by_cases hop : op = .set
    · subst hop
      obtain ⟨ds, table, heq, hm', hentries, hreports⟩ := declare_mirrors w hm (implicitVar i)
      have htarget : target w path r .set i = { (r.declare w path (implicitVar i)).1 with
          refs := (r.declare w path (implicitVar i)).1.refs
            ++ [(i.node.id, (r.declare w path (implicitVar i)).2)]
          implicit := (r.declare w path (implicitVar i)).1.implicit
            ++ [(i.node.id, (r.declare w path (implicitVar i)).2)] } := by
        rw [target, hfind]
        rfl
      rw [htarget, heq]
      refine ⟨hm', hr.append hentries rfl (List.append_nil _).symm rfl (List.append_nil _).symm ?_⟩
      exact ⟨hreports.unresolved, hreports.semantic⟩
    · simp only [if_neg hop, target, hfind]
      exact ⟨hm, hr.lacks i rfl rfl (.inr rfl)⟩

/-- A declaration that is noted nowhere but in the table. -/
theorem simulates_declare (w : Bool) (path : List Nat) (symbol : Symbol) :
    Simulates path (.declare ⟨symbol.name, symbol.kind, symbol.span, .param⟩)
      fun r => (r.declare w path symbol).1 := by
  intro env es r hm hr
  obtain ⟨ds, table, heq, hm', hentries, hreports⟩ := declare_mirrors w hm symbol
  dsimp only
  rw [heq]
  refine ⟨hm', hr.append hentries (List.append_nil _).symm (List.append_nil _).symm
    (List.append_nil _).symm (List.append_nil _).symm ?_⟩
  exact ⟨hreports.unresolved, hreports.semantic⟩

/-- A variable that is declared by name. -/
theorem simulates_variable (w : Bool) (path : List Nat) (n : Node) (name : Name) :
    Simulates path (.declare ⟨name.text, .var, name.span, .var n.id⟩) fun r =>
      { (r.declare w path (namedVar name)).1 with
        decls := (r.declare w path (namedVar name)).1.decls
          ++ [(n.id, (r.declare w path (namedVar name)).2)] } := by
  intro env es r hm hr
  obtain ⟨ds, table, heq, hm', hentries, hreports⟩ := declare_mirrors w hm (namedVar name)
  dsimp only
  rw [heq]
  refine ⟨hm', hr.append hentries (List.append_nil _).symm rfl (List.append_nil _).symm
    (List.append_nil _).symm ?_⟩
  exact ⟨hreports.unresolved, hreports.semantic⟩

/-- A type where it is written: nothing is bound to it among the identifiers. -/
theorem simulates_typeRef (path : List Nat) (type : Name) :
    Simulates path (.type type) (typeRef path · type) := by
  intro env es r hm hr
  simp only [typeRef, NameWalk.type, hm.findAlong?]
  cases env.find? type.text with
  | none =>
    refine ⟨hm, hr.append (List.append_nil _).symm (List.append_nil _).symm (List.append_nil _).symm
      (List.append_nil _).symm (List.append_nil _).symm ?_⟩
    have hreport := reports_name r (.unknownType type.text) type.span [] (.inl rfl)
    exact ⟨hreport.unresolved, hreport.semantic⟩
  | some number =>
    dsimp only
    split
    · refine ⟨hm, hr.append (List.append_nil _).symm (List.append_nil _).symm
        (List.append_nil _).symm (List.append_nil _).symm (List.append_nil _).symm (.of_eq rfl)⟩
    · refine ⟨hm, hr.append (List.append_nil _).symm (List.append_nil _).symm
        (List.append_nil _).symm (List.append_nil _).symm (List.append_nil _).symm ?_⟩
      have hreport := reports_report r
        (.notAType type.text (((r.table.symbol? number).map (·.kind)).getD .invalid))
        type.span (r.noteAt number "declared here") rfl
      exact ⟨hreport.unresolved, hreport.semantic⟩

theorem simulates_params (w : Bool) (path : List Nat) (ps : List Param) :
    Simulates path (.each (fun p => .declare p.declaration) ps) fun r => (params w path r ps).1 := by
  induction ps with
  | nil => exact .skip
  | cons p ps ih =>
    exact (simulates_declare w path { name := p.name.text, kind := .param, span := p.name.span }).andThen
      ih

/-- Noting what is known of an item leaves its symbol alone. -/
theorem simulates_items {f : ItemSymbols → ItemSymbols} (hf : ∀ i, itemKey (f i) = itemKey i) :
    Simulates path .skip fun r => { r with items := r.items.map f } := by
  intro env es r hm hr
  refine ⟨hm, (List.append_nil es).symm ▸ ?_⟩
  refine ⟨hr.entries, hr.refs, hr.decls, hr.implicit, ?_, hr.unresolved, hr.semantic⟩
  rw [List.map_map, ← hr.items]
  exact List.map_congr_left fun i _ => hf i

end Primitives

section Walks

variable (w : Bool)

mutual

theorem simulates_expr (path : List Nat) : (e : Expr) → Simulates path e.names (expr w path · e)
  | .error _ | .constant .. => .skip
  | .ident i => simulates_ident path i
  | .binary _ _ _ left right => (simulates_expr path left).andThen (simulates_expr path right)
  | .unary _ _ operand => simulates_expr path operand
  | .group _ inner => simulates_expr path inner
  | .call _ callee args => (simulates_expr path callee).andThen (simulates_exprs path args)
  | .assign _ op _ i value => (simulates_expr path value).andThen (simulates_target w path op i)

theorem simulates_exprs (path : List Nat) : (es : List Expr) →
    Simulates path (Expr.namesOf es) (exprs w path · es)
  | [] => .skip
  | e :: es => (simulates_expr path e).andThen (simulates_exprs path es)

end

theorem simulates_expr? (path : List Nat) (e : Option Expr) :
    Simulates path (.optional Expr.names e) (expr? w path · e) := by
  cases e with
  | none => exact .skip
  | some e => exact simulates_expr w path e

theorem simulates_typeRef? (path : List Nat) (type : Option Name) :
    Simulates path (.optional NameWalk.type type) (typeRef? path · type) := by
  cases type with
  | none => exact .skip
  | some type => exact simulates_typeRef path type

mutual

theorem simulates_stmt (path : List Nat) : (s : Stmt) → Simulates path s.names (stmt w path · s)
  | .error _ | .leave _ | .again _ | .command .. => .skip
  | .var n name type value =>
    (simulates_typeRef? path type).andThen
      ((simulates_expr? w path value).andThen (simulates_variable w path n name))
  | .expr _ e => simulates_expr w path e
  | .branch _ cond body otherwise =>
    (simulates_expr w path cond).andThen
      ((simulates_block path body).andThen (simulates_alternative path otherwise))
  | .loop _ .before cond body => (simulates_expr w path cond).andThen (simulates_block path body)
  | .loop _ .after cond body => (simulates_block path body).andThen (simulates_expr w path cond)
  | .give _ value => simulates_expr? w path value

theorem simulates_block (path : List Nat) : (b : Block) → Simulates path b.names (block w path · b)
  | .mk n body => .within .block n.span fun scope => simulates_stmts (scope :: path) body

theorem simulates_stmts (path : List Nat) : (ss : List Stmt) →
    Simulates path (Stmt.namesOf ss) (stmts w path · ss)
  | [] => .skip
  | s :: rest => (simulates_stmt path s).andThen (simulates_stmts path rest)

theorem simulates_alternative (path : List Nat) : (o : Otherwise) →
    Simulates path o.names (alternative w path · o)
  | .none => .skip
  | .block body => simulates_block path body
  | .chain s => simulates_stmt path s

end

/-- The parameters and the body of a function, and between them what is noted of its item. -/
theorem simulates_inFunction (path : List Nat) (f : Function) (scope : Nat) :
    Simulates path ((NameWalk.each (fun p => .declare p.declaration) f.params).andThen
      (Stmt.namesOf f.body.stmts)) fun r =>
        stmts w path { (params w path r f.params).1 with
          items := (params w path r f.params).1.items.map fun i =>
            if i.item = f.node.id then { i with params := (params w path r f.params).2, scope }
            else i } f.body.stmts := by
  intro env es r hm hr
  obtain ⟨hm₁, hr₁⟩ := simulates_params w path f.params env es r hm hr
  have hkeep : ∀ i : ItemSymbols, itemKey (if i.item = f.node.id then
      { i with params := (params w path r f.params).2, scope } else i) = itemKey i := by
    intro i
    split <;> rfl
  obtain ⟨hm₂, hr₂⟩ := simulates_items hkeep _ _ _ hm₁ hr₁
  obtain ⟨hm₃, hr₃⟩ := simulates_stmts w path f.body.stmts _ _ _ hm₂ hr₂
  refine ⟨hm₃, ?_⟩
  rw [NameWalk.skip, List.append_nil, List.append_assoc] at hr₃
  exact hr₃

theorem simulates_function (path : List Nat) (f : Function) :
    Simulates path f.names (function w path · f) :=
  (Simulates.each (fun p : Param => simulates_typeRef path p.type) f.params).andThen
    ((simulates_typeRef? path f.result).andThen
      (.within .function f.node.span fun scope => simulates_inFunction w (scope :: path) f scope))

theorem simulates_item (path : List Nat) (i : Item) : Simulates path i.names (item w path · i) := by
  cases i with
  | error n => exact .skip
  | function f => exact simulates_function w path f
  | typeAlias a => exact simulates_typeRef path a.target
  | stmt n s => exact simulates_stmt w path s

theorem reports_checkResource (r : Resolution) (symbol : Nat) (name : Name) :
    Reports r (r.checkResource symbol name) [] := by
  unfold checkResource
  dsimp only
  split
  · exact reports_report _ _ _ _ rfl
  · split
    · exact .of_eq rfl
    · split
      · exact .of_eq rfl
      · exact reports_report _ _ _ _ rfl

/-- What an item declares for the whole program. -/
theorem simulates_hoist (path : List Nat) (i : Item) :
    Simulates path i.hoisted (hoist w path · i) := by
  intro env es r hm hr
  cases i with
  | error n => exact Simulates.skip env es r hm hr
  | stmt n s => exact Simulates.skip env es r hm hr
  | typeAlias a =>
    obtain ⟨ds, table, heq, hm', hentries, hreports⟩ := declare_mirrors w hm
      { name := a.name.text, kind := .type, span := a.name.span, flags := { hoisted := true } }
    simp only [hoist, heq]
    refine ⟨hm', hr.append hentries (List.append_nil _).symm (List.append_nil _).symm
      (List.append_nil _).symm (List.map_append ..) ?_⟩
    exact ⟨hreports.unresolved, hreports.semantic⟩
  | function f =>
    obtain ⟨ds, table, heq, hm', hentries, hreports⟩ := declare_mirrors w hm
      { name := f.name.text, kind := .function, span := f.name.span,
        flags := { hoisted := true, isGlobal := true } }
    simp only [hoist, heq]
    generalize hq : Resolution.addItem { r with table, diagnostics := r.diagnostics ++ ds } f.node.id
      (env.count + 1) = q
    obtain ⟨ds', resources, hc⟩ := checkResource_eq q (env.count + 1) f.name
    have hresource := reports_checkResource q (env.count + 1) f.name
    rw [hc] at hresource ⊢
    subst hq
    refine ⟨hm', hr.append hentries (List.append_nil _).symm (List.append_nil _).symm
      (List.append_nil _).symm (List.map_append ..) ?_⟩
    have hadded : Reports r (Resolution.addItem { r with table, diagnostics := r.diagnostics ++ ds }
        f.node.id (env.count + 1)) [] := ⟨hreports.unresolved, hreports.semantic⟩
    exact hadded.trans hresource

end Walks

/-- The language provides what an environment starts with. -/
theorem mirrors_start : Mirrors [SymbolTable.outermost] .start .start := by
  refine ⟨.cons ⟨rfl, fun name => ?_⟩ .nil, by decide, nofun, rfl⟩
  change ((((([("int", [2]), ("bool", [3]), ("string", [4]), ("print", [5])] :
    List (Bytes × List Nat))).find? fun entry => entry.1 == name).map (·.2)).getD []).head? = _
  simp only [List.find?_cons, List.lookup_cons, BEq.comm (a := name)]
  cases Bytes.ofString "int" == name
  · cases Bytes.ofString "bool" == name
    · cases Bytes.ofString "string" == name
      · cases Bytes.ofString "print" == name <;> rfl
      · rfl
    · rfl
  · rfl

theorem records_start : Records [] { table := .start } :=
  ⟨rfl, rfl, rfl, rfl, rfl, rfl, nofun⟩

theorem records_resolve (p : Program) (w : Bool) : Records p.nameEvents (p.resolve w) := by
  have hprogram : Simulates [SymbolTable.outermost] _ _ := .within .file p.span fun scope =>
    (Simulates.each (simulates_hoist w [scope, SymbolTable.outermost]) p.items).andThen
      (Simulates.each (simulates_item w [scope, SymbolTable.outermost]) p.items)
  exact (hprogram .start [] { table := .start } mirrors_start records_start).2

end Resolution

/-- The identifiers among nodes. -/
def identifiersOf (nodes : List (Node × String)) : List Nat :=
  (nodes.filter fun (_, form) => form == "Ident").map fun (node, _) => node.id

namespace NameWalk

/-- A walk looks up every identifier among some nodes once. -/
def Visits (walk : NameWalk) (nodes : List (Node × String)) : Prop :=
  ∀ env, (((walk env).2.filterMap NameEvent.binding?).map (·.1)).Perm (identifiersOf nodes)

variable {first second : NameWalk} {ns ms : List (Node × String)}

theorem visits_skip : skip.Visits [] := fun _ => .refl _

theorem Visits.andThen (h : first.Visits ns) (h' : second.Visits ms) :
    (first.andThen second).Visits (ns ++ ms) := by
  intro env
  rw [NameWalk.andThen, List.filterMap_append, List.map_append, identifiersOf, List.filter_append,
    List.map_append]
  exact (h env).append (h' _)

theorem Visits.within (h : first.Visits ns) : first.within.Visits ns := fun env => h env.enter

theorem Visits.perm (h : first.Visits ns) (hp : ns.Perm ms) : first.Visits ms :=
  fun env => (h env).trans ((hp.filter _).map _)

theorem visits_each {α : Type} {walk : α → NameWalk} {nodes : α → List (Node × String)}
    (h : ∀ a, (walk a).Visits (nodes a)) (as : List α) : (each walk as).Visits (as.flatMap nodes) := by
  induction as with
  | nil => exact visits_skip
  | cons a as ih => exact (h a).andThen ih

theorem visits_each_nil {α : Type} {walk : α → NameWalk} (h : ∀ a, (walk a).Visits [])
    (as : List α) : (each walk as).Visits [] := by
  induction as with
  | nil => exact visits_skip
  | cons a as ih => exact (h a).andThen ih

theorem visits_declare (d : Declaration) : (declare d).Visits [] := fun _ => .refl _

theorem visits_ident (i : Ident) : (ident i).Visits [(i.node, "Ident")] := by
  intro env
  rw [ident]
  split <;> exact .refl _

theorem visits_target (op : AssignOp) (i : Ident) : (target op i).Visits [(i.node, "Ident")] := by
  intro env
  rw [target]
  split
  · exact .refl _
  · split <;> exact .refl _

theorem visits_type (name : Name) : (type name).Visits [] := by
  intro env
  rw [type]
  split <;> exact .refl _

theorem visits_type? (name : Option Name) : (optional type name).Visits [] := by
  cases name with
  | none => exact visits_skip
  | some name => exact visits_type name

end NameWalk

open NameWalk

mutual

theorem Expr.visits : (e : Expr) → e.names.Visits e.nodes
  | .error _ | .constant .. => visits_skip
  | .ident i => visits_ident i
  | .binary _ _ _ left right => left.visits.andThen right.visits
  | .unary _ _ operand => operand.visits
  | .group _ inner => inner.visits
  | .call _ callee args => callee.visits.andThen (Expr.visits_all args)
  | .assign _ op _ i value => by
    have h := (value.visits.andThen (visits_target op i)).perm List.perm_append_comm
    exact h

theorem Expr.visits_all : (es : List Expr) → (Expr.namesOf es).Visits (Expr.nodesOfAll es)
  | [] => visits_skip
  | e :: es => e.visits.andThen (Expr.visits_all es)

end

theorem Expr.visits? (e : Option Expr) : (optional Expr.names e).Visits (Expr.nodesOf? e) := by
  cases e with
  | none => exact visits_skip
  | some e => exact e.visits

mutual

theorem Stmt.visits : (s : Stmt) → s.names.Visits s.nodes
  | .error _ | .leave _ | .again _ | .command .. => visits_skip
  | .var n name type value => by
    have h := (visits_type? type).andThen ((Expr.visits? value).andThen
      (visits_declare ⟨name.text, .var, name.span, .var n.id⟩))
    rw [List.nil_append, List.append_nil] at h
    exact h
  | .expr _ e => e.visits
  | .branch _ cond body otherwise => by
    have h := cond.visits.andThen (body.visits.andThen otherwise.visits)
    rw [← List.append_assoc] at h
    exact h
  | .loop _ .before cond body => cond.visits.andThen body.visits
  | .loop _ .after cond body => (body.visits.andThen cond.visits).perm List.perm_append_comm
  | .give _ value => Expr.visits? value

theorem Block.visits : (b : Block) → b.names.Visits b.nodes
  | .mk _ body => (Stmt.visits_all body).within

theorem Stmt.visits_all : (ss : List Stmt) → (Stmt.namesOf ss).Visits (Stmt.nodesOfAll ss)
  | [] => visits_skip
  | s :: rest => s.visits.andThen (Stmt.visits_all rest)

theorem Otherwise.visits : (o : Otherwise) → o.names.Visits o.nodes
  | .none => visits_skip
  | .block body => body.visits
  | .chain s => s.visits

end

theorem Item.visits (i : Item) : i.names.Visits i.nodes := by
  cases i with
  | error n => exact visits_skip
  | typeAlias a => exact visits_type a.target
  | stmt n s => exact s.visits
  | function f =>
    have htypes := visits_each_nil (fun p : Param => visits_type p.type) f.params
    have hparams := visits_each_nil (fun p : Param => visits_declare p.declaration) f.params
    have hbody := (hparams.andThen (Stmt.visits_all f.body.stmts)).within
    have h := htypes.andThen ((visits_type? f.result).andThen hbody)
    have hnodes : f.body.nodes = Stmt.nodesOfAll f.body.stmts := by
      cases f.body
      rfl
    rw [Item.nodes, hnodes]
    exact h

theorem Item.visits_hoisted (i : Item) : i.hoisted.Visits [] := by
  cases i with
  | error n => exact visits_skip
  | stmt n s => exact visits_skip
  | typeAlias a => exact visits_declare _
  | function f => exact visits_declare _

theorem Program.visits (p : Program) : p.names.Visits p.nodes :=
  ((visits_each_nil Item.visits_hoisted p.items).andThen (visits_each Item.visits p.items)).within

/-- Every identifier of a program is bound once, to the declaration that the environment finds for it
or else to the error symbol. Symbols are the declarations in the order of their numbers, variables and
items are known by the numbers of their own declarations, and what is reported about names without a
declaration is reported once for each of them, in order. -/
theorem Program.resolve_lexically (p : Program) (w : Bool) :
    (p.resolve w).refs = p.nameEvents.filterMap NameEvent.binding? ∧
      ((p.resolve w).refs.map (·.1)).Perm (identifiersOf p.nodes) ∧
      (p.resolve w).table.entries
        = SymbolTable.start.entries ++ p.nameEvents.filterMap NameEvent.symbol? ∧
      (p.resolve w).decls = p.nameEvents.filterMap NameEvent.variable? ∧
      (p.resolve w).implicit = p.nameEvents.filterMap NameEvent.implicit? ∧
      (p.resolve w).items.map Resolution.itemKey = p.nameEvents.filterMap NameEvent.item? ∧
      (p.resolve w).unresolved = p.nameEvents.filterMap NameEvent.problem? := by
  have h := Resolution.records_resolve p w
  refine ⟨h.refs, ?_, h.entries, h.decls, h.implicit, h.items, h.unresolved⟩
  rw [h.refs]
  exact p.visits .start

end Craftlang
