import Craftlang.Proofs.Scope.Hoisting
import Craftlang.Proofs.Scope.Order

/-!
# Resolving with a current scope

Resolving can be read as a walk that knows the scope it is in, and no more: it goes into a scope it opens, and
back to the parent that the table gives for the scope it leaves. What encloses the current scope is looked up
in the table. This walk resolves a program as the one along paths does, comes back to the scope of the file,
and leaves a table in which everything has its place.
-/

namespace Craftlang

/-! ## Everything builds the table -/

namespace SymbolTable

variable {t t' t'' : SymbolTable}

theorem Builds.trans (h : t.Builds t') (h' : t'.Builds t'') : t.Builds t'' := by
  induction h' with
  | refl => exact h
  | openScope _ span hq ih => exact ih.openScope span hq
  | declare _ hd ih => exact ih.declare hd

theorem Builds.grows (h : t.Builds t') : t.Grows t' := by
  induction h with
  | refl => exact .refl t
  | openScope _ span hq ih => exact ih.trans (.openScope _ (le_of_scope? hq).2)
  | declare _ hd ih => exact ih.trans (.declare hd)

/-- A scope keeps its parent and its kind. -/
theorem Builds.scope? (h : t.Builds t') {id : Nat} {q : Scope} (hq : t.scope? id = some q) :
    ∃ q', t'.scope? id = some q' ∧ q'.parent = q.parent ∧ q'.kind = q.kind := by
  induction h with
  | refl => exact ⟨q, hq, rfl, rfl⟩
  | openScope _ span hparent ih =>
    obtain ⟨q', hq', hsame, hkind⟩ := ih
    obtain ⟨q'', hq'', hkind', hsame', -⟩ := scope?_of_openScope _ span (le_of_scope? hparent).2 hq'
    exact ⟨q'', hq'', hsame'.trans hsame, hkind'.trans hkind⟩
  | declare _ hd ih =>
    obtain ⟨q', hq', hsame, hkind⟩ := ih
    obtain ⟨q'', hq'', hkind', hsame', -⟩ := scope?_of_declare hd hq'
    exact ⟨q'', hq'', hsame'.trans hsame, hkind'.trans hkind⟩

/-- What encloses a scope stays the same, and no bound on the number of scopes matters that is as large as the
number of the scope. -/
theorem IsOrdered.pathFrom_eq (h : t.IsOrdered) (hb : t.Builds t') {id : Nat} {q : Scope}
    (hq : t.scope? id = some q) {n n' : Nat} (hn : id ≤ n) (hn' : id ≤ n') :
    t'.pathFrom n' id = t.pathFrom n id := by
  induction id using Nat.strongRecOn generalizing q n n' with
  | ind id ih =>
    have hle := le_of_scope? hq
    have hbefore := h.parent id q hq
    obtain ⟨q', hq', hsame, -⟩ := hb.scope? hq
    obtain ⟨n, rfl⟩ : ∃ m, n = m + 1 := ⟨n - 1, by omega⟩
    obtain ⟨n', rfl⟩ : ∃ m, n' = m + 1 := ⟨n' - 1, by omega⟩
    rw [pathFrom, pathFrom, hq, hq']
    dsimp only
    rw [hsame]
    congr 1
    by_cases hroot : q.parent = 0
    · have hnone (u : SymbolTable) (m : Nat) : u.pathFrom m 0 = [] := by cases m <;> rfl
      rw [hroot, hnone, hnone]
    · obtain ⟨p, hp⟩ := exists_scope? (t := t) (Nat.pos_of_ne_zero hroot) (by omega)
      exact ih q.parent hbefore hp (by omega) (by omega)

end SymbolTable

namespace Resolution

variable (w : Bool) (path : List Nat)

theorem builds_declare (r : Resolution) (symbol : Symbol) :
    r.table.Builds (r.declare w path symbol).1.table := by
  obtain ⟨ds, hds⟩ := checkDeclaration_eq w path r symbol
  unfold declare
  rw [hds]
  dsimp only
  split
  · exact .declare .refl ‹_›
  · exact .refl

theorem table_checkResource (r : Resolution) (symbol : Nat) (name : Name) :
    (r.checkResource symbol name).table = r.table := by
  obtain ⟨ds, resources, heq⟩ := checkResource_eq r symbol name
  rw [heq]

theorem builds_hoist (r : Resolution) (i : Item) : r.table.Builds (hoist w path r i).table := by
  cases i with
  | error n => exact .refl
  | stmt n s => exact .refl
  | typeAlias a => exact builds_declare w path r _
  | function f =>
    rw [hoist]
    dsimp only
    rw [table_checkResource]
    exact builds_declare w path r _

theorem table_ident (r : Resolution) (i : Ident) : (ident path r i).table = r.table := by
  rw [ident]
  split <;> rfl

theorem builds_target (r : Resolution) (op : AssignOp) (i : Ident) :
    r.table.Builds (target w path r op i).table := by
  rw [target]
  split
  · exact .refl
  · split
    · exact builds_declare w path r _
    · exact .refl

mutual

theorem builds_expr (r : Resolution) : ∀ e : Expr, r.table.Builds (expr w path r e).table
  | .error _ | .constant .. => .refl
  | .ident i => by
    rw [expr, table_ident]
    exact .refl
  | .binary _ _ _ left right => by
    rw [expr]
    exact (builds_expr r left).trans (builds_expr _ right)
  | .unary _ _ operand => by
    rw [expr]
    exact builds_expr r operand
  | .group _ inner => by
    rw [expr]
    exact builds_expr r inner
  | .call _ callee args => by
    rw [expr]
    exact (builds_expr r callee).trans (builds_exprs _ args)
  | .assign _ op _ i value => by
    rw [expr]
    exact (builds_expr r value).trans (builds_target w path _ op i)

theorem builds_exprs (r : Resolution) : ∀ es : List Expr, r.table.Builds (exprs w path r es).table
  | [] => .refl
  | e :: es => by
    rw [exprs]
    exact (builds_expr r e).trans (builds_exprs _ es)

end

theorem builds_expr? (r : Resolution) : ∀ e : Option Expr, r.table.Builds (expr? w path r e).table
  | none => .refl
  | some e => builds_expr w path r e

theorem builds_params (r : Resolution) (ps : List Param) : r.table.Builds (params w path r ps).1.table := by
  induction ps generalizing r with
  | nil => exact .refl
  | cons x rest ih =>
    rw [params_cons]
    exact (builds_declare w path r _).trans (ih _)

/-- The types that the head of a function names. -/
def typeHead (f : Function) (path : List Nat) (r : Resolution) : Resolution :=
  typeRef? path (f.params.foldl (fun r x => typeRef path r x.type) r) f.result

/-- The parameters of a function are declared, and noted with the scope of the function. -/
def bindParams (f : Function) (scope : Nat) (path : List Nat) (r : Resolution) : Resolution :=
  let (r, symbols) := params w path r f.params
  { r with
    items := r.items.map fun i =>
      if i.item = f.node.id then { i with params := symbols, scope } else i }

theorem function_eq_bindParams (r : Resolution) (f : Function) : function w path r f =
    stmts w (((typeHead f path r).openScope .function path f.node.span).2 :: path)
      (bindParams w f ((typeHead f path r).openScope .function path f.node.span).2
        (((typeHead f path r).openScope .function path f.node.span).2 :: path)
        ((typeHead f path r).openScope .function path f.node.span).1) f.body.stmts := rfl

end Resolution

/-! ## The walk -/

/-- What is resolved, and the scope the walk is in. -/
structure Resolver where
  result : Resolution
  scope : Nat

namespace Resolver

/-- The current scope and those around it, as the table has them. -/
def path (s : Resolver) : List Nat := s.result.table.pathFrom s.result.table.scopes.length s.scope

/-- Resolves something in the current scope. -/
def within (s : Resolver) (f : List Nat → Resolution → Resolution) : Resolver :=
  { s with result := f s.path s.result }

/-- Opens a scope and goes into it. -/
def push (s : Resolver) (kind : ScopeKind) (span : Span) : Resolver :=
  let (table, scope) := s.result.table.openScope kind s.scope span
  ⟨{ s.result with table }, scope⟩

/-- Goes back to the parent of the current scope. -/
def pop (s : Resolver) : Resolver :=
  { s with scope := ((s.result.table.scope? s.scope).map (·.parent)).getD 0 }

mutual

def stmt (w : Bool) (s : Resolver) : Stmt → Resolver
  | .error _ | .leave _ | .again _ | .command .. => s
  | .var n name type value => s.within fun path r => Resolution.stmt w path r (.var n name type value)
  | .expr _ e => s.within fun path r => Resolution.expr w path r e
  | .branch _ cond body otherwise =>
    alternative w (block w (s.within fun path r => Resolution.expr w path r cond) body) otherwise
  | .loop _ .before cond body => block w (s.within fun path r => Resolution.expr w path r cond) body
  | .loop _ .after cond body => (block w s body).within fun path r => Resolution.expr w path r cond
  | .give _ value => s.within fun path r => Resolution.expr? w path r value

def block (w : Bool) (s : Resolver) : Block → Resolver
  | .mk n body => (stmts w (s.push .block n.span) body).pop

def stmts (w : Bool) (s : Resolver) : List Stmt → Resolver
  | [] => s
  | x :: rest => stmts w (stmt w s x) rest

def alternative (w : Bool) (s : Resolver) : Otherwise → Resolver
  | .none => s
  | .block body => block w s body
  | .chain x => stmt w s x

end

def item (w : Bool) (s : Resolver) : Item → Resolver
  | .error _ => s
  | .function f =>
    let opened := (s.within (Resolution.typeHead f)).push .function f.node.span
    (stmts w (opened.within (Resolution.bindParams w f opened.scope)) f.body.stmts).pop
  | .typeAlias a => s.within fun path r => Resolution.typeRef path r a.target
  | .stmt _ x => stmt w s x

/-- The scope of a file is opened in the outermost one. -/
def start (p : Program) : Resolver :=
  (⟨{ table := .start }, SymbolTable.outermost⟩ : Resolver).push .file p.span

/-- Resolves a program from the scope of its file. -/
def program (p : Program) (w : Bool) : Resolver :=
  let hoisted := p.items.foldl (fun s i => s.within fun path r => Resolution.hoist w path r i) (start p)
  p.items.foldl (item w) hoisted

/-- The walk is in the innermost scope of a path. -/
structure At (s : Resolver) (path : List Nat) : Prop where
  ordered : s.result.table.IsOrdered
  scope : ∃ q, s.result.table.scope? s.scope = some q
  path : s.path = path

/-- From one state to another the table was built on, and the walk is back in the scope it was in. -/
structure Leads (s s' : Resolver) (r : Resolution) : Prop where
  eq : s' = ⟨r, s.scope⟩
  builds : s.result.table.Builds r.table

section

variable {s s' s'' : Resolver} {path : List Nat} {r : Resolution}

theorem Leads.refl (s : Resolver) : s.Leads s s.result := ⟨rfl, .refl⟩

theorem At.head (h : s.At path) : path.headD 0 = s.scope := by
  obtain ⟨q, hq⟩ := h.scope
  have hle := SymbolTable.le_of_scope? hq
  obtain ⟨n, hn⟩ : ∃ n, s.result.table.scopes.length = n + 1 := ⟨s.result.table.scopes.length - 1, by omega⟩
  rw [← h.path, Resolver.path, hn, SymbolTable.pathFrom, hq]
  rfl

/-- Building on does not move the walk. -/
theorem At.builds (h : s.At path) (hb : s.result.table.Builds r.table) : (⟨r, s.scope⟩ : Resolver).At path := by
  obtain ⟨q, hq⟩ := h.scope
  obtain ⟨q', hq', -⟩ := hb.scope? hq
  refine ⟨h.ordered.builds hb, ⟨q', hq'⟩, ?_⟩
  rw [← h.path]
  exact h.ordered.pathFrom_eq hb hq (SymbolTable.le_of_scope? hq).2 (SymbolTable.le_of_scope? hq').2

/-- One thing after another. -/
theorem At.andThen (h : s.At path) (hl : s.Leads s' r) {f : Resolver → Resolver} {g : Resolution → Resolution}
    (hf : ∀ u : Resolver, u.At path → u.Leads (f u) (g u.result)) : s.Leads (f s') (g r) := by
  have hnext := hf _ (h.builds hl.builds)
  rw [hl.eq]
  exact ⟨hnext.eq, hl.builds.trans hnext.builds⟩

theorem At.within (h : s.At path) {f : List Nat → Resolution → Resolution}
    (hb : s.result.table.Builds (f path s.result).table) : s.Leads (s.within f) (f path s.result) := by
  refine ⟨?_, hb⟩
  rw [Resolver.within, h.path]

/-- The scope that is opened is the innermost one. -/
theorem At.push (h : s.At path) (kind : ScopeKind) (span : Span) :
    (s.push kind span).At ((s.push kind span).scope :: path) ∧
      s.result.table.Builds (s.push kind span).result.table ∧
      s.result.openScope kind path span = ((s.push kind span).result, (s.push kind span).scope) ∧
      ∃ q, (s.push kind span).result.table.scope? (s.push kind span).scope = some q ∧ q.parent = s.scope := by
  obtain ⟨q, hq⟩ := h.scope
  have hle := SymbolTable.le_of_scope? hq
  have hb : s.result.table.Builds (s.push kind span).result.table := .openScope .refl span hq
  have hnew : (s.push kind span).result.table.scope? (s.push kind span).scope
      = some { kind, parent := s.scope, span } :=
    (SymbolTable.scope?_openScope s.result.table kind s.scope span hle.2 _).trans (if_pos rfl)
  have hordered := h.ordered.builds hb
  refine ⟨⟨hordered, ⟨_, hnew⟩, ?_⟩, hb, ?_, _, hnew, rfl⟩
  · have hlength : (s.push kind span).result.table.scopes.length = s.result.table.scopes.length + 1 :=
      s.result.table.length_scopes_openScope kind s.scope span
    rw [Resolver.path, hlength, SymbolTable.pathFrom, hnew]
    change _ :: _ = _ :: _
    rw [← h.path]
    exact congrArg _ (h.ordered.pathFrom_eq hb hq hle.2 hle.2)
  · rw [Resolution.openScope, h.head]
    rfl

/-- What is resolved in a scope of its own leaves the walk where it was. -/
theorem At.inside (h : s.At path) (kind : ScopeKind) (span : Span) {f : Resolver → Resolver}
    {g : List Nat → Resolution → Resolution}
    (hf : ∀ u : Resolver, u.At ((s.push kind span).scope :: path) → u.scope = (s.push kind span).scope →
      u.Leads (f u) (g ((s.push kind span).scope :: path) u.result)) :
    s.Leads (f (s.push kind span)).pop (g ((s.push kind span).scope :: path) (s.push kind span).result) := by
  obtain ⟨hat, hb, -, q, hq, hparent⟩ := h.push kind span
  have hinner := hf _ hat rfl
  obtain ⟨q', hq', hparent', -⟩ := hinner.builds.scope? hq
  refine ⟨?_, hb.trans hinner.builds⟩
  rw [hinner.eq, pop]
  dsimp only
  rw [hq', Option.map_some, Option.getD_some, hparent', hparent]

variable (w : Bool)

mutual

theorem stmt_leads {path : List Nat} {s : Resolver} (h : s.At path) :
    ∀ x : Stmt, s.Leads (stmt w s x) (Resolution.stmt w path s.result x)
  | .error _ | .leave _ | .again _ | .command .. => by
    rw [stmt, Resolution.stmt]
    exact .refl s
  | .var n name type value => by
    rw [stmt]
    refine h.within ?_
    rw [Resolution.stmt]
    have hvalue := Resolution.builds_expr? w path (Resolution.typeRef? path s.result type) value
    rw [Resolution.table_typeRef?] at hvalue
    exact hvalue.trans (Resolution.builds_declare w path _ _)
  | .expr _ e => by
    rw [stmt, Resolution.stmt]
    exact h.within (Resolution.builds_expr w path s.result e)
  | .branch _ cond body otherwise => by
    have hcond := h.within (f := fun path r => Resolution.expr w path r cond)
      (Resolution.builds_expr w path s.result cond)
    have hbody := h.andThen (g := fun r => Resolution.block w path r body) hcond fun u hu => block_leads hu body
    rw [stmt, Resolution.stmt]
    exact h.andThen (g := fun r => Resolution.alternative w path r otherwise) hbody fun u hu =>
      alternative_leads hu otherwise
  | .loop _ .before cond body => by
    have hcond := h.within (f := fun path r => Resolution.expr w path r cond)
      (Resolution.builds_expr w path s.result cond)
    rw [stmt, Resolution.stmt]
    exact h.andThen (g := fun r => Resolution.block w path r body) hcond fun u hu => block_leads hu body
  | .loop _ .after cond body => by
    rw [stmt, Resolution.stmt]
    exact h.andThen (g := fun r => Resolution.expr w path r cond) (block_leads h body) fun u hu =>
      hu.within (f := fun path r => Resolution.expr w path r cond) (Resolution.builds_expr w path u.result cond)
  | .give _ value => by
    rw [stmt, Resolution.stmt]
    exact h.within (Resolution.builds_expr? w path s.result value)

theorem block_leads {path : List Nat} {s : Resolver} (h : s.At path) :
    ∀ b : Block, s.Leads (block w s b) (Resolution.block w path s.result b)
  | .mk n body => by
    have hbody := h.inside (g := fun path r => Resolution.stmts w path r body) .block n.span fun u hu _ =>
      stmts_leads hu body
    rw [block, Resolution.block, (h.push .block n.span).2.2.1]
    exact hbody

theorem stmts_leads {path : List Nat} {s : Resolver} (h : s.At path) :
    ∀ xs : List Stmt, s.Leads (stmts w s xs) (Resolution.stmts w path s.result xs)
  | [] => by
    rw [stmts, Resolution.stmts]
    exact .refl s
  | x :: rest => by
    rw [stmts, Resolution.stmts]
    exact h.andThen (g := fun r => Resolution.stmts w path r rest) (stmt_leads h x) fun u hu => stmts_leads hu rest

theorem alternative_leads {path : List Nat} {s : Resolver} (h : s.At path) :
    ∀ o : Otherwise, s.Leads (alternative w s o) (Resolution.alternative w path s.result o)
  | .none => by
    rw [alternative, Resolution.alternative]
    exact .refl s
  | .block body => by
    rw [alternative, Resolution.alternative]
    exact block_leads h body
  | .chain x => by
    rw [alternative, Resolution.alternative]
    exact stmt_leads h x

end

theorem item_leads (h : s.At path) (i : Item) : s.Leads (item w s i) (Resolution.item w path s.result i) := by
  cases i with
  | error n => exact .refl s
  | stmt n x => exact stmt_leads w h x
  | typeAlias a =>
    refine h.within (f := fun path r => Resolution.typeRef path r a.target) ?_
    rw [Resolution.table_typeRef]
    exact .refl
  | function f =>
    have htyped : s.Leads (s.within (Resolution.typeHead f)) (Resolution.typeHead f path s.result) := by
      refine h.within ?_
      rw [Resolution.typeHead, Resolution.table_typeRef?, Resolution.table_typeRefs]
      exact .refl
    have hat := h.builds htyped.builds
    have hbody := hat.inside (f := fun u => stmts w (u.within (Resolution.bindParams w f u.scope)) f.body.stmts)
      (g := fun path' r => Resolution.stmts w path' (Resolution.bindParams w f
        ((⟨Resolution.typeHead f path s.result, s.scope⟩ : Resolver).push .function f.node.span).scope path' r)
        f.body.stmts) .function f.node.span fun u hu hscope => by
          have hparams := hu.within (f := Resolution.bindParams w f u.scope)
            (Resolution.builds_params w _ u.result f.params)
          rw [hscope] at hparams ⊢
          exact hu.andThen (g := fun r => Resolution.stmts w _ r f.body.stmts) hparams fun v hv =>
            stmts_leads w hv f.body.stmts
    rw [item, Resolution.item, Resolution.function_eq_bindParams, (hat.push .function f.node.span).2.2.1, htyped.eq]
    exact ⟨hbody.eq, htyped.builds.trans hbody.builds⟩

theorem foldl_leads (h : s.At path) {f : Resolver → Item → Resolver} {g : Resolution → Item → Resolution}
    (hf : ∀ u : Resolver, u.At path → ∀ i, u.Leads (f u i) (g u.result i)) (items : List Item) :
    s.Leads (items.foldl f s) (items.foldl g s.result) := by
  induction items generalizing s with
  | nil => exact .refl s
  | cons i items ih =>
    exact h.andThen (f := fun u => items.foldl f u) (g := fun r => items.foldl g r) (hf s h i) fun u hu => ih hu

/-- At the start the walk is in the scope of the file. -/
theorem start_at (p : Program) : (start p).At filePath ∧ (start p).result = p.fileOpened := by
  have hat : (⟨{ table := .start }, SymbolTable.outermost⟩ : Resolver).At [SymbolTable.outermost] :=
    ⟨.start, ⟨_, rfl⟩, rfl⟩
  obtain ⟨hfile, -, heq, -⟩ := hat.push .file p.span
  refine ⟨hfile, ?_⟩
  rw [Program.fileOpened, heq]
  rfl

/-- Once all declarations for the whole program are made it is there again, and at the end too. -/
theorem program_leads (p : Program) (w : Bool) : (start p).Leads (program p w) (p.resolve w) := by
  obtain ⟨hat, hresult⟩ := start_at p
  have hhoisted := foldl_leads hat (g := fun r i => Resolution.hoist w filePath r i) (fun u hu i =>
    hu.within (f := fun path r => Resolution.hoist w path r i) (Resolution.builds_hoist w filePath u.result i)) p.items
  have hitems := hat.andThen (g := fun r => p.items.foldl (Resolution.item w filePath) r) hhoisted fun u hu =>
    foldl_leads hu (fun v hv i => item_leads w hv i) p.items
  rw [hresult] at hitems
  exact hitems

end

end Resolver

open SymbolTable in
/-- Resolving a program, whatever is wrong with it, leaves a table in order. Nothing in it disagrees; a walk
that knows its scope only comes to the same table and is back in the scope of the file; a scope comes after the
one around it, and every scope but the outermost is reached from that once; every symbol but the one for errors
is in one list and in one bucket, that of its scope and its name; and lists and buckets are in order. -/
theorem Program.resolve_table (p : Program) (w : Bool) :
    (p.resolve w).table.faults = [] ∧
    (Resolver.program p w = ⟨p.resolve w, (Resolver.start p).scope⟩ ∧
      ∃ s, (p.resolve w).table.scope? (Resolver.start p).scope = some s ∧ s.kind = .file ∧
        s.parent = outermost) ∧
    (∀ id s, (p.resolve w).table.scope? id = some s → s.parent < id) ∧
    ((p.resolve w).table.below (p.resolve w).table.scopes.length outermost).Perm
      (List.range' 2 ((p.resolve w).table.scopes.length - 1)) ∧
    (∀ y z, (p.resolve w).table.symbol? y = some z → y ≠ errorSymbol →
      ((p.resolve w).table.scopes.flatMap (·.symbols)).count y = 1 ∧
      ((p.resolve w).table.scopes.flatMap fun s => s.index.flatMap (·.2)).count y = 1 ∧
      ∃ s, (p.resolve w).table.scope? z.scope = some s ∧ y ∈ s.symbols ∧ y ∈ s.bucket z.name) ∧
    ∀ id s, (p.resolve w).table.scope? id = some s →
      s.symbols.Pairwise (· < ·) ∧ ∀ e ∈ s.index, e.2.Pairwise (· < ·) := by
  have hleads := Resolver.program_leads p w
  have hordered : (p.resolve w).table.IsOrdered := (Resolver.start_at p).1.ordered.builds hleads.builds
  have hvalid : (p.resolve w).table.IsValid := by
    have hr := p.hoisted w
    rw [p.resolve_eq]
    exact (Resolution.extends_items w hr.sound hr.stands p.items).sound.valid
  have hfile : (Resolver.start p).result.table.scope? (Resolver.start p).scope
      = some { kind := .file, parent := outermost, span := p.span } :=
    (scope?_openScope .start .file outermost p.span (by decide) _).trans (if_pos rfl)
  obtain ⟨q, hq, hparent, hkind⟩ := hleads.builds.scope? hfile
  refine ⟨hvalid.faults_eq_nil, ⟨hleads.eq, q, hq, hkind, hparent⟩, hordered.parent, hordered.below_perm,
    fun y z hz hne => ?_, fun id s hs => hordered.listed_lt hs⟩
  obtain ⟨s, hs, -⟩ := hvalid.placed y z hz fun hk => hne (hvalid.error y z hz hk).1
  exact ⟨hordered.count_symbols hz hs, hordered.count_index hz hs, s, hs, hordered.mem_symbols hz hs⟩

end Craftlang
