import Craftlang.Proofs.Scope.Hoisting
import Craftlang.Proofs.Tree.Relabelling
import Mathlib.Data.List.Perm.Basic

/-!
# A name that is written wrong

In a program whose names are resolved without a report, let one name that is used, not declared, be written
wrong: it becomes one that stands for nothing. Resolving then goes the same way, declaration by declaration
and number by number. That one name is bound to the error symbol, it is reported, and nothing else is.
-/

namespace Craftlang

/-! ## Tables without places -/

def Scope.placeless (s : Scope) : Scope := { s with span := ⟨0, 0, 0⟩ }

def Symbol.placeless (y : Symbol) : Symbol := { y with span := ⟨0, 0, 0⟩ }

namespace SymbolTable

/-- A table without the places of its scopes and symbols. -/
def placeless (t : SymbolTable) : SymbolTable :=
  { t with scopes := t.scopes.map Scope.placeless, symbols := t.symbols.map Symbol.placeless }

theorem scope?_placeless (t : SymbolTable) (id : Nat) :
    t.placeless.scope? id = (t.scope? id).map Scope.placeless := by
  rw [scope?, scope?]
  split
  · rfl
  · exact List.getElem?_map

theorem symbol?_placeless (t : SymbolTable) (y : Nat) :
    t.placeless.symbol? y = (t.symbol? y).map Symbol.placeless := by
  rw [symbol?, symbol?]
  split
  · rfl
  · exact List.getElem?_map

theorem findLocal?_placeless (t : SymbolTable) (scope : Nat) (name : Bytes) :
    t.placeless.findLocal? scope name = t.findLocal? scope name := by
  rw [findLocal?, findLocal?, scope?_placeless, Option.bind_map]
  rfl

theorem modifyScope_placeless (t : SymbolTable) (id : Nat) {f : Scope → Scope}
    (hf : ∀ s, (f s).placeless = f s.placeless) :
    (t.modifyScope id f).placeless = t.placeless.modifyScope id f := by
  rw [modifyScope, modifyScope]
  split
  · rfl
  · refine congrArg (fun scopes => ({ t.placeless with scopes } : SymbolTable)) (List.ext_getElem? fun k => ?_)
    change ((t.scopes.modify (id - 1) f).map Scope.placeless)[k]? = ((t.scopes.map Scope.placeless).modify _ f)[k]?
    rw [List.getElem?_map, List.getElem?_modify, List.getElem?_modify, List.getElem?_map]
    cases t.scopes[k]? with
    | none => rfl
    | some s =>
      split
      · exact congrArg some (hf s)
      · rfl

theorem openScope_placeless (t : SymbolTable) (kind : ScopeKind) (parent : Nat) (x : Span) :
    (t.openScope kind parent x).1.placeless = (t.placeless.openScope kind parent ⟨0, 0, 0⟩).1 := by
  rw [openScope, openScope]
  refine (modifyScope_placeless _ _ ?_).trans ?_
  · exact fun _ => rfl
  · simp only [placeless, List.map_append, List.length_map]
    rfl

theorem declare?_placeless (t : SymbolTable) (scope : Nat) (y : Symbol) :
    (t.declare? scope y).map (fun e => (e.1.placeless, e.2)) = t.placeless.declare? scope y.placeless := by
  rw [declare?, declare?, scope?_placeless]
  cases t.scope? scope with
  | none => rfl
  | some s =>
    refine congrArg some (Prod.ext ((modifyScope_placeless _ _ ?_).trans ?_) ?_)
    · exact fun _ => rfl
    · simp only [placeless, List.map_append, List.length_map]
      rfl
    · simp only [placeless, List.length_map]

section

variable {t t' : SymbolTable} (h : t'.placeless = t.placeless)

include h

theorem findLocal?_congr (scope : Nat) (name : Bytes) : t'.findLocal? scope name = t.findLocal? scope name := by
  rw [← findLocal?_placeless, h, findLocal?_placeless]

theorem findAlong?_congr (path : List Nat) (name : Bytes) : t'.findAlong? path name = t.findAlong? path name :=
  congrArg path.findSome? (funext fun scope => findLocal?_congr h scope name)

/-- What is read off a symbol apart from its place. -/
theorem symbol?_congr {α : Type} {f : Symbol → α} (hf : ∀ z, f z.placeless = f z) (y : Nat) :
    (t'.symbol? y).map f = (t.symbol? y).map f := by
  have hplaceless : ∀ u : SymbolTable, (u.placeless.symbol? y).map f = (u.symbol? y).map f := by
    intro u
    rw [symbol?_placeless, Option.map_map]
    exact congrArg (Option.map · _) (funext hf)
  rw [← hplaceless, h, hplaceless]

/-- The same of a scope. -/
theorem scope?_congr {α : Type} {f : Scope → α} (hf : ∀ s, f s.placeless = f s) (id : Nat) :
    (t'.scope? id).map f = (t.scope? id).map f := by
  have hplaceless : ∀ u : SymbolTable, (u.placeless.scope? id).map f = (u.scope? id).map f := by
    intro u
    rw [scope?_placeless, Option.map_map]
    exact congrArg (Option.map · _) (funext hf)
  rw [← hplaceless, h, hplaceless]

theorem nameOf_congr (y : Nat) : t'.nameOf y = t.nameOf y :=
  congrArg (Option.getD · []) (symbol?_congr h (fun _ => rfl) y)

theorem openScope_congr (kind : ScopeKind) (parent : Nat) (x x' : Span) :
    (t'.openScope kind parent x').1.placeless = (t.openScope kind parent x).1.placeless ∧
      (t'.openScope kind parent x').2 = (t.openScope kind parent x).2 := by
  refine ⟨by rw [openScope_placeless, openScope_placeless, h], ?_⟩
  have hlength := congrArg (fun u : SymbolTable => u.scopes.length) h
  simp only [placeless, List.length_map] at hlength
  exact congrArg (· + 1) hlength

theorem declare?_congr {scope id : Nat} {y y' : Symbol} (hy : y'.placeless = y.placeless) {u : SymbolTable}
    (hu : t.declare? scope y = some (u, id)) :
    ∃ u', t'.declare? scope y' = some (u', id) ∧ u'.placeless = u.placeless := by
  have heq := (declare?_placeless t' scope y').trans
    (((congrArg₂ (SymbolTable.declare? · scope) h hy)).trans (declare?_placeless t scope y).symm)
  rw [hu] at heq
  obtain ⟨⟨u', id'⟩, hu', heq⟩ := Option.map_eq_some_iff.mp heq
  obtain ⟨hplaceless, rfl⟩ := Prod.mk.inj heq
  exact ⟨u', hu', hplaceless⟩

end

end SymbolTable

/-! ## The name -/

/-- What is reported about a name that stands for nothing. -/
def Role.complaint (role : Role) (name : Bytes) : NameProblem :=
  match role with
  | .updates op => .undeclared op name
  | .type => .unknownType name
  | .value | .binds => .undefined name

/-- One name of a program, at a place where nothing is declared, is written in another way. -/
structure Misspelling (p : Program) where
  moves : Relabelling
  place : Span
  name : Bytes
  renames : ∀ x text, moves.text x text = if x = place then name else text
  uses : ∀ m ∈ p.mentions, m.role = .binds → m.span ≠ place
  apart : ∀ m ∈ p.mentions, ∀ k ∈ p.mentions, moves.span m.span = moves.span k.span → m.span = k.span

namespace Misspelling

open Resolution

variable {p : Program} (σ : Misspelling p)

/-- Resolving ends without a report, and no symbol has the name that is written. So the name is written
wrong: it stands for nothing. -/
structure Ends (q : Resolution) : Prop where
  clean : q.diagnostics = []
  unknown : ∀ z ∈ q.table.symbols, z.name ≠ σ.name

def fault (m : Mention) : Diagnostic :=
  ⟨(m.role.complaint σ.name).severity, (m.role.complaint σ.name).code, (m.role.complaint σ.name).message,
    σ.moves.span m.span, []⟩

/-- What is reported about names. -/
def faults (ms : List Mention) : List Diagnostic := (ms.filter fun m => m.span = σ.place).map σ.fault

@[simp] theorem faults_nil : σ.faults [] = [] := rfl

@[simp] theorem faults_append (ms ns : List Mention) : σ.faults (ms ++ ns) = σ.faults ms ++ σ.faults ns := by
  rw [faults, List.filter_append, List.map_append, faults, faults]

theorem faults_cons (m : Mention) (ms : List Mention) : σ.faults (m :: ms) = σ.faults [m] ++ σ.faults ms :=
  σ.faults_append [m] ms

theorem faults_of_eq {m : Mention} (h : m.span = σ.place) : σ.faults [m] = [σ.fault m] := by
  rw [faults, List.filter_cons_of_pos (by simpa using h)]
  rfl

theorem faults_of_ne {m : Mention} (h : m.span ≠ σ.place) : σ.faults [m] = [] := by
  rw [faults, List.filter_cons_of_neg (by simpa using h)]
  rfl

variable {σ} {q r r' s s' u u' : Resolution} {path : List Nat} {ms ns : List Mention}

theorem faults_binds {m : Mention} (hm : m ∈ p.mentions) (h : m.role = .binds) : σ.faults [m] = [] :=
  σ.faults_of_ne (σ.uses m hm h)

/-- A name that is declared stays. -/
theorem text_binds {m : Mention} (hm : m ∈ p.mentions) (h : m.role = .binds) :
    σ.moves.text m.span m.text = m.text := by
  rw [σ.renames, if_neg (σ.uses m hm h)]

variable (σ)

/-- The names of a program, and those of the program in which one is written wrong, were resolved up to some
point. Symbols have the same numbers; a name is bound to the same, or to the error symbol. -/
structure Blurs (r r' : Resolution) : Prop where
  table : r'.table.placeless = r.table.placeless
  refs : List.Forall₂ (fun e e' => e'.1 = e.1 ∧ (e'.2 = e.2 ∨ e'.2 = SymbolTable.errorSymbol)) r.refs r'.refs
  types : List.Forall₂ (fun e e' => (∃ m ∈ p.mentions, m.span = e.1) ∧ e'.1 = σ.moves.span e.1 ∧
    (e'.2 = e.2 ∨ e'.2 = SymbolTable.errorSymbol)) r.types r'.types
  decls : r'.decls = r.decls
  implicit : r'.implicit = r.implicit
  items : r'.items = r.items
  resources : r'.resources = r.resources
  fresh : ∀ y z, y ≠ SymbolTable.errorSymbol → r.table.symbol? y = some z → z.name ≠ σ.name

/-- From `r'` on, names were resolved and what is wrong with them was reported. -/
structure Tracks (ms : List Mention) (r' s s' : Resolution) : Prop where
  blurs : σ.Blurs s s'
  diagnostics : s'.diagnostics.Perm (r'.diagnostics ++ σ.faults ms)

variable {σ}

namespace Tracks

theorem refl (h : σ.Blurs r r') : σ.Tracks [] r' r r' := ⟨h, .of_eq (List.append_nil _).symm⟩

theorem trans (h : σ.Tracks ms r' s s') (h' : σ.Tracks ns s' u u') : σ.Tracks (ms ++ ns) r' u u' := by
  refine ⟨h'.blurs, h'.diagnostics.trans ?_⟩
  rw [faults_append, ← List.append_assoc]
  exact h.diagnostics.append_right _

theorem congr (h : σ.Tracks ms r' s s') (heq : (σ.faults ms).Perm (σ.faults ns)) : σ.Tracks ns r' s s' :=
  ⟨h.blurs, h.diagnostics.trans (heq.append_left _)⟩

/-- Nothing was reported. -/
theorem silent (h : σ.Blurs s s') (hd : s'.diagnostics = r'.diagnostics) (hm : σ.faults ms = []) :
    σ.Tracks ms r' s s' :=
  ⟨h, .of_eq (by rw [hd, hm, List.append_nil])⟩

end Tracks

namespace Blurs

/-- Along a path a name is found as before, unless it is the one that is written wrong. -/
theorem find (h : σ.Blurs r r') (hr : r.Sound p) (path : List Nat) (x : Span) (text : Bytes) :
    x = σ.place ∧ σ.moves.text x text = σ.name ∧ r'.table.findAlong? path σ.name = none ∨
      x ≠ σ.place ∧ σ.moves.text x text = text ∧
        r'.table.findAlong? path text = r.table.findAlong? path text := by
  rw [σ.renames, SymbolTable.findAlong?_congr h.table, SymbolTable.findAlong?_congr h.table]
  by_cases hx : x = σ.place
  · refine .inl ⟨hx, if_pos hx, ?_⟩
    cases hf : r.table.findAlong? path σ.name with
    | none => rfl
    | some y =>
      obtain ⟨hne, z, hz, hname⟩ := hr.valid.symbol?_of_findAlong? hf
      exact absurd hname.1 (h.fresh y z hne hz)
  · exact .inr ⟨hx, if_neg hx, rfl⟩

theorem noted (h : σ.Blurs r r') (ds : List Diagnostic) :
    σ.Blurs r { r' with diagnostics := r'.diagnostics ++ ds } :=
  ⟨h.table, h.refs, h.types, h.decls, h.implicit, h.items, h.resources, h.fresh⟩

theorem ref (h : σ.Blurs r r') (id : Nat) {y y' : Nat} (hy : y' = y ∨ y' = SymbolTable.errorSymbol) :
    σ.Blurs { r with refs := r.refs ++ [(id, y)] } { r' with refs := r'.refs ++ [(id, y')] } :=
  ⟨h.table, List.rel_append h.refs (.cons ⟨rfl, hy⟩ .nil), h.types, h.decls, h.implicit, h.items, h.resources,
    h.fresh⟩

theorem typeBinding (h : σ.Blurs r r') {x : Span} (hx : ∃ m ∈ p.mentions, m.span = x) {y y' : Nat}
    (hy : y' = y ∨ y' = SymbolTable.errorSymbol) :
    σ.Blurs { r with types := r.types ++ [(x, y)] } { r' with types := r'.types ++ [(σ.moves.span x, y')] } :=
  ⟨h.table, h.refs, List.rel_append h.types (.cons ⟨hx, rfl, hy⟩ .nil), h.decls, h.implicit, h.items, h.resources,
    h.fresh⟩

theorem decl (h : σ.Blurs r r') (id y : Nat) :
    σ.Blurs { r with decls := r.decls ++ [(id, y)] } { r' with decls := r'.decls ++ [(id, y)] } :=
  ⟨h.table, h.refs, h.types, by rw [h.decls], h.implicit, h.items, h.resources, h.fresh⟩

theorem addItem (h : σ.Blurs r r') (item y : Nat) : σ.Blurs (r.addItem item y) (r'.addItem item y) :=
  ⟨h.table, h.refs, h.types, h.decls, h.implicit, by rw [Resolution.addItem, Resolution.addItem, h.items],
    h.resources, h.fresh⟩

theorem itemParams (h : σ.Blurs r r') (id : Nat) (symbols : List Nat) (scope : Nat) :
    σ.Blurs { r with items := r.items.map fun i => if i.item = id then { i with params := symbols, scope } else i }
      { r' with items := r'.items.map fun i => if i.item = id then { i with params := symbols, scope } else i } :=
  ⟨h.table, h.refs, h.types, h.decls, h.implicit, by rw [h.items], h.resources, h.fresh⟩

theorem openScope (h : σ.Blurs r r') (kind : ScopeKind) (path : List Nat) (x x' : Span) :
    σ.Blurs (r.openScope kind path x).1 (r'.openScope kind path x').1 ∧
      (r'.openScope kind path x').2 = (r.openScope kind path x).2 := by
  obtain ⟨htable, hid⟩ := SymbolTable.openScope_congr h.table kind (path.headD 0) x x'
  refine ⟨⟨htable, h.refs, h.types, h.decls, h.implicit, h.items, h.resources, fun y z hne hz => ?_⟩, hid⟩
  exact h.fresh y z hne ((SymbolTable.symbol?_openScope ..).symm.trans hz)

variable (w : Bool)

/-- A declaration that is not reported is not reported in the other program either. -/
theorem checkDeclaration (h : σ.Blurs r r') {y y' : Symbol} (hy : y'.name = y.name)
    (hd : (r.checkDeclaration w path y).diagnostics = []) : r'.checkDeclaration w path y' = r' := by
  unfold Resolution.checkDeclaration at hd ⊢
  cases path with
  | nil => rfl
  | cons here outer =>
    dsimp only at hd ⊢
    rw [SymbolTable.findLocal?_congr h.table, SymbolTable.findAlong?_congr h.table, hy]
    cases hlocal : r.table.findLocal? here y.name with
    | some previous =>
      rw [hlocal] at hd
      exact absurd hd (List.append_ne_nil_of_right_ne_nil _ (List.cons_ne_nil _ _))
    | none =>
      rw [hlocal] at hd
      dsimp only at hd ⊢
      split
      · rfl
      · rename_i hw
        rw [if_neg hw] at hd
        cases hfar : r.table.findAlong? outer y.name with
        | none => rfl
        | some hidden =>
          rw [hfar] at hd
          exact absurd hd (List.append_ne_nil_of_right_ne_nil _ (List.cons_ne_nil _ _))

theorem localized (h : σ.Blurs r r') {y y' : Symbol} (hy : y'.placeless = y.placeless) (path : List Nat) :
    (r'.localized path y').placeless = (r.localized path y).placeless := by
  have hfile : r'.isFileScope (path.headD 0) = r.isFileScope (path.headD 0) :=
    congrArg (Option.getD · false) (SymbolTable.scope?_congr h.table (fun _ => rfl) _)
  obtain ⟨name, kind, scope, x, flags⟩ := y
  obtain ⟨name', kind', scope', x', flags'⟩ := y'
  simp only [Symbol.placeless, Symbol.mk.injEq, true_and] at hy
  obtain ⟨rfl, rfl, -, rfl⟩ := hy
  simp only [Resolution.localized, Symbol.placeless, hfile]

/-- The same is declared in both programs. -/
theorem declare (h : σ.Blurs r r') (hp : r.Stands path) {y y' : Symbol} (hy : y'.placeless = y.placeless)
    (hn : y.name ≠ σ.name) (hd : (r.declare w path y).1.diagnostics = []) :
    σ.Blurs (r.declare w path y).1 (r'.declare w path y').1 ∧
      (r'.declare w path y').2 = (r.declare w path y).2 ∧
      (r'.declare w path y').1.diagnostics = r'.diagnostics := by
  obtain ⟨ds, table, heq, hdeclared⟩ := declare_eq w hp y
  obtain ⟨table', hdeclared', htable⟩ := SymbolTable.declare?_congr h.table (h.localized hy path) hdeclared
  have hchecked : r'.checkDeclaration w path y' = r' := by
    obtain ⟨ds', hds'⟩ := checkDeclaration_eq w path r y
    have hname : y'.name = y.name := show y'.placeless.name = y.placeless.name by rw [hy]
    refine h.checkDeclaration w hname ?_
    rw [Resolution.declare, hds'] at hd
    rw [hds']
    split at hd <;> exact hd
  have heq' : r'.declare w path y' = ({ r' with table := table' }, r.table.symbols.length + 1) := by
    rw [Resolution.declare, hchecked]
    dsimp only
    split
    · rename_i heq
      cases heq.symm.trans hdeclared'
      rfl
    · rename_i heq
      cases heq.symm.trans hdeclared'
  rw [heq, heq']
  refine ⟨⟨htable, h.refs, h.types, h.decls, h.implicit, h.items, h.resources, fun k z hne hz => ?_⟩, rfl, rfl⟩
  change table.symbol? k = some z at hz
  rw [SymbolTable.symbol?_of_append (symbols_of_declare hdeclared)] at hz
  split at hz
  · cases hz
    exact hn
  · exact h.fresh k z hne hz

end Blurs

/-! ## Walking through a program -/

theorem silent_of_grows (hq : σ.Ends q) (hg : s.Grows q) : s.diagnostics = [] :=
  List.prefix_nil.mp (hq.clean ▸ hg.diagnostics)

/-- What is declared has another name. -/
theorem Ends.ne_of_declare {w : Bool} (hq : σ.Ends q) (hp : r.Stands path) {y : Symbol}
    (hg : (r.declare w path y).1.table.Grows q.table) : y.name ≠ σ.name := by
  obtain ⟨ds, table, heq, hd⟩ := declare_eq w hp y
  rw [heq] at hg
  refine hq.unknown (r.localized path y) (hg.symbols.subset ?_)
  rw [symbols_of_declare hd]
  exact List.mem_append_right _ (List.mem_singleton.mpr rfl)

theorem not_report_grows (hq : σ.Ends q) (problem : NameProblem) (x : Span) (notes : List Note) :
    ¬ (r.report problem x notes).Grows q :=
  fun hg => List.append_ne_nil_of_right_ne_nil _ (List.cons_ne_nil _ _) (silent_of_grows hq hg)

theorem ident_tracks (h : σ.Blurs r r') (hr : r.Sound p) (hq : σ.Ends q) (i : Ident)
    (hg : (ident path r i).Grows q) :
    σ.Tracks [i.mention .value] r' (ident path r i) (ident path r' (σ.moves.ident i)) := by
  rw [ident] at hg
  rw [ident, ident]
  cases hf : r.table.findAlong? path i.name with
  | none =>
    rw [hf] at hg
    have hn := extends_report hr (.undefined i.name) i.node.span []
    exact absurd ((extends_ref hn.sound _ _).grows.trans hg) (not_report_grows hq _ _ _)
  | some y =>
    dsimp only [Relabelling.ident]
    rcases h.find hr path i.node.span i.name with ⟨hx, htext, hnone⟩ | ⟨hx, htext, hsame⟩
    · rw [htext, hnone]
      refine ⟨(h.noted _).ref _ (.inr rfl), .of_eq ?_⟩
      rw [σ.faults_of_eq (m := i.mention .value) hx]
      rfl
    · rw [htext, hsame, hf]
      exact .silent (h.ref _ (.inl rfl)) rfl (σ.faults_of_ne (m := i.mention .value) hx)

theorem target_declares (w : Bool) {i : Ident} (hf : r.table.findAlong? path i.name = none) :
    target w path r .set i = { (r.declare w path (implicitVar i)).1 with
      refs := (r.declare w path (implicitVar i)).1.refs
        ++ [(i.node.id, (r.declare w path (implicitVar i)).2)]
      implicit := (r.declare w path (implicitVar i)).1.implicit
        ++ [(i.node.id, (r.declare w path (implicitVar i)).2)] } := by
  rw [target, hf]
  rfl

variable (w : Bool)

theorem target_tracks (h : σ.Blurs r r') (hr : r.Sound p) (hp : r.Stands path) (hq : σ.Ends q)
    (op : AssignOp) {i : Ident} (hi : i.mention op.role ∈ p.mentions) (hg : (target w path r op i).Grows q) :
    σ.Tracks [i.mention op.role] r' (target w path r op i) (target w path r' op (σ.moves.ident i)) := by
  cases hf : r.table.findAlong? path i.name with
  | some y =>
    rw [target, target, hf]
    dsimp only [Relabelling.ident]
    rcases h.find hr path i.node.span i.name with ⟨hx, htext, hnone⟩ | ⟨hx, htext, hsame⟩
    · have hop : op ≠ .set := fun hop => σ.uses _ hi (if_pos hop) hx
      have hrole : op.role = .updates op := if_neg hop
      rw [htext, hnone]
      dsimp only
      rw [if_neg hop]
      refine ⟨(h.noted _).ref _ (.inr rfl), .of_eq ?_⟩
      rw [σ.faults_of_eq (m := i.mention op.role) hx, hrole]
      rfl
    · rw [htext, hsame, hf]
      exact .silent (h.ref _ (.inl rfl)) rfl (σ.faults_of_ne (m := i.mention op.role) hx)
  | none =>
    by_cases hop : op = .set
    · subst hop
      have htext : (σ.moves.ident i).name = i.name := text_binds hi rfl
      have hf' : r'.table.findAlong? path (σ.moves.ident i).name = none := by
        rw [htext, SymbolTable.findAlong?_congr h.table, hf]
      have hy : (implicitVar (σ.moves.ident i)).placeless = (implicitVar i).placeless := by
        simp only [implicitVar, Symbol.placeless, htext]
      rw [target_declares w hf] at hg
      have hsilent := silent_of_grows hq hg
      obtain ⟨hb, hid, hd⟩ := h.declare w hp hy (hq.ne_of_declare hp hg.table) hsilent
      rw [target_declares w hf, target_declares w hf', hid]
      refine .silent ⟨hb.table, (hb.ref _ (.inl rfl)).refs, hb.types, hb.decls, ?_, hb.items, hb.resources, hb.fresh⟩
        hd (faults_binds hi rfl)
      exact congrArg (· ++ _) hb.implicit
    · have hn := extends_report hr (.undeclared op i.name) i.node.span []
      rw [target, hf] at hg
      simp only [if_neg hop] at hg
      exact absurd ((extends_ref hn.sound _ _).grows.trans hg) (not_report_grows hq _ _ _)

theorem typeRef_tracks (h : σ.Blurs r r') (hr : r.Sound p) (hq : σ.Ends q) {type : Name}
    (ht : type.mention .type ∈ p.mentions) (hg : (typeRef path r type).Grows q) :
    σ.Tracks [type.mention .type] r' (typeRef path r type) (typeRef path r' (σ.moves.name type)) := by
  have hbound : ∃ m ∈ p.mentions, m.span = type.span := ⟨_, ht, rfl⟩
  rw [typeRef] at hg
  rw [typeRef, typeRef]
  cases hf : r.table.findAlong? path type.text with
  | none =>
    rw [hf] at hg
    exact absurd (silent_of_grows hq hg)
      (List.append_ne_nil_of_right_ne_nil _ (List.cons_ne_nil _ _))
  | some y =>
    rw [hf] at hg
    have hkind : ((r.table.symbol? y).map (·.kind)).getD .invalid = .type := by
      by_contra hne
      dsimp only at hg
      rw [if_neg hne] at hg
      exact absurd (silent_of_grows hq hg)
        (List.append_ne_nil_of_right_ne_nil _ (List.cons_ne_nil _ _))
    have hkind' : ((r'.table.symbol? y).map (·.kind)).getD .invalid = .type := by
      rw [SymbolTable.symbol?_congr h.table fun _ => rfl, hkind]
    dsimp only [Relabelling.name]
    rw [if_pos hkind]
    rcases h.find hr path type.span type.text with ⟨hx, htext, hnone⟩ | ⟨hx, htext, hsame⟩
    · rw [htext, hnone]
      refine ⟨(h.noted _).typeBinding hbound (.inr rfl), .of_eq ?_⟩
      rw [σ.faults_of_eq (m := type.mention .type) hx]
      rfl
    · rw [htext, hsame, hf]
      dsimp only
      rw [if_pos hkind']
      exact .silent (h.typeBinding hbound (.inl rfl)) rfl (σ.faults_of_ne (m := type.mention .type) hx)

theorem typeRef?_tracks (h : σ.Blurs r r') (hr : r.Sound p) (hq : σ.Ends q) {type : Option Name}
    (ht : ∀ m ∈ Name.mention? type, m ∈ p.mentions) (hg : (typeRef? path r type).Grows q) :
    σ.Tracks (Name.mention? type) r' (typeRef? path r type) (typeRef? path r' (type.map σ.moves.name)) := by
  cases type with
  | none => exact .refl h
  | some type => exact typeRef_tracks h hr hq (ht _ List.mem_cons_self) hg

mutual

theorem expr_tracks {r r' : Resolution} (h : σ.Blurs r r') (hr : r.Sound p) (hp : r.Stands path)
    (hq : σ.Ends q) : (e : Expr) → (∀ m ∈ e.mentions, m ∈ p.mentions) → (expr w path r e).Grows q →
    σ.Tracks e.mentions r' (expr w path r e) (expr w path r' (e.relabel σ.moves))
  | .error _, _, _ | .constant .., _, _ => by
    rw [Expr.relabel, expr, expr]
    exact .refl h
  | .ident i, _, hg => by
    rw [expr] at hg
    rw [Expr.relabel, expr, expr]
    exact ident_tracks h hr hq i hg
  | .unary _ _ operand, hm, hg => by
    rw [expr] at hg
    rw [Expr.relabel, expr, expr]
    exact expr_tracks h hr hp hq operand hm hg
  | .group _ inner, hm, hg => by
    rw [expr] at hg
    rw [Expr.relabel, expr, expr]
    exact expr_tracks h hr hp hq inner hm hg
  | .binary _ _ _ left right, hm, hg => by
    rw [Expr.mentions, List.forall_mem_append] at hm
    have hl := extends_expr w hr hp left
    have hpl := hl.grows.stands hp
    have hrt := extends_expr w hl.sound hpl right
    rw [expr] at hg
    rw [Expr.relabel, expr, expr, Expr.mentions]
    have hleft := expr_tracks h hr hp hq left hm.1 (hrt.grows.trans hg)
    exact hleft.trans (expr_tracks hleft.blurs hl.sound hpl hq right hm.2 hg)
  | .call _ callee args, hm, hg => by
    rw [Expr.mentions, List.forall_mem_append] at hm
    have hc := extends_expr w hr hp callee
    have hpc := hc.grows.stands hp
    have ha := extends_exprs w hc.sound hpc args
    rw [expr] at hg
    rw [Expr.relabel, expr, expr, Expr.mentions]
    have hcallee := expr_tracks h hr hp hq callee hm.1 (ha.grows.trans hg)
    exact hcallee.trans (exprs_tracks hcallee.blurs hc.sound hpc hq args hm.2 hg)
  | .assign _ op _ i value, hm, hg => by
    rw [Expr.mentions, List.forall_mem_cons] at hm
    have hv := extends_expr w hr hp value
    have hpv := hv.grows.stands hp
    have ht := extends_target w hv.sound hpv op i
    rw [expr] at hg
    rw [Expr.relabel, expr, expr, Expr.mentions]
    have hvalue := expr_tracks h hr hp hq value hm.2 (ht.grows.trans hg)
    -- The target is resolved after the value, and written before it.
    refine (hvalue.trans (target_tracks w hvalue.blurs hv.sound hpv hq op hm.1 hg)).congr ?_
    rw [faults_append, σ.faults_cons _ value.mentions]
    exact List.perm_append_comm

theorem exprs_tracks {r r' : Resolution} (h : σ.Blurs r r') (hr : r.Sound p) (hp : r.Stands path)
    (hq : σ.Ends q) : (es : List Expr) → (∀ m ∈ Expr.mentionsOf es, m ∈ p.mentions) →
    (exprs w path r es).Grows q →
    σ.Tracks (Expr.mentionsOf es) r' (exprs w path r es) (exprs w path r' (Expr.relabelAll σ.moves es))
  | [], _, _ => by
    rw [Expr.relabelAll, exprs, exprs]
    exact .refl h
  | e :: es, hm, hg => by
    rw [Expr.mentionsOf, List.forall_mem_append] at hm
    have he := extends_expr w hr hp e
    have hpe := he.grows.stands hp
    have hes := extends_exprs w he.sound hpe es
    rw [exprs] at hg
    rw [Expr.relabelAll, exprs, exprs, Expr.mentionsOf]
    have hfirst := expr_tracks h hr hp hq e hm.1 (hes.grows.trans hg)
    exact hfirst.trans (exprs_tracks hfirst.blurs he.sound hpe hq es hm.2 hg)

end

theorem expr?_tracks (h : σ.Blurs r r') (hr : r.Sound p) (hp : r.Stands path) (hq : σ.Ends q)
    {e : Option Expr} (hm : ∀ m ∈ Expr.mentions? e, m ∈ p.mentions) (hg : (expr? w path r e).Grows q) :
    σ.Tracks (Expr.mentions? e) r' (expr? w path r e) (expr? w path r' (e.map (Expr.relabel σ.moves))) := by
  cases e with
  | none => exact .refl h
  | some e => exact expr_tracks w h hr hp hq e hm hg

theorem stmt_var (path : List Nat) (r : Resolution) (n : Node) (name : Name) (type : Option Name)
    (value : Option Expr) : stmt w path r (.var n name type value) =
      { ((expr? w path (typeRef? path r type) value).declare w path (namedVar name)).1 with
        decls := ((expr? w path (typeRef? path r type) value).declare w path (namedVar name)).1.decls
          ++ [(n.id, ((expr? w path (typeRef? path r type) value).declare w path (namedVar name)).2)] } := by
  rw [stmt]
  rfl

theorem var_tracks (h : σ.Blurs r r') (hr : r.Sound p) (hp : r.Stands path) (hq : σ.Ends q) {n : Node}
    {name : Name} {type : Option Name} {value : Option Expr}
    (hm : ∀ m ∈ (Stmt.var n name type value).mentions, m ∈ p.mentions)
    (hg : (stmt w path r (.var n name type value)).Grows q) :
    σ.Tracks (Stmt.var n name type value).mentions r' (stmt w path r (.var n name type value))
      (stmt w path r' ((Stmt.var n name type value).relabel σ.moves)) := by
  rw [Stmt.mentions, List.forall_mem_cons, List.forall_mem_append] at hm
  obtain ⟨hname, htm, hvm⟩ := hm
  have ht := extends_typeRef? path hr type
  have hpt := ht.grows.stands hp
  have hv := extends_expr? w ht.sound hpt value
  have hpv := hv.grows.stands hpt
  have hd : Extends p [] _ ((expr? w path (typeRef? path r type) value).declare w path (namedVar name)).1 :=
    extends_declare w hv.sound hpv (.inl rfl) rfl
  rw [stmt_var] at hg
  have hdg := (extends_decl hd.sound n.id _).grows.trans hg
  have htype := typeRef?_tracks h hr hq htm (hv.grows.trans (hd.grows.trans hdg))
  have hvalue := expr?_tracks w htype.blurs ht.sound hpt hq hvm (hd.grows.trans hdg)
  have htext : (σ.moves.name name).text = name.text := text_binds hname rfl
  have hy : (namedVar (σ.moves.name name)).placeless = (namedVar name).placeless := by
    simp only [namedVar, Symbol.placeless, htext]
  obtain ⟨hb, hid, hsame⟩ := hvalue.blurs.declare w hpv hy (hq.ne_of_declare hpv hdg.table) (silent_of_grows hq hdg)
  rw [Stmt.relabel, stmt_var, stmt_var, Stmt.mentions, hid]
  refine ⟨hb.decl _ _, ?_⟩
  rw [faults_cons, faults_binds hname rfl]
  refine List.Perm.trans (.of_eq hsame) ?_
  exact (htype.trans hvalue).diagnostics

mutual

theorem stmt_tracks {r r' : Resolution} {path : List Nat} (h : σ.Blurs r r') (hr : r.Sound p)
    (hp : r.Stands path) (hq : σ.Ends q) : (s : Stmt) → (∀ m ∈ s.mentions, m ∈ p.mentions) →
    (stmt w path r s).Grows q →
    σ.Tracks s.mentions r' (stmt w path r s) (stmt w path r' (s.relabel σ.moves))
  | .error _, _, _ | .leave _, _, _ | .again _, _, _ | .command .., _, _ => by
    rw [Stmt.relabel, stmt, stmt]
    exact .refl h
  | .var n name type value, hm, hg => var_tracks w h hr hp hq hm hg
  | .expr _ e, hm, hg => by
    rw [stmt] at hg
    rw [Stmt.relabel, stmt, stmt]
    exact expr_tracks w h hr hp hq e hm hg
  | .give _ value, hm, hg => by
    rw [stmt] at hg
    rw [Stmt.relabel, stmt, stmt]
    exact expr?_tracks w h hr hp hq hm hg
  | .branch _ cond body otherwise, hm, hg => by
    rw [Stmt.mentions, List.forall_mem_append, List.forall_mem_append] at hm
    obtain ⟨⟨hmc, hmb⟩, hmo⟩ := hm
    have hc := extends_expr w hr hp cond
    have hpc := hc.grows.stands hp
    have hb := extends_block w hc.sound hpc body
    have hpb := hb.grows.stands hpc
    have ho := extends_alternative w hb.sound hpb otherwise
    rw [stmt] at hg
    rw [Stmt.relabel, stmt, stmt, Stmt.mentions]
    have hcond := expr_tracks w h hr hp hq cond hmc (hb.grows.trans (ho.grows.trans hg))
    have hbody := block_tracks hcond.blurs hc.sound hpc hq body hmb (ho.grows.trans hg)
    exact (hcond.trans hbody).trans (alternative_tracks hbody.blurs hb.sound hpb hq otherwise hmo hg)
  | .loop _ .before cond body, hm, hg => by
    rw [Stmt.mentions, List.forall_mem_append] at hm
    have hc := extends_expr w hr hp cond
    have hpc := hc.grows.stands hp
    have hb := extends_block w hc.sound hpc body
    rw [stmt] at hg
    rw [Stmt.relabel, stmt, stmt, Stmt.mentions]
    have hcond := expr_tracks w h hr hp hq cond hm.1 (hb.grows.trans hg)
    exact hcond.trans (block_tracks hcond.blurs hc.sound hpc hq body hm.2 hg)
  | .loop _ .after cond body, hm, hg => by
    rw [Stmt.mentions, List.forall_mem_append] at hm
    have hb := extends_block w hr hp body
    have hpb := hb.grows.stands hp
    have hc := extends_expr w hb.sound hpb cond
    rw [stmt] at hg
    rw [Stmt.relabel, stmt, stmt, Stmt.mentions]
    have hbody := block_tracks h hr hp hq body hm.1 (hc.grows.trans hg)
    exact hbody.trans (expr_tracks w hbody.blurs hb.sound hpb hq cond hm.2 hg)

theorem block_tracks {r r' : Resolution} {path : List Nat} (h : σ.Blurs r r') (hr : r.Sound p)
    (hp : r.Stands path) (hq : σ.Ends q) : (b : Block) → (∀ m ∈ b.mentions, m ∈ p.mentions) →
    (block w path r b).Grows q →
    σ.Tracks b.mentions r' (block w path r b) (block w path r' (b.relabel σ.moves))
  | .mk n body, hm, hg => by
    obtain ⟨ho, hs⟩ := extends_openScope hr hp .block (by decide) n.span
    obtain ⟨hb, hid⟩ := h.openScope .block path n.span (σ.moves.node n).span
    rw [block] at hg
    rw [Block.relabel, block, block, Block.mentions]
    have hbody := stmts_tracks hb ho.sound hs hq body hm hg
    dsimp only
    rw [hid]
    exact ⟨hbody.blurs, hbody.diagnostics⟩

theorem stmts_tracks {r r' : Resolution} {path : List Nat} (h : σ.Blurs r r') (hr : r.Sound p)
    (hp : r.Stands path) (hq : σ.Ends q) : (ss : List Stmt) →
    (∀ m ∈ Stmt.mentionsOf ss, m ∈ p.mentions) → (stmts w path r ss).Grows q →
    σ.Tracks (Stmt.mentionsOf ss) r' (stmts w path r ss) (stmts w path r' (Stmt.relabelAll σ.moves ss))
  | [], _, _ => by
    rw [Stmt.relabelAll, stmts, stmts]
    exact .refl h
  | s :: rest, hm, hg => by
    rw [Stmt.mentionsOf, List.forall_mem_append] at hm
    have hs := extends_stmt w hr hp s
    have hps := hs.grows.stands hp
    have hrest := extends_stmts w hs.sound hps rest
    rw [stmts] at hg
    rw [Stmt.relabelAll, stmts, stmts, Stmt.mentionsOf]
    have hfirst := stmt_tracks h hr hp hq s hm.1 (hrest.grows.trans hg)
    exact hfirst.trans (stmts_tracks hfirst.blurs hs.sound hps hq rest hm.2 hg)

theorem alternative_tracks {r r' : Resolution} {path : List Nat} (h : σ.Blurs r r') (hr : r.Sound p)
    (hp : r.Stands path) (hq : σ.Ends q) : (o : Otherwise) → (∀ m ∈ o.mentions, m ∈ p.mentions) →
    (alternative w path r o).Grows q →
    σ.Tracks o.mentions r' (alternative w path r o) (alternative w path r' (o.relabel σ.moves))
  | .none, _, _ => by
    rw [Otherwise.relabel, alternative, alternative]
    exact .refl h
  | .block body, hm, hg => by
    rw [alternative] at hg
    rw [Otherwise.relabel, alternative, alternative]
    exact block_tracks h hr hp hq body hm hg
  | .chain s, hm, hg => by
    rw [alternative] at hg
    rw [Otherwise.relabel, alternative, alternative]
    exact stmt_tracks h hr hp hq s hm hg

end

/-! ## Items -/

/-- The types of parameters, where they are written. -/
def typesOf (ps : List Param) : List Mention := ps.map fun x => x.type.mention .type

theorem typeRefs_tracks (h : σ.Blurs r r') (hr : r.Sound p) (hq : σ.Ends q) {ps : List Param}
    (hm : ∀ m ∈ typesOf ps, m ∈ p.mentions) (hg : (ps.foldl (fun r x => typeRef path r x.type) r).Grows q) :
    σ.Tracks (typesOf ps) r' (ps.foldl (fun r x => typeRef path r x.type) r)
      ((ps.map σ.moves.param).foldl (fun r x => typeRef path r x.type) r') := by
  induction ps generalizing r r' with
  | nil => exact .refl h
  | cons x ps ih =>
    rw [typesOf, List.map_cons, List.forall_mem_cons] at hm
    have hx := extends_typeRef path hr x.type
    have hrest := extends_typeRefs path hx.sound ps
    have hfirst := typeRef_tracks h hr hq hm.1 (hrest.grows.trans hg)
    exact hfirst.trans (ih hfirst.blurs hx.sound hm.2 hg)

theorem params_tracks (h : σ.Blurs r r') (hr : r.Sound p) (hp : r.Stands path) (hq : σ.Ends q)
    {ps : List Param} (hm : ∀ x ∈ ps, x.name.mention .binds ∈ p.mentions) (hg : (params w path r ps).1.Grows q) :
    σ.Blurs (params w path r ps).1 (params w path r' (ps.map σ.moves.param)).1 ∧
      (params w path r' (ps.map σ.moves.param)).2 = (params w path r ps).2 ∧
      (params w path r' (ps.map σ.moves.param)).1.diagnostics = r'.diagnostics := by
  induction ps generalizing r r' with
  | nil => exact ⟨h, rfl, rfl⟩
  | cons x ps ih =>
    rw [List.forall_mem_cons] at hm
    have hd : r.Extends p [] (r.declare w path (namedParam x)).1 :=
      extends_declare w hr hp (.inr ⟨rfl, rfl⟩) rfl
    have hpd := hd.grows.stands hp
    have hrest := (params_spec w hd.sound hpd ps).1
    have htext : (σ.moves.param x).name.text = x.name.text := text_binds hm.1 rfl
    have hy : (namedParam (σ.moves.param x)).placeless = (namedParam x).placeless := by
      simp only [namedParam, Symbol.placeless, htext]
    rw [params_cons] at hg
    have hdg := hrest.grows.trans hg
    obtain ⟨hb, hid, hsame⟩ := h.declare w hp hy (hq.ne_of_declare hp hdg.table) (silent_of_grows hq hdg)
    obtain ⟨hb', hids, hsame'⟩ := ih hb hd.sound hpd hm.2 hg
    rw [List.map_cons, params_cons, params_cons, hid, hids]
    exact ⟨hb', rfl, hsame'.trans hsame⟩

theorem openFunction_eq (path : List Nat) (r : Resolution) (f : Function) : openFunction w path r f =
    (fun (s : Resolution) (scope : Nat) =>
      ({ (params w (scope :: path) s f.params).1 with
        items := (params w (scope :: path) s f.params).1.items.map fun i =>
          if i.item = f.node.id then { i with params := (params w (scope :: path) s f.params).2, scope } else i },
        (params w (scope :: path) s f.params).2, scope))
      ((typeRef? path (f.params.foldl (fun r x => typeRef path r x.type) r) f.result).openScope .function path
        f.node.span).1
      ((typeRef? path (f.params.foldl (fun r x => typeRef path r x.type) r) f.result).openScope .function path
        f.node.span).2 := rfl

/-- Before the body of a function its types are resolved, and its parameters are declared. -/
theorem openFunction_tracks (h : σ.Blurs r r') (hr : r.Sound p) (hp : r.Stands path) (hq : σ.Ends q)
    {f : Function} (hm : ∀ m ∈ f.mentions, m ∈ p.mentions) (hg : (openFunction w path r f).1.Grows q) :
    σ.Tracks (typesOf f.params ++ Name.mention? f.result) r' (openFunction w path r f).1
        (openFunction w path r' (f.relabel σ.moves)).1 ∧
      (openFunction w path r' (f.relabel σ.moves)).2.2 = (openFunction w path r f).2.2 := by
  rw [Function.mentions, List.forall_mem_cons, List.forall_mem_append, List.forall_mem_append,
    List.forall_mem_flatMap] at hm
  obtain ⟨-, ⟨hpm, hrm⟩, -⟩ := hm
  have hparam : ∀ x ∈ f.params, x.name.mention .binds ∈ p.mentions ∧ x.type.mention .type ∈ p.mentions := by
    intro x hx
    exact ⟨hpm x hx _ List.mem_cons_self, hpm x hx _ (List.mem_cons_of_mem _ List.mem_cons_self)⟩
  have htypes : ∀ m ∈ typesOf f.params, m ∈ p.mentions := by
    rintro m hm
    obtain ⟨x, hx, rfl⟩ := List.mem_map.mp hm
    exact (hparam x hx).2
  obtain ⟨h₁, h₂, h₃, hp₃⟩ := extends_signature hr hp f
  obtain ⟨h₄, -, -⟩ := params_spec w h₃.sound hp₃ f.params
  have h₅ := extends_itemParams h₄.sound f.node.id (openFunction w path r f).2.1 (openFunction w path r f).2.2
  have hg₄ := h₅.grows.trans hg
  have hg₂ := h₃.grows.trans (h₄.grows.trans hg₄)
  have t₁ := typeRefs_tracks h hr hq htypes (h₂.grows.trans hg₂)
  have t₂ := typeRef?_tracks t₁.blurs h₁.sound hq hrm hg₂
  obtain ⟨b₃, hscope⟩ := t₂.blurs.openScope .function path f.node.span (σ.moves.node f.node).span
  obtain ⟨b₄, hids, hsame⟩ := params_tracks w b₃ h₃.sound hp₃ hq (fun x hx => (hparam x hx).1) hg₄
  rw [openFunction_eq w path r' (f.relabel σ.moves)]
  dsimp only [Function.relabel]
  rw [hscope, hids]
  refine ⟨⟨b₄.itemParams _ _ _, ?_⟩, rfl⟩
  exact (List.Perm.of_eq hsame).trans (t₁.trans t₂).diagnostics

/-- What is written wrong in the head of a function is one of its types. -/
theorem faults_function {f : Function} (hm : ∀ m ∈ f.mentions, m ∈ p.mentions) :
    σ.faults f.mentions = σ.faults (typesOf f.params ++ Name.mention? f.result ++ f.body.mentions) := by
  rw [Function.mentions, List.forall_mem_cons, List.forall_mem_append, List.forall_mem_append] at hm
  obtain ⟨hname, ⟨hpm, -⟩, -⟩ := hm
  have hparams : σ.faults (f.params.flatMap Param.mentions) = σ.faults (typesOf f.params) := by
    revert hpm
    generalize f.params = ps
    intro hpm
    induction ps with
    | nil => rfl
    | cons x ps ih =>
      rw [List.flatMap_cons, List.forall_mem_append, Param.mentions, List.forall_mem_cons] at hpm
      have hcons : typesOf (x :: ps) = x.type.mention .type :: typesOf ps := rfl
      rw [List.flatMap_cons, faults_append, ih hpm.2, hcons, σ.faults_cons _ (typesOf ps), Param.mentions,
        faults_cons, faults_binds hpm.1.1 rfl, List.nil_append]
  rw [Function.mentions, faults_cons, faults_binds hname rfl]
  simp only [faults_append, hparams, List.nil_append]

theorem function_tracks (h : σ.Blurs r r') (hr : r.Sound p) (hp : r.Stands path) (hq : σ.Ends q)
    {f : Function} (hm : ∀ m ∈ f.mentions, m ∈ p.mentions) (hg : (function w path r f).Grows q) :
    σ.Tracks f.mentions r' (function w path r f) (function w path r' (f.relabel σ.moves)) := by
  obtain ⟨ho, hpo, -, -⟩ := openFunction_spec w hr hp f
  have hb := extends_stmts w ho.sound hpo f.body.stmts
  have hbody : ∀ m ∈ Stmt.mentionsOf f.body.stmts, m ∈ p.mentions := by
    intro m hmem
    refine hm m (List.mem_cons_of_mem _ (List.mem_append_right _ ?_))
    cases hbody : f.body with
    | mk n ss =>
      rw [hbody] at hmem
      exact hmem
  have hstmts : (f.relabel σ.moves).body.stmts = Stmt.relabelAll σ.moves f.body.stmts := by
    change (f.body.relabel σ.moves).stmts = _
    cases f.body
    rfl
  have hmentions : f.body.mentions = Stmt.mentionsOf f.body.stmts := by
    cases f.body
    rfl
  rw [function_eq] at hg
  obtain ⟨hopen, hscope⟩ := openFunction_tracks w h hr hp hq hm (hb.grows.trans hg)
  rw [function_eq, function_eq, hscope, hstmts]
  refine (hopen.trans (stmts_tracks w hopen.blurs ho.sound hpo hq f.body.stmts hbody hg)).congr ?_
  rw [faults_function hm, hmentions]

theorem item_tracks (h : σ.Blurs r r') (hr : r.Sound p) (hp : r.Stands path) (hq : σ.Ends q) (i : Item)
    (hm : ∀ m ∈ i.mentions, m ∈ p.mentions) (hg : (item w path r i).Grows q) :
    σ.Tracks i.mentions r' (item w path r i) (item w path r' (i.relabel σ.moves)) := by
  cases i with
  | error n => exact .refl h
  | function f => exact function_tracks w h hr hp hq hm hg
  | stmt n s => exact stmt_tracks w h hr hp hq s hm hg
  | typeAlias a =>
    rw [Item.mentions, List.forall_mem_cons, List.forall_mem_singleton] at hm
    refine (typeRef_tracks h hr hq hm.2 hg).congr (.of_eq ?_)
    rw [Item.mentions, σ.faults_cons (a.name.mention .binds), faults_binds hm.1 rfl, List.nil_append]

theorem items_tracks (h : σ.Blurs r r') (hr : r.Sound p) (hp : r.Stands path) (hq : σ.Ends q)
    (is : List Item) (hm : ∀ m ∈ is.flatMap Item.mentions, m ∈ p.mentions)
    (hg : (is.foldl (item w path) r).Grows q) :
    σ.Tracks (is.flatMap Item.mentions) r' (is.foldl (item w path) r)
      ((is.map (Item.relabel σ.moves)).foldl (item w path) r') := by
  induction is generalizing r r' with
  | nil => exact .refl h
  | cons i is ih =>
    rw [List.flatMap_cons, List.forall_mem_append] at hm
    have hi := extends_item w hr hp i
    have hpi := hi.grows.stands hp
    have hrest := extends_items w hi.sound hpi is
    have hfirst := item_tracks w h hr hp hq i hm.1 (hrest.grows.trans hg)
    exact hfirst.trans (ih hfirst.blurs hi.sound hpi hm.2 hg)

/-! ## Declarations that are visible everywhere -/

theorem Blurs.checkResource (h : σ.Blurs r r') (y : Nat) {n n' : Name} (hn : n'.text = n.text)
    (hd : (r.checkResource y n).diagnostics = []) :
    σ.Blurs (r.checkResource y n) (r'.checkResource y n') ∧
      (r'.checkResource y n').diagnostics = r'.diagnostics := by
  have hreport : ∀ problem x notes, (r.report problem x notes).diagnostics ≠ [] := fun _ _ _ =>
    List.append_ne_nil_of_right_ne_nil _ (List.cons_ne_nil _ _)
  unfold Resolution.checkResource at hd ⊢
  dsimp only at hd ⊢
  rw [hn, h.resources]
  split at hd
  · exact absurd hd (hreport _ _ _)
  · rename_i hentry
    rw [if_neg hentry, if_neg hentry]
    cases hl : r.resources.lookup (ResourceName.normalize n.text) with
    | none =>
      exact ⟨⟨h.table, h.refs, h.types, h.decls, h.implicit, h.items, rfl, h.fresh⟩, rfl⟩
    | some other =>
      rw [hl] at hd
      dsimp only at hd ⊢
      rw [SymbolTable.nameOf_congr h.table]
      split at hd
      · rename_i hsame
        rw [if_pos hsame, if_pos hsame]
        exact ⟨h, rfl⟩
      · exact absurd hd (hreport _ _ _)

/-- A declaration for the whole program is made in both programs. -/
theorem Blurs.hoist (h : σ.Blurs r r') (hp : r.Stands path) {i : Item} (hm : ∀ m ∈ i.mentions, m ∈ p.mentions)
    (hn : ∀ e, hoisted? i = some e → e.2.name ≠ σ.name) (hd : (hoist w path r i).diagnostics = []) :
    σ.Blurs (Resolution.hoist w path r i) (Resolution.hoist w path r' (i.relabel σ.moves)) ∧
      (Resolution.hoist w path r' (i.relabel σ.moves)).diagnostics = r'.diagnostics := by
  cases i with
  | error n => exact ⟨h, rfl⟩
  | stmt n s => exact ⟨h, rfl⟩
  | function f =>
    have hname := hm _ List.mem_cons_self
    have htext : (σ.moves.name f.name).text = f.name.text := text_binds hname rfl
    let y : Name → Symbol := fun n =>
      { name := n.text, kind := .function, span := n.span, flags := { hoisted := true, isGlobal := true } }
    have hy : (y (σ.moves.name f.name)).placeless = (y f.name).placeless := by
      simp only [y, Symbol.placeless, htext]
    have heq : ∀ (r : Resolution) (f : Function), Resolution.hoist w path r (.function f) =
        ((r.declare w path (y f.name)).1.addItem f.node.id (r.declare w path (y f.name)).2).checkResource
          (r.declare w path (y f.name)).2 f.name := fun _ _ => rfl
    rw [heq] at hd
    obtain ⟨ds, resources, hc⟩ := checkResource_eq ((r.declare w path (y f.name)).1.addItem f.node.id
      (r.declare w path (y f.name)).2) (r.declare w path (y f.name)).2 f.name
    have hsilent := hd
    rw [hc] at hsilent
    obtain ⟨hb, hid, hsame⟩ := h.declare w hp hy (hn _ rfl) (List.append_eq_nil_iff.mp hsilent).1
    obtain ⟨hb', hsame'⟩ := (hb.addItem f.node.id _).checkResource _ htext hd
    rw [Item.relabel, heq, heq]
    dsimp only [Function.relabel]
    rw [hid]
    exact ⟨hb', hsame'.trans hsame⟩
  | typeAlias a =>
    have hname := hm _ List.mem_cons_self
    have htext : (σ.moves.name a.name).text = a.name.text := text_binds hname rfl
    let y : Name → Symbol := fun n =>
      { name := n.text, kind := .type, span := n.span, flags := { hoisted := true } }
    have hy : (y (σ.moves.name a.name)).placeless = (y a.name).placeless := by
      simp only [y, Symbol.placeless, htext]
    have heq : ∀ (r : Resolution) (a : Alias), Resolution.hoist w path r (.typeAlias a) =
        (r.declare w path (y a.name)).1.addItem a.node.id (r.declare w path (y a.name)).2 := fun _ _ => rfl
    obtain ⟨hb, hid, hsame⟩ := h.declare w hp hy (hn _ rfl) hd
    rw [Item.relabel, heq, heq]
    dsimp only [Alias.relabel]
    rw [hid]
    exact ⟨hb.addItem _ _, hsame⟩

theorem hoist_isPrefix (hp : r.Stands path) (i : Item) : r.diagnostics <+: (hoist w path r i).diagnostics := by
  cases hi : hoisted? i with
  | none =>
    have hsame : hoist w path r i = r := hoist_of_none w hi
    exact hsame.symm ▸ List.prefix_rfl
  | some e =>
    obtain ⟨ds, table, resources, heq, -⟩ := hoist_eq w hp hi
    rw [heq]
    exact List.prefix_append _ _

theorem hoists_isPrefix {done : List Item} (h : Hoisted p path done r) (is : List Item) (hi : ∀ i ∈ is, i ∈ p.items) :
    r.diagnostics <+: (is.foldl (hoist w path) r).diagnostics := by
  induction is generalizing r done with
  | nil => exact List.prefix_rfl
  | cons i is ih =>
    rw [List.forall_mem_cons] at hi
    exact (hoist_isPrefix w h.stands i).trans (ih (h.step w hi.1) hi.2)

theorem Blurs.hoists {done : List Item} (h : σ.Blurs r r') (hr : Hoisted p path done r) (is : List Item)
    (hi : ∀ i ∈ is, i ∈ p.items) (hn : ∀ i ∈ is, ∀ e, hoisted? i = some e → e.2.name ≠ σ.name)
    (hd : (is.foldl (Resolution.hoist w path) r).diagnostics = []) :
    σ.Blurs (is.foldl (Resolution.hoist w path) r)
        ((is.map (Item.relabel σ.moves)).foldl (Resolution.hoist w path) r') ∧
      ((is.map (Item.relabel σ.moves)).foldl (Resolution.hoist w path) r').diagnostics = r'.diagnostics := by
  induction is generalizing r r' done with
  | nil => exact ⟨h, rfl⟩
  | cons i is ih =>
    rw [List.forall_mem_cons] at hi hn
    have hstep := hr.step w hi.1
    have hfirst := List.prefix_nil.mp (hd ▸ hoists_isPrefix w hstep is hi.2)
    obtain ⟨hb, hsame⟩ := h.hoist w hr.stands (fun m hm => List.mem_flatMap.mpr ⟨i, hi.1, hm⟩) hn.1 hfirst
    obtain ⟨hb', hsame'⟩ := ih hb hstep hi.2 hn.2 hd
    exact ⟨hb', hsame'.trans hsame⟩

/-- Before anything is declared. -/
theorem blurs_fileOpened (hq : σ.Ends q) (hg : SymbolTable.start.Grows q.table) (p' : Program) :
    σ.Blurs p.fileOpened p'.fileOpened := by
  have hstart : σ.Blurs { table := .start } { table := .start } :=
    ⟨rfl, .nil, .nil, rfl, rfl, rfl, rfl, fun _ _ _ hz =>
      hq.unknown _ (SymbolTable.mem_of_symbol? (hg.symbol? hz))⟩
  exact (hstart.openScope .file [SymbolTable.outermost] p.span p'.span).1

/-- In the program in which a name is written wrong names are resolved as they were, but for that one, which
is reported where it stands. -/
theorem resolve_tracks (σ : Misspelling p) (hids : p.ids.Nodup) {p' : Program}
    (hitems : p'.items = p.items.map (Item.relabel σ.moves)) (hq : σ.Ends (p.resolve w)) :
    σ.Blurs (p.resolve w) (p'.resolve w) ∧ (p'.resolve w).diagnostics.Perm (σ.faults p.mentions) := by
  have hr := p.hoisted w
  have hx := (extends_items w hr.sound hr.stands p.items).grows
  rw [← p.resolve_eq] at hx
  have hstores := p.resolve_hoists hids w
  have hnames : ∀ i ∈ p.items, ∀ e, hoisted? i = some e → e.2.name ≠ σ.name := by
    intro i hi e he
    obtain ⟨entry, -, -, z, hz, -, hname, -⟩ := hstores.stored i hi e.1 e.2 he
    exact hname ▸ hq.unknown z (SymbolTable.mem_of_symbol? hz)
  obtain ⟨hb, hsame⟩ := (blurs_fileOpened hq hstores.sound.provided p').hoists w p.hoisted_start p.items
    (fun _ hi => hi) hnames (silent_of_grows hq hx)
  have htracks := items_tracks w hb hr.sound hr.stands hq p.items (fun _ hm => hm)
    (by rw [← p.resolve_eq]; exact .refl _)
  rw [← p.resolve_eq, ← hitems, ← p'.resolve_eq] at htracks
  refine ⟨htracks.blurs, htracks.diagnostics.trans (.of_eq ?_)⟩
  rw [hitems, hsame]
  rfl

end Misspelling

end Craftlang
