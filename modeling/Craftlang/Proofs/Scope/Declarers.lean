import Craftlang.Proofs.Scope.Lexical
import Mathlib.Data.List.Nodup
import Mathlib.Data.List.Pairwise

/-!
# What declares a symbol

Whatever is wrong with the names of a program, its symbols are told apart by what declares them. A type
that does not come with the language is the symbol of one alias, with the name and the place of that
alias; declarations by `var`, by assigning and by parameters are no types.
-/

namespace Craftlang

open NameWalk

/-- A declaration in a body, if it is one: that of a variable or a parameter. -/
def NameEvent.IsLocal : NameEvent → Prop
  | declares d _ => (d.kind = .var ∨ d.kind = .param) ∧ ∀ node, d.declarer ≠ .item node
  | _ => True

namespace NameWalk

/-- What a walk tells is local. -/
def IsLocal (walk : NameWalk) : Prop := ∀ env, ∀ e ∈ (walk env).2, e.IsLocal

variable {first second : NameWalk}

theorem isLocal_skip : skip.IsLocal := fun _ e he => by cases he

theorem IsLocal.andThen (h : first.IsLocal) (h' : second.IsLocal) : (first.andThen second).IsLocal :=
  fun env e he => (List.mem_append.mp he).elim (h env e) (h' _ e)

theorem IsLocal.within (h : first.IsLocal) : first.within.IsLocal := fun env => h env.enter

theorem isLocal_each {α : Type} {walk : α → NameWalk} (h : ∀ a, (walk a).IsLocal) (as : List α) :
    (each walk as).IsLocal := by
  induction as with
  | nil => exact isLocal_skip
  | cons a as ih => exact (h a).andThen ih

theorem isLocal_optional {α : Type} {walk : α → NameWalk} (h : ∀ a, (walk a).IsLocal) (a : Option α) :
    (optional walk a).IsLocal := by
  cases a with
  | none => exact isLocal_skip
  | some a => exact h a

theorem isLocal_declare {d : Declaration} (hk : d.kind = .var ∨ d.kind = .param)
    (hd : ∀ node, d.declarer ≠ .item node) : (declare d).IsLocal := by
  intro env e he
  rw [List.mem_singleton.mp he]
  exact ⟨hk, hd⟩

theorem isLocal_ident (i : Ident) : (ident i).IsLocal := by
  intro env e he
  rw [ident] at he
  split at he
  all_goals
    rw [List.mem_singleton.mp he]
    trivial

theorem isLocal_target (op : AssignOp) (i : Ident) : (target op i).IsLocal := by
  intro env e he
  rw [target] at he
  split at he
  · rw [List.mem_singleton.mp he]
    trivial
  · split at he
    · rcases List.mem_cons.mp he with rfl | he
      · exact ⟨.inl rfl, fun node h => by cases h⟩
      · rw [List.mem_singleton.mp he]
        trivial
    · rw [List.mem_singleton.mp he]
      trivial

theorem isLocal_type (name : Name) : (type name).IsLocal := by
  intro env e he
  rw [type] at he
  split at he
  · cases he
  · rw [List.mem_singleton.mp he]
    trivial

end NameWalk

mutual

theorem Expr.names_isLocal : (e : Expr) → e.names.IsLocal
  | .error _ | .constant .. => isLocal_skip
  | .ident i => isLocal_ident i
  | .binary _ _ _ left right => left.names_isLocal.andThen right.names_isLocal
  | .unary _ _ operand => operand.names_isLocal
  | .group _ inner => inner.names_isLocal
  | .call _ callee args => callee.names_isLocal.andThen (Expr.namesOf_isLocal args)
  | .assign _ op _ i value => value.names_isLocal.andThen (isLocal_target op i)

theorem Expr.namesOf_isLocal : (es : List Expr) → (Expr.namesOf es).IsLocal
  | [] => isLocal_skip
  | e :: es => e.names_isLocal.andThen (Expr.namesOf_isLocal es)

end

mutual

theorem Stmt.names_isLocal : (s : Stmt) → s.names.IsLocal
  | .error _ | .leave _ | .again _ | .command .. => isLocal_skip
  | .var _ _ type value => (isLocal_optional isLocal_type type).andThen
      ((isLocal_optional Expr.names_isLocal value).andThen
        (isLocal_declare (.inl rfl) fun _ h => by cases h))
  | .expr _ e => e.names_isLocal
  | .branch _ cond body otherwise =>
    cond.names_isLocal.andThen (body.names_isLocal.andThen otherwise.names_isLocal)
  | .loop _ .before cond body => cond.names_isLocal.andThen body.names_isLocal
  | .loop _ .after cond body => body.names_isLocal.andThen cond.names_isLocal
  | .give _ value => isLocal_optional Expr.names_isLocal value

theorem Block.names_isLocal : (b : Block) → b.names.IsLocal
  | .mk _ body => (Stmt.namesOf_isLocal body).within

theorem Stmt.namesOf_isLocal : (ss : List Stmt) → (Stmt.namesOf ss).IsLocal
  | [] => isLocal_skip
  | s :: rest => s.names_isLocal.andThen (Stmt.namesOf_isLocal rest)

theorem Otherwise.names_isLocal : (o : Otherwise) → o.names.IsLocal
  | .none => isLocal_skip
  | .block body => body.names_isLocal
  | .chain s => s.names_isLocal

end

theorem Item.names_isLocal (i : Item) : i.names.IsLocal := by
  cases i with
  | error n => exact isLocal_skip
  | typeAlias a => exact isLocal_type a.target
  | stmt n s => exact s.names_isLocal
  | function f =>
    have hparams := isLocal_each
      (fun x : Param => isLocal_declare (d := x.declaration) (.inr rfl) fun _ h => by cases h) f.params
    exact (isLocal_each (fun x : Param => isLocal_type x.type) f.params).andThen
      ((isLocal_optional isLocal_type f.result).andThen
        (hparams.andThen (Stmt.namesOf_isLocal f.body.stmts)).within)

/-- How an item is declared for the whole program. -/
def Item.declaration? : Item → Option Declaration
  | .function f => some ⟨f.name.text, .function, f.name.span, .item f.node.id⟩
  | .typeAlias a => some ⟨a.name.text, .type, a.name.span, .item a.node.id⟩
  | .error _ | .stmt .. => none

theorem Item.mem_hoisted {i : Item} {env : NameEnvironment} {e : NameEvent} :
    e ∈ (i.hoisted env).2 ↔ ∃ d, i.declaration? = some d ∧ e = .declares d (env.count + 1) := by
  cases i <;> simp [Item.hoisted, Item.declaration?, NameWalk.declare, NameWalk.skip]

theorem Item.mem_eachHoisted {is : List Item} {env : NameEnvironment} {d : Declaration} {number : Nat}
    (h : .declares d number ∈ (each Item.hoisted is env).2) : ∃ i ∈ is, i.declaration? = some d := by
  induction is generalizing env with
  | nil => cases h
  | cons i is ih =>
    rcases List.mem_append.mp h with h | h
    · obtain ⟨d', hd, he⟩ := Item.mem_hoisted.mp h
      cases he
      exact ⟨i, List.mem_cons_self, hd⟩
    · obtain ⟨j, hj, hd⟩ := ih h
      exact ⟨j, List.mem_cons_of_mem _ hj, hd⟩

/-- What is declared is declared by an item for the whole program, or it is local. -/
theorem Program.declares_cases {p : Program} {d : Declaration} {number : Nat}
    (h : .declares d number ∈ p.nameEvents) : (∃ i ∈ p.items, i.declaration? = some d) ∨
      (d.kind = .var ∨ d.kind = .param) ∧ ∀ node, d.declarer ≠ .item node := by
  rcases List.mem_append.mp h with h | h
  · exact .inl (Item.mem_eachHoisted h)
  · exact .inr (isLocal_each Item.names_isLocal p.items _ _ h)

namespace SymbolTable

variable {t : SymbolTable} {y : Nat} {name : Bytes} {kind : SymbolKind} {span : Span}

/-- The entries of a table are its symbols. -/
theorem mem_entries : (y, name, kind, span) ∈ t.entries ↔
    ∃ z, t.symbol? y = some z ∧ z.name = name ∧ z.kind = kind ∧ z.span = span := by
  rw [entries, List.mem_map]
  constructor
  · rintro ⟨⟨z, number⟩, hz, he⟩
    cases he
    obtain ⟨hpos, hget⟩ := List.mk_mem_zipIdx_iff_le_and_getElem?_sub.mp hz
    exact ⟨z, by rw [symbol?, if_neg (by omega)]; exact hget, rfl, rfl, rfl⟩
  · rintro ⟨z, hz, rfl, rfl, rfl⟩
    have hpos := hz
    rw [symbol?] at hz
    split at hz
    · cases hz
    · exact ⟨(z, y), List.mk_mem_zipIdx_iff_le_and_getElem?_sub.mpr ⟨by omega, hz⟩, rfl⟩

end SymbolTable

namespace Resolution

/-! Statements declare no items. -/

section Items

variable (w : Bool)

theorem items_declare (r : Resolution) (path : List Nat) (symbol : Symbol) :
    (r.declare w path symbol).1.items = r.items := by
  obtain ⟨ds, hds⟩ := checkDeclaration_eq w path r symbol
  rw [declare, hds]
  dsimp only
  split <;> rfl

theorem items_ident (path : List Nat) (r : Resolution) (i : Ident) :
    (ident path r i).items = r.items := by
  rw [ident]
  split <;> rfl

theorem items_target (path : List Nat) (r : Resolution) (op : AssignOp) (i : Ident) :
    (target w path r op i).items = r.items := by
  rw [target]
  split
  · rfl
  · split
    · exact items_declare w r path _
    · rfl

theorem items_typeRef (path : List Nat) (r : Resolution) (type : Name) :
    (typeRef path r type).items = r.items := by
  rw [typeRef]
  split
  · rfl
  · dsimp only
    split <;> rfl

theorem items_typeRef? (path : List Nat) (r : Resolution) (type : Option Name) :
    (typeRef? path r type).items = r.items := by
  cases type with
  | none => rfl
  | some type => exact items_typeRef path r type

mutual

theorem items_expr (path : List Nat) (r : Resolution) : (e : Expr) →
    (expr w path r e).items = r.items
  | .error _ | .constant .. => by rw [expr]
  | .ident i => by rw [expr, items_ident]
  | .binary _ _ _ left right => by rw [expr, items_expr path _ right, items_expr path r left]
  | .unary _ _ operand => by rw [expr, items_expr path r operand]
  | .group _ inner => by rw [expr, items_expr path r inner]
  | .call _ callee args => by rw [expr, items_exprs path _ args, items_expr path r callee]
  | .assign _ op _ i value => by rw [expr, items_target, items_expr path r value]

theorem items_exprs (path : List Nat) (r : Resolution) : (es : List Expr) →
    (exprs w path r es).items = r.items
  | [] => by rw [exprs]
  | e :: es => by rw [exprs, items_exprs path _ es, items_expr path r e]

end

theorem items_expr? (path : List Nat) (r : Resolution) (e : Option Expr) :
    (expr? w path r e).items = r.items := by
  cases e with
  | none => rfl
  | some e => exact items_expr w path r e

mutual

theorem items_stmt (path : List Nat) (r : Resolution) : (s : Stmt) →
    (stmt w path r s).items = r.items
  | .error _ | .leave _ | .again _ | .command .. => by rw [stmt]
  | .var n name type value => by
    rw [stmt]
    exact (items_declare w _ path _).trans
      ((items_expr? w path _ value).trans (items_typeRef? path r type))
  | .expr _ e => by rw [stmt, items_expr]
  | .branch _ cond body otherwise => by
    rw [stmt, items_alternative path _ otherwise, items_block path _ body, items_expr]
  | .loop _ .before cond body => by rw [stmt, items_block path _ body, items_expr]
  | .loop _ .after cond body => by rw [stmt, items_expr, items_block path r body]
  | .give _ value => by rw [stmt, items_expr?]

theorem items_block (path : List Nat) (r : Resolution) : (b : Block) →
    (block w path r b).items = r.items
  | .mk n body => by
    rw [block]
    exact items_stmts _ _ body

theorem items_stmts (path : List Nat) (r : Resolution) : (ss : List Stmt) →
    (stmts w path r ss).items = r.items
  | [] => by rw [stmts]
  | s :: rest => by rw [stmts, items_stmts path _ rest, items_stmt path r s]

theorem items_alternative (path : List Nat) (r : Resolution) : (o : Otherwise) →
    (alternative w path r o).items = r.items
  | .none => by rw [alternative]
  | .block body => by rw [alternative, items_block path r body]
  | .chain s => by rw [alternative, items_stmt path r s]

end

theorem items_typeRefs (path : List Nat) (r : Resolution) (ps : List Param) :
    (ps.foldl (fun r x => typeRef path r x.type) r).items = r.items := by
  induction ps generalizing r with
  | nil => rfl
  | cons x rest ih => exact (ih _).trans (items_typeRef path r x.type)

theorem items_params (path : List Nat) (r : Resolution) (ps : List Param) :
    (params w path r ps).1.items = r.items := by
  induction ps generalizing r with
  | nil => rfl
  | cons x rest ih =>
    rw [params_cons]
    exact (ih _).trans (items_declare w r path _)

end Items

/-- What is noted as a parameter is one. -/
def NotesParams (r : Resolution) : Prop := ∀ e ∈ r.items, ∀ y ∈ e.params, r.HasKind y .param

section Params

variable {p : Program} {r r' : Resolution} {path : List Nat} (w : Bool)

theorem HasKind.mono {y : Nat} {kind : SymbolKind} (h : r.HasKind y kind)
    (hg : r.table.Grows r'.table) : r'.HasKind y kind := by
  obtain ⟨z, hz, hk⟩ := h
  exact ⟨z, hg.symbol? hz, hk⟩

theorem NotesParams.mono (h : r.NotesParams) (hg : r.table.Grows r'.table)
    (hi : r'.items = r.items) : r'.NotesParams := by
  intro e he y hy
  rw [hi] at he
  exact (h e he y hy).mono hg

theorem NotesParams.hoists (h : r.NotesParams) (hr : r.Sound p) (hp : r.Stands path) (is : List Item)
    (hi : ∀ i ∈ is, i ∈ p.items) : (is.foldl (hoist w path) r).NotesParams := by
  induction is generalizing r with
  | nil => exact h
  | cons i is ih =>
    rw [List.forall_mem_cons] at hi
    cases hh : hoisted? i with
    | none =>
      rw [List.foldl_cons, hoist_of_none w hh]
      exact ih h hr hp hi.2
    | some declared =>
      obtain ⟨id, symbol⟩ := declared
      have hsound := sound_hoist w hr hp hi.1 hh
      obtain ⟨ds, table, resources, heq, hd⟩ := hoist_eq w hp hh
      have hgrows : r.table.Grows table := .declare hd
      rw [List.foldl_cons]
      rw [heq] at hsound ⊢
      refine ih (fun e he y hy => ?_) hsound (hgrows.scope _ hp) hi.2
      rcases List.mem_append.mp he with he | he
      · exact (h e he y hy).mono hgrows
      · rw [List.mem_singleton.mp he] at hy
        cases hy

theorem NotesParams.openFunction (h : r.NotesParams) (hr : r.Sound p) (hp : r.Stands path)
    (f : Function) : (openFunction w path r f).1.NotesParams := by
  obtain ⟨h₁, h₂, h₃, hp₃⟩ := extends_signature hr hp f
  obtain ⟨h₄, -⟩ := params_spec w h₃.sound hp₃ f.params
  have hgrows := h₁.grows.table.trans (h₂.grows.table.trans (h₃.grows.table.trans h₄.grows.table))
  have hparams := params_bound w h₃.sound hp₃ f.params (.refl _)
  intro e he y hy
  obtain ⟨i, hi, rfl⟩ := List.mem_map.mp he
  split at hy
  · exact hparams y hy
  · refine HasKind.mono (h i ?_ y hy) hgrows
    have hbefore := (items_typeRef? path _ f.result).trans (items_typeRefs path r f.params)
    rw [items_params] at hi
    exact hbefore ▸ hi

theorem NotesParams.item (h : r.NotesParams) (hr : r.Sound p) (hp : r.Stands path) (i : Item) :
    (item w path r i).NotesParams := by
  have hgrows := (extends_item w hr hp i).grows.table
  cases i with
  | error n => exact h
  | typeAlias a => exact h.mono hgrows (items_typeRef path r a.target)
  | stmt n s => exact h.mono hgrows (items_stmt w path r s)
  | function f =>
    obtain ⟨ho, hpo, -⟩ := openFunction_spec w hr hp f
    exact (h.openFunction w hr hp f).mono (extends_stmts w ho.sound hpo f.body.stmts).grows.table
      (items_stmts w _ _ f.body.stmts)

theorem NotesParams.items (h : r.NotesParams) (hr : r.Sound p) (hp : r.Stands path) (is : List Item) :
    (is.foldl (Resolution.item w path) r).NotesParams := by
  induction is generalizing r with
  | nil => exact h
  | cons i is ih =>
    have hi := extends_item w hr hp i
    exact ih (h.item w hr hp i) hi.sound (hi.grows.stands hp)

end Params

/-- Symbols are told apart by what declares them: types that do not come with the language are the symbols
of aliases, and neither variables nor parameters are types. -/
structure TellsApart (q : Resolution) (p : Program) : Prop extends q.Hoists p where
  spans : ∀ a i, .typeAlias a ∈ p.items → q.itemOf? a.node.id = some i → q.spanOf i.symbol = a.name.span
  aliased : ∀ y z, q.table.symbol? y = some z → z.kind = .type → z.flags.builtin = false →
    ∃ a i, .typeAlias a ∈ p.items ∧ q.itemOf? a.node.id = some i ∧ i.symbol = y
  decls : ∀ e ∈ q.decls, ¬ q.HasKind e.2 .type
  implicit : ∀ e ∈ q.implicit, ¬ q.HasKind e.2 .type
  params : q.NotesParams

theorem Records.symbol? {es : List NameEvent} {r : Resolution} (h : Records es r) {d : Declaration}
    {y : Nat} (hd : .declares d y ∈ es) :
    ∃ z, r.table.symbol? y = some z ∧ z.name = d.name ∧ z.kind = d.kind ∧ z.span = d.span := by
  refine SymbolTable.mem_entries.mp ?_
  rw [h.entries]
  exact List.mem_append_right _ (List.mem_filterMap.mpr ⟨_, hd, rfl⟩)

/-- A symbol that does not come with the language was declared. -/
theorem Records.exists_declares {es : List NameEvent} {r : Resolution} {p : Program} (h : Records es r)
    (hr : r.Sound p) {y : Nat} {z : Symbol} (hz : r.table.symbol? y = some z) (hk : z.kind ≠ .error)
    (hb : z.flags.builtin = false) : ∃ d, .declares d y ∈ es ∧ d.kind = z.kind := by
  have hmem := SymbolTable.mem_entries.mpr ⟨z, hz, rfl, rfl, rfl⟩
  rw [h.entries] at hmem
  rcases List.mem_append.mp hmem with hmem | hmem
  · obtain ⟨z', hz', -, hk', -⟩ := SymbolTable.mem_entries.mp hmem
    have hsame := hr.provided.symbol? hz'
    rw [hz] at hsame
    cases hsame
    have hs := SymbolTable.symbol?_start hz'
    simp [hk, hb] at hs
  · obtain ⟨e, he, hs⟩ := List.mem_filterMap.mp hmem
    cases e with
    | declares d number =>
      simp only [NameEvent.symbol?, Option.some.injEq, Prod.mk.injEq] at hs
      obtain ⟨rfl, -, hkind, -⟩ := hs
      exact ⟨d, he, hkind⟩
    | means i number => cases hs
    | lacks i code => cases hs
    | lacksType type => cases hs

/-- What is no declaration for the whole program declares no type. -/
theorem Records.not_type {p : Program} {r : Resolution} (h : Records p.nameEvents r) {d : Declaration}
    {y : Nat} (hd : .declares d y ∈ p.nameEvents) (hn : ∀ node, d.declarer ≠ .item node) :
    ¬ r.HasKind y .type := by
  obtain ⟨z, hz, -, hk, -⟩ := h.symbol? hd
  have hlocal : d.kind = .var ∨ d.kind = .param := by
    rcases Program.declares_cases hd with ⟨i, hi, hdecl⟩ | hlocal
    · cases i with
      | error n => cases hdecl
      | stmt n s => cases hdecl
      | function f =>
        cases hdecl
        exact absurd rfl (hn _)
      | typeAlias a =>
        cases hdecl
        exact absurd rfl (hn _)
    · exact hlocal.1
  rintro ⟨z', hz', hk'⟩
  rw [hz] at hz'
  cases hz'
  rw [hk] at hk'
  rcases hlocal with hl | hl <;> simp [hl] at hk'

end Resolution

open Resolution

theorem Resolution.Hoists.itemOf? {p : Program} {q : Resolution} (hq : q.Hoists p) {i : Item} {id : Nat}
    {symbol : Symbol} (hi : i ∈ p.items) (hh : hoisted? i = some (id, symbol)) :
    ∃ e, q.itemOf? id = some e ∧ q.Stores e.symbol symbol := by
  obtain ⟨e, he, rfl, hs⟩ := hq.stored i hi id symbol hh
  exact ⟨e, itemOf?_eq_some hq.items he, hs⟩

theorem Item.eq_of_mem {is : List Item} (hids : (is.flatMap Item.ids).Nodup) {i j : Item} {x : Nat}
    (hi : i ∈ is) (hj : j ∈ is) (hx : x ∈ i.ids) (hx' : x ∈ j.ids) : i = j := by
  by_contra hne
  rw [List.nodup_flatMap] at hids
  have hsymm : Std.Symm (Function.onFun List.Disjoint Item.ids) := ⟨fun _ _ h _ hx hx' => h hx' hx⟩
  exact hids.2.forall hi hj hne hx hx'

theorem Item.declaration?_eq {i : Item} {d : Declaration} (h : i.declaration? = some d) :
    ∃ node, d.declarer = .item node ∧ node ∈ i.ids ∧ (d.kind = .type → ∃ a, i = .typeAlias a ∧
      d = ⟨a.name.text, .type, a.name.span, .item a.node.id⟩) := by
  cases i with
  | error n => cases h
  | stmt n s => cases h
  | function f =>
    cases h
    exact ⟨_, rfl, List.mem_append_right _ (List.mem_singleton.mpr rfl), fun h => by cases h⟩
  | typeAlias a =>
    cases h
    exact ⟨_, rfl, List.mem_singleton.mpr rfl, fun _ => ⟨a, rfl, rfl⟩⟩

/-- The items that were noted are those that were declared. -/
theorem Resolution.Records.mem_items {es : List NameEvent} {r : Resolution} (h : Records es r)
    {node y : Nat} : (∃ e ∈ r.items, e.item = node ∧ e.symbol = y) ↔
      ∃ d, .declares d y ∈ es ∧ d.declarer = .item node := by
  have hmem : (∃ e ∈ r.items, e.item = node ∧ e.symbol = y) ↔ (node, y) ∈ r.items.map itemKey := by
    simp [itemKey]
  rw [hmem, h.items, List.mem_filterMap]
  constructor
  · rintro ⟨e, he, hs⟩
    cases e with
    | declares d number =>
      obtain ⟨name, kind, span, declarer⟩ := d
      cases declarer with
      | item n =>
        cases hs
        exact ⟨_, he, rfl⟩
      | _ => cases hs
    | _ => cases hs
  · rintro ⟨⟨name, kind, span, declarer⟩, hd, rfl⟩
    exact ⟨_, hd, rfl⟩

theorem Program.fileOpened_notesParams (p : Program) : p.fileOpened.NotesParams := by
  intro e he
  cases he

/-- Resolving a program tells its symbols apart. -/
theorem Program.resolve_tellsApart {p : Program} (hids : p.ids.Nodup) (w : Bool) :
    (p.resolve w).TellsApart p := by
  have hrecords := records_resolve p w
  have hhoists := p.resolve_hoists hids w
  have hparams : (p.resolve w).NotesParams := by
    have hr := p.hoisted w
    have hstart := p.hoisted_start
    exact (p.fileOpened_notesParams.hoists w hstart.sound hstart.stands p.items fun _ h => h).items w
      hr.sound hr.stands p.items
  refine ⟨hhoists, fun a i ha hi => ?_, fun y z hz hk hb => ?_, fun e he => ?_, fun e he => ?_, hparams⟩
  · have hitem : i.item = a.node.id := by simpa using List.find?_some hi
    obtain ⟨d, hd, hnode⟩ := hrecords.mem_items.mp ⟨i, List.mem_of_find?_eq_some hi, hitem, rfl⟩
    rcases p.declares_cases hd with ⟨j, hj, hdecl⟩ | ⟨-, hlocal⟩
    · obtain ⟨node, hnode', hmem, -⟩ := Item.declaration?_eq hdecl
      rw [hnode] at hnode'
      cases hnode'
      have heq := Item.eq_of_mem hids hj ha hmem (List.mem_singleton.mpr rfl)
      subst heq
      cases hdecl
      obtain ⟨z, hz, -, -, hspan⟩ := hrecords.symbol? hd
      rw [spanOf, hz]
      exact hspan
    · exact absurd hnode (hlocal _)
  · obtain ⟨d, hd, hkind⟩ := hrecords.exists_declares hhoists.sound hz (by simp [hk]) hb
    rw [hk] at hkind
    rcases p.declares_cases hd with ⟨j, hj, hdecl⟩ | ⟨hlocal, -⟩
    · obtain ⟨node, hnode, -, hof⟩ := Item.declaration?_eq hdecl
      obtain ⟨a, rfl, rfl⟩ := hof hkind
      cases hnode
      obtain ⟨e, he, hid, rfl⟩ := hrecords.mem_items.mpr ⟨_, hd, rfl⟩
      exact ⟨a, e, hj, hid ▸ itemOf?_eq_some hhoists.items he, rfl⟩
    · rw [hkind] at hlocal
      rcases hlocal with hl | hl <;> cases hl
  · rw [hrecords.decls] at he
    obtain ⟨e', he', hs⟩ := List.mem_filterMap.mp he
    cases e' with
    | declares d number =>
      obtain ⟨name, kind, span, declarer⟩ := d
      cases declarer with
      | var n =>
        cases hs
        exact hrecords.not_type he' fun _ h => by cases h
      | _ => cases hs
    | _ => cases hs
  · rw [hrecords.implicit] at he
    obtain ⟨e', he', hs⟩ := List.mem_filterMap.mp he
    cases e' with
    | declares d number =>
      obtain ⟨name, kind, span, declarer⟩ := d
      cases declarer with
      | target n =>
        cases hs
        exact hrecords.not_type he' fun _ h => by cases h
      | _ => cases hs
    | _ => cases hs

end Craftlang
