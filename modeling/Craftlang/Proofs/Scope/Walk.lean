import Craftlang.Proofs.Scope.Growth

/-!
# Resolving a piece of a program

Resolving a piece of a program adds symbols, scopes, bindings and diagnostics to what is there, and
binds no node twice. `Extends` says what all pieces have in common, whatever they are.
-/

namespace Craftlang.Resolution

/-- Nothing but warnings was reported. -/
def IsClean (r : Resolution) : Prop := ∀ d ∈ r.diagnostics, d.isError = false

/-- Bindings and diagnostics are added. What is declared by assigning to it is a new symbol. -/
structure Grows (r r' : Resolution) : Prop where
  table : r.table.Grows r'.table
  refs : r.refs <+: r'.refs
  decls : r.decls <+: r'.decls
  types : r.types <+: r'.types
  implicit : r.implicit <+: r'.implicit
  declared : ∀ e ∈ r'.implicit, e ∈ r.implicit ∨ r.table.symbols.length < e.2
  diagnostics : r.diagnostics <+: r'.diagnostics

namespace Grows

variable {r r' r'' : Resolution}

theorem refl (r : Resolution) : r.Grows r :=
  ⟨.refl _, List.prefix_rfl, List.prefix_rfl, List.prefix_rfl, List.prefix_rfl, fun _ h => .inl h,
    List.prefix_rfl⟩

theorem trans (h : r.Grows r') (h' : r'.Grows r'') : r.Grows r'' := by
  refine ⟨h.table.trans h'.table, h.refs.trans h'.refs, h.decls.trans h'.decls,
    h.types.trans h'.types, h.implicit.trans h'.implicit, fun e he => ?_,
    h.diagnostics.trans h'.diagnostics⟩
  have hlen := h.table.length_le
  rcases h'.declared e he with he' | he'
  · exact h.declared e he'
  · exact .inr (by omega)

theorem isClean (h : r.Grows r') (hc : r'.IsClean) : r.IsClean :=
  fun d hd => hc d (h.diagnostics.subset hd)

end Grows

/-- Where a symbol comes from: from the language, or from a declaration in the program. -/
def Origin (p : Program) (r : Resolution) (y : Nat) (z : Symbol) : Prop :=
  SymbolTable.start.symbol? y = some z ∨ z.flags.builtin = false ∧
    (z.kind = .var ∨ z.kind = .param ∧ z.flags.isGlobal = false ∨ z.kind = .type ∨
      z.kind = .function ∧ ∃ f ∈ p.functions, ∃ e ∈ r.items, e.item = f.node.id ∧ e.symbol = y)

/-- The table is in order, every symbol comes from somewhere, and without errors the names of types
stand for types. -/
structure Sound (p : Program) (r : Resolution) : Prop where
  valid : r.table.IsValid
  provided : SymbolTable.start.Grows r.table
  implicit : r.implicit.Sublist r.refs
  origin : ∀ y z, r.table.symbol? y = some z → Origin p r y z
  types : r.IsClean → ∀ e ∈ r.types, ∃ z, r.table.symbol? e.2 = some z ∧ z.kind = .type

/-- The innermost scope of a path is there. -/
def Stands (r : Resolution) (path : List Nat) : Prop := (r.table.scope? (path.headD 0)).isSome

theorem Grows.stands {r r' : Resolution} (h : r.Grows r') {path : List Nat} (hp : r.Stands path) :
    r'.Stands path := h.table.scope _ hp

/-- The item of a symbol, and the symbol. -/
def itemKey (i : ItemSymbols) : Nat × Nat := (i.item, i.symbol)

/-- The items declare the same symbols, and those without a node in `ids` are as they were. -/
def ItemsKept (ids : List Nat) (before after : List ItemSymbols) : Prop :=
  after.map itemKey = before.map itemKey ∧ ∀ i ∈ before, i.item ∉ ids → i ∈ after

namespace ItemsKept

variable {is js ks : List Nat} {a b c : List ItemSymbols}

theorem refl (is : List Nat) (a : List ItemSymbols) : ItemsKept is a a := ⟨rfl, fun _ h _ => h⟩

theorem mono (h : ItemsKept is a b) (hk : ∀ x, is.count x ≤ js.count x) : ItemsKept js a b := by
  refine ⟨h.1, fun i hi hn => h.2 i hi fun hm => hn ?_⟩
  have := List.count_pos_iff.mpr hm
  have := hk i.item
  exact List.count_pos_iff.mp (by omega)

theorem trans (hab : ItemsKept is a b) (hbc : ItemsKept js b c)
    (hk : ∀ x, is.count x + js.count x ≤ ks.count x) : ItemsKept ks a c := by
  have hab' : ItemsKept ks a b := hab.mono fun x => by have := hk x; omega
  have hbc' : ItemsKept ks b c := hbc.mono fun x => by have := hk x; omega
  exact ⟨hbc.1.trans hab.1, fun i hi hn => hbc'.2 i (hab'.2 i hi hn) hn⟩

/-- The same symbol is declared by the same item still. -/
theorem exists_mem (h : ItemsKept is a b) {i : ItemSymbols} (hi : i ∈ a) :
    ∃ j ∈ b, j.item = i.item ∧ j.symbol = i.symbol := by
  have hmem : itemKey i ∈ b.map itemKey := h.1 ▸ List.mem_map_of_mem hi
  obtain ⟨j, hj, hkey⟩ := List.mem_map.mp hmem
  exact ⟨j, hj, congrArg Prod.fst hkey, congrArg Prod.snd hkey⟩

theorem items (h : ItemsKept is a b) : b.map (·.item) = a.map (·.item) := by
  have hmap := congrArg (List.map Prod.fst) h.1
  rw [List.map_map, List.map_map] at hmap
  exact hmap

theorem symbols (h : ItemsKept is a b) : b.map (·.symbol) = a.map (·.symbol) := by
  have hmap := congrArg (List.map Prod.snd) h.1
  rw [List.map_map, List.map_map] at hmap
  exact hmap

end ItemsKept

/-- What resolving a piece with nodes `ids` does. -/
structure Extends (p : Program) (ids : List Nat) (r r' : Resolution) : Prop where
  grows : r.Grows r'
  sound : r'.Sound p
  refs : NewKeys r.refs r'.refs ids
  decls : NewKeys r.decls r'.decls ids
  items : ItemsKept ids r.items r'.items

namespace Extends

variable {p : Program} {r r' r'' : Resolution} {is js ks : List Nat}

theorem refl (hr : r.Sound p) (is : List Nat) : r.Extends p is r :=
  ⟨.refl r, hr, .refl _ _, .refl _ _, .refl _ _⟩

theorem trans (h : r.Extends p is r') (h' : r'.Extends p js r'')
    (hk : ∀ x, is.count x + js.count x ≤ ks.count x) : r.Extends p ks r'' :=
  ⟨h.grows.trans h'.grows, h'.sound, h.refs.trans h'.refs hk, h.decls.trans h'.decls hk,
    h.items.trans h'.items hk⟩

theorem mono (h : r.Extends p is r') (hk : ∀ x, is.count x ≤ js.count x) : r.Extends p js r' :=
  ⟨h.grows, h.sound, h.refs.mono hk, h.decls.mono hk, h.items.mono hk⟩

end Extends

section Primitives

variable {p : Program} {r : Resolution} (w : Bool) (path : List Nat)

/-- More was reported. -/
theorem extends_noted (hr : r.Sound p) (ds : List Diagnostic) :
    r.Extends p [] { r with diagnostics := r.diagnostics ++ ds } := by
  have hg : r.Grows { r with diagnostics := r.diagnostics ++ ds } :=
    ⟨.refl _, List.prefix_rfl, List.prefix_rfl, List.prefix_rfl, List.prefix_rfl,
      fun _ h => .inl h, List.prefix_append _ _⟩
  exact ⟨hg, ⟨hr.valid, hr.provided, hr.implicit, hr.origin, fun hc => hr.types (hg.isClean hc)⟩,
    .refl _ _, .refl _ _, .refl _ _⟩

theorem checkDeclaration_eq (r : Resolution) (symbol : Symbol) : ∃ ds,
    r.checkDeclaration w path symbol = { r with diagnostics := r.diagnostics ++ ds } := by
  have hsame : ∃ ds, r = { r with diagnostics := r.diagnostics ++ ds } := ⟨[], by simp⟩
  unfold checkDeclaration
  split
  · exact hsame
  · split
    · exact ⟨_, rfl⟩
    · split
      · exact hsame
      · split
        · exact ⟨_, rfl⟩
        · exact hsame

/-- A symbol as it is declared in the innermost scope of a path. -/
def localized (r : Resolution) (path : List Nat) (symbol : Symbol) : Symbol :=
  { symbol with
    scope := path.headD 0
    flags := { symbol.flags with
      isGlobal := symbol.flags.isGlobal || (r.isFileScope (path.headD 0) && symbol.kind == .var) } }

/-- Declaring a symbol where there is a scope gives it the next number. -/
theorem declare_eq {path : List Nat} (hp : r.Stands path) (symbol : Symbol) : ∃ ds table,
    r.declare w path symbol = ({ r with table, diagnostics := r.diagnostics ++ ds },
      r.table.symbols.length + 1) ∧
    r.table.declare? (path.headD 0) (r.localized path symbol)
      = some (table, r.table.symbols.length + 1) := by
  obtain ⟨ds, hds⟩ := checkDeclaration_eq w path r symbol
  obtain ⟨s, hs⟩ := Option.isSome_iff_exists.mp hp
  have hd : ∃ table, r.table.declare? (path.headD 0) (r.localized path symbol)
      = some (table, r.table.symbols.length + 1) := by
    rw [SymbolTable.declare?, hs]
    exact ⟨_, rfl⟩
  obtain ⟨table, hd⟩ := hd
  refine ⟨ds, table, ?_, hd⟩
  rw [SymbolTable.declare?, hs] at hd
  cases hd
  rw [declare, hds]
  simp only [SymbolTable.declare?, hs]
  rfl

theorem symbols_of_declare {path : List Nat} {symbol : Symbol} {table : SymbolTable} {new : Nat}
    (h : r.table.declare? (path.headD 0) (r.localized path symbol) = some (table, new)) :
    table.symbols = r.table.symbols ++ [r.localized path symbol] := (SymbolTable.symbols_declare h).1

theorem Sound.symbols_ne_nil (hr : r.Sound p) : r.table.symbols ≠ [] := by
  intro h
  have hlen := hr.provided.length_le
  rw [h] at hlen
  exact absurd hlen (by decide)

/-- A new symbol in a table that is in order. -/
theorem sound_of_declare {path : List Nat} {symbol : Symbol} {table : SymbolTable} {new : Nat}
    (hr : r.Sound p) (h : r.table.declare? (path.headD 0) (r.localized path symbol) = some (table, new))
    (hk : symbol.kind ≠ .error) :
    table.IsValid ∧ SymbolTable.start.Grows table ∧
      ∀ y, table.symbol? y = if y = r.table.symbols.length + 1 then some (r.localized path symbol)
        else r.table.symbol? y :=
  ⟨hr.valid.declare h hk hr.symbols_ne_nil, hr.provided.trans (.declare h),
    SymbolTable.symbol?_of_append (symbols_of_declare h)⟩

/-- Declaring a variable or a parameter. -/
theorem extends_declare (hr : r.Sound p) {path : List Nat} (hp : r.Stands path) {symbol : Symbol}
    (hk : symbol.kind = .var ∨ symbol.kind = .param ∧ symbol.flags.isGlobal = false)
    (hb : symbol.flags.builtin = false) : r.Extends p [] (r.declare w path symbol).1 := by
  obtain ⟨ds, table, heq, hd⟩ := declare_eq w hp symbol
  obtain ⟨hvalid, hprovided, hsymbol⟩ := sound_of_declare hr hd (by rcases hk with h | h <;> simp [h])
  rw [heq]
  have hg : r.Grows { r with table, diagnostics := r.diagnostics ++ ds } :=
    ⟨.declare hd, List.prefix_rfl, List.prefix_rfl, List.prefix_rfl, List.prefix_rfl,
      fun _ h => .inl h, List.prefix_append _ _⟩
  refine ⟨hg, ⟨hvalid, hprovided, hr.implicit, fun y z hz => ?_, fun hc e he => ?_⟩,
    .refl _ _, .refl _ _, .refl _ _⟩
  · change table.symbol? y = some z at hz
    rw [hsymbol] at hz
    split at hz
    · cases hz
      exact .inr ⟨hb, hk.imp id fun ⟨hk, hg⟩ => .inl ⟨hk, by simp [localized, hk, hg]⟩⟩
    · exact hr.origin y z hz
  · obtain ⟨z, hz, hkind⟩ := hr.types (hg.isClean hc) e he
    exact ⟨z, hg.table.symbol? hz, hkind⟩

/-- An identifier was bound. -/
theorem extends_ref (hr : r.Sound p) (id y : Nat) :
    r.Extends p [id] { r with refs := r.refs ++ [(id, y)] } := by
  have hg : r.Grows { r with refs := r.refs ++ [(id, y)] } :=
    ⟨.refl _, List.prefix_append _ _, List.prefix_rfl, List.prefix_rfl, List.prefix_rfl,
      fun _ h => .inl h, List.prefix_rfl⟩
  exact ⟨hg, ⟨hr.valid, hr.provided, hr.implicit.trans (List.sublist_append_left _ _), hr.origin,
    hr.types⟩, .snoc _ _ _, .refl _ _, .refl _ _⟩

theorem extends_report (hr : r.Sound p) (problem : NameProblem) (span : Span) (notes : List Note) :
    r.Extends p [] (r.report problem span notes) := extends_noted hr _

theorem extends_ident (hr : r.Sound p) (i : Ident) : r.Extends p [i.node.id] (ident path r i) := by
  rw [ident]
  split
  · exact extends_ref hr _ _
  · have hn := extends_report hr (.undefined i.name) i.node.span []
    exact hn.trans (extends_ref hn.sound _ _) fun x => by simp

/-- What a plain assignment to a new name declares. -/
def implicitVar (i : Ident) : Symbol :=
  { name := i.name, kind := .var, span := i.node.span, flags := { implicit := true } }

/-- A plain assignment to a name that is not visible. -/
theorem target_of_none {path : List Nat} (hp : r.Stands path) (i : Ident)
    (hf : r.table.findAlong? path i.name = none) : ∃ ds table,
    target w path r .set i = { r with
      table
      diagnostics := r.diagnostics ++ ds
      refs := r.refs ++ [(i.node.id, r.table.symbols.length + 1)]
      implicit := r.implicit ++ [(i.node.id, r.table.symbols.length + 1)] } ∧
    r.declare w path (implicitVar i) = ({ r with table, diagnostics := r.diagnostics ++ ds },
      r.table.symbols.length + 1) ∧
    r.table.declare? (path.headD 0) (r.localized path (implicitVar i))
      = some (table, r.table.symbols.length + 1) := by
  obtain ⟨ds, table, heq, hd⟩ := declare_eq w hp (implicitVar i)
  refine ⟨ds, table, ?_, heq, hd⟩
  rw [target, hf]
  change ({ (r.declare w path (implicitVar i)).1 with
    refs := (r.declare w path (implicitVar i)).1.refs
      ++ [(i.node.id, (r.declare w path (implicitVar i)).2)]
    implicit := (r.declare w path (implicitVar i)).1.implicit
      ++ [(i.node.id, (r.declare w path (implicitVar i)).2)] } : Resolution) = _
  rw [heq]

theorem extends_target (hr : r.Sound p) {path : List Nat} (hp : r.Stands path) (op : AssignOp)
    (i : Ident) : r.Extends p [i.node.id] (target w path r op i) := by
  cases hf : r.table.findAlong? path i.name with
  | some y =>
    rw [target, hf]
    exact extends_ref hr _ _
  | none =>
    by_cases hop : op = .set
    · rw [hop]
      obtain ⟨ds, table, htarget, hdeclare, -⟩ := target_of_none w hp i hf
      have hd : r.Extends p [] (r.declare w path (implicitVar i)).1 :=
        extends_declare w hr hp (.inl rfl) rfl
      rw [hdeclare] at hd
      rw [htarget]
      refine ⟨⟨hd.grows.table, List.prefix_append _ _, List.prefix_rfl, List.prefix_rfl,
        List.prefix_append _ _, fun e he => ?_, hd.grows.diagnostics⟩,
        ⟨hd.sound.valid, hd.sound.provided, hr.implicit.append (List.Sublist.refl _),
          hd.sound.origin, hd.sound.types⟩, .snoc _ _ _, .refl _ _, .refl _ _⟩
      rcases List.mem_append.mp he with he | he
      · exact .inl he
      · rw [List.mem_singleton.mp he]
        exact .inr (Nat.lt_succ_self _)
    · have hn := extends_report hr (.undeclared op i.name) i.node.span []
      rw [target, hf]
      simp only [if_neg hop]
      exact hn.trans (extends_ref hn.sound _ _) fun x => by simp

theorem not_isClean_report {problem : NameProblem} {span : Span} {notes : List Note}
    (h : problem.severity = .error) : ¬ (r.report problem span notes).IsClean := by
  intro hc
  have hd := hc _ (List.mem_append_right _ (List.mem_singleton.mpr rfl))
  rw [Diagnostic.isError, h] at hd
  cases hd

/-- The name of a type was bound; without errors it is a type. -/
theorem extends_typeBinding (hr : r.Sound p) (span : Span) (y : Nat)
    (hy : r.IsClean → ∃ z, r.table.symbol? y = some z ∧ z.kind = .type) :
    r.Extends p [] { r with types := r.types ++ [(span, y)] } := by
  have hg : r.Grows { r with types := r.types ++ [(span, y)] } :=
    ⟨.refl _, List.prefix_rfl, List.prefix_rfl, List.prefix_append _ _, List.prefix_rfl,
      fun _ h => .inl h, List.prefix_rfl⟩
  refine ⟨hg, ⟨hr.valid, hr.provided, hr.implicit, hr.origin, fun hc e he => ?_⟩, .refl _ _, .refl _ _,
    .refl _ _⟩
  rcases List.mem_append.mp he with he | he
  · exact hr.types hc e he
  · rw [List.mem_singleton.mp he]
    exact hy hc

theorem extends_typeRef (hr : r.Sound p) (type : Name) : r.Extends p [] (typeRef path r type) := by
  rw [typeRef]
  split
  · have hn := extends_report hr (.unknownType type.text) type.span []
    exact hn.trans (extends_typeBinding hn.sound _ _ fun hc => absurd hc (not_isClean_report rfl))
      fun x => by simp
  · rename_i y hy
    dsimp only
    split
    · rename_i hk
      refine extends_typeBinding hr _ _ fun _ => ?_
      obtain ⟨-, z, hz, -⟩ := hr.valid.symbol?_of_findAlong? hy
      rw [hz] at hk
      exact ⟨z, hz, hk⟩
    · have hn := extends_report hr (.notAType type.text
        (((r.table.symbol? y).map (·.kind)).getD .invalid)) type.span (r.noteAt y "declared here")
      exact hn.trans (extends_typeBinding hn.sound _ _ fun hc => absurd hc (not_isClean_report rfl))
        fun x => by simp

theorem extends_typeRef? (hr : r.Sound p) (type : Option Name) :
    r.Extends p [] (typeRef? path r type) := by
  cases type with
  | none => exact .refl hr _
  | some type => exact extends_typeRef path hr type

theorem extends_openScope (hr : r.Sound p) {path : List Nat} (hp : r.Stands path) (kind : ScopeKind)
    (hk : kind ≠ .invalid ∧ kind ≠ .outermost) (span : Span) :
    r.Extends p [] (r.openScope kind path span).1 ∧
      (r.openScope kind path span).1.Stands ((r.openScope kind path span).2 :: path) := by
  obtain ⟨s, hs⟩ := Option.isSome_iff_exists.mp hp
  have hle := (SymbolTable.le_of_scope? hs).2
  have hgrows : r.table.Grows (r.table.openScope kind (path.headD 0) span).1 := .openScope r.table hle
  have hg : r.Grows (r.openScope kind path span).1 :=
    ⟨hgrows, List.prefix_rfl, List.prefix_rfl, List.prefix_rfl, List.prefix_rfl, fun _ h => .inl h,
      List.prefix_rfl⟩
  constructor
  · refine ⟨hg, ⟨hr.valid.openScope hs hk, hr.provided.trans hgrows, hr.implicit, fun y z hz => ?_,
      fun hc e he => ?_⟩, .refl _ _, .refl _ _, .refl _ _⟩
    · exact hr.origin y z ((SymbolTable.symbol?_openScope _ _ _ _ _).symm.trans hz)
    · obtain ⟨z, hz, hkind⟩ := hr.types (hg.isClean hc) e he
      exact ⟨z, hgrows.symbol? hz, hkind⟩
  · change ((r.table.openScope kind (path.headD 0) span).1.scope? (r.table.scopes.length + 1)).isSome
    rw [SymbolTable.scope?_openScope _ _ _ _ hle, if_pos rfl]
    rfl

/-- A declaration was noted. -/
theorem extends_decl (hr : r.Sound p) (id y : Nat) :
    r.Extends p [id] { r with decls := r.decls ++ [(id, y)] } := by
  have hg : r.Grows { r with decls := r.decls ++ [(id, y)] } :=
    ⟨.refl _, List.prefix_rfl, List.prefix_append _ _, List.prefix_rfl, List.prefix_rfl,
      fun _ h => .inl h, List.prefix_rfl⟩
  exact ⟨hg, ⟨hr.valid, hr.provided, hr.implicit, hr.origin, hr.types⟩, .refl _ _, .snoc _ _ _, .refl _ _⟩

end Primitives

section Walks

variable {p : Program} (w : Bool)

mutual

theorem extends_expr {r : Resolution} {path : List Nat} (hr : r.Sound p) (hp : r.Stands path) :
    (e : Expr) → r.Extends p e.ids (expr w path r e)
  | .error _ | .constant .. => by
    rw [expr]
    exact .refl hr _
  | .ident i => by
    rw [expr, Expr.ids]
    exact extends_ident path hr i
  | .binary _ _ _ left right => by
    have hl := extends_expr hr hp left
    have hrt := extends_expr hl.sound (hl.grows.stands hp) right
    rw [expr]
    exact hl.trans hrt fun x => by simp [Expr.ids]
  | .unary _ _ operand => by
    rw [expr]
    exact (extends_expr hr hp operand).mono fun x => by simp [Expr.ids]
  | .group _ inner => by
    rw [expr]
    exact (extends_expr hr hp inner).mono fun x => by simp [Expr.ids]
  | .call _ callee args => by
    have hc := extends_expr hr hp callee
    have ha := extends_exprs hc.sound (hc.grows.stands hp) args
    rw [expr]
    exact hc.trans ha fun x => by simp [Expr.ids]; omega
  | .assign _ op _ i value => by
    have hv := extends_expr hr hp value
    have ht := extends_target w hv.sound (hv.grows.stands hp) op i
    rw [expr]
    exact hv.trans ht fun x => by simp only [Expr.ids, List.count_append]; omega

theorem extends_exprs {r : Resolution} {path : List Nat} (hr : r.Sound p) (hp : r.Stands path) :
    (es : List Expr) → r.Extends p (Expr.idsOf es) (exprs w path r es)
  | [] => by
    rw [exprs]
    exact .refl hr _
  | e :: es => by
    have he := extends_expr hr hp e
    have hes := extends_exprs he.sound (he.grows.stands hp) es
    rw [exprs]
    exact he.trans hes fun x => by simp [Expr.idsOf]

end

theorem extends_expr? {r : Resolution} {path : List Nat} (hr : r.Sound p) (hp : r.Stands path)
    (e : Option Expr) : r.Extends p (Expr.idsOf? e) (expr? w path r e) := by
  cases e with
  | none => exact .refl hr _
  | some e => exact extends_expr w hr hp e

/-- A variable as it is declared by name. -/
def namedVar (name : Name) : Symbol := { name := name.text, kind := .var, span := name.span }

theorem extends_var {r : Resolution} {path : List Nat} (hr : r.Sound p) (hp : r.Stands path) (n : Node)
    (name : Name) (type : Option Name) (value : Option Expr) :
    r.Extends p (Stmt.var n name type value).ids (stmt w path r (.var n name type value)) := by
  have ht := extends_typeRef? path hr type
  have hv := extends_expr? w ht.sound (ht.grows.stands hp) value
  have htv : r.Extends p (Expr.idsOf? value) _ := ht.trans hv fun x => by simp
  have hd : Extends p [] _ (Resolution.declare _ w path (namedVar name)).1 :=
    extends_declare w htv.sound (htv.grows.stands hp) (.inl rfl) rfl
  have hvd : r.Extends p (Expr.idsOf? value) _ := htv.trans hd fun x => by simp
  rw [stmt]
  exact hvd.trans (extends_decl hvd.sound n.id _) fun x => by simp [Stmt.ids]

mutual

theorem extends_stmt {r : Resolution} {path : List Nat} (hr : r.Sound p) (hp : r.Stands path) :
    (s : Stmt) → r.Extends p s.ids (stmt w path r s)
  | .error _ | .leave _ | .again _ | .command .. => by
    rw [stmt]
    exact .refl hr _
  | .var n name type value => extends_var w hr hp n name type value
  | .expr _ e => by
    rw [stmt]
    exact (extends_expr w hr hp e).mono fun x => by simp [Stmt.ids]
  | .branch _ cond body otherwise => by
    have hc := extends_expr w hr hp cond
    have hb := extends_block hc.sound (hc.grows.stands hp) body
    have hcb : r.Extends p (cond.ids ++ body.ids) _ := hc.trans hb fun x => by simp
    have ho := extends_alternative hcb.sound (hcb.grows.stands hp) otherwise
    rw [stmt]
    exact hcb.trans ho fun x => by simp [Stmt.ids]; omega
  | .loop _ .before cond body => by
    have hc := extends_expr w hr hp cond
    have hb := extends_block hc.sound (hc.grows.stands hp) body
    rw [stmt]
    exact hc.trans hb fun x => by simp [Stmt.ids]
  | .loop _ .after cond body => by
    have hb := extends_block hr hp body
    have hc := extends_expr w hb.sound (hb.grows.stands hp) cond
    rw [stmt]
    exact hb.trans hc fun x => by simp [Stmt.ids]
  | .give _ value => by
    rw [stmt]
    exact (extends_expr? w hr hp value).mono fun x => by simp [Stmt.ids]

theorem extends_block {r : Resolution} {path : List Nat} (hr : r.Sound p) (hp : r.Stands path) :
    (b : Block) → r.Extends p b.ids (block w path r b)
  | .mk n body => by
    obtain ⟨ho, hs⟩ := extends_openScope hr hp .block (by decide) n.span
    have hb := extends_stmts ho.sound hs body
    rw [block]
    exact ho.trans hb fun x => by simp [Block.ids]

theorem extends_stmts {r : Resolution} {path : List Nat} (hr : r.Sound p) (hp : r.Stands path) :
    (ss : List Stmt) → r.Extends p (Stmt.idsOf ss) (stmts w path r ss)
  | [] => by
    rw [stmts]
    exact .refl hr _
  | s :: rest => by
    have hs := extends_stmt hr hp s
    have hrest := extends_stmts hs.sound (hs.grows.stands hp) rest
    rw [stmts]
    exact hs.trans hrest fun x => by simp [Stmt.idsOf]

theorem extends_alternative {r : Resolution} {path : List Nat} (hr : r.Sound p)
    (hp : r.Stands path) : (o : Otherwise) → r.Extends p o.ids (alternative w path r o)
  | .none => by
    rw [alternative]
    exact .refl hr _
  | .block body => by
    rw [alternative, Otherwise.ids]
    exact extends_block hr hp body
  | .chain s => by
    rw [alternative, Otherwise.ids]
    exact extends_stmt hr hp s

end

end Walks

end Craftlang.Resolution
