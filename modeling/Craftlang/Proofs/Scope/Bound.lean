import Craftlang.Proofs.Scope.Walk

/-!
# Names are declared before they are used

In a program whose names are resolved without errors every identifier is bound to a symbol that was
declared before it, in the order in which expressions and statements are read. Symbols are numbered as
they are declared, so `Bound r n e m` says: where `n` symbols are declared before `e`, its names are
bound, and `m` symbols are declared after it.
-/

namespace Craftlang

namespace Resolution

/-- A name is bound to one of the first `n` symbols. -/
structure Binds (r : Resolution) (n : Nat) (i : Ident) (y : Nat) (z : Symbol) : Prop where
  ref : r.refOf? i.node.id = some y
  symbol : r.table.symbol? y = some z
  le : y ≤ n
  ne : y ≠ SymbolTable.errorSymbol

/-- What is written as a type is one. -/
def NamesType (r : Resolution) (type : Name) : Prop :=
  ∃ y z, r.typeOf? type.span = some y ∧ r.table.symbol? y = some z ∧ z.kind = .type

end Resolution

/-- A symbol is of a kind. -/
def Resolution.HasKind (q : Resolution) (y : Nat) (kind : SymbolKind) : Prop :=
  ∃ z, q.table.symbol? y = some z ∧ z.kind = kind

theorem Resolution.HasKind.unique {q : Resolution} {y : Nat} {k k' : SymbolKind} (h : q.HasKind y k)
    (h' : q.HasKind y k') : k = k' := by
  obtain ⟨z, hz, rfl⟩ := h
  obtain ⟨z', hz', rfl⟩ := h'
  rw [hz] at hz'
  cases hz'
  rfl

mutual

/-- The names of an expression are bound. -/
inductive Expr.Bound (r : Resolution) : Nat → Expr → Nat → Prop
  | error {n k} : Expr.Bound r n (.error k) n
  | constant {n k v} : Expr.Bound r n (.constant k v) n
  | ident {n i y z} : r.Binds n i y z → Expr.Bound r n (.ident i) n
  | binary {n m o k op span left right} : Expr.Bound r n left m → Expr.Bound r m right o →
    Expr.Bound r n (.binary k op span left right) o
  | unary {n m k op operand} : Expr.Bound r n operand m → Expr.Bound r n (.unary k op operand) m
  | group {n m k inner} : Expr.Bound r n inner m → Expr.Bound r n (.group k inner) m
  | call {n m o k target args} : Expr.Bound r n target m → Expr.AllBound r m args o →
    Expr.Bound r n (.call k target args) o
  | assign {n m k op span i value y z} : Expr.Bound r n value m → r.Binds m i y z →
    (i.node.id, y) ∉ r.implicit → Expr.Bound r n (.assign k op span i value) m
  /-- The assignment declares its target. -/
  | declare {n m k span i value z} : Expr.Bound r n value m → r.Binds (m + 1) i (m + 1) z →
    z.kind = .var → r.implicit.lookup i.node.id = some (m + 1) →
    Expr.Bound r n (.assign k .set span i value) (m + 1)

inductive Expr.AllBound (r : Resolution) : Nat → List Expr → Nat → Prop
  | nil {n} : Expr.AllBound r n [] n
  | cons {n m o e es} : Expr.Bound r n e m → Expr.AllBound r m es o → Expr.AllBound r n (e :: es) o

end

/-- The names of an expression are bound, if there is one. -/
inductive Expr.MaybeBound (r : Resolution) : Nat → Option Expr → Nat → Prop
  | none {n} : Expr.MaybeBound r n none n
  | some {n m e} : Expr.Bound r n e m → Expr.MaybeBound r n (some e) m

mutual

/-- The names of a statement are bound. -/
inductive Stmt.Bound (r : Resolution) : Nat → Stmt → Nat → Prop
  | error {n k} : Stmt.Bound r n (.error k) n
  | var {n m k name type value z} : (∀ t ∈ type, r.NamesType t) → Expr.MaybeBound r n value m →
    r.declOf? k.id = some (m + 1) → r.table.symbol? (m + 1) = some z → z.kind = .var →
    Stmt.Bound r n (.var k name type value) (m + 1)
  | expr {n m k e} : Expr.Bound r n e m → Stmt.Bound r n (.expr k e) m
  | branch {n m o l k cond body otherwise} : Expr.Bound r n cond m → Block.Bound r m body o →
    Otherwise.Bound r o otherwise l → Stmt.Bound r n (.branch k cond body otherwise) l
  | loopBefore {n m o k cond body} : Expr.Bound r n cond m → Block.Bound r m body o →
    Stmt.Bound r n (.loop k .before cond body) o
  | loopAfter {n m o k cond body} : Block.Bound r n body m → Expr.Bound r m cond o →
    Stmt.Bound r n (.loop k .after cond body) o
  | leave {n k} : Stmt.Bound r n (.leave k) n
  | again {n k} : Stmt.Bound r n (.again k) n
  | give {n m k value} : Expr.MaybeBound r n value m → Stmt.Bound r n (.give k value) m
  | command {n k text} : Stmt.Bound r n (.command k text) n

inductive Block.Bound (r : Resolution) : Nat → Block → Nat → Prop
  | mk {n m k stmts} : Stmt.AllBound r n stmts m → Block.Bound r n (.mk k stmts) m

inductive Stmt.AllBound (r : Resolution) : Nat → List Stmt → Nat → Prop
  | nil {n} : Stmt.AllBound r n [] n
  | cons {n m o s rest} : Stmt.Bound r n s m → Stmt.AllBound r m rest o →
    Stmt.AllBound r n (s :: rest) o

inductive Otherwise.Bound (r : Resolution) : Nat → Otherwise → Nat → Prop
  | none {n} : Otherwise.Bound r n .none n
  | block {n m body} : Block.Bound r n body m → Otherwise.Bound r n (.block body) m
  | chain {n m s} : Stmt.Bound r n s m → Otherwise.Bound r n (.chain s) m

end

mutual

theorem Expr.Bound.le {q : Resolution} {n m : Nat} : {e : Expr} → e.Bound q n m → n ≤ m
  | .error _, h | .constant .., h | .ident _, h => by cases h; exact Nat.le_refl _
  | .binary _ _ _ left right, h => by
    cases h with
    | binary hl hr => exact Nat.le_trans hl.le hr.le
  | .unary _ _ operand, h => by
    cases h with
    | unary he => exact he.le
  | .group _ inner, h => by
    cases h with
    | group he => exact he.le
  | .call _ target args, h => by
    cases h with
    | call ht ha => exact Nat.le_trans ht.le ha.le
  | .assign _ _ _ _ value, h => by
    cases h with
    | assign hv _ _ => exact hv.le
    | declare hv _ _ _ => exact Nat.le_succ_of_le hv.le

theorem Expr.AllBound.le {q : Resolution} {n m : Nat} : {es : List Expr} → Expr.AllBound q n es m → n ≤ m
  | [], h => by cases h; exact Nat.le_refl _
  | e :: es, h => by
    cases h with
    | cons he hes => exact Nat.le_trans he.le hes.le

end

theorem Expr.MaybeBound.le {q : Resolution} {n m : Nat} {e : Option Expr}
    (h : Expr.MaybeBound q n e m) : n ≤ m := by
  cases h with
  | none => exact Nat.le_refl _
  | some he => exact he.le

mutual

theorem Stmt.Bound.le {q : Resolution} {n m : Nat} : {s : Stmt} → s.Bound q n m → n ≤ m
  | .error _, h | .leave _, h | .again _, h | .command .., h => by cases h; exact Nat.le_refl _
  | .var .., h => by
    cases h with
    | var _ hv _ _ _ => exact Nat.le_succ_of_le hv.le
  | .expr _ e, h => by
    cases h with
    | expr he => exact he.le
  | .branch _ cond body otherwise, h => by
    cases h with
    | branch hc hb ho => exact Nat.le_trans hc.le (Nat.le_trans hb.le ho.le)
  | .loop _ .before cond body, h => by
    cases h with
    | loopBefore hc hb => exact Nat.le_trans hc.le hb.le
  | .loop _ .after cond body, h => by
    cases h with
    | loopAfter hb hc => exact Nat.le_trans hb.le hc.le
  | .give .., h => by
    cases h with
    | give hv => exact hv.le

theorem Block.Bound.le {q : Resolution} {n m : Nat} : {b : Block} → b.Bound q n m → n ≤ m
  | .mk _ body, h => by
    cases h with
    | mk hb => exact hb.le

theorem Stmt.AllBound.le {q : Resolution} {n m : Nat} :
    {ss : List Stmt} → Stmt.AllBound q n ss m → n ≤ m
  | [], h => by cases h; exact Nat.le_refl _
  | s :: rest, h => by
    cases h with
    | cons hs hrest => exact Nat.le_trans hs.le hrest.le

theorem Otherwise.Bound.le {q : Resolution} {n m : Nat} : {o : Otherwise} → o.Bound q n m → n ≤ m
  | .none, h => by cases h; exact Nat.le_refl _
  | .block body, h => by
    cases h with
    | block hb => exact hb.le
  | .chain s, h => by
    cases h with
    | chain hs => exact hs.le

end

namespace Resolution

/-- Names that are resolved without errors, where no node is bound twice. -/
structure Final (p : Program) (q : Resolution) : Prop where
  clean : q.IsClean
  sound : q.Sound p
  refs : (q.refs.map (·.1)).Nodup
  decls : (q.decls.map (·.1)).Nodup

variable {p : Program} {q r : Resolution} {path : List Nat} (w : Bool)

theorem Final.not_report (hq : q.Final p) {problem : NameProblem} {span : Span} {notes : List Note}
    (h : problem.severity = .error) : ¬ (r.report problem span notes).Grows q :=
  fun hg => not_isClean_report h (hg.isClean hq.clean)

/-- What a name means along a path is what it is bound to. -/
theorem Final.binds (hq : q.Final p) (hr : r.Sound p) (hg : r.Grows q) {i : Ident} {y : Nat}
    (hf : r.table.findAlong? path i.name = some y) (hm : (i.node.id, y) ∈ q.refs) :
    ∃ z, q.Binds r.table.symbols.length i y z := by
  obtain ⟨hne, z, hz, -⟩ := hr.valid.symbol?_of_findAlong? hf
  exact ⟨z, lookup_eq_some_of_mem hq.refs hm, hg.table.symbol? hz, (SymbolTable.le_of_symbol? hz).2,
    hne⟩

theorem mem_of_snoc_isPrefix {α : Type} {xs ys : List α} {x : α} (h : xs ++ [x] <+: ys) : x ∈ ys :=
  h.subset (List.mem_append_right _ (List.mem_singleton.mpr rfl))

theorem ident_bound (hq : q.Final p) (hr : r.Sound p) (i : Ident) (hg : (ident path r i).Grows q) :
    ∃ y z, q.Binds r.table.symbols.length i y z := by
  rw [ident] at hg
  split at hg
  · rename_i y hy
    exact ⟨y, hq.binds hr ((extends_ref hr _ _).grows.trans hg) hy (mem_of_snoc_isPrefix hg.refs)⟩
  · have hn := extends_report hr (.undefined i.name) i.node.span []
    exact absurd ((extends_ref hn.sound _ _).grows.trans hg) (hq.not_report rfl)

/-- A target is bound to something declared before, or it is declared by the assignment. -/
theorem target_bound (hq : q.Final p) (hr : r.Sound p) (hp : r.Stands path) (op : AssignOp) (i : Ident)
    (hg : (target w path r op i).Grows q) :
    (∃ y z, q.Binds r.table.symbols.length i y z ∧ (i.node.id, y) ∉ q.implicit ∧
      (target w path r op i).table = r.table) ∨
    ∃ z, op = .set ∧ q.Binds (r.table.symbols.length + 1) i (r.table.symbols.length + 1) z ∧
      z.kind = .var ∧ q.implicit.lookup i.node.id = some (r.table.symbols.length + 1) ∧
      (target w path r op i).table.symbols.length = r.table.symbols.length + 1 := by
  cases hf : r.table.findAlong? path i.name with
  | some y =>
    left
    rw [target, hf] at hg ⊢
    have hrq := (extends_ref hr i.node.id y).grows.trans hg
    obtain ⟨z, hz⟩ := hq.binds hr hrq hf (mem_of_snoc_isPrefix hg.refs)
    refine ⟨y, z, hz, fun himp => ?_, rfl⟩
    -- It would have been declared before, and bound a first time then.
    have hle := hz.le
    rcases hrq.declared _ himp with hbefore | hafter
    · have hnodup := hq.refs.sublist (hg.refs.sublist.map (·.1))
      rw [List.map_append, List.nodup_append] at hnodup
      have hmem := List.mem_map_of_mem (f := (·.1)) (hr.implicit.subset hbefore)
      exact hnodup.2.2 _ hmem _ (List.mem_singleton.mpr rfl) rfl
    · exact absurd hafter (by simp only; omega)
  | none =>
    by_cases hop : op = .set
    · right
      subst hop
      obtain ⟨ds, table, htarget, -, hd⟩ := target_of_none w hp i hf
      rw [htarget] at hg ⊢
      have hsymbols := symbols_of_declare hd
      have hsymbol : table.symbol? (r.table.symbols.length + 1)
          = some (r.localized path (implicitVar i)) := by
        rw [SymbolTable.symbol?_of_append hsymbols, if_pos rfl]
      have himplicit : (q.implicit.map (·.1)).Nodup :=
        hq.refs.sublist (hq.sound.implicit.map (·.1))
      refine ⟨r.localized path (implicitVar i), rfl, ⟨lookup_eq_some_of_mem hq.refs
        (mem_of_snoc_isPrefix hg.refs), hg.table.symbol? hsymbol, Nat.le_refl _, ?_⟩, rfl,
        lookup_eq_some_of_mem himplicit (mem_of_snoc_isPrefix hg.implicit), ?_⟩
      · have hpos := List.length_pos_iff.mpr hr.symbols_ne_nil
        rw [SymbolTable.errorSymbol]
        omega
      · change table.symbols.length = _
        rw [hsymbols, List.length_append]
        rfl
    · have hn := extends_report hr (.undeclared op i.name) i.node.span []
      rw [target, hf] at hg
      simp only [if_neg hop] at hg
      exact absurd ((extends_ref hn.sound _ _).grows.trans hg) (hq.not_report rfl)

mutual

theorem expr_bound (hq : q.Final p) {r : Resolution} {path : List Nat} (hr : r.Sound p)
    (hp : r.Stands path) : (e : Expr) → (expr w path r e).Grows q →
    e.Bound q r.table.symbols.length (expr w path r e).table.symbols.length
  | .error _, _ => by
    rw [expr]
    exact .error
  | .constant .., _ => by
    rw [expr]
    exact .constant
  | .ident i, hg => by
    rw [expr] at hg ⊢
    obtain ⟨y, z, hz⟩ := ident_bound hq hr i hg
    have htable : (ident path r i).table = r.table := by
      rw [ident]
      split <;> rfl
    rw [htable]
    exact .ident hz
  | .binary _ _ _ left right, hg => by
    have hl := extends_expr w hr hp left
    have hrt := extends_expr w hl.sound (hl.grows.stands hp) right
    rw [expr] at hg ⊢
    exact .binary (expr_bound hq hr hp left (hrt.grows.trans hg))
      (expr_bound hq hl.sound (hl.grows.stands hp) right hg)
  | .unary _ _ operand, hg => by
    rw [expr] at hg ⊢
    exact .unary (expr_bound hq hr hp operand hg)
  | .group _ inner, hg => by
    rw [expr] at hg ⊢
    exact .group (expr_bound hq hr hp inner hg)
  | .call _ callee args, hg => by
    have hc := extends_expr w hr hp callee
    have ha := extends_exprs w hc.sound (hc.grows.stands hp) args
    rw [expr] at hg ⊢
    exact .call (expr_bound hq hr hp callee (ha.grows.trans hg))
      (exprs_bound hq hc.sound (hc.grows.stands hp) args hg)
  | .assign _ op _ i value, hg => by
    have hv := extends_expr w hr hp value
    have hpv := hv.grows.stands hp
    have ht := extends_target w hv.sound hpv op i
    rw [expr] at hg ⊢
    have hvalue := expr_bound hq hr hp value (ht.grows.trans hg)
    rcases target_bound w hq hv.sound hpv op i hg with ⟨y, z, hz, himp, htable⟩ |
      ⟨z, rfl, hz, hkind, himp, hlen⟩
    · rw [htable]
      exact .assign hvalue hz himp
    · rw [hlen]
      exact .declare hvalue hz hkind himp

theorem exprs_bound (hq : q.Final p) {r : Resolution} {path : List Nat} (hr : r.Sound p)
    (hp : r.Stands path) : (es : List Expr) → (exprs w path r es).Grows q →
    Expr.AllBound q r.table.symbols.length es (exprs w path r es).table.symbols.length
  | [], _ => by
    rw [exprs]
    exact .nil
  | e :: es, hg => by
    have he := extends_expr w hr hp e
    have hes := extends_exprs w he.sound (he.grows.stands hp) es
    rw [exprs] at hg ⊢
    exact .cons (expr_bound hq hr hp e (hes.grows.trans hg))
      (exprs_bound hq he.sound (he.grows.stands hp) es hg)

end

theorem maybe_bound (hq : q.Final p) (hr : r.Sound p) (hp : r.Stands path) (e : Option Expr)
    (hg : (expr? w path r e).Grows q) :
    Expr.MaybeBound q r.table.symbols.length e (expr? w path r e).table.symbols.length := by
  cases e with
  | none => exact .none
  | some e => exact .some (expr_bound w hq hr hp e hg)

theorem exists_lookup_of_mem {α β : Type} [BEq α] [LawfulBEq α] {xs : List (α × β)} {x : α} {v : β}
    (h : (x, v) ∈ xs) : ∃ u, xs.lookup x = some u := by
  cases hx : xs.lookup x with
  | some u => exact ⟨u, rfl⟩
  | none =>
    have := List.lookup_eq_none_iff.mp hx _ h
    simp at this

theorem typeRef_bound (hq : q.Final p) (type : Name) (hg : (typeRef path r type).Grows q) :
    q.NamesType type := by
  have hmem : ∃ y, (type.span, y) ∈ (typeRef path r type).types := by
    rw [typeRef]
    split
    · exact ⟨_, List.mem_append_right _ (List.mem_singleton.mpr rfl)⟩
    · dsimp only
      split
      · exact ⟨_, List.mem_append_right _ (List.mem_singleton.mpr rfl)⟩
      · exact ⟨_, List.mem_append_right _ (List.mem_singleton.mpr rfl)⟩
  obtain ⟨y, hy⟩ := hmem
  obtain ⟨u, hu⟩ := exists_lookup_of_mem (hg.types.subset hy)
  obtain ⟨z, hz, hk⟩ := hq.sound.types hq.clean _ (mem_of_lookup_eq_some hu)
  exact ⟨u, z, hu, hz, hk⟩

theorem typeRef?_bound (hq : q.Final p) (type : Option Name) (hg : (typeRef? path r type).Grows q) :
    ∀ t ∈ type, q.NamesType t := by
  intro t ht
  cases ht
  exact typeRef_bound hq t hg

@[simp] theorem table_typeRef (path : List Nat) (r : Resolution) (type : Name) :
    (typeRef path r type).table = r.table := by
  rw [typeRef]
  split
  · rfl
  · dsimp only
    split <;> rfl

@[simp] theorem table_typeRef? (path : List Nat) (r : Resolution) (type : Option Name) :
    (typeRef? path r type).table = r.table := by
  cases type with
  | none => rfl
  | some type => exact table_typeRef path r type

/-- A symbol that is declared is the next one. -/
theorem symbol?_of_declare (hp : r.Stands path) (symbol : Symbol)
    (hg : (r.declare w path symbol).1.Grows q) :
    q.table.symbol? (r.table.symbols.length + 1) = some (r.localized path symbol) ∧
      (r.declare w path symbol).2 = r.table.symbols.length + 1 ∧
      (r.declare w path symbol).1.table.symbols.length = r.table.symbols.length + 1 := by
  obtain ⟨ds, table, heq, hd⟩ := declare_eq w hp symbol
  have hsymbols := symbols_of_declare hd
  rw [heq] at hg ⊢
  refine ⟨hg.table.symbol? ?_, rfl, ?_⟩
  · change table.symbol? _ = _
    rw [SymbolTable.symbol?_of_append hsymbols, if_pos rfl]
  · change table.symbols.length = _
    rw [hsymbols, List.length_append]
    rfl

theorem var_bound (hq : q.Final p) (hr : r.Sound p) (hp : r.Stands path) (n : Node) (name : Name)
    (type : Option Name) (value : Option Expr)
    (hg : (stmt w path r (.var n name type value)).Grows q) :
    Stmt.Bound q r.table.symbols.length (.var n name type value)
      (stmt w path r (.var n name type value)).table.symbols.length := by
  have ht := extends_typeRef? path hr type
  have hv := extends_expr? w ht.sound (ht.grows.stands hp) value
  have hpv := hv.grows.stands (ht.grows.stands hp)
  rw [stmt] at hg ⊢
  generalize hval : expr? w path (typeRef? path r type) value = s at hv hpv hg ⊢
  have hd : Extends p [] s (s.declare w path (namedVar name)).1 :=
    extends_declare w hv.sound hpv (.inl rfl) rfl
  have hdq : (s.declare w path (namedVar name)).1.Grows q :=
    (extends_decl hd.sound n.id _).grows.trans hg
  have hsq := hd.grows.trans hdq
  obtain ⟨hsymbol, hnew, hlen⟩ := symbol?_of_declare w hpv (namedVar name) hdq
  have hvalue : Expr.MaybeBound q r.table.symbols.length value s.table.symbols.length := by
    have := maybe_bound w hq ht.sound (ht.grows.stands hp) value (hval ▸ hsq)
    rwa [hval, table_typeRef?] at this
  change Stmt.Bound q _ _ (s.declare w path (namedVar name)).1.table.symbols.length
  rw [hlen]
  refine .var (typeRef?_bound hq type (hv.grows.trans hsq)) hvalue ?_ hsymbol rfl
  rw [← hnew]
  exact lookup_eq_some_of_mem hq.decls (mem_of_snoc_isPrefix hg.decls)

mutual

theorem stmt_bound (hq : q.Final p) {r : Resolution} {path : List Nat} (hr : r.Sound p)
    (hp : r.Stands path) : (s : Stmt) → (stmt w path r s).Grows q →
    s.Bound q r.table.symbols.length (stmt w path r s).table.symbols.length
  | .error _, _ => by
    rw [stmt]
    exact .error
  | .leave _, _ => by
    rw [stmt]
    exact .leave
  | .again _, _ => by
    rw [stmt]
    exact .again
  | .command .., _ => by
    rw [stmt]
    exact .command
  | .var n name type value, hg => var_bound w hq hr hp n name type value hg
  | .expr _ e, hg => by
    rw [stmt] at hg ⊢
    exact .expr (expr_bound w hq hr hp e hg)
  | .branch _ cond body otherwise, hg => by
    have hc := extends_expr w hr hp cond
    have hpc := hc.grows.stands hp
    have hb := extends_block w hc.sound hpc body
    have hpb := hb.grows.stands hpc
    have ho := extends_alternative w hb.sound hpb otherwise
    rw [stmt] at hg ⊢
    exact .branch (expr_bound w hq hr hp cond (hb.grows.trans (ho.grows.trans hg)))
      (block_bound hq hc.sound hpc body (ho.grows.trans hg))
      (alternative_bound hq hb.sound hpb otherwise hg)
  | .loop _ .before cond body, hg => by
    have hc := extends_expr w hr hp cond
    have hpc := hc.grows.stands hp
    have hb := extends_block w hc.sound hpc body
    rw [stmt] at hg ⊢
    exact .loopBefore (expr_bound w hq hr hp cond (hb.grows.trans hg))
      (block_bound hq hc.sound hpc body hg)
  | .loop _ .after cond body, hg => by
    have hb := extends_block w hr hp body
    have hpb := hb.grows.stands hp
    have hc := extends_expr w hb.sound hpb cond
    rw [stmt] at hg ⊢
    exact .loopAfter (block_bound hq hr hp body (hc.grows.trans hg))
      (expr_bound w hq hb.sound hpb cond hg)
  | .give _ value, hg => by
    rw [stmt] at hg ⊢
    exact .give (maybe_bound w hq hr hp value hg)

theorem block_bound (hq : q.Final p) {r : Resolution} {path : List Nat} (hr : r.Sound p)
    (hp : r.Stands path) : (b : Block) → (block w path r b).Grows q →
    b.Bound q r.table.symbols.length (block w path r b).table.symbols.length
  | .mk n body, hg => by
    obtain ⟨ho, hs⟩ := extends_openScope hr hp .block (by decide) n.span
    have hlen : (r.openScope .block path n.span).1.table.symbols.length
        = r.table.symbols.length :=
      congrArg List.length (SymbolTable.symbols_openScope _ _ _ _)
    rw [block] at hg ⊢
    have hbody := stmts_bound hq ho.sound hs body hg
    rw [hlen] at hbody
    exact .mk hbody

theorem stmts_bound (hq : q.Final p) {r : Resolution} {path : List Nat} (hr : r.Sound p)
    (hp : r.Stands path) : (ss : List Stmt) → (stmts w path r ss).Grows q →
    Stmt.AllBound q r.table.symbols.length ss (stmts w path r ss).table.symbols.length
  | [], _ => by
    rw [stmts]
    exact .nil
  | s :: rest, hg => by
    have hs := extends_stmt w hr hp s
    have hrest := extends_stmts w hs.sound (hs.grows.stands hp) rest
    rw [stmts] at hg ⊢
    exact .cons (stmt_bound hq hr hp s (hrest.grows.trans hg))
      (stmts_bound hq hs.sound (hs.grows.stands hp) rest hg)

theorem alternative_bound (hq : q.Final p) {r : Resolution} {path : List Nat} (hr : r.Sound p)
    (hp : r.Stands path) : (o : Otherwise) → (alternative w path r o).Grows q →
    o.Bound q r.table.symbols.length (alternative w path r o).table.symbols.length
  | .none, _ => by
    rw [alternative]
    exact .none
  | .block body, hg => by
    rw [alternative] at hg ⊢
    exact .block (block_bound hq hr hp body hg)
  | .chain s, hg => by
    rw [alternative] at hg ⊢
    exact .chain (stmt_bound hq hr hp s hg)

end

end Resolution

end Craftlang
