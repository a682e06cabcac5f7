import Craftlang.Proofs.Scope.Growth
import Craftlang.Proofs.Typing.AliasWalk
import Craftlang.Proofs.Typing.Moves

/-!
# Typing only adds

Typing a piece of a program records types of nodes and symbols and reports problems; it takes nothing
back, and no node is typed twice.
-/

namespace Craftlang

/-- The diagnostic reports a problem with types. -/
def Diagnostic.IsOfTypes (d : Diagnostic) : Prop :=
  ∃ (problem : TypeProblem) (span : Span) (notes : List Note),
    d = .error problem.code span problem.message notes

theorem Diagnostic.IsOfTypes.isSemantic {d : Diagnostic} (h : d.IsOfTypes) : d.isSemantic = true := by
  obtain ⟨problem, span, notes, rfl⟩ := h
  cases problem <;> rfl

namespace Typing

/-- No error was reported. -/
def IsClean (t : Typing) : Prop := ∀ d ∈ t.diagnostics, d.isError = false

/-- Types and diagnostics are added, the diagnostics about types; the functions are those that were
there. -/
structure Precedes (t t' : Typing) : Prop where
  exprs : t.exprs <+: t'.exprs
  symbols : t.symbols <+: t'.symbols
  functions : t.functions = t'.functions
  diagnostics : t.diagnostics <+: t'.diagnostics
  reports : ∀ d ∈ t'.diagnostics, d ∈ t.diagnostics ∨ d.IsOfTypes

namespace Precedes

variable {t t' t'' : Typing}

theorem refl (t : Typing) : t.Precedes t :=
  ⟨List.prefix_rfl, List.prefix_rfl, rfl, List.prefix_rfl, fun _ h => .inl h⟩

theorem trans (h : t.Precedes t') (h' : t'.Precedes t'') : t.Precedes t'' :=
  ⟨h.exprs.trans h'.exprs, h.symbols.trans h'.symbols, h.functions.trans h'.functions,
    h.diagnostics.trans h'.diagnostics, fun d hd => (h'.reports d hd).elim (h.reports d) .inr⟩

theorem isClean (h : t.Precedes t') (hc : t'.IsClean) : t.IsClean :=
  fun d hd => hc d (h.diagnostics.subset hd)

end Precedes

/-- Types are recorded for nodes in `ids` only. -/
structure Extends (ids : List Nat) (t t' : Typing) : Prop extends t.Precedes t' where
  keys : NewKeys t.exprs t'.exprs ids

namespace Extends

variable {t t' t'' : Typing} {is js ks : List Nat}

theorem refl (t : Typing) (is : List Nat) : Extends is t t := ⟨.refl t, .refl _ _⟩

theorem trans (h : Extends is t t') (h' : Extends js t' t'')
    (hk : ∀ x, is.count x + js.count x ≤ ks.count x) : Extends ks t t'' :=
  ⟨h.toPrecedes.trans h'.toPrecedes, h.keys.trans h'.keys hk⟩

/-- Twice nothing. -/
theorem trans_nil (h : Extends [] t t') (h' : Extends [] t' t'') : Extends [] t t'' :=
  h.trans h' fun x => by simp

end Extends

theorem not_isClean_report {t : Typing} {problem : TypeProblem} {span : Span} {notes : List Note} :
    ¬ (t.report problem span notes).IsClean := by
  intro hc
  have hd := hc _ (List.mem_append_right _ (List.mem_singleton.mpr rfl))
  cases hd

section

variable (t : Typing)

theorem extends_report (problem : TypeProblem) (span : Span) (notes : List Note) :
    Extends [] t (t.report problem span notes) := by
  refine ⟨⟨List.prefix_rfl, List.prefix_rfl, rfl, List.prefix_append _ _, fun d hd => ?_⟩, .refl _ _⟩
  rcases List.mem_append.mp hd with hd | hd
  · exact .inl hd
  · rw [List.mem_singleton.mp hd]
    exact .inr ⟨problem, span, notes, rfl⟩

theorem extends_noteExpr (node : Node) (info : TypeInfo) :
    Extends [node.id] t (t.noteExpr node info) :=
  ⟨⟨List.prefix_append _ _, List.prefix_rfl, rfl, List.prefix_rfl, fun _ h => .inl h⟩, .snoc _ _ _⟩

theorem extends_noteSymbol (y : Nat) (info : TypeInfo) : Extends [] t (t.noteSymbol y info) :=
  ⟨⟨List.prefix_rfl, List.prefix_append _ _, rfl, List.prefix_rfl, fun _ h => .inl h⟩, .refl _ _⟩

theorem extends_settle (node : Node) (type : Ty) : Extends [node.id] t (t.settle node type).1 :=
  extends_noteExpr t node _

theorem extends_noteAll (ys : List Nat) (info : TypeInfo) : Extends [] t (t.noteAll ys info) :=
  ⟨⟨List.prefix_rfl, List.prefix_append _ _, rfl, List.prefix_rfl, fun _ h => .inl h⟩, .refl _ _⟩

theorem Records.extends {t : Typing} {r : Resolution} {walk : List Nat × AliasEnd} {answer : Typing × Ty}
    (h : Records t r walk answer) : Extends [] t answer.1 := by
  cases h with
  | type => exact extends_noteAll t _ _
  | cycle => exact (extends_report t _ _ _).trans_nil (extends_noteAll _ _ _)

theorem extends_namedType (c : TypingContext) (y : Nat) : Extends [] t (t.namedType c y).1 :=
  (t.namedType_records c y).extends

theorem extends_writtenType (c : TypingContext) (type : Name) :
    Extends [] t (t.writtenType c type).1 := extends_namedType t c _

end

/-- All moves add, within whatever limits. -/
theorem Moves.extends {L : Limits} {ids : List Nat} {t u : Typing} (h : Moves L ids t u) : Extends ids t u := by
  induction h with
  | stay t => exact .refl t _
  | report t problem span notes => exact extends_report t problem span notes
  | noteExpr t node info => exact extends_noteExpr t node info
  | noteSymbol t y info => exact extends_noteSymbol t y info
  | ask t y => exact (resolveAlias_records t _ _ y).extends
  | trans _ _ count ih ih' => exact ih.trans ih' count

/-! ### The pieces of a program -/

section

variable (t : Typing) (c : TypingContext)

theorem extends_constant (node : Node) (value : Constant) (negated : Bool) :
    Extends [node.id] t (t.constant node value negated).1 :=
  (moves_constant (L := .free) t trivial value negated).extends

theorem extends_ident (i : Ident) : Extends [i.node.id] t (ident c t i).1 :=
  (moves_ident (L := .free) t trivial).extends

theorem extends_applyUnary (node : Node) (op : UnaryOp) (operand : Ty) :
    Extends [node.id] t (t.applyUnary node op operand).1 :=
  (moves_applyUnary (L := .free) t trivial op operand).extends

theorem extends_applyBinary (node : Node) (op : BinaryOp) (opSpan : Span) (left right : Ty) :
    Extends [node.id] t (t.applyBinary node op opSpan left right).1 :=
  (moves_applyBinary (L := .free) t node op trivial left right).extends

theorem extends_assign (node : Node) (op : AssignOp) (opSpan : Span) (target : Ident) (value : Ty)
    (valueSpan : Span) :
    Extends [target.node.id, node.id] t (assign c t node op opSpan target value valueSpan).1 :=
  (moves_assign t (.ofContext c) node op trivial trivial value trivial).extends

theorem extends_namedCallee (i : Ident) : Extends [i.node.id] t (namedCallee c t i).1 :=
  (moves_namedCallee t (.ofContext c) trivial).extends

theorem extends_checkArguments (name : Bytes) (place : Nat) (params : List Ty)
    (args : List (Span × Ty)) : Extends [] t (t.checkArguments name place params args) :=
  (moves_checkArguments (L := .free) t name place params fun _ _ => trivial).extends

theorem extends_applyCall (node : Node) (callee : Option (Bytes × Signature))
    (args : List (Span × Ty)) : Extends [node.id] t (t.applyCall node callee args).1 :=
  (moves_applyCall (L := .free) t trivial callee fun _ _ => trivial).extends

theorem extends_condition (cond : Expr) : Extends cond.ids t (condition c t cond) :=
  (moves_condition (.ofContext c) t (.ofContext c)).extends

theorem extends_checkTagged (f : Function) : Extends [] t (t.checkTagged f) :=
  (moves_checkTagged (L := .free) t trivial fun _ _ => trivial).extends

theorem extends_tags (names : List DottedName) : Extends [] t (t.tags names).1 :=
  (moves_tags (L := .free) t fun _ _ => trivial).extends

end

section

variable (c : TypingContext) (t : Typing)

theorem extends_expr (e : Expr) : Extends e.ids t (expr c t e).1 :=
  (moves_expr (.ofContext c) t e (.ofContext c)).extends

theorem extends_arguments (es : List Expr) : Extends (Expr.idsOf es) t (arguments c t es).1 :=
  (moves_arguments (.ofContext c) t es (.ofContext c)).extends

theorem extends_value (e : Expr) : Extends e.ids t (value c t e).1 :=
  (moves_value (.ofContext c) t (.ofContext c)).extends

theorem extends_stmt (s : Stmt) : Extends s.ids t (stmt c t s) :=
  (moves_stmt (.ofContext c) t s (.ofContext c)).extends

theorem extends_block (b : Block) : Extends b.ids t (block c t b) :=
  (moves_block (.ofContext c) t b (.ofContext c)).extends

theorem extends_stmts (ss : List Stmt) : Extends (Stmt.idsOf ss) t (stmts c t ss) :=
  (moves_stmts (.ofContext c) t ss (.ofContext c)).extends

theorem extends_alternative (o : Otherwise) : Extends o.ids t (alternative c t o) :=
  (moves_alternative (.ofContext c) t o (.ofContext c)).extends

theorem extends_paramTypes (ps : List Param) (ys : List Nat) : Extends [] t (paramTypes c t ps ys).1 :=
  (moves_paramTypes (.ofContext c) t ps fun _ _ => trivial).extends

theorem extends_signature (f : Function) : Extends [] t (signature c t f).1 :=
  (moves_signature (.ofContext c) t fun _ _ => trivial).extends

theorem extends_item (i : Item) : Extends i.ids t (item c t i) :=
  (moves_item (.ofContext c) t (.ofContext c)).extends

theorem extends_items (is : List Item) : Extends (is.flatMap Item.ids) t (is.foldl (item c) t) :=
  (moves_items (.ofContext c) t fun _ _ => .ofContext c).extends

end

end Typing

end Craftlang
