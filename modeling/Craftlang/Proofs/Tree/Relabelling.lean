import Craftlang.Proofs.Tree.Mentions
import Mathlib.Data.List.Forall2
import Mathlib.Order.MinMax

/-!
# Relabelled trees

A tree whose nodes and names stand at other places, in the same order, and whose names are others. The tags of a
function are texts of their own, so a relabelled item may keep those that stay.
-/

namespace Craftlang

/-- Where every offset of a file moves to, and what the identifier at a place is called afterwards. -/
structure Relabelling where
  file : Nat
  place : Nat → Nat
  mono : Monotone place
  text : Span → Bytes → Bytes

namespace Relabelling

variable (ρ : Relabelling)

def span (x : Span) : Span := ⟨x.file, ρ.place x.start, ρ.place x.stop⟩

def node (n : Node) : Node := ⟨n.id, ρ.span n.span⟩

def name (n : Name) : Name := ⟨ρ.text n.span n.text, ρ.span n.span⟩

def ident (i : Ident) : Ident := ⟨ρ.node i.node, ρ.text i.node.span i.name⟩

def param (p : Param) : Param := ⟨ρ.name p.name, ρ.name p.type⟩

theorem span_cover (x y : Span) : ρ.span (x.cover y) = (ρ.span x).cover (ρ.span y) := by
  by_cases h : x.file = y.file
  · have h' : (ρ.span x).file = (ρ.span y).file := h
    rw [Span.cover, if_pos h, Span.cover, if_pos h']
    simp only [span, Monotone.map_min ρ.mono, Monotone.map_max ρ.mono]
  · have h' : ¬ (ρ.span x).file = (ρ.span y).file := h
    rw [Span.cover, if_neg h, Span.cover, if_neg h']

end Relabelling

mutual

def Expr.relabel (ρ : Relabelling) : Expr → Expr
  | .error n => .error (ρ.node n)
  | .constant n v => .constant (ρ.node n) v
  | .ident i => .ident (ρ.ident i)
  | .binary n op x left right => .binary (ρ.node n) op (ρ.span x) (left.relabel ρ) (right.relabel ρ)
  | .unary n op operand => .unary (ρ.node n) op (operand.relabel ρ)
  | .call n target args => .call (ρ.node n) (target.relabel ρ) (Expr.relabelAll ρ args)
  | .group n inner => .group (ρ.node n) (inner.relabel ρ)
  | .assign n op x target value => .assign (ρ.node n) op (ρ.span x) (ρ.ident target) (value.relabel ρ)

def Expr.relabelAll (ρ : Relabelling) : List Expr → List Expr
  | [] => []
  | e :: es => e.relabel ρ :: Expr.relabelAll ρ es

end

mutual

def Stmt.relabel (ρ : Relabelling) : Stmt → Stmt
  | .error n => .error (ρ.node n)
  | .var n name type value => .var (ρ.node n) (ρ.name name) (type.map ρ.name) (value.map (Expr.relabel ρ))
  | .expr n e => .expr (ρ.node n) (e.relabel ρ)
  | .branch n cond body otherwise =>
    .branch (ρ.node n) (cond.relabel ρ) (body.relabel ρ) (otherwise.relabel ρ)
  | .loop n kind cond body => .loop (ρ.node n) kind (cond.relabel ρ) (body.relabel ρ)
  | .leave n => .leave (ρ.node n)
  | .again n => .again (ρ.node n)
  | .give n value => .give (ρ.node n) (value.map (Expr.relabel ρ))
  | .command n text => .command (ρ.node n) text

def Block.relabel (ρ : Relabelling) : Block → Block
  | .mk n stmts => .mk (ρ.node n) (Stmt.relabelAll ρ stmts)

def Otherwise.relabel (ρ : Relabelling) : Otherwise → Otherwise
  | .none => .none
  | .block body => .block (body.relabel ρ)
  | .chain s => .chain (s.relabel ρ)

def Stmt.relabelAll (ρ : Relabelling) : List Stmt → List Stmt
  | [] => []
  | s :: rest => s.relabel ρ :: Stmt.relabelAll ρ rest

end

/-- The parts of a dotted name are no names of the program and stay. -/
def DottedName.relabel (ρ : Relabelling) (n : DottedName) : DottedName := ⟨n.parts, ρ.span n.span⟩

def Function.relabel (ρ : Relabelling) (f : Function) : Function where
  node := ρ.node f.node
  tags := f.tags.map (DottedName.relabel ρ)
  name := ρ.name f.name
  params := f.params.map ρ.param
  result := f.result.map ρ.name
  body := f.body.relabel ρ

def Alias.relabel (ρ : Relabelling) (a : Alias) : Alias := ⟨ρ.node a.node, ρ.name a.name, ρ.name a.target⟩

def Item.relabel (ρ : Relabelling) : Item → Item
  | .error n => .error (ρ.node n)
  | .function f => .function (f.relabel ρ)
  | .typeAlias a => .typeAlias (a.relabel ρ)
  | .stmt n s => .stmt (ρ.node n) (s.relabel ρ)

theorem Expr.span_relabel (ρ : Relabelling) (e : Expr) : (e.relabel ρ).span = ρ.span e.span := by
  cases e <;> rfl

theorem Stmt.span_relabel (ρ : Relabelling) (s : Stmt) : (s.relabel ρ).span = ρ.span s.span := by
  cases s <;> rfl

theorem Expr.relabelAll_eq (ρ : Relabelling) (es : List Expr) :
    Expr.relabelAll ρ es = es.map (Expr.relabel ρ) := by
  induction es with
  | nil => rfl
  | cons e es ih => rw [Expr.relabelAll, ih, List.map_cons]

theorem Stmt.relabelAll_eq (ρ : Relabelling) (ss : List Stmt) :
    Stmt.relabelAll ρ ss = ss.map (Stmt.relabel ρ) := by
  induction ss with
  | nil => rfl
  | cons s ss ih => rw [Stmt.relabelAll, ih, List.map_cons]

/-! ## Relabelled items -/

/-- A token moved, and renamed if it is an identifier. -/
structure Token.Mirrors (ρ : Relabelling) (t t' : Token) : Prop where
  inFile : t.span.file = ρ.file
  kind : t'.kind = t.kind
  span : t'.span = ρ.span t.span
  text : t'.text = if t.kind = .ident then ρ.text t.span t.text else t.text

/-- A name read from relabelled tokens. -/
structure Name.Mirrors (ρ : Relabelling) (n n' : Name) : Prop where
  inFile : n.span.file = ρ.file
  eq : n' = ρ.name n

theorem Token.Mirrors.name {ρ : Relabelling} {t t' : Token} (h : t.Mirrors ρ t') (hk : t.kind = .ident) :
    Name.Mirrors ρ ⟨t.text, t.span⟩ ⟨t'.text, t'.span⟩ :=
  ⟨h.inFile, by rw [Relabelling.name, h.span, h.text, if_pos hk]⟩

/-- A dotted name moved. Its parts stay unless the text at a place inside it is one that changes. -/
structure DottedName.Mirrors (ρ : Relabelling) (n n' : DottedName) : Prop where
  inFile : n.span.file = ρ.file
  span : n'.span = ρ.span n.span
  parts : n'.parts = n.parts ∨ ∃ x text, n.span.contains x = true ∧ ρ.text x text ≠ text

/-- An item read from relabelled tokens. -/
inductive Item.Mirrors (ρ : Relabelling) : Item → Item → Prop
  | plain {i : Item} : i.Mirrors ρ (i.relabel ρ)
  | function {f : Function} {tags : List DottedName} (h : List.Forall₂ (DottedName.Mirrors ρ) f.tags tags) :
    Item.Mirrors ρ (.function f) (.function { f.relabel ρ with tags })

/-! ## Relabelled names -/

namespace Relabelling

variable (ρ : Relabelling)

def mention (m : Mention) : Mention := ⟨m.role, ρ.text m.span m.text, ρ.span m.span⟩

theorem mention?_name (n : Option Name) :
    Name.mention? (n.map ρ.name) = (Name.mention? n).map ρ.mention := by
  cases n <;> rfl

mutual

theorem mentions_expr : (e : Expr) → (e.relabel ρ).mentions = e.mentions.map ρ.mention
  | .error _ | .constant .. | .ident _ => rfl
  | .unary _ _ e | .group _ e => mentions_expr e
  | .binary _ _ _ left right => by
    rw [Expr.relabel, Expr.mentions, Expr.mentions, mentions_expr left, mentions_expr right, List.map_append]
  | .call _ target args => by
    rw [Expr.relabel, Expr.mentions, Expr.mentions, mentions_expr target, mentions_exprs args, List.map_append]
  | .assign _ _ _ _ value => by
    rw [Expr.relabel, Expr.mentions, Expr.mentions, mentions_expr value, List.map_cons]
    rfl

theorem mentions_exprs : (es : List Expr) →
    Expr.mentionsOf (Expr.relabelAll ρ es) = (Expr.mentionsOf es).map ρ.mention
  | [] => rfl
  | e :: es => by
    rw [Expr.relabelAll, Expr.mentionsOf, Expr.mentionsOf, mentions_expr e, mentions_exprs es, List.map_append]

end

theorem mentions?_expr (e : Option Expr) :
    Expr.mentions? (e.map (Expr.relabel ρ)) = (Expr.mentions? e).map ρ.mention := by
  cases e with
  | none => rfl
  | some e => exact ρ.mentions_expr e

mutual

theorem mentions_stmt : (s : Stmt) → (s.relabel ρ).mentions = s.mentions.map ρ.mention
  | .error _ | .leave _ | .again _ | .command .. => rfl
  | .var _ _ type value => by
    rw [Stmt.relabel, Stmt.mentions, Stmt.mentions, mention?_name, mentions?_expr, List.map_cons,
      List.map_append]
    rfl
  | .expr _ e => ρ.mentions_expr e
  | .branch _ cond body otherwise => by
    rw [Stmt.relabel, Stmt.mentions, Stmt.mentions, mentions_expr, mentions_block body,
      mentions_alternative otherwise, List.map_append, List.map_append]
  | .loop _ .before cond body => by
    rw [Stmt.relabel, Stmt.mentions, Stmt.mentions, mentions_expr, mentions_block body, List.map_append]
  | .loop _ .after cond body => by
    rw [Stmt.relabel, Stmt.mentions, Stmt.mentions, mentions_expr, mentions_block body, List.map_append]
  | .give _ value => ρ.mentions?_expr value

theorem mentions_block : (b : Block) → (b.relabel ρ).mentions = b.mentions.map ρ.mention
  | .mk _ stmts => mentions_stmts stmts

theorem mentions_alternative : (o : Otherwise) → (o.relabel ρ).mentions = o.mentions.map ρ.mention
  | .none => rfl
  | .block body => mentions_block body
  | .chain s => mentions_stmt s

theorem mentions_stmts : (ss : List Stmt) →
    Stmt.mentionsOf (Stmt.relabelAll ρ ss) = (Stmt.mentionsOf ss).map ρ.mention
  | [] => rfl
  | s :: ss => by
    rw [Stmt.relabelAll, Stmt.mentionsOf, Stmt.mentionsOf, mentions_stmt s, mentions_stmts ss, List.map_append]

end

theorem mentions_function (f : Function) : (f.relabel ρ).mentions = f.mentions.map ρ.mention := by
  have hparams : (f.params.map ρ.param).flatMap Param.mentions = (f.params.flatMap Param.mentions).map ρ.mention := by
    rw [List.flatMap_map, List.map_flatMap]
    rfl
  rw [Function.mentions, Function.mentions, Function.relabel, List.map_cons, List.map_append, List.map_append,
    ← mention?_name, ← mentions_block, ← hparams]
  rfl

end Relabelling

/-- The names of an item move and change, whatever becomes of its tags. -/
theorem Item.Mirrors.mentions {ρ : Relabelling} {i i' : Item} (h : i.Mirrors ρ i') :
    i'.mentions = i.mentions.map ρ.mention := by
  cases h with
  | function => exact ρ.mentions_function _
  | plain =>
    cases i with
    | error | typeAlias => rfl
    | function f => exact ρ.mentions_function f
    | stmt n s => exact ρ.mentions_stmt s

/-- Dotted names in which no text changes only move. -/
theorem map_relabel_of_mirrors {ρ : Relabelling} {ns ns' : List DottedName}
    (h : List.Forall₂ (DottedName.Mirrors ρ) ns ns')
    (hn : ∀ n ∈ ns, ∀ x text, n.span.contains x = true → ρ.text x text = text) :
    ns' = ns.map (DottedName.relabel ρ) := by
  induction h with
  | nil => rfl
  | @cons n n' ns ns' hmirrors _ ih =>
    rw [List.forall_mem_cons] at hn
    have hparts : n'.parts = n.parts := hmirrors.parts.resolve_right
      fun ⟨x, text, hx, hne⟩ => hne (hn.1 x text hx)
    rw [List.map_cons, ← ih hn.2, DottedName.relabel, ← hmirrors.span, ← hparts]

/-- If no text inside a tag changes, the tags of an item only move. -/
theorem Item.Mirrors.eq_relabel {ρ : Relabelling} {i i' : Item} (h : i.Mirrors ρ i')
    (htags : ∀ y ∈ i.tagSpans, ∀ x text, y.contains x = true → ρ.text x text = text) : i' = i.relabel ρ := by
  cases h with
  | plain => rfl
  | @function f tags hall =>
    have heq := map_relabel_of_mirrors hall fun n hn => htags n.span (List.mem_map_of_mem hn)
    subst heq
    rfl

theorem Item.map_relabel_of_mirrors {ρ : Relabelling} {is is' : List Item} (h : List.Forall₂ (Item.Mirrors ρ) is is')
    (htags : ∀ y ∈ is.flatMap Item.tagSpans, ∀ x text, y.contains x = true → ρ.text x text = text) :
    is' = is.map (Item.relabel ρ) := by
  induction h with
  | nil => rfl
  | cons hi _ ih =>
    rw [List.flatMap_cons, List.forall_mem_append] at htags
    rw [List.map_cons, ← ih htags.2, ← hi.eq_relabel htags.1]

end Craftlang
