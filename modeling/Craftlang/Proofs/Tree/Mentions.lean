import Craftlang.Proofs.Tree.Frames
import Mathlib.Data.List.Forall2
import Mathlib.Data.List.Nodup
import Mathlib.Data.List.Perm.Basic

/-!
# Where names are written

`Program.mentions` lists every name of a program in the order of the source, with what it does there. No two
of them overlap, and none overlaps the tag of a function.
-/

namespace Craftlang

/-- What a name does where it is written. -/
inductive Role where
  /-- It is declared, or assigned to, which declares it where it stands for nothing. -/
  | binds
  | value
  | updates (op : AssignOp)
  | type
deriving DecidableEq, Repr

/-- A name where it is written. -/
structure Mention where
  role : Role
  text : Bytes
  span : Span
deriving DecidableEq, Repr

def Name.mention (role : Role) (n : Name) : Mention := ⟨role, n.text, n.span⟩

def Name.mention? (n : Option Name) : List Mention := (n.map (Name.mention .type)).toList

def Ident.mention (role : Role) (i : Ident) : Mention := ⟨role, i.name, i.node.span⟩

/-- What an assignment does with its target. -/
def AssignOp.role (op : AssignOp) : Role := if op = .set then .binds else .updates op

mutual

def Expr.mentions : Expr → List Mention
  | .error _ | .constant .. => []
  | .ident i => [i.mention .value]
  | .binary _ _ _ left right => left.mentions ++ right.mentions
  | .unary _ _ operand => operand.mentions
  | .call _ target args => target.mentions ++ Expr.mentionsOf args
  | .group _ inner => inner.mentions
  | .assign _ op _ target value => target.mention op.role :: value.mentions

def Expr.mentionsOf : List Expr → List Mention
  | [] => []
  | e :: es => e.mentions ++ Expr.mentionsOf es

end

def Expr.mentions? (e : Option Expr) : List Mention := (e.map Expr.mentions).getD []

mutual

def Stmt.mentions : Stmt → List Mention
  | .error _ | .leave _ | .again _ | .command .. => []
  | .var _ name type value => name.mention .binds :: (Name.mention? type ++ Expr.mentions? value)
  | .expr _ e => e.mentions
  | .branch _ cond body otherwise => cond.mentions ++ body.mentions ++ otherwise.mentions
  | .loop _ .before cond body => cond.mentions ++ body.mentions
  | .loop _ .after cond body => body.mentions ++ cond.mentions
  | .give _ value => Expr.mentions? value

def Block.mentions : Block → List Mention
  | .mk _ stmts => Stmt.mentionsOf stmts

def Otherwise.mentions : Otherwise → List Mention
  | .none => []
  | .block body => body.mentions
  | .chain s => s.mentions

def Stmt.mentionsOf : List Stmt → List Mention
  | [] => []
  | s :: rest => s.mentions ++ Stmt.mentionsOf rest

end

def Param.mentions (p : Param) : List Mention := [p.name.mention .binds, p.type.mention .type]

/-- The names of a function; its tags are none. -/
def Function.mentions (f : Function) : List Mention :=
  f.name.mention .binds :: (f.params.flatMap Param.mentions ++ Name.mention? f.result ++ f.body.mentions)

def Item.mentions : Item → List Mention
  | .error _ => []
  | .function f => f.mentions
  | .typeAlias a => [a.name.mention .binds, a.target.mention .type]
  | .stmt _ s => s.mentions

def Program.mentions (p : Program) : List Mention := p.items.flatMap Item.mentions

def Item.tagSpans : Item → List Span
  | .function f => f.tags.map (·.span)
  | _ => []

def Program.tagSpans (p : Program) : List Span := p.items.flatMap Item.tagSpans

/-- The places of the tags and names of an item. -/
def Item.marks (i : Item) : List Span := i.tagSpans ++ i.mentions.map (·.span)

open Craftlang.Span (Row)

namespace Mention

/-- The places of mentions. -/
def spans (ms : List Mention) : List Span := ms.map (·.span)

@[simp] theorem spans_nil : spans [] = [] := rfl

@[simp] theorem spans_cons (m : Mention) (ms : List Mention) : spans (m :: ms) = m.span :: spans ms := rfl

@[simp] theorem spans_append (ms ns : List Mention) : spans (ms ++ ns) = spans ms ++ spans ns :=
  List.map_append

end Mention

open Mention (spans)

theorem Expr.spans_mentionsOf (es : List Expr) :
    spans (Expr.mentionsOf es) = (es.map fun e => spans e.mentions).flatten := by
  induction es with
  | nil => rfl
  | cons e es ih => rw [Expr.mentionsOf, Mention.spans_append, ih, List.map_cons, List.flatten_cons]

theorem Stmt.spans_mentionsOf (ss : List Stmt) :
    spans (Stmt.mentionsOf ss) = (ss.map fun s => spans s.mentions).flatten := by
  induction ss with
  | nil => rfl
  | cons s ss ih => rw [Stmt.mentionsOf, Mention.spans_append, ih, List.map_cons, List.flatten_cons]

section Rows

variable {f : File} {lo hi : Nat} {x : Span}

/-- Spans stand in a row in a part of a tree. -/
def RowIn (f : File) (x : Span) (ys : List Span) : Prop := Row f x.start x.stop ys

/-- A row in which every span gives way to the row in it. -/
theorem Span.Row.refine {xs : List Span} {rows : List (List Span)} (h : Row f lo hi xs)
    (hrows : List.Forall₂ (RowIn f) xs rows) : Row f lo hi rows.flatten := by
  induction hrows generalizing lo with
  | nil => exact h
  | cons hx _ ih =>
    obtain ⟨-, hlo, -, hrest⟩ := h
    exact (Row.mono hx hlo (Nat.le_refl _)).append (ih hrest)

theorem Span.Row.rowIn_nil (h : Row f lo hi [x]) : RowIn f x [] := Nat.le_of_lt h.2.2.1

theorem Span.Row.rowIn_self (h : Row f lo hi [x]) : RowIn f x [x] :=
  ⟨h.1, Nat.le_refl _, h.2.2.1, Nat.le_refl _⟩

/-- Spans in a row fill their own places. -/
theorem Span.Row.rowIn_each {xs : List Span} (h : Row f lo hi xs) :
    List.Forall₂ (RowIn f) xs (xs.map fun x => [x]) := by
  rw [List.forall₂_map_right_iff, List.forall₂_same]
  exact fun x hx => (h.of_mem hx).rowIn_self

theorem flatten_singletons (xs : List Span) : (xs.map fun x => [x]).flatten = xs := by
  induction xs with
  | nil => rfl
  | cons x xs ih => rw [List.map_cons, List.flatten_cons, ih, List.singleton_append]

mutual

theorem Expr.mentions_row : (e : Expr) → (∀ fr ∈ e.frames, fr.Sound f) → RowIn f e.span (spans e.mentions)
  | .error n, h | .constant n _, h => (h _ List.mem_cons_self).inFile.rowIn_nil
  | .ident i, h => (h _ List.mem_cons_self).inFile.rowIn_self
  | .binary n op x left right, h => by
    rw [Expr.frames, List.forall_mem_cons, List.forall_mem_append] at h
    obtain ⟨hn, hl, hr⟩ := h
    have hop := (hn.row.of_mem (List.mem_cons_of_mem _ List.mem_cons_self)).rowIn_nil
    have hrow := hn.row.refine (.cons (left.mentions_row hl) (.cons hop (.cons (right.mentions_row hr) .nil)))
    change Row f n.span.start n.span.stop _
    simpa [Expr.mentions] using hrow
  | .unary n op operand, h => by
    rw [Expr.frames, List.forall_mem_cons] at h
    have hrow := h.1.row.refine (.cons (operand.mentions_row h.2) .nil)
    change Row f n.span.start n.span.stop _
    simpa [Expr.mentions] using hrow
  | .group n inner, h => by
    rw [Expr.frames, List.forall_mem_cons] at h
    have hrow := h.1.row.refine (.cons (inner.mentions_row h.2) .nil)
    change Row f n.span.start n.span.stop _
    simpa [Expr.mentions] using hrow
  | .call n target args, h => by
    rw [Expr.frames, List.forall_mem_cons, List.forall_mem_append] at h
    obtain ⟨hn, ht, ha⟩ := h
    have hrow := hn.row.refine (.cons (target.mentions_row ht) (Expr.mentionsOf_rows args ha))
    change Row f n.span.start n.span.stop _
    rwa [Expr.mentions, Mention.spans_append, Expr.spans_mentionsOf]
  | .assign n op x target value, h => by
    rw [Expr.frames, List.forall_mem_cons, List.forall_mem_cons] at h
    obtain ⟨hn, ht, hv⟩ := h
    have hop := (hn.row.of_mem (List.mem_cons_of_mem _ List.mem_cons_self)).rowIn_nil
    have hself : RowIn f target.node.span [target.node.span] := ht.inFile.rowIn_self
    have hrow := hn.row.refine (.cons hself (.cons hop (.cons (value.mentions_row hv) .nil)))
    change Row f n.span.start n.span.stop _
    simpa [Expr.mentions, Ident.mention] using hrow

theorem Expr.mentionsOf_rows : (es : List Expr) → (∀ fr ∈ Expr.framesOf es, fr.Sound f) →
    List.Forall₂ (RowIn f) (es.map Expr.span) (es.map fun e => spans e.mentions)
  | [], _ => .nil
  | e :: es, h => by
    rw [Expr.framesOf, List.forall_mem_append] at h
    exact .cons (e.mentions_row h.1) (Expr.mentionsOf_rows es h.2)

end

theorem Expr.mentions?_rows (e : Option Expr) (h : ∀ fr ∈ Expr.frames? e, fr.Sound f) :
    List.Forall₂ (RowIn f) (Expr.spans? e) (e.map fun e => spans e.mentions).toList := by
  cases e with
  | none => exact .nil
  | some e => exact .cons (e.mentions_row h) .nil

theorem Expr.spans_mentions? (e : Option Expr) :
    spans (Expr.mentions? e) = (e.map fun e => spans e.mentions).toList.flatten := by
  cases e with
  | none => rfl
  | some e => exact (List.append_nil _).symm

theorem Name.spans_mention? (n : Option Name) : spans (Name.mention? n) = Name.spans? n := by
  cases n <;> rfl

mutual

theorem Stmt.mentions_row : (s : Stmt) → (∀ fr ∈ s.frames, fr.Sound f) → RowIn f s.span (spans s.mentions)
  | .error n, h | .leave n, h | .again n, h | .command n _, h => (h _ List.mem_cons_self).inFile.rowIn_nil
  | .var n name type value, h => by
    rw [Stmt.frames, List.forall_mem_cons] at h
    obtain ⟨hn, hv⟩ := h
    have hnames := (hn.row.sublist (List.sublist_append_left (name.span :: Name.spans? type) _)).rowIn_each
    have hrow := Row.refine hn.row (List.rel_append hnames (Expr.mentions?_rows value hv))
    rw [List.flatten_append, flatten_singletons] at hrow
    change Row f n.span.start n.span.stop _
    rwa [Stmt.mentions, Mention.spans_cons, Mention.spans_append, Name.spans_mention?, Expr.spans_mentions?]
  | .expr n e, h => by
    rw [Stmt.frames, List.forall_mem_cons] at h
    have hrow := h.1.row.refine (.cons (e.mentions_row h.2) .nil)
    change Row f n.span.start n.span.stop _
    simpa [Stmt.mentions] using hrow
  | .branch n cond body otherwise, h => by
    rw [Stmt.frames, List.forall_mem_cons, List.forall_mem_append, List.forall_mem_append] at h
    obtain ⟨hn, ⟨hc, hb⟩, ho⟩ := h
    obtain ⟨rows, hrows, heq⟩ := otherwise.mentions_rows ho
    have hrow := hn.row.refine (.cons (cond.mentions_row hc) (.cons (body.mentions_row hb) hrows))
    change Row f n.span.start n.span.stop _
    simpa [Stmt.mentions, heq] using hrow
  | .loop n .before cond body, h => by
    rw [Stmt.frames, List.forall_mem_cons, List.forall_mem_append] at h
    obtain ⟨hn, hc, hb⟩ := h
    have hrow := hn.row.refine (.cons (cond.mentions_row hc) (.cons (body.mentions_row hb) .nil))
    change Row f n.span.start n.span.stop _
    simpa [Stmt.mentions] using hrow
  | .loop n .after cond body, h => by
    rw [Stmt.frames, List.forall_mem_cons, List.forall_mem_append] at h
    obtain ⟨hn, hb, hc⟩ := h
    have hrow := hn.row.refine (.cons (body.mentions_row hb) (.cons (cond.mentions_row hc) .nil))
    change Row f n.span.start n.span.stop _
    simpa [Stmt.mentions] using hrow
  | .give n value, h => by
    rw [Stmt.frames, List.forall_mem_cons] at h
    have hrow := h.1.row.refine (Expr.mentions?_rows value h.2)
    change Row f n.span.start n.span.stop _
    rwa [Stmt.mentions, Expr.spans_mentions?]

theorem Block.mentions_row : (b : Block) → (∀ fr ∈ b.frames, fr.Sound f) → RowIn f b.span (spans b.mentions)
  | .mk n stmts, h => by
    rw [Block.frames, List.forall_mem_cons] at h
    have hrow := h.1.row.refine (Stmt.mentionsOf_rows stmts h.2)
    change Row f n.span.start n.span.stop _
    rwa [Block.mentions, Stmt.spans_mentionsOf]

theorem Otherwise.mentions_rows : (o : Otherwise) → (∀ fr ∈ o.frames, fr.Sound f) →
    ∃ rows, List.Forall₂ (RowIn f) o.spans rows ∧ rows.flatten = spans o.mentions
  | .none, _ => ⟨[], .nil, rfl⟩
  | .block body, h => ⟨[_], .cons (body.mentions_row h) .nil, List.append_nil _⟩
  | .chain s, h => ⟨[_], .cons (s.mentions_row h) .nil, List.append_nil _⟩

theorem Stmt.mentionsOf_rows : (ss : List Stmt) → (∀ fr ∈ Stmt.framesOf ss, fr.Sound f) →
    List.Forall₂ (RowIn f) (ss.map Stmt.span) (ss.map fun s => spans s.mentions)
  | [], _ => .nil
  | s :: ss, h => by
    rw [Stmt.framesOf, List.forall_mem_append] at h
    exact .cons (s.mentions_row h.1) (Stmt.mentionsOf_rows ss h.2)

end

theorem spans_flatMap_mentions (ps : List Param) :
    spans (ps.flatMap Param.mentions) = ps.flatMap Param.spans := List.map_flatMap

/-- Tags and names stand in a row in their item. -/
theorem Item.marks_row (i : Item) (h : ∀ fr ∈ i.frames, fr.Sound f) : RowIn f i.span i.marks := by
  cases i with
  | error n => exact (h _ List.mem_cons_self).inFile.rowIn_nil
  | typeAlias a => exact (h _ List.mem_cons_self).row
  | stmt n s =>
    rw [Item.frames, List.forall_mem_cons] at h
    have hrow := h.1.row.refine (.cons (s.mentions_row h.2) .nil)
    rwa [List.flatten_singleton] at hrow
  | function fn =>
    rw [Item.frames, List.forall_mem_cons] at h
    obtain ⟨hn, hb⟩ := h
    have hheld : fn.spans = (fn.tags.map (·.span) ++ fn.name.span ::
        (fn.params.flatMap Param.spans ++ Name.spans? fn.result)) ++ [fn.body.span] := by
      simp [Function.spans]
    have hrow := hn.row
    dsimp only at hrow
    rw [hheld] at hrow
    have hnames := (hrow.sublist (List.sublist_append_left _ _)).rowIn_each
    have hall := hrow.refine (List.rel_append hnames (.cons (fn.body.mentions_row hb) .nil))
    rw [List.flatten_append, flatten_singletons, List.flatten_singleton] at hall
    change Row f fn.node.span.start fn.node.span.stop (fn.tags.map (·.span) ++ spans fn.mentions)
    simpa [Function.mentions, spans_flatMap_mentions, Name.spans_mention?, Name.mention] using hall

/-- The tags and names of a program stand in a row. -/
theorem Program.marks_row {p : Program} (h : Framed f lo hi p.spans p.frames) :
    Row f lo hi (p.items.flatMap Item.marks) := by
  have hitems : List.Forall₂ (RowIn f) (p.items.map Item.span) (p.items.map Item.marks) := by
    rw [List.forall₂_map_left_iff, List.forall₂_map_right_iff, List.forall₂_same]
    exact fun i hi => i.marks_row fun fr hfr => h.sound fr (List.mem_flatMap.mpr ⟨i, hi, hfr⟩)
  exact (h.row.sublist (List.sublist_append_right _ _)).refine hitems

theorem Span.Row.nodup {xs : List Span} (h : Row f lo hi xs) : xs.Nodup := by
  induction xs generalizing lo with
  | nil => exact List.nodup_nil
  | cons x xs ih =>
    obtain ⟨-, -, hpos, hrest⟩ := h
    refine List.nodup_cons.mpr ⟨fun hx => ?_, ih hrest⟩
    have := (hrest.of_mem hx).2.1
    omega

/-- Two spans of a row are the same, or one stands before the other. -/
theorem Span.Row.apart {xs : List Span} (h : Row f lo hi xs) {y : Span} (hx : x ∈ xs) (hy : y ∈ xs) :
    x = y ∨ x.stop ≤ y.start ∨ y.stop ≤ x.start := by
  induction xs generalizing lo with
  | nil => cases hx
  | cons z zs ih =>
    obtain ⟨-, -, -, hrest⟩ := h
    rcases List.mem_cons.mp hx with rfl | hx'
    · rcases List.mem_cons.mp hy with rfl | hy'
      · exact .inl rfl
      · exact .inr (.inl (hrest.of_mem hy').2.1)
    · rcases List.mem_cons.mp hy with rfl | hy'
      · exact .inr (.inr (hrest.of_mem hx').2.1)
      · exact ih hrest hx' hy'

/-- Names that are written at different places, and at other places than tags. -/
structure Program.Spaced (f : File) (p : Program) : Prop where
  inFile : ∀ m ∈ p.mentions, m.span.file = f.id ∧ m.span.start < m.span.stop ∧ m.span.stop ≤ f.size
  nodup : (Mention.spans p.mentions).Nodup
  apart : ∀ m ∈ p.mentions, ∀ k ∈ p.mentions,
    m.span = k.span ∨ m.span.stop ≤ k.span.start ∨ k.span.stop ≤ m.span.start
  tags : ∀ y ∈ p.tagSpans, ∀ m ∈ p.mentions, y.contains m.span = false

theorem Program.spaced {p : Program} (h : Framed f 0 f.size p.spans p.frames) : p.Spaced f := by
  have hrow := Program.marks_row h
  have hperm : (p.tagSpans ++ Mention.spans p.mentions).Perm (p.items.flatMap Item.marks) := by
    have hspans : Mention.spans p.mentions = p.items.flatMap fun i => Mention.spans i.mentions := List.map_flatMap
    rw [hspans]
    exact List.flatMap_append_perm ..
  have hmem : ∀ m ∈ p.mentions, m.span ∈ p.items.flatMap Item.marks := fun m hm =>
    hperm.subset (List.mem_append_right _ (List.mem_map_of_mem hm))
  have hnodup := List.nodup_append.mp (hperm.nodup_iff.mpr hrow.nodup)
  refine ⟨fun m hm => ?_, hnodup.2.1, fun m hm k hk => hrow.apart (hmem m hm) (hmem k hk), fun y hy m hm => ?_⟩
  · obtain ⟨hfile, -, hpos, hhi⟩ := hrow.of_mem (hmem m hm)
    exact ⟨hfile, hpos, hhi⟩
  · have hne := hnodup.2.2 y hy m.span (List.mem_map_of_mem hm)
    have happart := (hrow.apart (hperm.subset (List.mem_append_left _ hy)) (hmem m hm)).resolve_left hne
    have hpos := (hrow.of_mem (hmem m hm)).2.2.1
    simp only [Span.contains, Bool.and_eq_false_iff, decide_eq_false_iff_not]
    omega

/-- What is written at one place is one name. -/
theorem Program.Spaced.eq_of_span {p : Program} (h : p.Spaced f) {m k : Mention} (hm : m ∈ p.mentions)
    (hk : k ∈ p.mentions) (heq : m.span = k.span) : m = k :=
  List.inj_on_of_nodup_map h.nodup hm hk heq

end Rows

end Craftlang
