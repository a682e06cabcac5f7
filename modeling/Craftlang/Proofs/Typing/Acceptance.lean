import Craftlang.Proofs.Syntax.Numbering
import Craftlang.Proofs.Tree.Parts
import Craftlang.Proofs.Typing.Recorded
import Craftlang.Tree.Walk

/-!
# Exactly the well-typed programs are accepted

Typing reports nothing about a program exactly if the program has a derivation. Every expression then has
the type of its derivation, and every variable and parameter holds values of one of the three types.
-/

namespace Craftlang

section

variable {Γ : Assumptions}

/-- The numbers of the nodes that a derivation gives types to. -/
def NodeTypes.Covers (js : NodeTypes) (nodes : List (Node × String)) : Prop :=
  ∀ x ∈ nodes, x.2 ≠ "Var" → ∃ info, (x.1.id, info) ∈ js

namespace NodeTypes

variable {js ks : NodeTypes} {ns ms : List (Node × String)}

theorem Covers.nil (js : NodeTypes) : js.Covers [] := nofun

theorem Covers.mono (h : js.Covers ns) (hsub : js ⊆ ks) : ks.Covers ns := by
  intro x hx hform
  obtain ⟨info, hinfo⟩ := h x hx hform
  exact ⟨info, hsub hinfo⟩

theorem Covers.append (h : js.Covers ns) (h' : ks.Covers ms) : (js ++ ks).Covers (ns ++ ms) := by
  intro x hx hform
  rcases List.mem_append.mp hx with hx | hx
  · exact h.mono (List.subset_append_left _ _) x hx hform
  · exact h'.mono (List.subset_append_right _ _) x hx hform

theorem Covers.cons {n : Node} {form : String} {info : TypeInfo} (h : js.Covers ns)
    (hn : (n.id, info) ∈ js) : js.Covers ((n, form) :: ns) := by
  intro x hx hform
  rcases List.mem_cons.mp hx with rfl | hx
  · exact ⟨info, hn⟩
  · exact h x hx hform

/-- An expression whose own type comes last. -/
theorem Covers.node {n : Node} {form : String} {info : TypeInfo} (h : js.Covers ns) :
    NodeTypes.Covers (js ++ [(n.id, info)]) ((n, form) :: ns) :=
  (h.mono (List.subset_append_left _ _)).cons (List.mem_append_right _ (List.mem_singleton.mpr rfl))

/-- The callee of a call and the target of an assignment are typed just before it. -/
theorem Covers.pair {n k : Node} {form form' : String} {info info' : TypeInfo} (h : js.Covers ns) :
    NodeTypes.Covers (js ++ [(k.id, info), (n.id, info')]) ((n, form) :: (k, form') :: ns) := by
  have hk : (k.id, info) ∈ js ++ [(k.id, info), (n.id, info')] := by simp
  have hn : (n.id, info') ∈ js ++ [(k.id, info), (n.id, info')] := by simp
  exact ((h.mono (List.subset_append_left _ _)).cons hk).cons hn

/-- A declaration is no expression. -/
theorem Covers.var {n : Node} (h : js.Covers ns) : js.Covers ((n, "Var") :: ns) := by
  intro x hx hform
  rcases List.mem_cons.mp hx with rfl | hx
  · exact absurd rfl hform
  · exact h x hx hform

end NodeTypes

open NodeTypes

mutual

/-- A derivation gives a type to every part of an expression. -/
theorem Expr.Derives.covers {ty : Ty} {js : NodeTypes} : {e : Expr} → e.Derives Γ ty js →
    js.Covers e.nodes
  | .error _, h => by cases h
  | .constant n v, h => by
    cases h
    exact (Covers.nil []).node
  | .ident i, h => by
    cases h
    exact (Covers.nil []).node
  | .group n inner, h => by
    cases h with
    | group h => exact h.covers.node
  | .unary n op operand, h => by
    cases h with
    | unary h _ => exact h.covers.node
    | negative _ => exact (Covers.nil []).node.node
  | .binary n op span left right, h => by
    cases h with
    | binary hl hr _ => exact (hl.covers.append hr.covers).node
  | .call n target args, h => by
    cases h with
    | call _ hargs _ => exact hargs.covers.pair
  | .assign n op span i value, h => by
    cases h with
    | assign _ h => exact h.covers.pair
    | update _ _ h _ => exact h.covers.pair

theorem Expr.AllDerive.covers {tys : List Ty} {js : NodeTypes} : {es : List Expr} →
    Expr.AllDerive Γ es tys js → js.Covers (Expr.nodesOfAll es)
  | [], h => Covers.nil js
  | e :: es, h => by
    cases h with
    | cons h hs => exact h.covers.append hs.covers

end

mutual

theorem Stmt.Derives.covers {result : Option Ty} {b : Bool} {js : NodeTypes} : {s : Stmt} →
    s.Derives Γ result b js → js.Covers s.nodes
  | .error _, h => by cases h
  | .var n name type value, h => by
    cases h with
    | declared _ _ _ => exact (Covers.nil []).var
    | annotated _ h _ _ => exact h.covers.var
    | inferred h _ _ _ => exact h.covers.var
  | .expr _ e, h => by
    cases h with
    | expr h => exact h.covers
  | .branch _ cond body otherwise, h => by
    cases h with
    | branch hc hb ho => exact (hc.covers.append hb.covers).append ho.covers
  | .loop _ .before cond body, h => by
    cases h with
    | loopBefore hc hb => exact hc.covers.append hb.covers
  | .loop _ .after cond body, h => by
    cases h with
    | loopAfter hb hc =>
      -- The condition is listed first, although it is typed after the body.
      refine (hc.covers.append hb.covers).mono ?_
      exact List.append_subset.mpr ⟨List.subset_append_right _ _, List.subset_append_left _ _⟩
  | .leave _, _ | .again _, _ | .command .., _ => Covers.nil js
  | .give _ value, h => by
    cases h with
    | give _ => exact Covers.nil []
    | giveValue _ _ h => exact h.covers

theorem Block.Derives.covers {result : Option Ty} {b : Bool} {js : NodeTypes} : {body : Block} →
    body.Derives Γ result b js → js.Covers body.nodes
  | .mk _ ss, h => by
    cases h with
    | mk h => exact h.covers

theorem Stmt.AllDerive.covers {result : Option Ty} {b : Bool} {js : NodeTypes} : {ss : List Stmt} →
    Stmt.AllDerive Γ result b ss js → js.Covers (Stmt.nodesOfAll ss)
  | [], _ => Covers.nil js
  | s :: rest, h => by
    cases h with
    | cons h hrest => exact h.covers.append hrest.covers

theorem Otherwise.Derives.covers {result : Option Ty} {b : Bool} {js : NodeTypes} : {o : Otherwise} →
    o.Derives Γ result b js → js.Covers o.nodes
  | .none, _ => Covers.nil js
  | .block body, h => by
    cases h with
    | block h => exact h.covers
  | .chain s, h => by
    cases h with
    | chain h => exact h.covers

end

theorem Item.Derives.covers {i : Item} {js : NodeTypes} (h : i.Derives Γ js) : js.Covers i.nodes := by
  cases h with
  | function _ _ h _ => exact h.covers
  | typeAlias _ _ => exact Covers.nil []
  | stmt h => exact h.covers

theorem Item.AllDerive.covers {is : List Item} {js : NodeTypes} (h : Item.AllDerive Γ is js) :
    js.Covers (is.flatMap Item.nodes) := by
  induction h with
  | nil => exact Covers.nil []
  | cons h _ ih => exact h.covers.append ih

end

/-- What typing reports are errors. -/
theorem Program.isClean_of_nil {p : Program} {q : Resolution} (h : (p.typed q).diagnostics = []) :
    (p.typed q).IsClean := by
  intro d hd
  rw [h] at hd
  cases hd

/-- What is found out about a program is what a derivation gives: expressions have its types, each
expression one, and every variable and parameter holds values of one of the three types. -/
structure Program.TypedAs (p : Program) (q : Resolution) (js : NodeTypes) : Prop where
  exprs : (p.typed q).exprs = js
  covers : ∀ x ∈ p.nodes, x.2 ≠ "Var" → ∃ info, (x.1.id, info) ∈ js ∧
    (p.typed q).exprs.lookup x.1.id = some info
  values : ∀ y, q.HasKind y .var ∨ q.HasKind y .param →
    ∃ ty ∈ [Ty.int, .bool, .string], (p.typed q).symbols.lookup y = some (.value ty)

theorem Program.Derives.typedAs {p : Program} {q : Resolution} {types : Nat → TypeInfo}
    {js : NodeTypes} (h : p.Derives q types js) (hw : p.isWhole = true) (hids : p.ids.Nodup)
    (hq : q.Settles p) : p.TypedAs q js := by
  obtain ⟨hnone, hexprs⟩ := h.accepted hids hq
  have hclean := Program.isClean_of_nil hnone
  refine ⟨hexprs, fun x hx hform => ?_, fun y hk => ?_⟩
  · obtain ⟨info, hinfo⟩ := h.items.covers x hx hform
    exact ⟨info, hinfo, lookup_eq_some_of_mem (Typing.keys_nodup hq hids hclean) (hexprs ▸ hinfo)⟩
  · obtain ⟨-, hknows⟩ := Program.derives_of_clean hw hids hq hclean
    have hle : y ≤ q.table.symbols.length := by
      rcases hk with ⟨z, hz, -⟩ | ⟨z, hz, -⟩
      · exact (SymbolTable.le_of_symbol? hz).2
      · exact (SymbolTable.le_of_symbol? hz).2
    obtain ⟨ty, hty, hv⟩ := hknows.values y hle hk
    exact ⟨ty, by revert hv; cases ty <;> decide, hty⟩

/-- If a file is parsed to a whole program and its names are resolved without errors, typing reports
nothing exactly if the program is well typed, and then it finds out what the derivation gives. -/
theorem File.typed_silently_iff (file : File) (w : Bool)
    (hw : file.parse.program.isWhole = true) (hr : (file.parse.program.resolve w).IsClean) :
    ((file.parse.program.typed (file.parse.program.resolve w)).diagnostics = [] ↔
      ∃ types js, file.parse.program.Derives (file.parse.program.resolve w) types js) ∧
    ∀ types js, file.parse.program.Derives (file.parse.program.resolve w) types js →
      file.parse.program.TypedAs (file.parse.program.resolve w) js := by
  have hids : file.parse.program.ids.Nodup := Parse.program_nodup file _
  have hq := Program.resolve_settles hids hr
  refine ⟨⟨fun h => ?_, fun ⟨types, js, h⟩ => (h.accepted hids hq).1⟩, fun types js h =>
    h.typedAs hw hids hq⟩
  obtain ⟨⟨js, hd⟩, -⟩ := Program.derives_of_clean hw hids hq (Program.isClean_of_nil h)
  exact ⟨_, js, hd⟩

/-- An alias, a literal that needs its minus sign, and a variable that is declared by assigning. -/
def File.limits : File :=
  ⟨0, "limits.craft", "type n = int\nfun least(a: n): bool\n    return a < -2147483648\nx = least(3)\n", {}⟩

/-- This file is well typed, and its types are those of the derivation. -/
theorem File.derives_limits : limits.parse.program.isWhole = true ∧
    (limits.parse.program.resolve true).IsClean ∧
    ∃ types js, limits.parse.program.Derives (limits.parse.program.resolve true) types js ∧
      limits.parse.program.TypedAs (limits.parse.program.resolve true) js := by
  have h : (limits.parse.program.isWhole && (limits.parse.program.resolve true).diagnostics.isEmpty &&
      (limits.parse.program.typed (limits.parse.program.resolve true)).diagnostics.isEmpty) = true := by
    decide +kernel
  rw [Bool.and_eq_true, Bool.and_eq_true, List.isEmpty_iff, List.isEmpty_iff] at h
  obtain ⟨⟨hw, hresolved⟩, htyped⟩ := h
  have hr : (limits.parse.program.resolve true).IsClean := by
    intro d hd
    rw [hresolved] at hd
    cases hd
  obtain ⟨hiff, htypes⟩ := File.typed_silently_iff limits true hw hr
  obtain ⟨types, js, hd⟩ := hiff.mp htyped
  exact ⟨hw, hr, types, js, hd, htypes types js hd⟩

end Craftlang
