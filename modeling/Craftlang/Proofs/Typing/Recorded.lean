import Craftlang.Proofs.Typing.ProgramComplete
import Craftlang.Proofs.Typing.Rules

/-!
# Accepted programs are well typed by their records

The types that a derivation gives to nodes are those that are recorded, so a program in which typing
reports nothing is well typed by what is recorded about it.
-/

namespace Craftlang

open Resolution

namespace Typing

/-- A function can be called with values of its types: it prints, or it is declared. -/
inductive Callable (c : EmissionContext) (y : Nat) : Signature → Prop
  | print : Emission.isPrint c y = true → Callable c y ⟨[.any], .void⟩
  | declared {f : FunctionInfo} : Emission.isPrint c y = false → f ∈ c.typing.functions →
    f.symbol = y → (∀ ty ∈ f.signature.params, ty.isValue = true) → Callable c y f.signature

/-- Types that are known at the end: no node has two types, no symbol stands for two functions, and what
has the type of a function can be called. -/
structure Settled (q : Resolution) (u : Typing) : Prop where
  exprs : (u.exprs.map (·.1)).Nodup
  functions : (u.functions.map (·.symbol)).Nodup
  callable : ∀ y s, q.HasKind y .function → u.types y = .function s → Callable ⟨q, u⟩ y s

section

variable {p : Program} {q : Resolution} {u : Typing}

theorem typeOfSymbol_of_types {y : Nat} {ty : Ty} (h : u.types y = .value ty) :
    u.typeOfSymbol y = ty := by
  rw [types] at h
  rw [typeOfSymbol]
  cases hl : u.symbols.lookup y with
  | none =>
    rw [hl] at h
    exact TypeInfo.value.inj h
  | some info =>
    rw [hl] at h
    obtain rfl : info = .value ty := h
    rfl

/-- What was recorded for a node is found in the end. -/
theorem Settled.records (hu : u.Settled q) {n : Node} {ty : Ty} {js : NodeTypes} (hj : js ⊆ u.exprs)
    (h : (n.id, TypeInfo.value ty) ∈ js) : EmissionContext.Records ⟨q, u⟩ n ty := by
  have hl := lookup_eq_some_of_mem hu.exprs (hj h)
  simp [EmissionContext.Records, typeOfExpr, hl]

theorem isVariable_of_recorded {i : Ident} {ty : Ty}
    (h : Assumptions.Holds ⟨p, q, u.types⟩ i ty) : ∃ y, EmissionContext.IsVariable ⟨q, u⟩ i y ty := by
  obtain ⟨y, hy, hv⟩ := h
  exact ⟨y, hy, typeOfSymbol_of_types hv.type, hv.isValue⟩

/-- Values that fit parameters of types of values have their types. -/
theorem eq_of_allFit {params tys : List Ty} (hp : ∀ ty ∈ params, ty.isValue = true)
    (h : List.Forall₂ Ty.Fits params tys) : tys = params := by
  induction h with
  | nil => rfl
  | cons hfirst _ ih =>
    rw [List.forall_mem_cons] at hp
    rw [ih hp.2]
    cases hfirst with
    | same _ => rfl
    | any _ => cases hp.1

theorem fits_of_inRange {v : Constant} {limit : Nat} (h : v.InRange limit)
    (hl : limit ≤ largestInt + 1) : v.Fits := by
  cases v with
  | int text => exact h.mono hl
  | bool b => trivial
  | string s => trivial

mutual

/-- A derivation gives the types that are recorded. -/
theorem hasType_of_derives (hu : u.Settled q) {ty : Ty} {js : NodeTypes} : (e : Expr) →
    e.Derives ⟨p, q, u.types⟩ ty js → js ⊆ u.exprs → e.HasType ⟨q, u⟩ ty
  | .error _, hd, _ => by cases hd
  | .constant n v, hd, hj => by
    cases hd with
    | constant hv =>
      exact .constant (fits_of_inRange hv (Nat.le_succ _)) (hu.records hj (List.mem_singleton.mpr rfl))
  | .ident i, hd, hj => by
    cases hd with
    | ident hi =>
      obtain ⟨y, hy⟩ := isVariable_of_recorded hi
      exact .ident hy (hu.records hj (List.mem_singleton.mpr rfl))
  | .group n inner, hd, hj => by
    cases hd with
    | group hd =>
      rw [List.append_subset] at hj
      exact .group (hasType_of_derives hu inner hd hj.1) (hu.records hj.2 (List.mem_singleton.mpr rfl))
  | .unary n op operand, hd, hj => by
    cases hd with
    | unary hd htakes =>
      rw [List.append_subset] at hj
      exact .unary (hasType_of_derives hu operand hd hj.1) (UnaryOp.takes_iff.mp htakes)
        (hu.records hj.2 (List.mem_singleton.mpr rfl))
    | negative hv =>
      refine .unary (s := .int) (.constant (fits_of_inRange hv (Nat.le_refl _)) ?_) rfl ?_
      · exact hu.records hj (List.mem_cons_self ..)
      · exact hu.records hj (List.mem_cons_of_mem _ (List.mem_singleton.mpr rfl))
  | .binary n op span left right, hd, hj => by
    cases hd with
    | binary hl hr htakes =>
      rw [List.append_subset, List.append_subset] at hj
      exact .binary (hasType_of_derives hu left hl hj.1.1) (hasType_of_derives hu right hr hj.1.2)
        (BinaryOp.takes_iff.mp htakes) (hu.records hj.2 (List.mem_singleton.mpr rfl))
  | .call n target args, hd, hj => by
    cases hd with
    | call hs hd hfits =>
      rename_i i s tys js
      rw [List.append_subset] at hj
      have hargs := haveTypes_of_derive hu args hd hj.1
      have hrecord : EmissionContext.Records ⟨q, u⟩ n s.result :=
        hu.records hj.2 (List.mem_cons_of_mem _ (List.mem_singleton.mpr rfl))
      obtain ⟨y, hy, hk, htype⟩ := hs
      cases hu.callable y s hk htype with
      | print hprint =>
        cases hfits with
        | cons hfirst hrest =>
          cases hrest
          cases hargs with
          | cons he hnil =>
            cases hnil
            exact .print hy hprint he hfirst.isValue hrecord
      | declared hprint hf hsymbol hparams =>
        rename_i f
        subst hsymbol
        rw [eq_of_allFit hparams hfits] at hargs
        exact .call hy hprint (find?_eq_some_of_mem hu.functions hf) hargs hrecord
  | .assign n op span i value, hd, hj => by
    have hrecord : ∀ {ks}, (n.id, TypeInfo.value ty) ∈ ks → ks ⊆ u.exprs →
        EmissionContext.Records ⟨q, u⟩ n ty := fun h hsub => hu.records hsub h
    cases hd with
    | assign hi hd =>
      rw [List.append_subset] at hj
      obtain ⟨y, hy⟩ := isVariable_of_recorded hi
      exact .assign (hasType_of_derives hu value hd hj.1) hy
        (hrecord (List.mem_cons_of_mem _ (List.mem_singleton.mpr rfl)) hj.2)
    | update hop hi hd htakes =>
      rw [List.append_subset] at hj
      obtain ⟨y, hy⟩ := isVariable_of_recorded hi
      exact .update hop (hasType_of_derives hu value hd hj.1) hy (BinaryOp.takes_iff.mp htakes)
        (hrecord (List.mem_cons_of_mem _ (List.mem_singleton.mpr rfl)) hj.2)

theorem haveTypes_of_derive (hu : u.Settled q) {tys : List Ty} {js : NodeTypes} : (es : List Expr) →
    Expr.AllDerive ⟨p, q, u.types⟩ es tys js → js ⊆ u.exprs → Expr.HaveTypes ⟨q, u⟩ es tys
  | [], hd, _ => by
    cases hd
    exact .nil
  | e :: es, hd, hj => by
    cases hd with
    | cons hd hds =>
      rw [List.append_subset] at hj
      exact .cons (hasType_of_derives hu e hd hj.1) (haveTypes_of_derive hu es hds hj.2)

end

mutual

theorem stmt_typed_of_derives (hu : u.Settled q) {result : Option Ty} {b : Bool} {js : NodeTypes} :
    (s : Stmt) → s.Derives ⟨p, q, u.types⟩ result b js → js ⊆ u.exprs →
    s.Typed ⟨q, u⟩ result b
  | .error _, hd, _ => by cases hd
  | .var n name type value, hd, hj => by
    have hvar : ∀ {y ty}, q.declOf? n.id = some y → u.types y = .value ty → ty.isValue = true →
        Expr.MaybeHasType ⟨q, u⟩ value ty → Stmt.Typed ⟨q, u⟩ result b (.var n name type value) := by
      intro y ty hy htype hv hvalue
      obtain rfl := typeOfSymbol_of_types htype
      exact .var hy hv hvalue
    cases hd with
    | declared hw hy htype => exact hvar hy htype hw.isValue .none
    | annotated hw hd hy htype =>
      exact hvar hy htype hw.isValue (.some (hasType_of_derives hu _ hd hj))
    | inferred hd hv hy htype => exact hvar hy htype hv (.some (hasType_of_derives hu _ hd hj))
  | .expr _ e, hd, hj => by
    cases hd with
    | expr hd => exact .expr (hasType_of_derives hu e hd hj)
  | .branch _ cond body otherwise, hd, hj => by
    cases hd with
    | branch hc hb ho =>
      rw [List.append_subset, List.append_subset] at hj
      exact .branch (hasType_of_derives hu cond hc hj.1.1) (block_typed_of_derives hu body hb hj.1.2)
        (otherwise_typed_of_derives hu otherwise ho hj.2)
  | .loop _ .before cond body, hd, hj => by
    cases hd with
    | loopBefore hc hb =>
      rw [List.append_subset] at hj
      exact .loop (hasType_of_derives hu cond hc hj.1) (block_typed_of_derives hu body hb hj.2)
  | .loop _ .after cond body, hd, hj => by
    cases hd with
    | loopAfter hb hc =>
      rw [List.append_subset] at hj
      exact .loop (hasType_of_derives hu cond hc hj.2) (block_typed_of_derives hu body hb hj.1)
  | .leave _, hd, _ => by
    cases hd with
    | leave hb =>
      subst hb
      exact .leave
  | .again _, hd, _ => by
    cases hd with
    | again hb =>
      subst hb
      exact .again
  | .give _ value, hd, hj => by
    cases hd with
    | give hr => exact .give hr
    | giveValue hr hv hd => exact .giveValue hr hv (hasType_of_derives hu _ hd hj)
  | .command .., _, _ => .command

theorem block_typed_of_derives (hu : u.Settled q) {result : Option Ty} {b : Bool} {js : NodeTypes} :
    (body : Block) → body.Derives ⟨p, q, u.types⟩ result b js → js ⊆ u.exprs →
    body.Typed ⟨q, u⟩ result b
  | .mk _ ss, hd, hj => by
    cases hd with
    | mk hd => exact .mk (stmts_typed_of_derive hu ss hd hj)

theorem stmts_typed_of_derive (hu : u.Settled q) {result : Option Ty} {b : Bool} {js : NodeTypes} :
    (ss : List Stmt) → Stmt.AllDerive ⟨p, q, u.types⟩ result b ss js → js ⊆ u.exprs →
    Stmt.AllTyped ⟨q, u⟩ result b ss
  | [], _, _ => .nil
  | s :: rest, hd, hj => by
    cases hd with
    | cons hs hrest =>
      rw [List.append_subset] at hj
      exact .cons (stmt_typed_of_derives hu s hs hj.1) (stmts_typed_of_derive hu rest hrest hj.2)

theorem otherwise_typed_of_derives (hu : u.Settled q) {result : Option Ty} {b : Bool}
    {js : NodeTypes} : (o : Otherwise) → o.Derives ⟨p, q, u.types⟩ result b js → js ⊆ u.exprs →
    o.Typed ⟨q, u⟩ result b
  | .none, _, _ => .none
  | .block body, hd, hj => by
    cases hd with
    | block hd => exact .block (block_typed_of_derives hu body hd hj)
  | .chain s, hd, hj => by
    cases hd with
    | chain hd => exact .chain (stmt_typed_of_derives hu s hd hj)

end

/-- When all items are typed, functions can be called. -/
theorem Opened.callable {t : Typing} (h : Opened p q t u) {y : Nat} {s : Signature}
    (hk : q.HasKind y .function) (hs : u.types y = .function s) : Callable ⟨q, u⟩ y s := by
  rcases h.settles.exists_function hk with rfl | ⟨f, hf, rfl⟩
  · obtain ⟨z, hz, -, hb, hname⟩ := h.settles.symbol?_print
    rw [types_eq h.declared.print h.precedes] at hs
    cases hs
    refine .print ?_
    rw [Emission.isPrint, hz]
    simp [hname, hb]
  · obtain ⟨info, hinfo, hd, -⟩ := h.declared.info h.ids hf
    obtain ⟨z, hz, -, hb⟩ := (h.settles.declares hf).symbol
    rw [← hd.symbol, types_eq hd.signature h.precedes] at hs
    cases hs
    refine .declared ?_ (h.precedes.functions ▸ hinfo) hd.symbol hd.params.isValue
    rw [Emission.isPrint, hz]
    simp [hb]

/-- No node is typed twice. -/
theorem keys_nodup (hq : q.Settles p) (hids : p.ids.Nodup) (hc : (p.typed q).IsClean) :
    ((p.typed q).exprs.map (·.1)).Nodup := by
  have hkeys := (extends_items (itemContext p q) (p.declared q) p.items).keys
  rw [(Program.opened hids hq hc).declared.exprs] at hkeys
  exact hkeys.nodup hids

end

end Typing

theorem Stmt.allTyped_of_forall {c : EmissionContext} {result : Option Ty} {b : Bool} {ss : List Stmt}
    (h : ∀ s ∈ ss, Stmt.Typed c result b s) : Stmt.AllTyped c result b ss := by
  induction ss with
  | nil => exact .nil
  | cons s ss ih =>
    rw [List.forall_mem_cons] at h
    exact .cons h.1 (ih h.2)

theorem forall₂_imp_of_mem {α β : Type} {R S : α → β → Prop} {as : List α} {bs : List β}
    (h : List.Forall₂ R as bs) (hrs : ∀ a ∈ as, ∀ b ∈ bs, R a b → S a b) : List.Forall₂ S as bs := by
  induction h with
  | nil => exact .nil
  | cons hab _ ih =>
    refine .cons (hrs _ (List.mem_cons_self ..) _ (List.mem_cons_self ..) hab) (ih fun a ha b hb => ?_)
    exact hrs a (List.mem_cons_of_mem _ ha) b (List.mem_cons_of_mem _ hb)

open Typing

/-- What is known at the end of typing without errors is settled. -/
theorem Program.typed_settled {p : Program} {q : Resolution} (hids : p.ids.Nodup) (hq : q.Settles p)
    (hc : (p.typed q).IsClean) : (p.typed q).Settled q := by
  have hopened := Program.opened hids hq hc
  refine ⟨keys_nodup hq hids hc, ?_, fun y s hk hs => hopened.callable hk hs⟩
  rw [← hopened.precedes.functions]
  exact hopened.declared.symbols_nodup hq hids

/-- Typing a program whose names are settled, without errors, gives it types. -/
theorem Program.typed_sound {p : Program} {q : Resolution} (hw : p.isWhole = true) (hids : p.ids.Nodup)
    (hq : q.Settles p) (hc : (p.typed q).IsClean) : p.Typed ⟨q, p.typed q⟩ := by
  have hopened := Program.opened hids hq hc
  obtain ⟨⟨js, hderives⟩, -⟩ := Program.derives_of_clean hw hids hq hc
  obtain ⟨-, hexprs⟩ := hderives.accepted hids hq
  have hsettled := Program.typed_settled hids hq hc
  refine ⟨?_, hsettled.functions, Stmt.allTyped_of_forall fun s hs => ?_⟩
  · change List.Forall₂ _ p.functions (p.typed q).functions
    rw [← hopened.precedes.functions]
    refine forall₂_imp_of_mem hopened.declared.functions fun f hf info hinfo hd => ?_
    obtain ⟨ks, hitem, hsub⟩ := hderives.items.exists_derives (Item.mem_functionsOf.mp hf)
    have hd := hd.mono hopened.precedes.symbols
    obtain ⟨n, hb, -⟩ := hq.bound
    have hparams : (q.namesOf f).params.Nodup := (List.nodup_flatMap.mp hb.params.1).1 f hf
    refine ⟨hd.item, hd.name, ⟨_, (hq.declares hf).item, hd.symbol.symm, hd.names.symm⟩, hd.names ▸ hparams,
      hd.params.types, hd.params.isValue, hd.result.void_or_isValue, ?_⟩
    cases hitem with
    | function hs _ hbody _ =>
      rw [← hd.signature_eq hq hids hs] at hbody
      exact block_typed_of_derives hsettled f.body hbody (hexprs ▸ hsub)
  · obtain ⟨i, hi, hs⟩ := List.mem_filterMap.mp hs
    cases i with
    | stmt k s' =>
      cases hs
      obtain ⟨ks, hitem, hsub⟩ := hderives.items.exists_derives hi
      cases hitem with
      | stmt hd => exact stmt_typed_of_derives hsettled s hd (hexprs ▸ hsub)
    | error k => cases hs
    | function f => cases hs
    | typeAlias a => cases hs

end Craftlang
