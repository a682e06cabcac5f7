import Craftlang.Proofs.Typing.ExprSound

/-!
# Well-typed expressions are accepted

If an expression has a derivation, typing it reports nothing, finds the type of the derivation, and
records for the nodes what the derivation gives them. Before, what is recorded for the first `n` symbols
must be what the derivation assumes, and the same then holds of the symbols that the expression declares.
-/

namespace Craftlang

theorem UnaryOp.Takes.isValue {op : UnaryOp} {s ty : Ty} (h : op.Takes s ty) : s.isValue = true := by
  cases h <;> rfl

theorem BinaryOp.Takes.isValue {op : BinaryOp} {s t ty : Ty} (h : op.Takes s t ty) :
    s.isValue = true ∧ t.isValue = true := by
  cases h with
  | equality _ h => fin_cases h <;> exact ⟨rfl, rfl⟩
  | _ => exact ⟨rfl, rfl⟩

theorem Ty.accepts_self {ty : Ty} (h : ty.isValue = true) : ty.accepts ty = true := by
  cases ty <;> first | rfl | cases h

theorem Ty.Fits.isValue {s ty : Ty} (h : s.Fits ty) : ty.isValue = true := by
  cases h <;> assumption

theorem Ty.Fits.accepts {s ty : Ty} (h : s.Fits ty) : s.accepts ty = true := by
  cases h with
  | same h => exact accepts_self h
  | any h => cases ty <;> first | rfl | cases h

theorem Constant.InRange.mono {a b : Nat} {v : Constant} (h : v.InRange a) (hab : a ≤ b) :
    v.InRange b := by
  cases v with
  | int text =>
    obtain ⟨n, hn, hle⟩ := h
    exact ⟨n, hn, Nat.le_trans hle hab⟩
  | bool b => trivial
  | string s => trivial

namespace Typing

/-- What is recorded for the variables among the first `n` symbols, and for functions, is what a
derivation assumes. -/
structure Agrees (Γ : Assumptions) (n : Nat) (t : Typing) : Prop where
  values : ∀ y ty, y ≤ n → Γ.IsVariable y ty → t.symbols.lookup y = some (.value ty)
  functions : ∀ y s, Γ.names.HasKind y .function → Γ.types y = .function s →
    t.symbols.lookup y = some (.function s)

/-- Types were recorded for nodes, and nothing was reported. -/
structure Accepts (t t' : Typing) (js : NodeTypes) : Prop where
  exprs : t'.exprs = t.exprs ++ js
  diagnostics : t'.diagnostics = t.diagnostics

section

variable {Γ : Assumptions} {n : Nat} {t t' t'' : Typing} {js ks : NodeTypes}

theorem Agrees.mono (h : Agrees Γ n t) (ht : t.Precedes t') : Agrees Γ n t' :=
  ⟨fun y ty hy hv => lookup_of_isPrefix ht.symbols (h.values y ty hy hv),
    fun y s hk hs => lookup_of_isPrefix ht.symbols (h.functions y s hk hs)⟩

/-- The next variable has the type that is assumed. -/
theorem Agrees.noteVar (h : Agrees Γ n t) (hcl : Clear Γ.names n (n + 1) t)
    (hk : Γ.names.HasKind (n + 1) .var) {ty : Ty} (hty : Γ.types (n + 1) = .value ty) :
    Agrees Γ (n + 1) (t.noteSymbol (n + 1) (.value ty)) := by
  have hbefore := h.mono (extends_noteSymbol t (n + 1) (.value ty)).toPrecedes
  refine ⟨fun y ty' hy hv => ?_, hbefore.functions⟩
  by_cases hle : y ≤ n
  · exact hbefore.values y ty' hle hv
  · obtain rfl : y = n + 1 := by omega
    rw [← hv.type, hty]
    exact hcl.lookup_noteSymbol (Nat.lt_succ_self n) (Nat.le_refl _) hk _

theorem Accepts.refl (t : Typing) : Accepts t t [] := ⟨(List.append_nil _).symm, rfl⟩

theorem Accepts.append (h : Accepts t t' js) (h' : Accepts t' t'' ks) : Accepts t t'' (js ++ ks) :=
  ⟨by rw [h'.exprs, h.exprs, List.append_assoc], h'.diagnostics.trans h.diagnostics⟩

theorem Accepts.settle (t : Typing) (k : Node) (ty : Ty) :
    Accepts t (t.settle k ty).1 [(k.id, .value ty)] := ⟨rfl, rfl⟩

theorem Accepts.noteSymbol (t : Typing) (y : Nat) (info : TypeInfo) :
    Accepts t (t.noteSymbol y info) [] := ⟨(List.append_nil _).symm, rfl⟩

end

/-- What typing a well-typed expression comes to. -/
structure ExprComplete (Γ : Assumptions) (m : Nat) (t : Typing) (ty : Ty) (js : NodeTypes)
    (typed : Typing × Ty) : Prop where
  type : typed.2 = ty
  accepts : Accepts t typed.1 js
  agrees : Agrees Γ m typed.1

/-- What typing well-typed arguments comes to. -/
structure ArgumentsComplete (Γ : Assumptions) (m : Nat) (t : Typing) (tys : List Ty) (js : NodeTypes)
    (typed : Typing × List (Span × Ty)) : Prop where
  types : typed.2.map (·.2) = tys
  accepts : Accepts t typed.1 js
  agrees : Agrees Γ m typed.1

/-- A value that is needed is there. -/
theorem ExprComplete.consumed_eq {Γ : Assumptions} {m : Nat} {t : Typing} {ty : Ty} {js : NodeTypes}
    {typed : Typing × Ty} (h : ExprComplete Γ m t ty js typed) (hv : ty.isValue = true) (span : Span) :
    consumed span typed = typed := by
  rw [consumed, h.type, if_neg]
  rintro rfl
  cases hv

section

variable {p : Program} {c : TypingContext} {types : Nat → TypeInfo} {t : Typing} {n m : Nat}

theorem constant_complete {k : Node} {v : Constant} (negated : Bool)
    (h : v.InRange (if negated then largestInt + 1 else largestInt)) :
    t.constant k v negated = t.settle k v.type := by
  cases v with
  | bool b => rfl
  | string s => rfl
  | int text =>
    have hc : t.checkRange k.span text negated = t := by
      obtain ⟨a, ha, hle⟩ := h
      rw [checkRange]
      simp only [ha, if_pos hle]
    rw [constant, hc]

/-- A name that is bound refers to the variable that a derivation takes it for. -/
theorem isVariable_of_holds {i : Ident} {y : Nat} {z : Symbol} {ty : Ty}
    (hi : c.resolution.Binds n i y z) (h : Assumptions.Holds ⟨p, c.resolution, types⟩ i ty) :
    Assumptions.IsVariable ⟨p, c.resolution, types⟩ y ty ∧ (z.kind = .var ∨ z.kind = .param) := by
  obtain ⟨y', hy', hv⟩ := h
  obtain rfl : y = y' := Option.some.inj (hi.ref.symm.trans hy')
  refine ⟨hv, hv.kind.imp (fun hk => ?_) fun hk => ?_⟩
  · exact hk.unique ⟨z, hi.symbol, rfl⟩ ▸ rfl
  · exact hk.unique ⟨z, hi.symbol, rfl⟩ ▸ rfl

theorem ident_complete {i : Ident} {y : Nat} {z : Symbol} {ty : Ty}
    (hi : c.resolution.Binds n i y z) (h : Assumptions.Holds ⟨p, c.resolution, types⟩ i ty)
    (ha : Agrees ⟨p, c.resolution, types⟩ n t) : ident c t i = t.settle i.node ty := by
  obtain ⟨hv, hkind⟩ := isVariable_of_holds hi h
  have hty := typeOfSymbol_eq (ha.values y ty hi.le hv)
  rw [ident, boundTo?_of_binds hi]
  rcases hkind with hkind | hkind <;> simp [hkind, hty]

theorem applyUnary_complete {k : Node} {op : UnaryOp} {s ty : Ty} (h : op.Takes s ty) :
    t.applyUnary k op s = t.settle k ty := by
  rw [applyUnary, if_neg (Ty.ne_invalid h.isValue), UnaryOp.takes_iff.mp h]

theorem applyBinary_complete {k : Node} {op : BinaryOp} {span : Span} {l r ty : Ty}
    (h : op.Takes l r ty) : t.applyBinary k op span l r = t.settle k ty := by
  rw [applyBinary, if_neg (by simp [Ty.ne_invalid h.isValue.1, Ty.ne_invalid h.isValue.2]),
    BinaryOp.takes_iff.mp h]

/-- A value of the type of the target may be assigned, and a compound assignment takes what its operator
takes. -/
theorem checkAssigned_complete {op : AssignOp} {span vspan : Span} {name : Bytes} {target value : Ty}
    (hv : target.isValue = true)
    (h : op.binary? = none ∧ value = target ∨ ∃ b, op.binary? = some b ∧ b.Takes target value target) :
    t.checkAssigned op span name target value vspan = t := by
  rw [checkAssigned]
  split
  · rfl
  · rcases h with ⟨hop, rfl⟩ | ⟨b, hop, hb⟩
    · simp only [hop, Ty.accepts_self hv, if_true]
    · simp only [hop, BinaryOp.takes_iff.mp hb, Option.isSome_some, if_true]

/-- The value of an assignment may be stored in its target. -/
theorem assign_complete {k : Node} {op : AssignOp} {span : Span} {i : Ident} {value : Expr}
    {s ty : Ty} (vspan : Span) (hb : Expr.Bound c.resolution n (.assign k op span i value) m)
    (hi : Assumptions.Holds ⟨p, c.resolution, types⟩ i ty)
    (h : op.binary? = none ∧ s = ty ∨ ∃ b, op.binary? = some b ∧ b.Takes ty s ty)
    (ha : ∀ o, Expr.Bound c.resolution n value o → o ≤ m →
      Agrees ⟨p, c.resolution, types⟩ o t ∧ Clear c.resolution o m t) :
    ExprComplete ⟨p, c.resolution, types⟩ m t ty [(i.node.id, .value ty), (k.id, .value ty)]
      (assign c t k op span i s vspan) := by
  cases hb with
  | assign hvalue hbinds himp =>
    obtain ⟨hv, hkind⟩ := isVariable_of_holds hbinds hi
    obtain ⟨hagrees, -⟩ := ha m hvalue (Nat.le_refl m)
    have hty := typeOfSymbol_eq (hagrees.values _ ty hbinds.le hv)
    have heq : assign c t k op span i s vspan = (t.noteExpr i.node (.value ty)).settle k ty := by
      rw [assign, boundTo?_of_binds hbinds]
      simp only [if_neg fun hl => himp (mem_of_lookup_eq_some hl), decide_eq_true_eq,
        Bool.or_eq_true, if_pos hkind, hty]
      rw [checkAssigned_complete hv.isValue h]
    rw [heq]
    exact ⟨rfl, ⟨by simp [Typing.settle, noteExpr], rfl⟩, hagrees.values, hagrees.functions⟩
  | declare hvalue hbinds hkind himp =>
    rename_i o z
    obtain ⟨hv, -⟩ := isVariable_of_holds hbinds hi
    obtain ⟨hagrees, hclear⟩ := ha o hvalue (Nat.le_succ o)
    obtain rfl : s = ty := by
      rcases h with ⟨-, heq⟩ | ⟨b, hop, -⟩
      · exact heq
      · cases hop
    have heq : assign c t k .set span i s vspan =
        (((t.noteSymbol (o + 1) (.value s)).noteExpr i.node (.value s)).settle k s) := by
      rw [assign, boundTo?_of_binds hbinds]
      simp only [if_pos himp]
    have hnext := hagrees.noteVar hclear ⟨z, hbinds.symbol, hkind⟩ hv.type
    rw [heq]
    exact ⟨rfl, ⟨by simp [Typing.settle, noteExpr, noteSymbol], rfl⟩, hnext.values, hnext.functions⟩

theorem checkArguments_complete {name : Bytes} {place : Nat} {params : List Ty}
    {args : List (Span × Ty)} (h : List.Forall₂ Ty.Fits params (args.map (·.2))) :
    t.checkArguments name place params args = t := by
  induction params generalizing place args with
  | nil => rw [checkArguments.eq_def]
  | cons param params ih =>
    cases args with
    | nil => cases h
    | cons arg args =>
      cases h with
      | cons hfirst hrest =>
        rw [checkArguments]
        simp only [hfirst.accepts, if_true]
        exact ih hrest

theorem isValue_of_allFit {params tys : List Ty} (h : List.Forall₂ Ty.Fits params tys) :
    ∀ ty ∈ tys, ty.isValue = true := by
  induction h with
  | nil => exact nofun
  | cons hfirst _ ih => exact List.forall_mem_cons.mpr ⟨hfirst.isValue, ih⟩

/-- A call by name of a function that takes the arguments. -/
theorem call_complete {k : Node} {i : Ident} {y : Nat} {z : Symbol} {s : Signature}
    {args : List (Span × Ty)} (hi : c.resolution.Binds n i y z)
    (hs : Assumptions.Calls ⟨p, c.resolution, types⟩ i s)
    (hargs : List.Forall₂ Ty.Fits s.params (args.map (·.2)))
    (ha : Agrees ⟨p, c.resolution, types⟩ m t) :
    ExprComplete ⟨p, c.resolution, types⟩ m t s.result
      [(i.node.id, .function s), (k.id, .value s.result)]
      ((namedCallee c t i).1.applyCall k (namedCallee c t i).2 args) := by
  obtain ⟨y', hy', hk, htype⟩ := hs
  obtain rfl : y = y' := Option.some.inj (hi.ref.symm.trans hy')
  have hkind : z.kind = .function := hk.unique ⟨z, hi.symbol, rfl⟩ ▸ rfl
  have hcallee : namedCallee c t i = (t.noteExpr i.node (.function s), some (z.name, s)) := by
    rw [namedCallee, boundTo?_of_binds hi]
    simp [hkind, signatureOf?, ha.functions y s hk htype]
  have hlen : args.length = s.params.length := by
    rw [hargs.length_eq, List.length_map]
  rw [hcallee, applyCall, if_pos hlen, checkArguments_complete hargs]
  exact ⟨rfl, ⟨by simp [Typing.settle, noteExpr], rfl⟩, ha.values, ha.functions⟩

mutual

/-- An expression with a derivation is typed as the derivation says. -/
theorem expr_complete {t : Typing} {n m : Nat} {ty : Ty} {js : NodeTypes} : (e : Expr) →
    e.Derives ⟨p, c.resolution, types⟩ ty js → Expr.Bound c.resolution n e m →
    Agrees ⟨p, c.resolution, types⟩ n t → Clear c.resolution n m t →
    ExprComplete ⟨p, c.resolution, types⟩ m t ty js (expr c t e)
  | .error _, hd, _, _, _ => by cases hd
  | .constant k v, hd, hb, ha, _ => by
    cases hd with
    | constant hv =>
      cases hb
      rw [expr, constant_complete false hv]
      exact ⟨rfl, .settle t k _, ha.mono (extends_settle t k _).toPrecedes⟩
  | .ident i, hd, hb, ha, _ => by
    cases hd with
    | ident h =>
      cases hb with
      | ident hi =>
        rw [expr, ident_complete hi h ha]
        exact ⟨rfl, .settle t i.node _, ha.mono (extends_settle t i.node _).toPrecedes⟩
  | .group k inner, hd, hb, ha, hcl => by
    cases hd with
    | group hd =>
      cases hb with
      | group hb =>
        have hinner := expr_complete inner hd hb ha hcl
        rw [expr]
        exact ⟨hinner.type, hinner.accepts.append (hinner.type ▸ .settle _ k _),
          hinner.agrees.mono (extends_settle _ k _).toPrecedes⟩
  | .unary k op operand, hd, hb, ha, hcl => by
    cases hb with
    | unary hb =>
      rw [expr_unary]
      cases hd with
      | negative hv =>
        cases hb
        rw [Typing.operand, constant_complete true hv]
        exact ⟨rfl, (Accepts.settle t _ _).append (.settle _ k _),
          (ha.mono (extends_settle t _ _).toPrecedes).mono (extends_settle _ k _).toPrecedes⟩
      | unary hd htakes =>
        rcases operand_cases c t op operand with heq | ⟨l, text, rfl, rfl, heq⟩
        · have ho := expr_complete operand hd hb ha hcl
          rw [heq, ho.consumed_eq htakes.isValue, ho.type, applyUnary_complete htakes]
          exact ⟨rfl, ho.accepts.append (.settle _ k _),
            ho.agrees.mono (extends_settle _ k _).toPrecedes⟩
        · cases hb
          cases hd with
          | constant hv =>
            rw [heq, constant_complete true (hv.mono (Nat.le_succ _)), Typing.settle,
              applyUnary_complete htakes]
            exact ⟨rfl, (Accepts.settle t l _).append (.settle _ k _),
              (ha.mono (extends_settle t l _).toPrecedes).mono (extends_settle _ k _).toPrecedes⟩
  | .binary k op span left right, hd, hb, ha, hcl => by
    cases hb with
    | binary hbl hbr =>
      cases hd with
      | binary hdl hdr htakes =>
        have hl := expr_complete left hdl hbl ha (hcl.shrink hbr.le)
        have hr := expr_complete right hdr hbr hl.agrees
          (hcl.after (notes_expr (p := p) t left hbl) hbl.le)
        have hvalue := htakes.isValue
        rw [expr_binary]
        dsimp only
        rw [hl.consumed_eq hvalue.1, hr.consumed_eq hvalue.2, hl.type, hr.type,
          applyBinary_complete htakes]
        exact ⟨rfl, (hl.accepts.append hr.accepts).append (.settle _ k _),
          hr.agrees.mono (extends_settle _ k _).toPrecedes⟩
  | .call k target args, hd, hb, ha, hcl => by
    cases hd with
    | call hs hdargs hfits =>
      cases hb with
      | call hbt hbargs =>
        cases hbt with
        | ident hi =>
          have hargs := arguments_complete args hdargs hbargs ha hcl (isValue_of_allFit hfits)
          rw [← hargs.types] at hfits
          have hcall := call_complete (k := k) hi hs hfits hargs.agrees
          rw [expr_call_ident]
          exact ⟨hcall.type, hargs.accepts.append hcall.accepts, hcall.agrees⟩
  | .assign k op span i value, hd, hb, ha, hcl => by
    -- The value is typed in the same way whatever is done with it.
    have hvalue : ∀ s ks, value.Derives ⟨p, c.resolution, types⟩ s ks → s.isValue = true →
        (op.binary? = none ∧ s = ty ∨ ∃ b, op.binary? = some b ∧ b.Takes ty s ty) →
        Assumptions.Holds ⟨p, c.resolution, types⟩ i ty →
        ExprComplete ⟨p, c.resolution, types⟩ m t ty
          (ks ++ [(i.node.id, .value ty), (k.id, .value ty)]) (expr c t (.assign k op span i value)) := by
      intro s ks hd hv hop hi
      have hbound : ∃ o, Expr.Bound c.resolution n value o ∧ o ≤ m := by
        cases hb with
        | assign hb _ _ => exact ⟨_, hb, Nat.le_refl _⟩
        | declare hb _ _ _ => exact ⟨_, hb, Nat.le_succ _⟩
      obtain ⟨o, hbo, hom⟩ := hbound
      have hfirst := expr_complete value hd hbo ha (hcl.shrink hom)
      rw [expr_assign]
      dsimp only
      rw [hfirst.consumed_eq hv, hfirst.type]
      have hassign := assign_complete (t := (expr c t value).1) (s := s) value.span hb hi hop
        fun o hbo hom => ⟨(expr_complete value hd hbo ha (hcl.shrink hom)).agrees,
          hcl.after (notes_expr (p := p) t value hbo) hbo.le⟩
      exact ⟨hassign.type, hfirst.accepts.append hassign.accepts, hassign.agrees⟩
    cases hd with
    | assign hi hd =>
      obtain ⟨y, -, hv⟩ := id hi
      exact hvalue ty _ hd hv.isValue (.inl ⟨rfl, rfl⟩) hi
    | update hop hi hd htakes => exact hvalue _ _ hd htakes.isValue.2 (.inr ⟨_, hop, htakes⟩) hi

theorem arguments_complete {t : Typing} {n m : Nat} {tys : List Ty} {js : NodeTypes} :
    (es : List Expr) → Expr.AllDerive ⟨p, c.resolution, types⟩ es tys js →
    Expr.AllBound c.resolution n es m → Agrees ⟨p, c.resolution, types⟩ n t →
    Clear c.resolution n m t → (∀ ty ∈ tys, ty.isValue = true) →
    ArgumentsComplete ⟨p, c.resolution, types⟩ m t tys js (arguments c t es)
  | [], hd, hb, ha, _, _ => by
    cases hd
    cases hb
    rw [arguments]
    exact ⟨rfl, .refl t, ha⟩
  | e :: es, hd, hb, ha, hcl, hv => by
    cases hd with
    | cons hde hdes =>
      cases hb with
      | cons hbe hbes =>
        rw [List.forall_mem_cons] at hv
        have he := expr_complete e hde hbe ha (hcl.shrink hbes.le)
        have hes := arguments_complete es hdes hbes he.agrees
          (hcl.after (notes_expr (p := p) t e hbe) hbe.le) hv.2
        rw [arguments_cons]
        dsimp only
        rw [he.consumed_eq hv.1]
        exact ⟨by rw [List.map_cons, he.type, hes.types], he.accepts.append hes.accepts, hes.agrees⟩

end

end

end Typing

end Craftlang
