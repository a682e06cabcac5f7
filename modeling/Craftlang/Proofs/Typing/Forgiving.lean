import Craftlang.Proofs.Typing.Fading

/-!
# Programs in which a type has faded

Statements, signatures and bodies take what has faded as they take its type, so a well-typed program in which
one name is written wrong is typed without a report.
-/

namespace Craftlang

/-! ## Where a function returns -/

section

variable (ρ : Relabelling)

theorem Expr.unwrap_relabel : (e : Expr) → (e.relabel ρ).unwrap = e.unwrap.relabel ρ
  | .group _ inner => inner.unwrap_relabel
  | .error _ | .constant .. | .ident _ | .binary .. | .unary .. | .call .. | .assign .. => rfl

theorem Expr.isTrue_relabel (e : Expr) : (e.relabel ρ).isTrue = e.isTrue := by
  rw [isTrue, isTrue, unwrap_relabel]
  cases e.unwrap with
  | constant n v =>
    cases v with
    | bool b => cases b <;> rfl
    | _ => rfl
  | _ => rfl

mutual

theorem Stmt.mayLeave_relabel : (s : Stmt) → (s.relabel ρ).mayLeave = s.mayLeave
  | .branch n cond body otherwise => by
    rw [Stmt.relabel, Stmt.mayLeave, Stmt.mayLeave, body.mayLeave_relabel, otherwise.mayLeave_relabel]
  | .error _ | .var .. | .expr .. | .loop .. | .leave _ | .again _ | .give .. | .command .. => rfl

theorem Block.mayLeave_relabel : (b : Block) → (b.relabel ρ).mayLeave = b.mayLeave
  | .mk n body => by rw [Block.relabel, Block.mayLeave, Block.mayLeave, Stmt.anyMayLeave_relabel body]

theorem Stmt.anyMayLeave_relabel : (ss : List Stmt) →
    Stmt.anyMayLeave (Stmt.relabelAll ρ ss) = Stmt.anyMayLeave ss
  | [] => rfl
  | s :: rest => by
    rw [Stmt.relabelAll, Stmt.anyMayLeave, Stmt.anyMayLeave, s.mayLeave_relabel, Stmt.anyMayLeave_relabel rest]

theorem Otherwise.mayLeave_relabel : (o : Otherwise) → (o.relabel ρ).mayLeave = o.mayLeave
  | .none => rfl
  | .block body => by rw [Otherwise.relabel, Otherwise.mayLeave, Otherwise.mayLeave, body.mayLeave_relabel]
  | .chain s => by rw [Otherwise.relabel, Otherwise.mayLeave, Otherwise.mayLeave, s.mayLeave_relabel]

end

mutual

theorem Stmt.isClosed_relabel : (s : Stmt) → (s.relabel ρ).isClosed = s.isClosed
  | .branch n cond body otherwise => by
    rw [Stmt.relabel, Stmt.isClosed, Stmt.isClosed, body.isClosed_relabel, otherwise.isClosed_relabel]
  | .loop n .before cond body => by
    rw [Stmt.relabel, Stmt.isClosed, Stmt.isClosed, cond.isTrue_relabel, body.mayLeave_relabel]
  | .loop n .after cond body => by
    rw [Stmt.relabel, Stmt.isClosed, Stmt.isClosed, cond.isTrue_relabel, body.mayLeave_relabel, body.isClosed_relabel]
  | .error _ | .var .. | .expr .. | .leave _ | .again _ | .give .. | .command .. => rfl

theorem Block.isClosed_relabel : (b : Block) → (b.relabel ρ).isClosed = b.isClosed
  | .mk n body => by rw [Block.relabel, Block.isClosed, Block.isClosed, Stmt.anyIsClosed_relabel body]

theorem Stmt.anyIsClosed_relabel : (ss : List Stmt) →
    Stmt.anyIsClosed (Stmt.relabelAll ρ ss) = Stmt.anyIsClosed ss
  | [] => rfl
  | s :: rest => by
    rw [Stmt.relabelAll, Stmt.anyIsClosed, Stmt.anyIsClosed, s.isClosed_relabel, Stmt.anyIsClosed_relabel rest]

theorem Otherwise.isClosed_relabel : (o : Otherwise) → (o.relabel ρ).isClosed = o.isClosed
  | .none => rfl
  | .block body => by rw [Otherwise.relabel, Otherwise.isClosed, Otherwise.isClosed, body.isClosed_relabel]
  | .chain s => by rw [Otherwise.relabel, Otherwise.isClosed, Otherwise.isClosed, s.isClosed_relabel]

end

/-- The parts of a tag are not written anew. -/
theorem Function.TagsFit.relabel {f : Function} (h : f.TagsFit) : (f.relabel ρ).TagsFit := by
  refine ⟨fun tag htag => ?_, fun hne => ?_⟩
  · obtain ⟨own, hown, rfl⟩ := List.mem_map.mp htag
    exact h.locations own hown
  · have hparams := h.params fun hnil => hne (congrArg (List.map _) hnil)
    exact congrArg (List.map ρ.param) hparams

theorem Item.functionsOf_relabel (is : List Item) :
    Item.functionsOf (is.map (Item.relabel ρ)) = (Item.functionsOf is).map (Function.relabel ρ) := by
  rw [Item.functionsOf, Item.functionsOf, List.filterMap_map, List.map_filterMap]
  refine congrArg (List.filterMap · is) (funext fun i => ?_)
  cases i <;> rfl

end

namespace Typing

section

variable {p : Program} {σ : Misspelling p} {q : Resolution} {types : Nat → TypeInfo} {c : TypingContext}
variable {t : Typing}

/-! ## Statements -/

theorem condition_fades (h : σ.Setting q c) (ht : t.Faded ⟨p, q, types⟩) {e : Expr} {js : NodeTypes}
    (hd : e.Derives ⟨p, q, types⟩ .bool js) : (condition c t (e.relabel σ.moves)).Faded ⟨p, q, types⟩ := by
  have hvalue := value_fades h ht hd rfl
  have hfits : (decide ((value c t (e.relabel σ.moves)).2 = .invalid) ||
      decide ((value c t (e.relabel σ.moves)).2 = .bool)) = true := by
    rw [Bool.or_eq_true, decide_eq_true_eq, decide_eq_true_eq]
    exact hvalue.type.symm
  rw [condition_eq, if_pos hfits]
  exact hvalue.faded

theorem variableDecl_fades (h : σ.Setting q c) (ht : t.Faded ⟨p, q, types⟩) {k : Node} {name : Name}
    {type : Option Name} {init : Option Expr} {result : Option Ty} {b : Bool} {js : NodeTypes}
    (hd : Stmt.Derives ⟨p, q, types⟩ result b (.var k name type init) js) :
    (variableDecl c t (σ.moves.node k) (σ.moves.name name) (type.map σ.moves.name)
      (init.map (Expr.relabel σ.moves))).Faded ⟨p, q, types⟩ := by
  have hnote : ∀ {y : Nat} {ty : Ty}, q.declOf? k.id = some y → types y = .value ty →
      FadesTo ⟨p, q, types⟩ ty (declaredType c t (σ.moves.name name) (type.map σ.moves.name)
        (init.map (Expr.relabel σ.moves))) →
      (variableDecl c t (σ.moves.node k) (σ.moves.name name) (type.map σ.moves.name)
        (init.map (Expr.relabel σ.moves))).Faded ⟨p, q, types⟩ := by
    intro y ty hy hty hdeclared
    have hdecl : c.resolution.declOf? (σ.moves.node k).id = some y := by
      rw [← hy, Resolution.declOf?, Resolution.declOf?, h.blurs.decls]
      rfl
    rw [variableDecl_eq, hdecl]
    refine hdeclared.faded.noteValue h.settles (h.apart.decls _ (mem_of_lookup_eq_some hy)) ?_
    change (types y).Fades _
    rw [hty]
    exact hdeclared.type
  cases hd with
  | declared hw hy hty => exact hnote hy hty (writtenType_fades h ht hw)
  | annotated hw hd hy hty =>
    rename_i type e y ty
    have htype := writtenType_fades h ht hw
    have hvalue := value_fades h htype.faded hd hw.isValue
    have heq : declaredType c t (σ.moves.name name) (some (σ.moves.name type)) (some (e.relabel σ.moves)) =
        ((value c (t.writtenType c (σ.moves.name type)).1 (e.relabel σ.moves)).1,
          (t.writtenType c (σ.moves.name type)).2) :=
      congrArg (·, (t.writtenType c (σ.moves.name type)).2)
        (if_pos (Ty.accepts_faded hw.isValue htype.type hvalue.type))
    have hfades : FadesTo ⟨p, q, types⟩ ty
        ((value c (t.writtenType c (σ.moves.name type)).1 (e.relabel σ.moves)).1,
          (t.writtenType c (σ.moves.name type)).2) := ⟨hvalue.faded, htype.type⟩
    exact hnote hy hty (hfades.of_eq heq)
  | inferred hd hv hy hty => exact hnote hy hty (value_fades h ht hd hv)

/-- The function around a statement has the result of a derivation, or one that has faded. -/
def Gives (c : TypingContext) (result : Option Ty) : Prop :=
  ∀ ty, result = some ty → ∃ f, c.function = some f ∧ ty.Fades f.result

theorem give_fades (h : σ.Setting q c) (ht : t.Faded ⟨p, q, types⟩) {k : Node} {value : Option Expr}
    {result : Option Ty} {b : Bool} {js : NodeTypes} (hr : Gives c result)
    (hd : Stmt.Derives ⟨p, q, types⟩ result b (.give k value) js) :
    (give c t (σ.moves.node k) (value.map (Expr.relabel σ.moves))).Faded ⟨p, q, types⟩ := by
  cases hd with
  | give hresult =>
    obtain ⟨f, hf, hfades⟩ := hr _ hresult
    have heq : give c t (σ.moves.node k) none = t := by
      unfold give
      rw [hf]
      refine if_pos ?_
      rw [Bool.or_eq_true, decide_eq_true_eq, decide_eq_true_eq]
      exact hfades
    rw [Option.map_none, heq]
    exact ht
  | giveValue hresult hv hd =>
    obtain ⟨f, hf, hfades⟩ := hr _ hresult
    have hvalue := value_fades h ht hd hv
    rw [Option.map_some, give_value hf (hfades.ne_void hv), if_pos (Ty.accepts_faded hv hfades hvalue.type)]
    exact hvalue.faded

end

section

variable {p : Program} {σ : Misspelling p} {q : Resolution} {types : Nat → TypeInfo} {result : Option Ty}

mutual

/-- A statement with a derivation is taken as it was. -/
theorem stmt_fades {c : TypingContext} (h : σ.Setting q c) (hr : Gives c result) {t : Typing} {b : Bool}
    (hb : b = true → c.inLoop = true) {js : NodeTypes} : (s : Stmt) → s.Derives ⟨p, q, types⟩ result b js →
    t.Faded ⟨p, q, types⟩ → (stmt c t (s.relabel σ.moves)).Faded ⟨p, q, types⟩
  | .error _, hd, _ => by cases hd
  | .command .., _, ht => by
    rw [Stmt.relabel, stmt]
    exact ht
  | .leave _, hd, ht => by
    cases hd with
    | leave hl =>
      rw [Stmt.relabel, stmt, if_pos (hb hl)]
      exact ht
  | .again _, hd, ht => by
    cases hd with
    | again hl =>
      rw [Stmt.relabel, stmt, if_pos (hb hl)]
      exact ht
  | .var k name type init, hd, ht => by
    rw [Stmt.relabel, stmt]
    exact variableDecl_fades h ht hd
  | .expr _ e, hd, ht => by
    cases hd with
    | expr hd =>
      rw [Stmt.relabel, stmt]
      exact (expr_fades h e hd ht).faded
  | .branch _ cond body otherwise, hd, ht => by
    cases hd with
    | branch hdc hdb hdo =>
      rw [Stmt.relabel, stmt]
      exact alternative_fades h hr hb otherwise hdo (block_fades h hr hb body hdb (condition_fades h ht hdc))
  | .loop _ .before cond body, hd, ht => by
    cases hd with
    | loopBefore hdc hdb =>
      rw [Stmt.relabel, stmt]
      exact block_fades h.inLoop hr (fun _ => rfl) body hdb (condition_fades h ht hdc)
  | .loop _ .after cond body, hd, ht => by
    cases hd with
    | loopAfter hdb hdc =>
      rw [Stmt.relabel, stmt]
      exact condition_fades h (block_fades h.inLoop hr (fun _ => rfl) body hdb ht) hdc
  | .give k value, hd, ht => by
    rw [Stmt.relabel, stmt]
    exact give_fades h ht hr hd

theorem block_fades {c : TypingContext} (h : σ.Setting q c) (hr : Gives c result) {t : Typing} {b : Bool}
    (hb : b = true → c.inLoop = true) {js : NodeTypes} : (body : Block) →
    body.Derives ⟨p, q, types⟩ result b js → t.Faded ⟨p, q, types⟩ →
    (block c t (body.relabel σ.moves)).Faded ⟨p, q, types⟩
  | .mk _ ss, hd, ht => by
    cases hd with
    | mk hd =>
      rw [Block.relabel, block]
      exact stmts_fades h hr hb ss hd ht

theorem stmts_fades {c : TypingContext} (h : σ.Setting q c) (hr : Gives c result) {t : Typing} {b : Bool}
    (hb : b = true → c.inLoop = true) {js : NodeTypes} : (ss : List Stmt) →
    Stmt.AllDerive ⟨p, q, types⟩ result b ss js → t.Faded ⟨p, q, types⟩ →
    (stmts c t (Stmt.relabelAll σ.moves ss)).Faded ⟨p, q, types⟩
  | [], _, ht => by
    rw [Stmt.relabelAll, stmts]
    exact ht
  | s :: rest, hd, ht => by
    cases hd with
    | cons hds hdr =>
      rw [Stmt.relabelAll, stmts]
      exact stmts_fades h hr hb rest hdr (stmt_fades h hr hb s hds ht)

theorem alternative_fades {c : TypingContext} (h : σ.Setting q c) (hr : Gives c result) {t : Typing} {b : Bool}
    (hb : b = true → c.inLoop = true) {js : NodeTypes} : (o : Otherwise) →
    o.Derives ⟨p, q, types⟩ result b js → t.Faded ⟨p, q, types⟩ →
    (alternative c t (o.relabel σ.moves)).Faded ⟨p, q, types⟩
  | .none, _, ht => by
    rw [Otherwise.relabel, alternative]
    exact ht
  | .block body, hd, ht => by
    cases hd with
    | block hd =>
      rw [Otherwise.relabel, alternative]
      exact block_fades h hr hb body hd ht
  | .chain s, hd, ht => by
    cases hd with
    | chain hd =>
      rw [Otherwise.relabel, alternative]
      exact stmt_fades h hr hb s hd ht

end

end

/-! ## Signatures -/

section

variable {p : Program} {σ : Misspelling p} {q : Resolution} {types : Nat → TypeInfo} {c : TypingContext}

theorem namesOf_relabel (h : σ.Setting q c) (f : Function) :
    c.resolution.namesOf (f.relabel σ.moves) = q.namesOf f := by
  rw [Resolution.namesOf, Resolution.namesOf, Resolution.itemOf?, Resolution.itemOf?, h.blurs.items]
  rfl

theorem paramTypes_fades (h : σ.Setting q c) {ps : List Param} {tys : List Ty} (hw : ParamsWritten p q ps tys)
    {t : Typing} (ht : t.Faded ⟨p, q, types⟩) {ys : List Nat} (hkinds : ∀ y ∈ ys, q.HasKind y .param)
    (hys : ys.map types = tys.map .value) :
    (paramTypes c t (ps.map σ.moves.param) ys).1.Faded ⟨p, q, types⟩ ∧
      List.Forall₂ Ty.Fades tys (paramTypes c t (ps.map σ.moves.param) ys).2 := by
  induction hw generalizing t ys with
  | nil => exact ⟨ht, .nil⟩
  | cons hw _ ih =>
    rename_i x ty ps tys _
    cases ys with
    | nil => cases hys
    | cons y ys =>
      rw [List.forall_mem_cons] at hkinds
      obtain ⟨hy, hys⟩ := List.cons.inj hys
      have hx := writtenType_fades h ht hw
      have hnot : ¬ q.HasKind y .type := by
        intro hk
        cases hk.unique hkinds.1
      have hinfo : (types y).Fades (.value (t.writtenType c (σ.moves.name x.type)).2) := by
        rw [hy]
        exact hx.type
      obtain ⟨hfaded, htypes⟩ := ih (hx.faded.noteValue h.settles hnot hinfo) hkinds.2 hys
      exact ⟨hfaded, .cons hx.type htypes⟩

theorem signature_fades (h : σ.Setting q c) {t : Typing} (ht : t.Faded ⟨p, q, types⟩) {f : Function}
    {s : Signature} (hf : q.Declares f) (hs : f.Signed ⟨p, q, types⟩ s) :
    (signature c t (f.relabel σ.moves)).1.Faded ⟨p, q, types⟩ ∧
      (TypeInfo.function s).Fades (.function (signature c t (f.relabel σ.moves)).2) := by
  obtain ⟨hparams, htypes⟩ := paramTypes_fades h hs.written ht hf.kinds hs.params
  have hnames := namesOf_relabel h f
  have hresult := hs.result
  cases hr : f.result with
  | none =>
    have heq : signature c t (f.relabel σ.moves) =
        ((paramTypes c t (f.params.map σ.moves.param) (q.namesOf f).params).1,
          ⟨(paramTypes c t (f.params.map σ.moves.param) (q.namesOf f).params).2, .void⟩) := by
      rw [signature, hnames, show (f.relabel σ.moves).result = none from congrArg (Option.map _) hr]
      rfl
    rw [hr] at hresult
    rw [heq]
    refine ⟨hparams, htypes, ?_⟩
    rcases hresult.void_or_isValue with ⟨-, hvoid⟩ | ⟨hsome, -⟩
    · rw [hvoid]
      exact .refl .void
    · cases hsome
  | some type =>
    have heq : signature c t (f.relabel σ.moves) =
        (((paramTypes c t (f.params.map σ.moves.param) (q.namesOf f).params).1.writtenType c
            (σ.moves.name type)).1,
          ⟨(paramTypes c t (f.params.map σ.moves.param) (q.namesOf f).params).2,
            ((paramTypes c t (f.params.map σ.moves.param) (q.namesOf f).params).1.writtenType c
              (σ.moves.name type)).2⟩) := by
      rw [signature, hnames, show (f.relabel σ.moves).result = some (σ.moves.name type) from congrArg (Option.map _) hr]
      rfl
    rw [hr] at hresult
    have hw : p.Writes q type s.result := by
      generalize s.result = ty at hresult
      cases hresult
      assumption
    have htype := writtenType_fades h hparams hw
    rw [heq]
    exact ⟨htype.faded, htypes, htype.type⟩

theorem declareFunction_fades (h : σ.Setting q c) {t : Typing} (ht : t.Faded ⟨p, q, types⟩) {f : Function}
    {s : Signature} (hf : q.Declares f) (hs : f.Signed ⟨p, q, types⟩ s) (htags : f.TagsFit) :
    (declareFunction c t (f.relabel σ.moves)).Faded ⟨p, q, types⟩ := by
  obtain ⟨hfaded, hsignature⟩ := signature_fades h ht hf hs
  have hnames := namesOf_relabel h f
  have hinfo : (types (q.namesOf f).symbol).Fades (.function (signature c t (f.relabel σ.moves)).2) := by
    rw [show types (q.namesOf f).symbol = .function s from hs.symbol]
    exact hsignature
  have hnot : ¬ q.HasKind (q.namesOf f).symbol .type := by
    obtain ⟨z, hz, hk, -⟩ := hf.symbol
    intro hkind
    cases hkind.unique ⟨z, hz, hk⟩
  have hsigned : (signed c t (f.relabel σ.moves)).Faded ⟨p, q, types⟩ := by
    rw [signed, hnames]
    exact hfaded.noteValue h.settles hnot hinfo
  rw [declareFunction_steps, checkTagged_complete (htags.relabel σ.moves),
    tags_complete (htags.relabel σ.moves).locations]
  refine ⟨hsigned.silent, hsigned.values, hsigned.types, fun g hg k hk => ?_⟩
  rcases List.mem_append.mp hg with hg | hg
  · exact hsigned.functions g hg k hk
  · rw [List.mem_singleton.mp hg] at hk ⊢
    have hsame : q.namesOf k = q.namesOf f := by
      have hid : f.node.id = k.node.id := hk
      rw [Resolution.namesOf, Resolution.namesOf, hid]
    change (types (q.namesOf k).symbol).Fades _
    rw [hsame]
    exact hinfo

/-! ## Items -/

theorem function_fades (h : σ.Setting q c) {t : Typing} (ht : t.Faded ⟨p, q, types⟩) {f : Function}
    {js : NodeTypes} (hd : Item.Derives ⟨p, q, types⟩ (.function f) js) :
    (function c t (f.relabel σ.moves)).Faded ⟨p, q, types⟩ := by
  cases hd with
  | function hs _ hbody hreturns =>
    rename_i s _
    rw [function]
    split
    · exact ht
    · rename_i info hfind
      have hitem : info.item = (f.relabel σ.moves).node.id := by simpa using List.find?_some hfind
      have hfades := ht.functions info (List.mem_of_find?_eq_some hfind) f hitem
      rw [hs.symbol] at hfades
      have hresult : s.result.Fades info.result := hfades.2
      have hsetting : σ.Setting q { c with function := some info } :=
        ⟨h.settles, h.ids, h.apart, h.blurs, h.aliases⟩
      have hgives : Gives { c with function := some info } (some s.result) := by
        intro ty hty
        obtain rfl := Option.some.inj hty
        exact ⟨info, rfl, hresult⟩
      have hblock := block_fades hsetting hgives (fun hb => absurd hb Bool.false_ne_true) f.body hbody ht
      have hclosed : (decide (info.result = .void) || decide (info.result = .invalid) ||
          (f.relabel σ.moves).body.isClosed) = true := by
        rw [Bool.or_eq_true, Bool.or_eq_true, decide_eq_true_eq, decide_eq_true_eq]
        rcases hreturns with hvoid | hreturns
        · exact .inl (hvoid ▸ hresult)
        · exact .inr ((f.body.isClosed_relabel σ.moves).trans ((Block.returns_iff f.body).mp hreturns))
      dsimp only
      rw [if_pos hclosed]
      exact hblock

theorem item_fades (h : σ.Setting q c) {t : Typing} (ht : t.Faded ⟨p, q, types⟩) {i : Item} {js : NodeTypes}
    (hd : i.Derives ⟨p, q, types⟩ js) : (item c t (i.relabel σ.moves)).Faded ⟨p, q, types⟩ := by
  cases i with
  | error n => cases hd
  | function f => exact function_fades h ht hd
  | stmt n s =>
    cases hd with
    | stmt hd =>
      have hgives : Gives c none := nofun
      exact stmt_fades h hgives (fun hb => absurd hb Bool.false_ne_true) s hd ht
  | typeAlias a =>
    cases hd with
    | typeAlias hi hd =>
      rename_i e ty
      have hsymbol : ((c.resolution.itemOf? (a.relabel σ.moves).node.id).map (·.symbol)).getD 0 = e.symbol := by
        have hitem : c.resolution.itemOf? (a.relabel σ.moves).node.id = some e := by
          rw [← hi, Resolution.itemOf?, Resolution.itemOf?, h.blurs.items]
          rfl
        rw [hitem]
        rfl
      rw [Item.relabel, item, hsymbol]
      exact (namedType_fades h ht hd).faded

/-- Only the name for output has a type before the items are typed. -/
theorem start_faded (h : σ.Setting q c) (hprint : ∀ y, q.table.findLocal? SymbolTable.outermost "print" = some y →
    types y = .function ⟨[.any], .void⟩) : (start c.resolution).Faded ⟨p, q, types⟩ := by
  have hfind : q.table.findLocal? SymbolTable.outermost "print" = some 5 :=
    h.settles.final.sound.provided.found _ _ _ (by decide)
  obtain ⟨z, hz, hk, -⟩ := h.settles.symbol?_print
  have hnot : ¬ q.HasKind 5 .type := by
    intro hkind
    cases hkind.unique ⟨z, hz, hk⟩
  have hempty : ({} : Typing).Faded ⟨p, q, types⟩ := ⟨rfl, nofun, nofun, nofun⟩
  rw [start, SymbolTable.findLocal?_congr h.blurs.table, hfind]
  refine hempty.noteValue h.settles hnot ?_
  change (types 5).Fades _
  rw [hprint 5 hfind]
  exact ⟨.cons (.refl .any) .nil, .refl .void⟩

theorem declareFunctions_fades (h : σ.Setting q c) {js : NodeTypes} (hd : p.Derives q types js)
    {fs : List Function} (hfs : ∀ f ∈ fs, f ∈ p.functions) (ht : t.Faded ⟨p, q, types⟩) :
    ((fs.map (Function.relabel σ.moves)).foldl (declareFunction c) t).Faded ⟨p, q, types⟩ := by
  induction fs generalizing t with
  | nil => exact ht
  | cons f fs ih =>
    rw [List.forall_mem_cons] at hfs
    obtain ⟨ks, hf, -⟩ := hd.items.exists_derives (Item.mem_functionsOf.mp hfs.1)
    cases hf with
    | function hs htags _ _ =>
      exact ih hfs.2 (declareFunction_fades h ht (h.settles.declares hfs.1) hs htags)

theorem items_fades (h : σ.Setting q c) {js : NodeTypes} (hd : p.Derives q types js) {is : List Item}
    (his : ∀ i ∈ is, i ∈ p.items) (ht : t.Faded ⟨p, q, types⟩) :
    ((is.map (Item.relabel σ.moves)).foldl (item c) t).Faded ⟨p, q, types⟩ := by
  induction is generalizing t with
  | nil => exact ht
  | cons i is ih =>
    rw [List.forall_mem_cons] at his
    obtain ⟨ks, hi, -⟩ := hd.items.exists_derives his.1
    exact ih his.2 (item_fades h ht hi)

end

end Typing

open Typing

namespace Misspelling

variable {p : Program} (σ : Misspelling p)

/-- In a well-typed program in which one name is written wrong nothing is reported about types. -/
theorem typed_silent {q r : Resolution} (hq : q.Settles p) (hids : p.ids.Nodup) (hapart : q.TellsApart p)
    {types : Nat → TypeInfo} {js : NodeTypes} (hd : p.Derives q types js) (hb : σ.Blurs q r) {p' : Program}
    (hitems : p'.items = p.items.map (Item.relabel σ.moves)) : (p'.typed r).diagnostics = [] := by
  have h : σ.Setting q (itemContext p' r) := ⟨hq, hids, hapart, hb, p', hitems, rfl⟩
  have hfunctions : p'.functions = p.functions.map (Function.relabel σ.moves) := by
    change Item.functionsOf p'.items = (Item.functionsOf p.items).map _
    rw [hitems, Item.functionsOf_relabel]
  have hdeclared : (p'.declared r).Faded ⟨p, q, types⟩ := by
    rw [Program.declared, hfunctions]
    exact declareFunctions_fades h hd (fun _ hf => hf) (start_faded h hd.print)
  rw [p'.typed_eq, hitems]
  exact (items_fades h hd (fun _ hi => hi) hdeclared).silent

end Misspelling

end Craftlang
