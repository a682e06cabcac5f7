import Craftlang.Proofs.Typing.Denotation

/-!
# Well-typed statements are accepted

If a statement has a derivation, typing it reports nothing and records what the derivation gives. The
statements after it find the types of its variables as the derivation assumes them.
-/

namespace Craftlang.Typing

/-- What is known before a well-typed piece whose names are bound to the first `n` symbols, after which
`m` symbols are declared. -/
structure Prepared (Γ : Assumptions) (n m : Nat) (t : Typing) : Prop where
  agrees : Agrees Γ n t
  clear : Clear Γ.names n m t
  types : KnowsTypes Γ.program Γ.names t
  clean : t.IsClean

/-- What is known after such a piece. -/
structure Completes (Γ : Assumptions) (n m : Nat) (t : Typing) (js : NodeTypes) (t' : Typing) :
    Prop where
  accepts : Accepts t t' js
  agrees : Agrees Γ m t'
  notes : Notes Γ.program Γ.names n m t t'

section

variable {Γ : Assumptions} {n m o : Nat} {t t' t'' : Typing} {js ks : NodeTypes}

theorem Accepts.isClean (h : Accepts t t' js) (hc : t.IsClean) : t'.IsClean :=
  fun d hd => hc d (h.diagnostics ▸ hd)

theorem Prepared.shrink (h : Prepared Γ n o t) (hm : m ≤ o) : Prepared Γ n m t :=
  ⟨h.agrees, h.clear.shrink hm, h.types, h.clean⟩

theorem Prepared.after (h : Prepared Γ n o t) (hc : Completes Γ n m t js t') (hle : n ≤ m) :
    Prepared Γ m o t' :=
  ⟨hc.agrees, h.clear.after hc.notes hle, h.types.after hc.notes, hc.accepts.isClean h.clean⟩

theorem Prepared.same (h : Prepared Γ n m t) (hn : n = m) : Completes Γ n m t [] t :=
  ⟨.refl t, hn ▸ h.agrees, .refl rfl⟩

theorem Completes.seq (h : Completes Γ n m t js t') (h' : Completes Γ m o t' ks t'') (hnm : n ≤ m)
    (hmo : m ≤ o) : Completes Γ n o t (js ++ ks) t'' :=
  ⟨h.accepts.append h'.accepts, h'.agrees, h.notes.seq h'.notes hnm hmo⟩

end

section

variable {p : Program} {c : TypingContext} {types : Nat → TypeInfo} {t : Typing} {n m : Nat}

theorem Grounds.inLoop (h : Grounds p c) : Grounds p { c with inLoop := true } :=
  ⟨h.settles, h.ids, h.aliases⟩

/-- What a type stands for is found, and nothing is recorded but for types. -/
theorem namedType_completes (hg : Grounds p c) {y : Nat} {ty : Ty} (hd : p.Denotes c.resolution y ty)
    (ht : Prepared ⟨p, c.resolution, types⟩ n m t) : (t.namedType c y).2 = ty ∧
      Completes ⟨p, c.resolution, types⟩ n n t [] (t.namedType c y).1 := by
  obtain ⟨hty, haccepts⟩ := namedType_complete hg ht.types hd
  obtain ⟨-, hnotes⟩ := namedType_sound (n := n) (m := n) hg.settles.final.sound hg.fit ht.types
    (hd.hasKind hg.settles.hoists) (haccepts.isClean ht.clean)
  exact ⟨hty, haccepts, ht.agrees.mono (extends_namedType t c y).toPrecedes, hnotes⟩

theorem writtenType_completes (hg : Grounds p c) {type : Name} {ty : Ty}
    (hw : p.Writes c.resolution type ty) (ht : Prepared ⟨p, c.resolution, types⟩ n m t) :
    (t.writtenType c type).2 = ty ∧
      Completes ⟨p, c.resolution, types⟩ n n t [] (t.writtenType c type).1 := by
  obtain ⟨y, hy, hd⟩ := hw
  rw [writtenType, hy]
  exact namedType_completes hg hd ht

theorem exprStmt_completes {e : Expr} {ty : Ty} {js : NodeTypes}
    (hd : e.Derives ⟨p, c.resolution, types⟩ ty js) (hb : Expr.Bound c.resolution n e m)
    (ht : Prepared ⟨p, c.resolution, types⟩ n m t) : (expr c t e).2 = ty ∧
      Completes ⟨p, c.resolution, types⟩ n m t js (expr c t e).1 := by
  have he := expr_complete e hd hb ht.agrees ht.clear
  exact ⟨he.type, he.accepts, he.agrees, notes_expr t e hb⟩

theorem value_completes {e : Expr} {ty : Ty} {js : NodeTypes}
    (hd : e.Derives ⟨p, c.resolution, types⟩ ty js) (hv : ty.isValue = true)
    (hb : Expr.Bound c.resolution n e m) (ht : Prepared ⟨p, c.resolution, types⟩ n m t) :
    (value c t e).2 = ty ∧ Completes ⟨p, c.resolution, types⟩ n m t js (value c t e).1 := by
  have he := expr_complete e hd hb ht.agrees ht.clear
  rw [value, he.consumed_eq hv]
  exact exprStmt_completes hd hb ht

theorem condition_completes {e : Expr} {js : NodeTypes}
    (hd : e.Derives ⟨p, c.resolution, types⟩ .bool js) (hb : Expr.Bound c.resolution n e m)
    (ht : Prepared ⟨p, c.resolution, types⟩ n m t) :
    Completes ⟨p, c.resolution, types⟩ n m t js (condition c t e) := by
  obtain ⟨hty, hvalue⟩ := value_completes hd rfl hb ht
  rw [condition_eq, if_pos (by rw [hty]; rfl)]
  exact hvalue

/-- The next variable is recorded with the type that is assumed. -/
theorem Completes.noteVar {t' : Typing} {js : NodeTypes} {k : Node} {ty : Ty} {y : Nat} {z : Symbol}
    (h : Completes ⟨p, c.resolution, types⟩ n m t js t')
    (ht : Prepared ⟨p, c.resolution, types⟩ n (m + 1) t) (hle : n ≤ m)
    (hdecl : c.resolution.declOf? k.id = some (m + 1)) (hz : c.resolution.table.symbol? (m + 1) = some z)
    (hk : z.kind = .var) (hy : c.resolution.declOf? k.id = some y) (hty : types y = .value ty) :
    Completes ⟨p, c.resolution, types⟩ n (m + 1) t js (t'.noteSymbol (m + 1) (.value ty)) := by
  obtain rfl : m + 1 = y := Option.some.inj (hdecl.symm.trans hy)
  have hkind : c.resolution.HasKind (m + 1) .var := ⟨z, hz, hk⟩
  exact ⟨⟨h.accepts.exprs, h.accepts.diagnostics⟩,
    h.agrees.noteVar (ht.after h hle).clear hkind hty,
    h.notes.seq (.noteVar hkind _) hle (Nat.le_succ _)⟩

theorem variableDecl_completes (hg : Grounds p c) {k : Node} {name : Name} {type : Option Name}
    {init : Option Expr} {result : Option Ty} {b : Bool} {js : NodeTypes}
    (hd : Stmt.Derives ⟨p, c.resolution, types⟩ result b (.var k name type init) js)
    (hb : Stmt.Bound c.resolution n (.var k name type init) m)
    (ht : Prepared ⟨p, c.resolution, types⟩ n m t) :
    Completes ⟨p, c.resolution, types⟩ n m t js (variableDecl c t k name type init) := by
  cases hb with
  | var hn hinit hdecl hz hk =>
    rename_i m z
    have hbefore := ht.shrink (Nat.le_succ m)
    rw [variableDecl_eq, hdecl]
    cases hd with
    | declared hw hy hty =>
      rename_i type _ ty
      cases hinit
      obtain ⟨htype, hcomp⟩ := writtenType_completes hg hw hbefore
      have heq : declaredType c t name (some type) none = t.writtenType c type := rfl
      rw [heq, htype]
      exact hcomp.noteVar ht (Nat.le_refl _) hdecl hz hk hy hty
    | annotated hw hd hy hty =>
      rename_i type e _ ty
      cases hinit with
      | some he =>
        obtain ⟨htype, hcomp⟩ := writtenType_completes hg hw hbefore
        obtain ⟨hvalue, hcomp'⟩ := value_completes hd hw.isValue he (hbefore.after hcomp (Nat.le_refl _))
        have heq : declaredType c t name (some type) (some e) =
            ((value c (t.writtenType c type).1 e).1, (t.writtenType c type).2) := by
          have ha : (t.writtenType c type).2.accepts (value c (t.writtenType c type).1 e).2 = true := by
            rw [htype, hvalue]
            exact Ty.accepts_self hw.isValue
          exact congrArg (·, (t.writtenType c type).2) (if_pos ha)
        rw [heq, htype]
        exact (hcomp.seq hcomp' (Nat.le_refl _) he.le).noteVar ht he.le hdecl hz hk hy hty
    | inferred hd hv hy hty =>
      rename_i e _ ty
      cases hinit with
      | some he =>
        obtain ⟨hvalue, hcomp⟩ := value_completes hd hv he hbefore
        have heq : declaredType c t name none (some e) = value c t e := rfl
        rw [heq, hvalue]
        exact hcomp.noteVar ht he.le hdecl hz hk hy hty

theorem give_completes {k : Node} {value : Option Expr} {b : Bool} {js : NodeTypes}
    (hd : Stmt.Derives ⟨p, c.resolution, types⟩ (resultOf c) b (.give k value) js)
    (hb : Expr.MaybeBound c.resolution n value m) (ht : Prepared ⟨p, c.resolution, types⟩ n m t) :
    Completes ⟨p, c.resolution, types⟩ n m t js (give c t k value) := by
  cases hd with
  | give hresult =>
    obtain ⟨f, hf, hvoid⟩ := Option.map_eq_some_iff.mp hresult
    cases hb
    have heq : give c t k none = t := by
      unfold give
      rw [hf]
      exact if_pos (by rw [hvoid]; rfl)
    rw [heq]
    exact ht.same rfl
  | giveValue hresult hv hd =>
    rename_i e ty
    obtain ⟨f, hf, hty⟩ := Option.map_eq_some_iff.mp hresult
    cases hb with
    | some he =>
      obtain ⟨hvalue, hcomp⟩ := value_completes hd hv he ht
      have hnotVoid : f.result ≠ .void := by
        rw [hty]
        rintro rfl
        cases hv
      have ha : f.result.accepts (Typing.value c t e).2 = true := by
        rw [hty, hvalue]
        exact Ty.accepts_self hv
      rw [give_value hf hnotVoid, if_pos ha]
      exact hcomp

end

section

variable {p : Program} {types : Nat → TypeInfo}

mutual

/-- A statement with a derivation is typed as the derivation says. -/
theorem stmt_complete {c : TypingContext} (hg : Grounds p c) {t : Typing} {n m : Nat}
    {js : NodeTypes} : (s : Stmt) →
    s.Derives ⟨p, c.resolution, types⟩ (resultOf c) c.inLoop js → s.Bound c.resolution n m →
    Prepared ⟨p, c.resolution, types⟩ n m t →
    Completes ⟨p, c.resolution, types⟩ n m t js (stmt c t s)
  | .error _, hd, _, _ => by cases hd
  | .command .., hd, hb, ht => by
    cases hd
    cases hb
    rw [stmt]
    exact ht.same rfl
  | .leave _, hd, hb, ht => by
    cases hd with
    | leave hl =>
      cases hb
      rw [stmt, if_pos hl]
      exact ht.same rfl
  | .again _, hd, hb, ht => by
    cases hd with
    | again hl =>
      cases hb
      rw [stmt, if_pos hl]
      exact ht.same rfl
  | .var k name type init, hd, hb, ht => by
    rw [stmt]
    exact variableDecl_completes hg hd hb ht
  | .expr _ e, hd, hb, ht => by
    cases hd with
    | expr hd =>
      cases hb with
      | expr hb =>
        rw [stmt]
        exact (exprStmt_completes hd hb ht).2
  | .branch _ cond body otherwise, hd, hb, ht => by
    cases hd with
    | branch hdc hdb hdo =>
      cases hb with
      | branch hbc hbb hbo =>
        have hc := condition_completes hdc hbc (ht.shrink (Nat.le_trans hbb.le hbo.le))
        have ht' := ht.after hc hbc.le
        have hbody := block_complete hg body hdb hbb (ht'.shrink hbo.le)
        have hrest := alternative_complete hg otherwise hdo hbo (ht'.after hbody hbb.le)
        rw [stmt]
        exact (hc.seq hbody hbc.le hbb.le).seq hrest (Nat.le_trans hbc.le hbb.le) hbo.le
  | .loop _ .before cond body, hd, hb, ht => by
    cases hd with
    | loopBefore hdc hdb =>
      cases hb with
      | loopBefore hbc hbb =>
        have hc := condition_completes hdc hbc (ht.shrink hbb.le)
        have hbody := block_complete hg.inLoop body hdb hbb (ht.after hc hbc.le)
        rw [stmt]
        exact hc.seq hbody hbc.le hbb.le
  | .loop _ .after cond body, hd, hb, ht => by
    cases hd with
    | loopAfter hdb hdc =>
      cases hb with
      | loopAfter hbb hbc =>
        have hbody := block_complete hg.inLoop body hdb hbb (ht.shrink hbc.le)
        have hc := condition_completes hdc hbc (ht.after hbody hbb.le)
        rw [stmt]
        exact hbody.seq hc hbb.le hbc.le
  | .give k value, hd, hb, ht => by
    cases hb with
    | give hb =>
      rw [stmt]
      exact give_completes hd hb ht

theorem block_complete {c : TypingContext} (hg : Grounds p c) {t : Typing} {n m : Nat}
    {js : NodeTypes} : (b : Block) →
    b.Derives ⟨p, c.resolution, types⟩ (resultOf c) c.inLoop js → b.Bound c.resolution n m →
    Prepared ⟨p, c.resolution, types⟩ n m t →
    Completes ⟨p, c.resolution, types⟩ n m t js (block c t b)
  | .mk _ body, hd, hb, ht => by
    cases hd with
    | mk hd =>
      cases hb with
      | mk hb =>
        rw [block]
        exact stmts_complete hg body hd hb ht

theorem stmts_complete {c : TypingContext} (hg : Grounds p c) {t : Typing} {n m : Nat}
    {js : NodeTypes} : (ss : List Stmt) →
    Stmt.AllDerive ⟨p, c.resolution, types⟩ (resultOf c) c.inLoop ss js →
    Stmt.AllBound c.resolution n ss m → Prepared ⟨p, c.resolution, types⟩ n m t →
    Completes ⟨p, c.resolution, types⟩ n m t js (stmts c t ss)
  | [], hd, hb, ht => by
    cases hd
    cases hb
    rw [stmts]
    exact ht.same rfl
  | s :: rest, hd, hb, ht => by
    cases hd with
    | cons hds hdr =>
      cases hb with
      | cons hbs hbr =>
        have hs := stmt_complete hg s hds hbs (ht.shrink hbr.le)
        have hrest := stmts_complete hg rest hdr hbr (ht.after hs hbs.le)
        rw [stmts]
        exact hs.seq hrest hbs.le hbr.le

theorem alternative_complete {c : TypingContext} (hg : Grounds p c) {t : Typing} {n m : Nat}
    {js : NodeTypes} : (o : Otherwise) →
    o.Derives ⟨p, c.resolution, types⟩ (resultOf c) c.inLoop js → o.Bound c.resolution n m →
    Prepared ⟨p, c.resolution, types⟩ n m t →
    Completes ⟨p, c.resolution, types⟩ n m t js (alternative c t o)
  | .none, hd, hb, ht => by
    cases hd
    cases hb
    rw [alternative]
    exact ht.same rfl
  | .block body, hd, hb, ht => by
    cases hd with
    | block hd =>
      cases hb with
      | block hb =>
        rw [alternative]
        exact block_complete hg body hd hb ht
  | .chain s, hd, hb, ht => by
    cases hd with
    | chain hd =>
      cases hb with
      | chain hb =>
        rw [alternative]
        exact stmt_complete hg s hd hb ht

end

end

end Craftlang.Typing
