import Craftlang.Proofs.Tree.Parts
import Craftlang.Proofs.Typing.Knowledge

/-!
# Expressions that are accepted are well typed

If typing an expression reports nothing, the expression has the type that is found for it. What has to
be known before is that all variables among the first `n` symbols have types, where the names of the
expression are bound to these and to what the expression declares itself.
-/

namespace Craftlang

/-- A compound assignment changes no type. -/
theorem AssignOp.result?_of_binary? {op : AssignOp} {b : BinaryOp} (hb : op.binary? = some b) {s t : Ty}
    (h : (b.result? t s).isSome = true) : b.result? t s = some t := by
  cases op <;> cases hb <;> cases t <;> cases s <;> cases h <;> rfl

theorem AssignOp.eq_set {op : AssignOp} (h : op.binary? = none) : op = .set := by
  cases op <;> first | rfl | cases h

namespace Ty

theorem ne_invalid {ty : Ty} (h : ty.isValue = true) : ty ≠ .invalid := by
  rintro rfl
  cases h

theorem eq_of_accepts {s t : Ty} (hs : s.isValue = true) (ht : t.isValue = true)
    (h : s.accepts t = true) : s = t := by
  cases s <;> cases t <;> simp_all [isValue, accepts]

end Ty

/-- Names stand for variables, parameters, types and functions. -/
theorem Resolution.Sound.kind {p : Program} {q : Resolution} (h : q.Sound p) {y : Nat} {z : Symbol}
    (hz : q.table.symbol? y = some z) (hy : y ≠ SymbolTable.errorSymbol) :
    z.kind = .var ∨ z.kind = .param ∨ z.kind = .type ∨ z.kind = .function := by
  rcases h.origin y z hz with hs | ⟨-, hk | ⟨hk, -⟩ | hk | ⟨hk, -⟩⟩
  · have hs := SymbolTable.symbol?_start hs
    simp only [List.mem_cons, Prod.mk.injEq, List.not_mem_nil, or_false] at hs
    rcases hs with hs | hs | hs | hs | hs
    · exact absurd hs.1 hy
    all_goals simp [hs]
  · exact .inl hk
  · exact .inr (.inl hk)
  · exact .inr (.inr (.inl hk))
  · exact .inr (.inr (.inr hk))

namespace Typing

/-- The types of symbols, as a derivation assumes them. -/
def types (u : Typing) (y : Nat) : TypeInfo := (u.symbols.lookup y).getD (.value .invalid)

section

variable {u t : Typing} {p : Program} {q : Resolution}

theorem IsClean.not_report (hu : u.IsClean) {problem : TypeProblem} {span : Span}
    {notes : List Note} : ¬ (t.report problem span notes).Precedes u :=
  fun h => not_isClean_report (h.isClean hu)

theorem IsClean.not_reportSettle (hu : u.IsClean) {problem : TypeProblem} {span : Span}
    {notes : List Note} {n : Node} {ty : Ty} :
    ¬ ((t.report problem span notes).settle n ty).1.Precedes u :=
  fun h => hu.not_report ((extends_settle _ n ty).toPrecedes.trans h)

/-- A value that is needed is there. -/
theorem IsClean.consumed (hu : u.IsClean) {span : Span} {typed : Typing × Ty}
    (h : (consumed span typed).1.Precedes u) : Typing.consumed span typed = typed ∧ typed.2 ≠ .void := by
  by_cases hv : typed.2 = .void
  · rw [Typing.consumed, if_pos hv] at h
    exact absurd h hu.not_report
  · exact ⟨by rw [Typing.consumed, if_neg hv], hv⟩

theorem typeOfSymbol_eq {y : Nat} {ty : Ty} (h : t.symbols.lookup y = some (.value ty)) :
    t.typeOfSymbol y = ty := by rw [typeOfSymbol, h]

/-- What was recorded for a symbol is found in the end. -/
theorem types_eq {y : Nat} {info : TypeInfo} (hl : t.symbols.lookup y = some info)
    (h : t.Precedes u) : u.types y = info := by
  rw [types, lookup_of_isPrefix h.symbols hl]
  rfl

/-- A variable has the type that was recorded for it. -/
theorem holds_of_binds {n : Nat} {i : Ident} {y : Nat} {z : Symbol} {ty : Ty}
    (hi : q.Binds n i y z) (hkind : z.kind = .var ∨ z.kind = .param)
    (hl : t.symbols.lookup y = some (.value ty)) (hv : ty.isValue = true) (h : t.Precedes u) :
    Assumptions.Holds ⟨p, q, u.types⟩ i ty :=
  ⟨y, hi.ref, hkind.imp (fun hkind => ⟨z, hi.symbol, hkind⟩) fun hkind => ⟨z, hi.symbol, hkind⟩,
    types_eq hl h, hv⟩

end

/-- What typing an expression comes to: it has the type that is found, which is that of a value unless
there is none, and the variables that it declares have types. -/
structure ExprSound (p : Program) (q : Resolution) (m : Nat) (u : Typing) (e : Expr)
    (typed : Typing × Ty) : Prop where
  type : ∃ js, e.Derives ⟨p, q, u.types⟩ typed.2 js
  value : typed.2.isValue = true ∨ typed.2 = .void
  knows : Knows q m typed.1

/-- What typing arguments comes to. -/
structure ArgumentsSound (p : Program) (q : Resolution) (m : Nat) (u : Typing) (es : List Expr)
    (typed : Typing × List (Span × Ty)) : Prop where
  types : ∃ js, Expr.AllDerive ⟨p, q, u.types⟩ es (typed.2.map (·.2)) js
  values : ∀ ty ∈ typed.2.map (·.2), ty.isValue = true
  knows : Knows q m typed.1

theorem ExprSound.isValue {p : Program} {q : Resolution} {m : Nat} {u : Typing} {e : Expr}
    {typed : Typing × Ty} (h : ExprSound p q m u e typed) (hv : typed.2 ≠ .void) : typed.2.isValue = true :=
  h.value.resolve_right hv

section

variable {p : Program} {c : TypingContext} {u t : Typing} {n m : Nat}

/-- A literal about which nothing is reported is in range. -/
theorem inRange_of_constant (hu : u.IsClean) {k : Node} {v : Constant} {negated : Bool}
    (h : (t.constant k v negated).1.Precedes u) :
    v.InRange (if negated then largestInt + 1 else largestInt) := by
  cases v with
  | bool b => trivial
  | string s => trivial
  | int text =>
    have hc : (t.checkRange k.span text negated).Precedes u :=
      (extends_settle _ k .int).toPrecedes.trans h
    rw [checkRange] at hc
    generalize (if negated then largestInt + 1 else largestInt) = limit at hc
    split at hc
    · rename_i a ha
      split at hc
      · exact ⟨a, ha, by assumption⟩
      · exact absurd hc hu.not_report
    · exact absurd hc hu.not_report

theorem constant_sound (hu : u.IsClean) {k : Node} {v : Constant} (hk : Knows c.resolution n t)
    (h : (t.constant k v false).1.Precedes u) :
    ExprSound p c.resolution n u (.constant k v) (t.constant k v false) := by
  refine ⟨⟨_, .constant (inRange_of_constant hu h)⟩, .inl ?_,
    hk.mono (extends_constant t k v false).toPrecedes⟩
  cases v <;> rfl

/-- A literal directly under a minus sign. -/
theorem negative_sound (hu : u.IsClean) {k l : Node} {text : Bytes} (hk : Knows c.resolution n t)
    (h : (t.constant l (.int text) true).1.Precedes u) :
    ExprSound p c.resolution n u (.unary k .minus (.constant l (.int text)))
      ((t.constant l (.int text) true).1.applyUnary k .minus .int) :=
  ⟨⟨_, .negative (inRange_of_constant hu h)⟩, .inl rfl, (hk.mono
    (extends_constant t l (.int text) true).toPrecedes).mono (extends_applyUnary _ k .minus _).toPrecedes⟩

theorem ident_sound (hq : c.resolution.Sound p) (hu : u.IsClean) {i : Ident} {y : Nat} {z : Symbol}
    (hi : c.resolution.Binds n i y z) (hk : Knows c.resolution n t)
    (h : (ident c t i).1.Precedes u) : ExprSound p c.resolution n u (.ident i) (ident c t i) := by
  have hknows := hk.mono (extends_ident t c i).toPrecedes
  have htu := (extends_ident t c i).toPrecedes.trans h
  have hvar : z.kind = .var ∨ z.kind = .param → ExprSound p c.resolution n u (.ident i) (ident c t i) := by
    intro hkind
    obtain ⟨ty, hl, hv⟩ := hk.values y hi.le
      (hkind.imp (fun hkind => ⟨z, hi.symbol, hkind⟩) fun hkind => ⟨z, hi.symbol, hkind⟩)
    have heq : ident c t i = t.settle i.node ty := by
      rw [ident, boundTo?_of_binds hi]
      rcases hkind with hkind | hkind <;> simp [hkind, typeOfSymbol_eq hl]
    rw [heq] at h hknows ⊢
    exact ⟨⟨_, .ident (holds_of_binds hi hkind hl hv htu)⟩, .inl hv, hknows⟩
  rcases hq.kind hi.symbol hi.ne with hkind | hkind | hkind | hkind
  · exact hvar (.inl hkind)
  · exact hvar (.inr hkind)
  · rw [ident, boundTo?_of_binds hi] at h
    simp only [hkind] at h
    exact absurd h hu.not_reportSettle
  · rw [ident, boundTo?_of_binds hi] at h
    simp only [hkind] at h
    exact absurd h hu.not_reportSettle

theorem applyUnary_sound (hu : u.IsClean) {k : Node} {op : UnaryOp} {e : Expr} {typed : Typing × Ty}
    (he : ExprSound p c.resolution m u e typed) (hv : typed.2.isValue = true)
    (h : (typed.1.applyUnary k op typed.2).1.Precedes u) :
    ExprSound p c.resolution m u (.unary k op e) (typed.1.applyUnary k op typed.2) := by
  have hknows := he.knows.mono (extends_applyUnary typed.1 k op typed.2).toPrecedes
  rw [applyUnary, if_neg (Ty.ne_invalid hv)] at h hknows ⊢
  cases hty : op.result? typed.2 with
  | some ty =>
    rw [hty] at h hknows
    obtain ⟨js, he⟩ := he.type
    exact ⟨⟨_, .unary he (UnaryOp.takes_iff.mpr hty)⟩, .inl (UnaryOp.isValue_of_result? hty).2, hknows⟩
  | none =>
    rw [hty] at h
    exact absurd h hu.not_reportSettle

theorem applyBinary_sound (hu : u.IsClean) {k : Node} {op : BinaryOp} {span : Span} {l r : Expr}
    {s : Ty} {js : NodeTypes} {typed : Typing × Ty}
    (hl : l.Derives ⟨p, c.resolution, u.types⟩ s js) (hs : s.isValue = true)
    (hr : ExprSound p c.resolution m u r typed) (hv : typed.2.isValue = true)
    (h : (typed.1.applyBinary k op span s typed.2).1.Precedes u) :
    ExprSound p c.resolution m u (.binary k op span l r) (typed.1.applyBinary k op span s typed.2) := by
  have hknows := hr.knows.mono (extends_applyBinary typed.1 k op span s typed.2).toPrecedes
  rw [applyBinary, if_neg (by simp [Ty.ne_invalid hs, Ty.ne_invalid hv])] at h hknows ⊢
  cases hty : op.result? s typed.2 with
  | some ty =>
    rw [hty] at h hknows
    obtain ⟨ks, hr⟩ := hr.type
    exact ⟨⟨_, .binary hl hr (BinaryOp.takes_iff.mpr hty)⟩, .inl (BinaryOp.isValue_of_result? hty).2.2,
      hknows⟩
  | none =>
    rw [hty] at h
    exact absurd h hu.not_reportSettle

/-- The value that is assigned to a variable fits it. -/
theorem checkAssigned_sound (hu : u.IsClean) {op : AssignOp} {span vspan : Span} {name : Bytes}
    {target value : Ty} (ht : target.isValue = true) (hv : value.isValue = true)
    (h : (t.checkAssigned op span name target value vspan).Precedes u) :
    op = .set ∧ target = value ∨
      ∃ b, op.binary? = some b ∧ b.result? target value = some target := by
  rw [checkAssigned, if_neg (by simp [Ty.ne_invalid ht, Ty.ne_invalid hv])] at h
  cases hb : op.binary? with
  | none =>
    simp only [hb] at h
    by_cases ha : target.accepts value = true
    · exact .inl ⟨AssignOp.eq_set hb, Ty.eq_of_accepts ht hv ha⟩
    · rw [if_neg ha] at h
      exact absurd h hu.not_report
  | some b =>
    simp only [hb] at h
    by_cases ha : (b.result? target value).isSome = true
    · exact .inr ⟨b, rfl, AssignOp.result?_of_binary? hb ha⟩
    · rw [if_neg ha] at h
      exact absurd h hu.not_report

/-- An assignment to a variable that is there. -/
theorem assign_sound (hu : u.IsClean) {k : Node} {op : AssignOp}
    {span vspan : Span} {i : Ident} {value : Expr} {typed : Typing × Ty} {y : Nat} {z : Symbol}
    (hvalue : ExprSound p c.resolution m u value typed) (hv : typed.2.isValue = true)
    (hi : c.resolution.Binds m i y z) (himp : (i.node.id, y) ∉ c.resolution.implicit)
    (h : (assign c typed.1 k op span i typed.2 vspan).1.Precedes u) :
    ExprSound p c.resolution m u (.assign k op span i value)
      (assign c typed.1 k op span i typed.2 vspan) := by
  have hext := (extends_assign typed.1 c k op span i typed.2 vspan).toPrecedes
  have hknows := hvalue.knows.mono hext
  have htu := hext.trans h
  rw [assign, boundTo?_of_binds hi] at h hknows ⊢
  simp only [if_neg fun hl => himp (mem_of_lookup_eq_some hl)] at h hknows ⊢
  by_cases hkind : z.kind = .var ∨ z.kind = .param
  · obtain ⟨ty, hl, hty⟩ := hvalue.knows.values y hi.le
      (hkind.imp (fun hkind => ⟨z, hi.symbol, hkind⟩) fun hkind => ⟨z, hi.symbol, hkind⟩)
    simp only [decide_eq_true_eq, Bool.or_eq_true, if_pos hkind, typeOfSymbol_eq hl] at h hknows ⊢
    have hi' : Assumptions.Holds ⟨p, c.resolution, u.types⟩ i ty := holds_of_binds hi hkind hl hty htu
    have hc := (extends_settle _ k ty).toPrecedes.trans h
    obtain ⟨js, hvalue⟩ := hvalue.type
    rcases checkAssigned_sound hu hty hv hc with ⟨rfl, rfl⟩ | ⟨b, hb, hresult⟩
    · exact ⟨⟨_, .assign hi' hvalue⟩, .inl hty, hknows⟩
    · exact ⟨⟨_, .update hb hi' hvalue (BinaryOp.takes_iff.mpr hresult)⟩, .inl hty, hknows⟩
  · simp only [decide_eq_true_eq, Bool.or_eq_true, if_neg hkind] at h
    exact absurd h hu.not_reportSettle

/-- An assignment that declares its target. -/
theorem declare_sound {k : Node} {span vspan : Span} {i : Ident} {value : Expr}
    {typed : Typing × Ty} {z : Symbol} (hvalue : ExprSound p c.resolution m u value typed)
    (hv : typed.2.isValue = true) (hi : c.resolution.Binds (m + 1) i (m + 1) z)
    (hkind : z.kind = .var) (himp : c.resolution.implicit.lookup i.node.id = some (m + 1))
    (hclear : Clear c.resolution m (m + 1) typed.1)
    (h : (assign c typed.1 k .set span i typed.2 vspan).1.Precedes u) :
    ExprSound p c.resolution (m + 1) u (.assign k .set span i value)
      (assign c typed.1 k .set span i typed.2 vspan) := by
  have hk : c.resolution.HasKind (m + 1) .var := ⟨z, hi.symbol, hkind⟩
  have heq : assign c typed.1 k .set span i typed.2 vspan =
      (((typed.1.noteSymbol (m + 1) (.value typed.2)).noteExpr i.node (.value typed.2)).settle k
        typed.2) := by
    rw [assign, boundTo?_of_binds hi]
    simp only [if_pos himp]
  rw [heq] at h ⊢
  have hafter := (extends_noteExpr (typed.1.noteSymbol (m + 1) (.value typed.2)) i.node
    (.value typed.2)).toPrecedes.trans (extends_settle _ k typed.2).toPrecedes
  have hl := hclear.lookup_noteSymbol (Nat.lt_succ_self m) (Nat.le_refl _) hk (.value typed.2)
  obtain ⟨js, htype⟩ := hvalue.type
  exact ⟨⟨_, .assign (holds_of_binds hi (.inl hkind) hl hv (hafter.trans h)) htype⟩, .inl hv,
    (hvalue.knows.noteVar hclear hk hv).mono hafter⟩

/-- Arguments that are not reported fit their parameters. -/
theorem checkArguments_sound (hu : u.IsClean) {name : Bytes} {place : Nat} {params : List Ty}
    {args : List (Span × Ty)} (hlen : args.length = params.length)
    (h : (t.checkArguments name place params args).Precedes u) :
    List.Forall₂ (fun s ty => Ty.accepts s ty = true) params (args.map (·.2)) := by
  induction params generalizing t place args with
  | nil =>
    rw [List.length_eq_zero_iff.mp hlen]
    exact .nil
  | cons param params ih =>
    cases args with
    | nil => cases hlen
    | cons arg args =>
      rw [checkArguments] at h
      refine .cons ?_ (ih (Nat.succ.inj hlen) h)
      have hfirst := (extends_checkArguments _ _ _ _ _).toPrecedes.trans h
      by_cases ha : param.accepts arg.2 = true
      · exact ha
      · rw [if_neg ha] at hfirst
        exact absurd hfirst hu.not_report

/-- Arguments that are accepted fit parameters that can be declared. -/
theorem allFit_of_accepts {params args : List Ty} (hp : ∀ ty ∈ params, ty.isValue = true ∨ ty = .any)
    (ha : ∀ ty ∈ args, ty.isValue = true)
    (h : List.Forall₂ (fun s ty => Ty.accepts s ty = true) params args) :
    List.Forall₂ Ty.Fits params args := by
  induction h with
  | nil => exact .nil
  | cons hfirst _ ih =>
    rw [List.forall_mem_cons] at hp ha
    refine .cons ?_ (ih hp.2 ha.2)
    rcases hp.1 with hv | rfl
    · rw [← Ty.eq_of_accepts hv ha.1 hfirst]
      exact .same hv
    · exact .any ha.1

/-- A call by name whose arguments are typed. -/
theorem call_sound (hu : u.IsClean) {k : Node} {i : Ident} {y : Nat} {z : Symbol} {args : List Expr}
    {typed : Typing × List (Span × Ty)} (hargs : ArgumentsSound p c.resolution m u args typed)
    (hi : c.resolution.Binds n i y z)
    (h : ((namedCallee c typed.1 i).1.applyCall k (namedCallee c typed.1 i).2 typed.2).1.Precedes u) :
    ExprSound p c.resolution m u (.call k (.ident i) args)
      ((namedCallee c typed.1 i).1.applyCall k (namedCallee c typed.1 i).2 typed.2) := by
  have hcallee := (extends_namedCallee typed.1 c i).toPrecedes
  have hcall := (extends_applyCall (namedCallee c typed.1 i).1 k (namedCallee c typed.1 i).2
    typed.2).toPrecedes
  have hknows := hargs.knows.mono (hcallee.trans hcall)
  have htu := hcallee.trans (hcall.trans h)
  by_cases hkind : z.kind = .function
  · obtain ⟨s, hs, hproper⟩ := hargs.knows.functions y ⟨z, hi.symbol, hkind⟩
    have heq : namedCallee c typed.1 i
        = (typed.1.noteExpr i.node (.function s), some (z.name, s)) := by
      rw [namedCallee, boundTo?_of_binds hi]
      simp [hkind, signatureOf?, hs]
    rw [heq] at h hknows ⊢
    rw [applyCall] at h hknows ⊢
    by_cases hlen : typed.2.length = s.params.length
    · rw [if_pos hlen] at h hknows ⊢
      have haccept := checkArguments_sound hu hlen
        ((extends_settle _ k s.result).toPrecedes.trans h)
      obtain ⟨js, htypes⟩ := hargs.types
      exact ⟨⟨_, .call ⟨y, hi.ref, ⟨z, hi.symbol, hkind⟩, types_eq hs htu⟩ htypes
        (allFit_of_accepts hproper.params hargs.values haccept)⟩, hproper.result, hknows⟩
    · rw [if_neg hlen] at h
      exact absurd h hu.not_reportSettle
  · have hreport := hcall.trans h
    rw [namedCallee, boundTo?_of_binds hi] at hreport
    simp only [if_neg hkind] at hreport
    exact absurd hreport hu.not_report

mutual

/-- An expression that is typed without errors has the type that is found. -/
theorem expr_sound (hq : c.resolution.Sound p) (hu : u.IsClean) {t : Typing} {n m : Nat} :
    (e : Expr) → e.isWhole = true → Expr.Bound c.resolution n e m → Knows c.resolution n t →
    Clear c.resolution n m t → (expr c t e).1.Precedes u →
    ExprSound p c.resolution m u e (expr c t e)
  | .error _, hw, _, _, _, _ => by cases hw
  | .constant k v, _, hb, hk, _, h => by
    cases hb
    rw [expr] at h ⊢
    exact constant_sound hu hk h
  | .ident i, _, hb, hk, _, h => by
    cases hb with
    | ident hi =>
      rw [expr] at h ⊢
      exact ident_sound hq hu hi hk h
  | .group k inner, hw, hb, hk, hcl, h => by
    cases hb with
    | group hi =>
      rw [expr] at h ⊢
      have hsettle := (extends_settle (expr c t inner).1 k (expr c t inner).2).toPrecedes
      have hs := expr_sound hq hu inner hw hi hk hcl (hsettle.trans h)
      obtain ⟨js, htype⟩ := hs.type
      exact ⟨⟨_, .group htype⟩, hs.value, hs.knows.mono hsettle⟩
  | .unary k op operand, hw, hb, hk, hcl, h => by
    cases hb with
    | unary ho =>
      rw [expr_unary] at h ⊢
      have hop := (extends_applyUnary _ k op _).toPrecedes.trans h
      rcases operand_cases c t op operand with heq | ⟨l, text, rfl, rfl, heq⟩
      · rw [heq] at h hop ⊢
        obtain ⟨hcons, hv⟩ := hu.consumed hop
        rw [hcons] at h hop ⊢
        have hs := expr_sound hq hu operand hw ho hk hcl hop
        exact applyUnary_sound hu hs (hs.isValue hv) h
      · cases ho
        rw [heq] at h hop ⊢
        exact negative_sound hu hk hop
  | .binary k op span left right, hw, hb, hk, hcl, h => by
    cases hb with
    | binary hl hr =>
      rw [Expr.isWhole, Bool.and_eq_true] at hw
      rw [expr_binary] at h ⊢
      dsimp only at h ⊢
      have hright := (extends_applyBinary _ k op span _ _).toPrecedes.trans h
      obtain ⟨hrcons, hrv⟩ := hu.consumed hright
      rw [hrcons] at h hright ⊢
      have hleft := (extends_expr c _ right).toPrecedes.trans hright
      obtain ⟨hlcons, hlv⟩ := hu.consumed hleft
      rw [hlcons] at h hright hleft hrv ⊢
      have hls := expr_sound hq hu left hw.1 hl hk (hcl.shrink hr.le) hleft
      have hrs := expr_sound hq hu right hw.2 hr hls.knows (hcl.after (notes_expr (p := p) t left hl) hl.le)
        hright
      obtain ⟨js, htype⟩ := hls.type
      exact applyBinary_sound hu htype (hls.isValue hlv) hrs (hrs.isValue hrv) h
  | .call k target args, hw, hb, hk, hcl, h => by
    cases hb with
    | call ht ha =>
      rw [Expr.isWhole, Bool.and_eq_true] at hw
      by_cases hi : ∃ i, target = .ident i
      · obtain ⟨i, rfl⟩ := hi
        cases ht with
        | ident hi =>
          rw [expr_call_ident] at h ⊢
          dsimp only at h ⊢
          have hargs := (extends_namedCallee _ c i).toPrecedes.trans
            ((extends_applyCall _ k _ _).toPrecedes.trans h)
          exact call_sound hu (arguments_sound hq hu args hw.2 ha hk hcl hargs) hi h
      · -- What is no name cannot be called, whatever its type.
        rw [expr_call_other c t k args fun i he => hi ⟨i, he⟩] at h
        have htarget := (extends_settle _ k .invalid).toPrecedes.trans h
        have hargs := (extends_arguments c t args).toPrecedes
        have hclear := hcl.before (notes_arguments (p := p) t args ha) ha.le
        have hsound : (expr c (arguments c t args).1 target).1.Precedes u →
            (expr c (arguments c t args).1 target).2 ≠ .invalid := by
          intro hpre
          have hs := expr_sound hq hu target hw.1 ht (hk.mono hargs) hclear hpre
          rcases hs.value with hv | hv
          · exact Ty.ne_invalid hv
          · rw [hv]
            decide
        split at htarget
        · rename_i hinvalid
          exact absurd hinvalid (hsound htarget)
        · exact absurd htarget hu.not_report
  | .assign k op span i value, hw, hb, hk, hcl, h => by
    rw [expr_assign] at h ⊢
    dsimp only at h ⊢
    have hvalue := (extends_assign _ c k op span i _ _).toPrecedes.trans h
    obtain ⟨hcons, hv⟩ := hu.consumed hvalue
    rw [hcons] at h hvalue ⊢
    cases hb with
    | assign hvb hi himp =>
      have hs := expr_sound hq hu value hw hvb hk hcl hvalue
      exact assign_sound hu hs (hs.isValue hv) hi himp h
    | declare hvb hi hkind himp =>
      have hs := expr_sound hq hu value hw hvb hk (hcl.shrink (Nat.le_succ _)) hvalue
      have hclear := hcl.after (notes_expr (p := p) t value hvb) hvb.le
      exact declare_sound hs (hs.isValue hv) hi hkind himp hclear h

theorem arguments_sound (hq : c.resolution.Sound p) (hu : u.IsClean) {t : Typing} {n m : Nat} :
    (es : List Expr) → Expr.areWhole es = true → Expr.AllBound c.resolution n es m →
    Knows c.resolution n t → Clear c.resolution n m t → (arguments c t es).1.Precedes u →
    ArgumentsSound p c.resolution m u es (arguments c t es)
  | [], _, hb, hk, _, _ => by
    cases hb
    rw [arguments]
    exact ⟨⟨_, .nil⟩, fun ty hty => (by cases hty), hk⟩
  | e :: es, hw, hb, hk, hcl, h => by
    cases hb with
    | cons he hes =>
      rw [Expr.areWhole, Bool.and_eq_true] at hw
      rw [arguments_cons] at h ⊢
      dsimp only at h ⊢
      have hfirst := (extends_arguments c _ es).toPrecedes.trans h
      obtain ⟨hcons, hv⟩ := hu.consumed hfirst
      rw [hcons] at h hfirst ⊢
      have hs := expr_sound hq hu e hw.1 he hk (hcl.shrink hes.le) hfirst
      have hrest := arguments_sound hq hu es hw.2 hes hs.knows
        (hcl.after (notes_expr (p := p) t e he) he.le) h
      obtain ⟨js, htype⟩ := hs.type
      obtain ⟨ks, htypes⟩ := hrest.types
      refine ⟨⟨_, .cons htype htypes⟩, fun ty hty => ?_, hrest.knows⟩
      rcases List.mem_cons.mp hty with rfl | hty
      · exact hs.isValue hv
      · exact hrest.values ty hty

end

end

end Typing

end Craftlang
