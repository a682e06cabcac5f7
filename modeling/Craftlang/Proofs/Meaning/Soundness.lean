import Craftlang.Proofs.Code.Safety
import Craftlang.Proofs.Meaning.Evaluation

/-!
# Well-typed programs make sense

Evaluating a well-typed program is never meaningless: it has a result, or its fuel is used up, or it
reads a variable that holds no value yet, or a function that returns a value ends without one. What it
computes has the type that was found for it, and its variables hold values of their types.
-/

namespace Craftlang

namespace Evaluation

/-- What evaluation results in satisfies `P`; if there is no result, it is not because the program makes
no sense. -/
def Yields {α : Type} (r : Except Stop α) (P : α → Prop) : Prop :=
  match r with
  | .ok a => P a
  | .error stop => stop ≠ .meaningless

namespace Yields

variable {α β : Type} {P : α → Prop} {Q : β → Prop}

theorem of_ok {r : Except Stop α} {a : α} (h : Yields r P) (hr : r = .ok a) : P a := by
  subst hr
  exact h

theorem imp {P' : α → Prop} {r : Except Stop α} (h : Yields r P) (hp : ∀ a, P a → P' a) :
    Yields r P' := by
  cases r with
  | ok a => exact hp a h
  | error stop => exact h

theorem bind {r : Except Stop α} {f : α → Except Stop β} (h : Yields r P)
    (hf : ∀ a, P a → Yields (f a) Q) : Yields (r >>= f) Q := by
  cases r with
  | ok a => exact hf a h
  | error stop => exact h

theorem ifNone {stop : Stop} {x : Option α} (h : x = none → stop ≠ .meaningless)
    (hx : ∀ a, x = some a → P a) : Yields (stop.ifNone x) P := by
  cases x with
  | none => exact h rfl
  | some a => exact hx a rfl

end Yields

end Evaluation

/-- A result of a type: a value, unless there are none. -/
def Value.IsResult (ty : Ty) (v : Option Value) : Prop :=
  v.map Value.type = if ty.isValue then some ty else none

theorem Value.IsResult.value {ty : Ty} {v : Option Value} (h : Value.IsResult ty v)
    (hty : ty.isValue = true) : ∃ u, v = some u ∧ u.type = ty := by
  rw [IsResult, hty, if_pos rfl] at h
  exact Option.map_eq_some_iff.mp h

theorem Value.isResult_some {ty : Ty} {v : Value} (hty : ty.isValue = true) (h : v.type = ty) :
    Value.IsResult ty (some v) := by
  rw [IsResult, hty, if_pos rfl, Option.map_some, h]

theorem Value.isValue_type (v : Value) : v.type.isValue = true := by
  cases v <;> rfl

/-- Every variable that holds a value holds one of its type. -/
def World.Typed (c : EmissionContext) (w : World) : Prop :=
  ∀ y v, w.read? c.resolution y = some v → v.type = c.typing.typeOfSymbol y

namespace World

variable {c : EmissionContext} {w : World}

theorem read?_write (w : World) (r : Resolution) (y : Nat) (v : Value) (z : Nat) :
    (w.write r y v).read? r z = if z = y then some v else w.read? r z := by
  by_cases hzy : z = y
  · subst hzy
    unfold write read?
    cases r.isGlobal z <;> simp [assigned]
  · unfold write read?
    cases hy : r.isGlobal y <;> cases hz : r.isGlobal z <;> simp [assigned, hzy]

theorem Typed.write (h : w.Typed c) {y : Nat} {v : Value} (hv : v.type = c.typing.typeOfSymbol y) :
    (w.write c.resolution y v).Typed c := by
  intro z u hu
  rw [read?_write] at hu
  split at hu
  · rename_i hzy
    rw [← Option.some.inj hu, hzy, hv]
  · exact h z u hu

theorem Typed.act (h : w.Typed c) (a : Action) : (w.act a).Typed c := h

theorem read?_locals (w : World) (r : Resolution) (locals : Nat → Option Value) (y : Nat) :
    ({ w with locals } : World).read? r y = if r.isGlobal y then w.globals y else locals y := rfl

/-- Variables of a call next to the global ones. -/
theorem Typed.locals (h : w.Typed c) {locals : Nat → Option Value}
    (hl : ∀ y v, locals y = some v → v.type = c.typing.typeOfSymbol y) :
    ({ w with locals } : World).Typed c := by
  intro y v hv
  rw [read?_locals] at hv
  split at hv
  · rename_i hg
    exact h y v (by rw [read?, if_pos hg, hv])
  · exact hl y v hv

/-- The variables of a caller are there again when a call ends. -/
theorem Typed.back {inner : World} (h : w.Typed c) (hi : inner.Typed c) :
    ({ inner with locals := w.locals } : World).Typed c := by
  intro y v hv
  rw [read?_locals] at hv
  split at hv
  · rename_i hg
    exact hi y v (by rw [read?, if_pos hg, hv])
  · rename_i hg
    exact h y v (by rw [read?, if_neg hg, hv])

end World

theorem UnaryOp.eval?_of_result? {op : UnaryOp} {ty : Ty} {v : Value}
    (h : op.result? v.type = some ty) : ∃ u, op.eval? v = some u ∧ u.type = ty := by
  cases op <;> cases v <;> cases h <;> exact ⟨_, rfl, rfl⟩

theorem BinaryOp.eval?_of_result? {op : BinaryOp} {ty : Ty} {a b : Value}
    (h : op.result? a.type b.type = some ty) : ∃ u, op.eval? a b = some u ∧ u.type = ty := by
  cases op <;> cases a <;> cases b <;> cases h <;> exact ⟨_, rfl, rfl⟩

theorem Constant.value?_of_fits {v : Constant} (h : v.Fits) :
    ∃ u, v.value? = some u ∧ u.type = v.type := by
  cases v with
  | int text =>
    obtain ⟨n, hn, -⟩ := h
    rw [value?, hn]
    exact ⟨_, rfl, rfl⟩
  | bool b => exact ⟨_, rfl, rfl⟩
  | string s => exact ⟨_, rfl, rfl⟩

theorem Value.default?_of_isValue {ty : Ty} (h : ty.isValue = true) :
    ∃ v, Value.default? ty = some v ∧ v.type = ty := by
  cases ty <;> cases h <;> exact ⟨_, rfl, rfl⟩

theorem Value.eq_bool {v : Value} (h : v.type = .bool) : ∃ b, v = .bool b := by
  cases v <;> cases h
  exact ⟨_, rfl⟩

/-- The function that a symbol stands for is the one that is known about it. -/
theorem Program.Typed.functionOf? {p : Program} {c : EmissionContext} (h : p.Typed c) {y : Nat}
    {info : FunctionInfo} (hy : c.typing.functionOf? y = some info) :
    ∃ f, p.functionOf? c.resolution y = some f ∧ f ∈ p.functions ∧ f.Typed c info := by
  have hfind : ∀ (fs : List Function) (infos : List FunctionInfo),
      List.Forall₂ (Function.Typed c) fs infos → infos.find? (fun g => g.symbol == y) = some info →
      ∃ f, fs.find? (fun f => (c.resolution.itemOf? f.node.id).map (·.symbol) == some y) = some f ∧
        f ∈ fs ∧ f.Typed c info := by
    intro fs infos hfs hinfo
    induction hfs with
    | nil => cases hinfo
    | cons hf _ ih =>
      obtain ⟨i, hi, hsymbol, -⟩ := hf.names
      rw [List.find?_cons] at hinfo ⊢
      rw [hi, Option.map_some, hsymbol, Option.some_beq_some]
      split at hinfo
      · cases hinfo
        exact ⟨_, rfl, List.mem_cons_self .., hf⟩
      · obtain ⟨f, hfind, hmem, hf⟩ := ih hinfo
        exact ⟨f, hfind, List.mem_cons_of_mem _ hmem, hf⟩
  exact hfind _ _ h.functions hy

theorem Function.Typed.paramsOf {c : EmissionContext} {f : Function} {info : FunctionInfo}
    (h : f.Typed c info) : c.resolution.paramsOf f = info.params := by
  obtain ⟨i, hi, -, hparams⟩ := h.names
  rw [Resolution.paramsOf, hi]
  exact hparams

theorem Block.Typed.stmts {c : EmissionContext} {result : Option Ty} {b : Bool} {body : Block}
    (h : body.Typed c result b) : Stmt.AllTyped c result b body.stmts := by
  cases h with
  | mk h => exact h

/-- Parameters hold arguments of their types. -/
theorem bindParams_typed {c : EmissionContext} {ys : List Nat} {vs : List Value}
    (h : vs.map Value.type = ys.map c.typing.typeOfSymbol) (store : Nat → Option Value)
    (hs : ∀ y v, store y = some v → v.type = c.typing.typeOfSymbol y) :
    ∃ store', bindParams store ys vs = .ok store' ∧
      ∀ y v, store' y = some v → v.type = c.typing.typeOfSymbol y := by
  induction ys generalizing vs store with
  | nil =>
    cases vs with
    | nil => exact ⟨store, rfl, hs⟩
    | cons v vs => cases h
  | cons y ys ih =>
    cases vs with
    | nil => cases h
    | cons v vs =>
      rw [List.map_cons, List.map_cons, List.cons.injEq] at h
      refine ih h.2 (assigned store y v) fun z u hu => ?_
      rw [assigned] at hu
      split at hu
      · rename_i hzy
        rw [← Option.some.inj hu, hzy, h.1]
      · exact hs z u hu

/-- A way to end inside a function with a result type, or outside all functions; a loop may be around
it. -/
def Ending.Fits (result : Option Ty) (inLoop : Bool) : Ending → Prop
  | .next => True
  | .leave | .again => inLoop = true
  | .give v => ∃ ty, result = some ty ∧ v.map Value.type = if ty.isValue then some ty else none

namespace Evaluation

/-- What evaluation with some fuel yields for well-typed pieces of a program. -/
structure Sound (p : Program) (c : EmissionContext) (fuel : Nat) : Prop where
  expr : ∀ {w : World} {e : Expr} {ty : Ty}, w.Typed c → e.HasType c ty →
    Yields (expr p c fuel w e) fun r => r.1.Typed c ∧ Value.IsResult ty r.2
  arguments : ∀ {w : World} {es : List Expr} {tys : List Ty}, w.Typed c → Expr.HaveTypes c es tys →
    (∀ ty ∈ tys, ty.isValue = true) →
    Yields (arguments p c fuel w es) fun r => r.1.Typed c ∧ r.2.map Value.type = tys
  print : ∀ {w : World} {y : Nat} {v : Value}, w.Typed c → Emission.isPrint c y = true →
    Yields (call p c fuel w y [v]) fun r => r.1.Typed c ∧ r.2 = none
  call : ∀ {w : World} {y : Nat} {info : FunctionInfo} {vs : List Value}, w.Typed c →
    Emission.isPrint c y = false → c.typing.functionOf? y = some info →
    vs.map Value.type = info.signature.params →
    Yields (call p c fuel w y vs) fun r => r.1.Typed c ∧ Value.IsResult info.result r.2
  stmt : ∀ {w : World} {st : Stmt} {result : Option Ty} {b : Bool}, w.Typed c →
    st.Typed c result b →
    Yields (stmt p c fuel w st) fun r => r.1.Typed c ∧ r.2.Fits result b
  stmts : ∀ {w : World} {ss : List Stmt} {result : Option Ty} {b : Bool}, w.Typed c →
    Stmt.AllTyped c result b ss →
    Yields (stmts p c fuel w ss) fun r => r.1.Typed c ∧ r.2.Fits result b
  alternative : ∀ {w : World} {o : Otherwise} {result : Option Ty} {b : Bool}, w.Typed c →
    o.Typed c result b →
    Yields (alternative p c fuel w o) fun r => r.1.Typed c ∧ r.2.Fits result b

section

variable {p : Program} {c : EmissionContext} {fuel : Nat} {w : World}

theorem Yields.asValue {r : Except Stop (World × Option Value)} {ty : Ty}
    (h : Yields r fun r => r.1.Typed c ∧ Value.IsResult ty r.2) (hty : ty.isValue = true) :
    Yields (asValue r) fun r => r.1.Typed c ∧ r.2.type = ty := by
  refine h.bind fun r hr => ?_
  obtain ⟨w, v⟩ := r
  obtain ⟨u, rfl, hu⟩ := hr.2.value hty
  exact ⟨hr.1, hu⟩

theorem Sound.value (ih : Sound p c fuel) {e : Expr} {ty : Ty} (hw : w.Typed c)
    (he : e.HasType c ty) (hty : ty.isValue = true) :
    Yields (asValue (Evaluation.expr p c fuel w e)) fun r => r.1.Typed c ∧ r.2.type = ty :=
  (ih.expr hw he).asValue hty

theorem expr_sound (hp : p.Typed c) (ih : Sound p c fuel) {e : Expr} {ty : Ty} (hw : w.Typed c)
    (h : e.HasType c ty) :
    Yields (expr p c (fuel + 1) w e) fun r => r.1.Typed c ∧ Value.IsResult ty r.2 := by
  cases h with
  | constant hv _ =>
    obtain ⟨u, hu, htype⟩ := Constant.value?_of_fits hv
    rw [expr, hu]
    exact ⟨hw, Value.isResult_some (by rw [← htype, u.isValue_type]) htype⟩
  | ident hi _ =>
    obtain ⟨href, htype, hvalue⟩ := hi
    rw [expr, href]
    refine Yields.bind (Yields.ifNone (fun _ => nofun) fun v hv => hw _ v hv) fun v hv => ?_
    exact ⟨hw, Value.isResult_some hvalue (hv.trans htype)⟩
  | group he _ =>
    rw [expr]
    exact ih.expr hw he
  | unary he hresult _ =>
    obtain ⟨hs, hty⟩ := UnaryOp.isValue_of_result? hresult
    rw [expr]
    refine (ih.value hw he hs).bind fun r hr => ?_
    obtain ⟨w, v⟩ := r
    obtain ⟨hw, rfl⟩ := hr
    obtain ⟨u, hu, htype⟩ := UnaryOp.eval?_of_result? hresult
    dsimp only
    rw [hu]
    exact ⟨hw, Value.isResult_some hty htype⟩
  | binary hl hr hresult _ =>
    obtain ⟨hs, ht, hty⟩ := BinaryOp.isValue_of_result? hresult
    rw [expr]
    refine (ih.value hw hl hs).bind fun r hra => ?_
    obtain ⟨w, a⟩ := r
    obtain ⟨hw, rfl⟩ := hra
    refine (ih.value hw hr ht).bind fun r hrb => ?_
    obtain ⟨w, b⟩ := r
    obtain ⟨hw, rfl⟩ := hrb
    obtain ⟨u, hu, htype⟩ := BinaryOp.eval?_of_result? hresult
    dsimp only
    rw [hu]
    exact ⟨hw, Value.isResult_some hty htype⟩
  | print hi hprint he hv _ =>
    rw [expr, Emission.calleeOf_ident hi]
    refine (ih.arguments hw (.cons he .nil) ?_).bind fun r hr => ?_
    · intro ty hty
      rw [List.mem_singleton.mp hty]
      exact hv
    · obtain ⟨w, vs⟩ := r
      obtain ⟨hw, hvs⟩ := hr
      obtain ⟨v, rfl⟩ : ∃ v, vs = [v] :=
        List.length_eq_one_iff.mp (by simpa using congrArg List.length hvs)
      refine (ih.print hw hprint).imp fun r hr => ⟨hr.1, ?_⟩
      rw [hr.2]
      rfl
  | call hi hprint hf hargs _ =>
    obtain ⟨f, -, -, htyped⟩ := hp.functionOf? hf
    rw [expr, Emission.calleeOf_ident hi]
    refine (ih.arguments hw hargs htyped.values).bind fun r hr => ?_
    obtain ⟨w, vs⟩ := r
    exact ih.call hr.1 hprint hf hr.2
  | assign he hi _ =>
    obtain ⟨href, htype, hvalue⟩ := hi
    rw [expr, href]
    refine (ih.value hw he hvalue).bind fun r hr => ?_
    obtain ⟨w, v⟩ := r
    obtain ⟨hw, hv⟩ := hr
    exact ⟨hw.write (hv.trans htype.symm), Value.isResult_some hvalue hv⟩
  | update hb he hi hresult hn =>
    rename_i y e s
    obtain ⟨href, htype, hvalue⟩ := hi
    obtain ⟨-, hs, -⟩ := BinaryOp.isValue_of_result? hresult
    rw [expr, href]
    refine (ih.value hw he hs).bind fun r hr => ?_
    obtain ⟨w, v⟩ := r
    obtain ⟨hw, rfl⟩ := hr
    dsimp only
    rw [hb]
    refine Yields.bind (Yields.ifNone (fun _ => nofun) fun v hv => hw _ v hv) fun old hold => ?_
    rw [← htype] at hresult
    have hold : old.type = c.typing.typeOfSymbol y := hold
    rw [← hold] at hresult
    obtain ⟨u, hu, hutype⟩ := BinaryOp.eval?_of_result? hresult
    rw [hu]
    refine ⟨hw.write (hutype.trans hold), Value.isResult_some hvalue (hutype.trans (hold.trans htype))⟩

theorem arguments_sound (ih : Sound p c fuel) {es : List Expr} {tys : List Ty} (hw : w.Typed c)
    (h : Expr.HaveTypes c es tys) (hv : ∀ ty ∈ tys, ty.isValue = true) :
    Yields (arguments p c (fuel + 1) w es) fun r => r.1.Typed c ∧ r.2.map Value.type = tys := by
  cases h with
  | nil =>
    rw [arguments]
    exact ⟨hw, rfl⟩
  | cons he hes =>
    rw [List.forall_mem_cons] at hv
    rw [arguments]
    refine (ih.value hw he hv.1).bind fun r hr => ?_
    obtain ⟨w, v⟩ := r
    obtain ⟨hw, rfl⟩ := hr
    refine (ih.arguments hw hes hv.2).bind fun r hr => ?_
    obtain ⟨w, vs⟩ := r
    obtain ⟨hw, rfl⟩ := hr
    exact ⟨hw, rfl⟩

theorem print_sound {y : Nat} {v : Value} (hw : w.Typed c) (hy : Emission.isPrint c y = true) :
    Yields (call p c (fuel + 1) w y [v]) fun r => r.1.Typed c ∧ r.2 = none := by
  rw [call, if_pos hy]
  exact ⟨hw.act _, rfl⟩

/-- A function gives back what its type says, unless it ends without a result. -/
theorem giveBack_sound {f : Function} {info : FunctionInfo} (hf : f.Typed c info) {ending : Ending}
    (h : ending.Fits (some info.result) false) :
    Yields (f.giveBack ending) fun v => Value.IsResult info.result v := by
  cases ending with
  | next =>
    rw [Function.giveBack]
    rcases hf.result with ⟨hnone, hvoid⟩ | ⟨hsome, -⟩
    · rw [hnone, hvoid]
      rfl
    · rw [if_pos hsome]
      exact nofun
  | leave => cases h
  | again => cases h
  | give v =>
    obtain ⟨ty, hty, hv⟩ := h
    obtain rfl := Option.some.inj hty
    have hsome : v.isSome = f.result.isSome := by
      rw [← Option.isSome_map (f := Value.type), hv]
      rcases hf.result with ⟨hnone, hvoid⟩ | ⟨hsome, hvalue⟩
      · rw [hnone, hvoid]
        rfl
      · rw [hsome, hvalue]
        rfl
    rw [Function.giveBack, if_pos hsome]
    exact hv

theorem call_sound (hp : p.Typed c) (ih : Sound p c fuel) {y : Nat} {info : FunctionInfo}
    {vs : List Value} (hw : w.Typed c) (hy : Emission.isPrint c y = false)
    (hf : c.typing.functionOf? y = some info) (hvs : vs.map Value.type = info.signature.params) :
    Yields (call p c (fuel + 1) w y vs) fun r => r.1.Typed c ∧ Value.IsResult info.result r.2 := by
  obtain ⟨f, hfind, -, htyped⟩ := hp.functionOf? hf
  obtain ⟨locals, hbind, hlocals⟩ := bindParams_typed (hvs.trans htyped.params)
    (fun _ => none) nofun
  rw [call, if_neg (by simp [hy]), hfind]
  refine Yields.bind (P := (· = f)) rfl fun g hg => ?_
  subst hg
  rw [htyped.paramsOf, hbind]
  refine (ih.stmts (hw.locals hlocals) htyped.body.stmts).bind fun r hr => ?_
  obtain ⟨inner, ending⟩ := r
  refine (giveBack_sound htyped hr.2).bind fun v hv => ?_
  exact ⟨hw.back hr.1, hv⟩

theorem stmt_sound (ih : Sound p c fuel) {st : Stmt} {result : Option Ty} {b : Bool} (hw : w.Typed c)
    (h : st.Typed c result b) :
    Yields (stmt p c (fuel + 1) w st) fun r => r.1.Typed c ∧ r.2.Fits result b := by
  cases h with
  | var hd hv htype =>
    rename_i n name type value y
    cases htype with
    | some he =>
      rw [stmt, hd]
      refine (ih.value hw he hv).bind fun r hr => ?_
      obtain ⟨w, v⟩ := r
      exact ⟨hr.1.write hr.2, trivial⟩
    | none =>
      obtain ⟨v, hdefault, hvtype⟩ := Value.default?_of_isValue hv
      rw [stmt, hd]
      dsimp only [Option.getD_some]
      rw [hdefault]
      exact ⟨hw.write hvtype, trivial⟩
  | expr he =>
    rw [stmt]
    refine (ih.expr hw he).bind fun r hr => ?_
    obtain ⟨w, v⟩ := r
    exact ⟨hr.1, trivial⟩
  | branch hc hb ho =>
    rw [stmt]
    refine (ih.value hw hc rfl).bind fun r hr => ?_
    obtain ⟨w, v⟩ := r
    obtain ⟨hw, hv⟩ := hr
    obtain ⟨b, rfl⟩ := Value.eq_bool hv
    cases b with
    | true => exact ih.stmts hw hb.stmts
    | false => exact ih.alternative hw ho
  | loop hc hb =>
    rename_i n kind cond body
    have hagain : ∀ w : World, w.Typed c → Yields (Evaluation.stmt p c fuel w (.loop n kind cond body))
        fun r => r.1.Typed c ∧ r.2.Fits result b := fun w hw => ih.stmt hw (.loop hc hb)
    cases kind with
    | before =>
      rw [stmt]
      refine (ih.value hw hc rfl).bind fun r hr => ?_
      obtain ⟨w, v⟩ := r
      obtain ⟨hw, hv⟩ := hr
      obtain ⟨b, rfl⟩ := Value.eq_bool hv
      cases b with
      | false => exact ⟨hw, trivial⟩
      | true =>
        refine (ih.stmts hw hb.stmts).bind fun r hr => ?_
        obtain ⟨w, ending⟩ := r
        cases ending with
        | next => exact hagain w hr.1
        | again => exact hagain w hr.1
        | leave => exact ⟨hr.1, trivial⟩
        | give v => exact hr
    | after =>
      rw [stmt]
      refine (ih.stmts hw hb.stmts).bind fun r hr => ?_
      obtain ⟨w, ending⟩ := r
      have htest : ∀ k : World × Value → Except Stop (World × Ending),
          (∀ w, k (w, .bool true) = Evaluation.stmt p c fuel w (.loop n .after cond body)) →
          (∀ w, k (w, .bool false) = .ok (w, .next)) →
          Yields (asValue (Evaluation.expr p c fuel w cond) >>= k)
            fun r => r.1.Typed c ∧ r.2.Fits result b := by
        intro k htrue hfalse
        refine (ih.value hr.1 hc rfl).bind fun r hr => ?_
        obtain ⟨w, v⟩ := r
        obtain ⟨hw, hv⟩ := hr
        obtain ⟨b, rfl⟩ := Value.eq_bool hv
        cases b with
        | false =>
          rw [hfalse]
          exact ⟨hw, trivial⟩
        | true =>
          rw [htrue]
          exact hagain w hw
      cases ending with
      | next => exact htest _ (fun _ => rfl) fun _ => rfl
      | again => exact htest _ (fun _ => rfl) fun _ => rfl
      | leave => exact ⟨hr.1, trivial⟩
      | give v => exact hr
  | leave =>
    rw [stmt]
    exact ⟨hw, rfl⟩
  | again =>
    rw [stmt]
    exact ⟨hw, rfl⟩
  | give hresult =>
    rw [stmt]
    exact ⟨hw, .void, hresult, rfl⟩
  | giveValue hresult hv he =>
    rw [stmt]
    refine (ih.value hw he hv).bind fun r hr => ?_
    obtain ⟨w, v⟩ := r
    exact ⟨hr.1, _, hresult, Value.isResult_some hv hr.2⟩
  | command =>
    rw [stmt]
    exact ⟨hw.act _, trivial⟩

theorem stmts_sound (ih : Sound p c fuel) {ss : List Stmt} {result : Option Ty} {b : Bool}
    (hw : w.Typed c) (h : Stmt.AllTyped c result b ss) :
    Yields (stmts p c (fuel + 1) w ss) fun r => r.1.Typed c ∧ r.2.Fits result b := by
  cases h with
  | nil =>
    rw [stmts]
    exact ⟨hw, trivial⟩
  | cons hs hrest =>
    rw [stmts]
    refine (ih.stmt hw hs).bind fun r hr => ?_
    obtain ⟨w, ending⟩ := r
    cases ending with
    | next => exact ih.stmts hr.1 hrest
    | leave => exact hr
    | again => exact hr
    | give v => exact hr

theorem alternative_sound (ih : Sound p c fuel) {o : Otherwise} {result : Option Ty} {b : Bool}
    (hw : w.Typed c) (h : o.Typed c result b) :
    Yields (alternative p c (fuel + 1) w o) fun r => r.1.Typed c ∧ r.2.Fits result b := by
  cases h with
  | none =>
    rw [alternative]
    exact ⟨hw, trivial⟩
  | block hb =>
    rw [alternative]
    exact ih.stmts hw hb.stmts
  | chain hs =>
    rw [alternative]
    exact ih.stmt hw hs

end

/-- Evaluation of well-typed pieces makes sense, whatever the fuel is. -/
theorem sound {p : Program} {c : EmissionContext} (hp : p.Typed c) (fuel : Nat) : Sound p c fuel := by
  induction fuel with
  | zero => exact ⟨fun _ _ => nofun, fun _ _ _ => nofun, fun _ _ => nofun, fun _ _ _ _ => nofun,
      fun _ _ => nofun, fun _ _ => nofun, fun _ _ => nofun⟩
  | succ fuel ih => exact ⟨expr_sound hp ih, arguments_sound ih, print_sound, call_sound hp ih,
      stmt_sound ih, stmts_sound ih, alternative_sound ih⟩

theorem typed_start (c : EmissionContext) : ({} : World).Typed c := by
  intro y v hv
  unfold World.read? at hv
  split at hv <;> cases hv

/-- A run of a well-typed program is never meaningless. -/
theorem run_ne_meaningless {p : Program} {c : EmissionContext} (hp : p.Typed c) (fuel : Nat) :
    run p c fuel ≠ .error .meaningless := by
  have h : Yields (run p c fuel) fun _ => True := by
    refine ((sound hp fuel).stmts (typed_start c) hp.topLevel).bind fun r hr => ?_
    obtain ⟨w, ending⟩ := r
    cases ending with
    | next => exact trivial
    | leave => cases hr.2
    | again => cases hr.2
    | give v =>
      obtain ⟨ty, hty, -⟩ := hr.2
      cases hty
  intro hr
  rw [hr] at h
  exact h rfl

end Evaluation

end Craftlang
