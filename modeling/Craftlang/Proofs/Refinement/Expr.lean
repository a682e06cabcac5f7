import Craftlang.Proofs.Code.Program
import Craftlang.Proofs.Refinement.Passing

/-!
# Code of expressions computes their values

By induction on the fuel of evaluation: if an expression has a value, its code runs, and the operand that
stands for it has that value. `Refines` says what is known for less fuel, also about calls and
statements; here are the steps for expressions and calls.
-/

namespace Craftlang

open Machine Emission

/-- The signal that is pending when a statement ends. -/
def Ending.signal : Ending → Signal
  | .next => .none
  | .leave => .leave
  | .again => .again
  | .give _ => .give

/-- The signal that is pending when a loop ends: the one that left it is still to be taken back. -/
def Ending.EndsLoop (ending : Ending) (mayLeave : Bool) (g : Signal) : Prop :=
  g = ending.signal ∨ ending = .next ∧ mayLeave = true ∧ g = .leave

/-- What a statement gives back. -/
def Ending.result? : Ending → Option Value
  | .give v => v
  | _ => none

namespace Layout

/-- The code of a function is there; its variables have the slots that they were given. -/
structure HasCode (t : Layout) (name : Bytes) (body : Emission) : Prop where
  code : t.code (.declared name) = some (body.commands ++ [.removeFrame, .leaveFrame, .popTexts])
  links : ({ t with slots := body.slots } : Layout).Links body

/-- A well-typed program runs with the layout. -/
structure Hosts (t : Layout) (p : Program) : Prop where
  sound : t.Sound
  typed : p.Typed t.context
  functions : ∀ f info, f ∈ p.functions → f.Typed t.context info →
    ∃ s : Emission, t.HasCode (ResourceName.normalize info.name)
      (s.bodyOf t.context (ResourceName.normalize info.name) info.params f.body.stmts)
  params : ∀ f info, f ∈ p.functions → f.Typed t.context info →
    ∀ y ∈ info.params, t.context.resolution.isGlobal y = false

/-- Code that is emitted from a point on can start. -/
structure Starts (t : Layout) (p : Program) (s : Emission) (w : World) (m : Machine) : Prop where
  hosts : t.Hosts p
  tidy : s.Tidy
  typed : w.Typed t.context
  agrees : t.Agrees w .none m

theorem Starts.after {t : Layout} {p : Program} {s s' : Emission} {w w' : World} {m m' : Machine}
    (h : t.Starts p s w m) (hg : s.Grows s') (hw : w'.Typed t.context) (ha : t.Agrees w' .none m') :
    t.Starts p s' w' m' :=
  ⟨h.hosts, hg.tidy h.tidy, hw, ha⟩

/-- The code between two points runs. A signal is pending then that is allowed, and a result is handed
over, if there is one. -/
structure Yields (t : Layout) (bound : Nat) (s s' : Emission) (w : World) (ends : Signal → Prop)
    (v : Option Value) (m m' : Machine) : Prop where
  exists_signal : ∃ g, ends g ∧ t.Reaches bound s s' w g m m'
  gives : m'.Gives v

/-- The code between two points does what a statement does: it ends in the same way. -/
def Performs (t : Layout) (s s' : Emission) (w : World) (ending : Ending) (m m' : Machine) : Prop :=
  t.Yields s.lastSlot s s' w (· = ending.signal) ending.result? m m'

end Layout

/-- Evaluation with some fuel is what the code does. -/
structure Refines (p : Program) (fuel : Nat) : Prop where
  expr : ∀ {t : Layout} {s : Emission} {w w' : World} {m : Machine} {e : Expr} {ty : Ty}
    {v : Option Value}, t.Starts p s w m → e.HasType t.context ty →
    Evaluation.expr p t.context fuel w e = .ok (w', v) →
    t.Links (Emission.expr t.context s e).1 →
    ∃ m', t.Computes s (Emission.expr t.context s e) w' v m m'
  arguments : ∀ {t : Layout} {s : Emission} {w w' : World} {m : Machine} {es : List Expr}
    {tys : List Ty} {vs : List Value}, t.Starts p s w m → Expr.HaveTypes t.context es tys →
    (∀ ty ∈ tys, ty.isValue = true) →
    Evaluation.arguments p t.context fuel w es = .ok (w', vs) →
    t.Links (Emission.arguments t.context s es).1 →
    ∃ m', t.Reaches s.lastSlot s (Emission.arguments t.context s es).1 w' .none m m' ∧
      List.Forall₂ (t.Carries w' m' s.lastSlot (Emission.arguments t.context s es).1.lastSlot)
        (Emission.arguments t.context s es).2 vs
  call : ∀ {t : Layout} {w w' : World} {m : Machine} {y : Nat} {info : FunctionInfo} {vs : List Value}
    {v : Option Value}, t.Hosts p → w.Typed t.context → t.Agrees w .none m → m.Hands 1 vs →
    isPrint t.context y = false → t.context.typing.functionOf? y = some info →
    vs.map Value.type = info.signature.params →
    Evaluation.call p t.context fuel w y vs = .ok (w', v) →
    ∃ m', Runs t.code [.call (.declared (ResourceName.normalize info.name))] m m' ∧
      t.Agrees w' .none m' ∧ (∀ bound, t.Keeps bound m m') ∧ m'.Gives v
  stmt : ∀ {t : Layout} {s : Emission} {w w' : World} {m : Machine} {st : Stmt} {result : Option Ty}
    {b : Bool} {ending : Ending}, t.Starts p s w m → st.Typed t.context result b →
    Evaluation.stmt p t.context fuel w st = .ok (w', ending) →
    t.Links (Emission.stmt t.context s st) →
    ∃ m', t.Performs s (Emission.stmt t.context s st) w' ending m m'
  stmts : ∀ {t : Layout} {s : Emission} {w w' : World} {m : Machine} {ss : List Stmt}
    {result : Option Ty} {b : Bool} {ending : Ending}, t.Starts p s w m →
    Stmt.AllTyped t.context result b ss →
    Evaluation.stmts p t.context fuel w ss = .ok (w', ending) →
    t.Links (Emission.stmts t.context s ss) →
    ∃ m', t.Performs s (Emission.stmts t.context s ss) w' ending m m'
  alternative : ∀ {t : Layout} {s : Emission} {w w' : World} {m : Machine} {x : Operand} {low high : Nat}
    {o : Otherwise} {result : Option Ty} {b : Bool} {ending : Ending}, t.Starts p s w m →
    o.Typed t.context result b → t.Carries w m low high x (.bool false) →
    Evaluation.alternative p t.context fuel w o = .ok (w', ending) →
    t.Links (Emission.alternative t.context s x o) →
    ∃ m', t.Performs s (Emission.alternative t.context s x o) w' ending m m'
  loop : ∀ {t : Layout} {s : Emission} {w w' : World} {m : Machine} {n : Node} {kind : LoopKind}
    {cond : Expr} {body : Block} {result : Option Ty} {ending : Ending}, t.Starts p s w m →
    cond.HasType t.context .bool → body.Typed t.context result true →
    Evaluation.stmt p t.context fuel w (.loop n kind cond body) = .ok (w', ending) →
    t.Links (Emission.stmt t.context s (.loop n kind cond body)) →
    ∃ m', t.Yields s.lastSlot s (s.emit (.call s.newPiece.2)) w' (ending.EndsLoop body.mayLeave)
      ending.result? m m'

section

variable {p : Program} {fuel : Nat} {t : Layout} {s s₁ : Emission} {w w₁ w' : World} {m m₁ m' : Machine}

namespace Layout

/-- The machine after the code of an expression, and what holds there. -/
theorem Computes.starts {e : Expr} {ty : Ty} {v : Option Value}
    (h : t.Computes s (expr t.context s e) w' v m m') (hs : t.Starts p s w m)
    (he : e.HasType t.context ty) (heval : Evaluation.expr p t.context fuel w e = .ok (w', v)) :
    t.Starts p (expr t.context s e).1 w' m' :=
  hs.after (expr_grows t.context s e)
    (((Evaluation.sound hs.hosts.typed fuel).expr hs.typed he).of_ok heval).1 h.reaches.agrees

/-- Code that computes a value comes after other code. -/
theorem Computes.after {out : Emission × Operand} {v : Option Value}
    (h : t.Computes s₁ out w' v m₁ m') (hg : s.Grows s₁)
    (hr : t.Reaches s.lastSlot s s₁ w₁ .none m m₁) : t.Computes s out w' v m m' :=
  ⟨hr.trans (h.reaches.mono hg.lastSlot), fun u hu => (h.carries u hu).mono hg.lastSlot⟩

theorem Owns.after {out : Emission × Operand} {v : Value} (h : t.Owns s.lastSlot s₁ out w' v m₁ m')
    (hr : t.Reaches s.lastSlot s s₁ w₁ .none m m₁) : t.Computes s out w' (some v) m m' :=
  ⟨hr.trans h.reaches, fun u hu => by cases hu; exact h.carries⟩

end Layout

/-- The type of a value is the type of its expression. -/
theorem type_of_expr (hs : t.Starts p s w m) {e : Expr} {ty : Ty} {v : Value}
    (he : e.HasType t.context ty)
    (heval : Evaluation.expr p t.context fuel w e = .ok (w', some v)) : v.type = ty := by
  have h := (((Evaluation.sound hs.hosts.typed fuel).expr hs.typed he).of_ok heval).2
  rw [Value.IsResult, Option.map_some] at h
  split at h
  · exact Option.some.inj h
  · cases h

theorem unary_refines (ih : Refines p fuel) (hs : t.Starts p s w m) {n : Node} {op : UnaryOp} {e : Expr}
    {ty : Ty} {v : Option Value} (he : Expr.HasType t.context (.unary n op e) ty)
    (heval : Evaluation.expr p t.context (fuel + 1) w (.unary n op e) = .ok (w', v))
    (hlinks : t.Links (expr t.context s (.unary n op e)).1) :
    ∃ m', t.Computes s (expr t.context s (.unary n op e)) w' v m m' := by
  have hfold {k : Int} (hk : foldConstant t.context.typing (.unary n op e) = some k) :=
    foldConstant_value _ hk he heval
  obtain ⟨a, u, ha, happly, rfl⟩ := Evaluation.expr_unary heval
  cases he with
  | unary hoperand hresult _ =>
    have hgrows := expr_grows t.context s e
    cases op with
    | plus =>
      rw [expr] at hlinks ⊢
      obtain rfl : u = a := by
        cases a <;> cases happly
        rfl
      exact ih.expr hs hoperand ha hlinks
    | not =>
      rw [expr] at hlinks ⊢
      obtain ⟨m₁, hm₁⟩ := ih.expr hs hoperand ha (hlinks.before (grows_invert _ _))
      have hs₁ := hm₁.starts hs hoperand ha
      obtain ⟨b, rfl⟩ : ∃ b, a = .bool b := by
        cases a <;> cases happly
        exact ⟨_, rfl⟩
      cases happly
      obtain ⟨m₂, hm₂⟩ := hs₁.agrees.invert hs.hosts.sound hs₁.tidy hlinks (hm₁.carries _ rfl)
      exact ⟨m₂, hm₂.after hgrows hm₁.reaches⟩
    | minus =>
      rw [expr_minus] at hlinks ⊢
      split at hlinks
      · rename_i k hk
        obtain ⟨rfl, u', hu', hcell⟩ := hfold hk
        cases hu'
        exact hs.agrees.constantScore hs.hosts.sound hs.tidy hlinks hcell
      · obtain ⟨m₁, hm₁⟩ := ih.expr hs hoperand ha (hlinks.before (grows_negate _ _))
        have hs₁ := hm₁.starts hs hoperand ha
        obtain ⟨i, rfl⟩ : ∃ i, a = .int i := by
          cases a <;> cases happly
          exact ⟨_, rfl⟩
        cases happly
        obtain ⟨m₂, hm₂⟩ := hs₁.agrees.negate hs.hosts.sound hs₁.tidy hlinks (hm₁.carries _ rfl)
        exact ⟨m₂, hm₂.after hgrows hm₁.reaches⟩

/-- Both operands of an operator are evaluated; the left one is out of reach of the right one. -/
theorem operands_refine (ih : Refines p fuel) (hs : t.Starts p s w m) {l r : Expr} {tl tr : Ty}
    {a b : Value} {owned : Emission × Operand} (hl : l.HasType t.context tl) (hr : r.HasType t.context tr)
    (ha : Evaluation.expr p t.context fuel w l = .ok (w₁, some a))
    (hb : Evaluation.expr p t.context fuel w₁ r = .ok (w', some b))
    (hgrows : (expr t.context s l).1.Grows owned.1)
    (hown : ∀ m₁, t.Starts p (expr t.context s l).1 w₁ m₁ →
      t.Carries w₁ m₁ s.lastSlot (expr t.context s l).1.lastSlot (expr t.context s l).2 a →
      ∃ m₂, t.Owns s.lastSlot (expr t.context s l).1 owned w₁ a m₁ m₂)
    (hlinks : t.Links (expr t.context owned.1 r).1) :
    ∃ m', t.Reaches s.lastSlot s (expr t.context owned.1 r).1 w' .none m m' ∧
      t.Carries w' m' s.lastSlot (expr t.context owned.1 r).1.lastSlot owned.2 a ∧
      owned.2.isOwn = true ∧
      t.Carries w' m' owned.1.lastSlot (expr t.context owned.1 r).1.lastSlot
        (expr t.context owned.1 r).2 b := by
  have hgl := expr_grows t.context s l
  have hgr := expr_grows t.context owned.1 r
  obtain ⟨m₁, hm₁⟩ := ih.expr hs hl ha ((hlinks.before hgr).before hgrows)
  have hs₁ := hm₁.starts hs hl ha
  obtain ⟨m₂, hm₂⟩ := hown m₁ hs₁ (hm₁.carries _ rfl)
  have hs₂ := hs₁.after hgrows hs₁.typed hm₂.reaches.agrees
  obtain ⟨m₃, hm₃⟩ := ih.expr hs₂ hr hb hlinks
  have hle : s.lastSlot ≤ owned.1.lastSlot := (hgl.trans hgrows).lastSlot
  exact ⟨m₃, (hm₁.reaches.trans hm₂.reaches).trans (hm₃.reaches.mono hle),
    hm₂.carries.later hm₃.reaches.keeps (.inl hm₂.own) hgr.lastSlot, hm₂.own, hm₃.carries _ rfl⟩

theorem binary_refines (ih : Refines p fuel) (hs : t.Starts p s w m) {n : Node} {op : BinaryOp}
    {span : Span} {l r : Expr} {ty : Ty} {v : Option Value}
    (he : Expr.HasType t.context (.binary n op span l r) ty)
    (heval : Evaluation.expr p t.context (fuel + 1) w (.binary n op span l r) = .ok (w', v))
    (hlinks : t.Links (expr t.context s (.binary n op span l r)).1) :
    ∃ m', t.Computes s (expr t.context s (.binary n op span l r)) w' v m m' := by
  obtain ⟨w₁, a, b, u, ha, hb, hu, rfl⟩ := Evaluation.expr_binary heval
  have ht := hs.hosts.sound
  cases he with
  | binary hl hr hresult _ =>
    rw [expr] at hlinks ⊢
    by_cases hop : op = .concat
    · rw [if_pos hop] at hlinks ⊢
      subst hop
      obtain ⟨x, y, rfl, rfl, rfl⟩ := BinaryOp.eval?_concat hu
      have hright := hlinks.before (grows_join _ _ _)
      have hsj : t.Starts p (s.joinAt span) w m := hs.after (grows_joinAt s span) hs.typed hs.agrees
      obtain ⟨m₃, hreaches, hleft, hown, hm₃⟩ := operands_refine ih hsj hl hr ha hb (grows_ownText _ _)
        (fun m₁ hs₁ hx => hs₁.agrees.ownText ht hs₁.tidy
          (hright.before (expr_grows t.context _ r)) hx (expr_grows t.context _ l).lastSlot) hright
      have hjoined : t.code .joiner = some [.joinedText] := by
        refine hlinks.joiner (Grows.joined (s := s.joinAt span) ?_ ?_)
        · exact (((expr_grows t.context _ l).trans (grows_ownText _ _)).trans
            (expr_grows t.context _ r)).trans (grows_join _ _ _)
        · change (s.joinedAt.or (some span)).isSome = true
          rw [Option.isSome_or, Option.isSome_some, Bool.or_true]
      obtain ⟨m₄, hm₄⟩ := hreaches.agrees.join ht hjoined hleft hown hm₃
      exact ⟨m₄, (hm₄.after hreaches).after (grows_joinAt s span) (hs.agrees.reaches rfl)⟩
    · rw [if_neg hop] at hlinks ⊢
      obtain ⟨hascore, -⟩ := BinaryOp.isScore_of_eval? hop hu
      have hright := hlinks.before (grows_applyScores _ op _ _)
      obtain ⟨m₃, hreaches, hleft, hown, hm₃⟩ := operands_refine ih hs hl hr ha hb (grows_ownScore _ _)
        (fun m₁ hs₁ hx => hs₁.agrees.ownScore ht hs₁.tidy
          (hright.before (expr_grows t.context _ r)) hx hascore (expr_grows t.context _ l).lastSlot) hright
      obtain ⟨m₄, hm₄⟩ := hreaches.agrees.applyScores ht hop hu hleft hown hm₃
      exact ⟨m₄, hm₄.after hreaches⟩

theorem print_refines (ih : Refines p fuel) (hs : t.Starts p s w m) {n : Node} {i : Ident} {y : Nat}
    {e : Expr} {ty : Ty} {v : Option Value} (hi : t.context.resolution.refOf? i.node.id = some y)
    (hprint : isPrint t.context y = true) (he : e.HasType t.context ty) (hty : ty.isValue = true)
    (heval : Evaluation.expr p t.context (fuel + 1) w (.call n (.ident i) [e]) = .ok (w', v))
    (hlinks : t.Links (expr t.context s (.call n (.ident i) [e])).1) :
    ∃ m', t.Computes s (expr t.context s (.call n (.ident i) [e])) w' v m m' := by
  obtain ⟨w₁, vs, hargs, hcall⟩ := Evaluation.expr_call heval
  have htys : ∀ ty' ∈ [ty], ty'.isValue = true := by simpa using hty
  have hfirst : ([e].head?.map fun e => t.context.typing.typeOfExpr e.id).getD .invalid = ty := he.recorded
  rw [calleeOf_ident hi] at hcall
  rw [expr, calleeOf_ident hi, hfirst] at hlinks ⊢
  obtain ⟨m₁, hreaches, hcarries⟩ := ih.arguments hs (.cons he .nil) htys hargs
    (hlinks.before (grows_call _ _ _ _ _ _))
  obtain ⟨-, hvs⟩ := ((Evaluation.sound hs.hosts.typed fuel).arguments hs.typed (.cons he .nil)
    htys).of_ok hargs
  cases fuel with
  | zero => cases hcall
  | succ fuel =>
    obtain ⟨u, rfl, rfl, rfl⟩ := Evaluation.call_print hprint hcall
    obtain rfl : u.type = ty := by simpa using hvs
    generalize arguments t.context s [e] = evaluated at hreaches hcarries ⊢
    obtain ⟨s₁, xs⟩ := evaluated
    obtain ⟨x, _, hx, hnil, rfl⟩ := List.forall₂_cons_right_iff.mp hcarries
    obtain ⟨m₂, hm₂⟩ := hreaches.agrees.print (s := s₁) hs.hosts.sound hx
    dsimp only
    rw [Emission.call, if_pos hprint]
    exact ⟨m₂, hreaches.trans hm₂, nofun⟩

theorem declared_refines (ih : Refines p fuel) (hs : t.Starts p s w m) {n : Node} {i : Ident} {y : Nat}
    {info : FunctionInfo} {args : List Expr} {v : Option Value}
    (hi : t.context.resolution.refOf? i.node.id = some y) (hprint : isPrint t.context y = false)
    (hf : t.context.typing.functionOf? y = some info)
    (hargs : Expr.HaveTypes t.context args info.signature.params)
    (hn : t.context.typing.typeOfExpr n.id = info.result)
    (heval : Evaluation.expr p t.context (fuel + 1) w (.call n (.ident i) args) = .ok (w', v))
    (hlinks : t.Links (expr t.context s (.call n (.ident i) args)).1) :
    ∃ m', t.Computes s (expr t.context s (.call n (.ident i) args)) w' v m m' := by
  obtain ⟨w₁, vs, hvs, hcall⟩ := Evaluation.expr_call heval
  obtain ⟨f, -, -, hfunction⟩ := hs.hosts.typed.functionOf? hf
  have hsound := Evaluation.sound hs.hosts.typed fuel
  obtain ⟨hw₁, htypes⟩ := (hsound.arguments hs.typed hargs hfunction.values).of_ok hvs
  rw [calleeOf_ident hi] at hcall
  obtain ⟨-, hresult⟩ := (hsound.call hw₁ hprint hf htypes).of_ok hcall
  rw [expr, calleeOf_ident hi] at hlinks ⊢
  dsimp only at hlinks ⊢
  obtain ⟨m₁, hreaches, hcarries⟩ := ih.arguments hs hargs hfunction.values hvs
    (hlinks.before (grows_call _ _ _ _ _ _))
  have hgrows := arguments_grows t.context s args
  generalize arguments t.context s args = evaluated at hlinks hreaches hcarries hgrows ⊢
  obtain ⟨s₁, xs⟩ := evaluated
  unfold Emission.call at hlinks ⊢
  rw [if_neg (by simp [hprint]), hf] at hlinks ⊢
  dsimp only at hlinks ⊢
  rw [hn] at hlinks ⊢
  obtain ⟨m₂, hpassed, hhands, -⟩ := hreaches.agrees.passArguments (s := s₁) (d := s.lastSlot)
    hs.hosts.sound hcarries 1
  obtain ⟨m₃, hruns, hagrees, hkeeps, hgives⟩ :=
    ih.call hs.hosts hw₁ hpassed.agrees hhands hprint hf htypes hcall
  generalize hcalled : Emission.emit { s₁.passArguments 1 xs with
    argumentCount := max (s₁.passArguments 1 xs).argumentCount xs.length } _ = called at hlinks ⊢
  have hcommands : called.commands = (s₁.passArguments 1 xs).commands
      ++ [.call (.declared (ResourceName.normalize info.name))] := by rw [← hcalled]; rfl
  have hgrows' : s.Grows called := by
    refine (hgrows.trans (grows_passArguments s₁ 1 xs)).trans ?_
    rw [← hcalled]
    exact .same rfl (Nat.le_refl _) rfl rfl (Nat.le_refl _) rfl rfl
  have hreached : t.Reaches s.lastSlot s called w' .none m m₃ :=
    (hreaches.trans hpassed).trans ⟨⟨_, hcommands, hruns⟩, hagrees, hkeeps _⟩
  obtain ⟨m₄, hm₄⟩ := hagrees.takeResult hs.hosts.sound (hgrows'.tidy hs.tidy) hlinks hresult hgives
  exact ⟨m₄, hm₄.after hgrows' hreached⟩

theorem assign_refines (ih : Refines p fuel) (hs : t.Starts p s w m) {n : Node} {span : Span} {i : Ident}
    {y : Nat} {e : Expr} {ty : Ty} {v : Option Value} (he : e.HasType t.context ty)
    (hi : t.context.IsVariable i y ty)
    (heval : Evaluation.expr p t.context (fuel + 1) w (.assign n .set span i e) = .ok (w', v))
    (hlinks : t.Links (expr t.context s (.assign n .set span i e)).1) :
    ∃ m', t.Computes s (expr t.context s (.assign n .set span i e)) w' v m m' := by
  obtain ⟨href, htype, -⟩ := hi
  obtain ⟨w₁, u, hu, rfl, rfl⟩ := Evaluation.expr_assign heval
  rw [expr, Emission.identPlace] at hlinks ⊢
  rw [href, Option.getD_some] at hlinks ⊢
  dsimp only [AssignOp.binary?, variableOperand] at hlinks ⊢
  have hgrows := grows_variablePlace s t.context y
  have hplace := (hlinks.before (grows_store t.context _ _ e)).variablePlace
  have hs₁ : t.Starts p (variablePlace t.context s y).1 w m := hs.after hgrows hs.typed hs.agrees
  obtain ⟨m₁, hm₁⟩ := hs.agrees.store hs.hosts.sound he hu
    ((type_of_expr hs he hu).trans htype.symm) hplace hlinks fun hlinks => ih.expr hs₁ he hu hlinks
  refine ⟨m₁, (hs.agrees.reaches (commands_variablePlace ..)).trans (hm₁.mono hgrows.lastSlot),
    fun u' hu' => ?_⟩
  cases hu'
  exact .shared hplace (by rw [World.read?_write, if_pos rfl])

theorem update_refines (ih : Refines p fuel) (hs : t.Starts p s w m) {n : Node} {op : AssignOp}
    {b : BinaryOp} {span : Span} {i : Ident} {y : Nat} {e : Expr} {ty ty' : Ty} {v : Option Value}
    (hb : op.binary? = some b) (he : e.HasType t.context ty') (hi : t.context.IsVariable i y ty)
    (heval : Evaluation.expr p t.context (fuel + 1) w (.assign n op span i e) = .ok (w', v))
    (hlinks : t.Links (expr t.context s (.assign n op span i e)).1) :
    ∃ m', t.Computes s (expr t.context s (.assign n op span i e)) w' v m m' := by
  obtain ⟨href, htype, -⟩ := hi
  obtain ⟨w₁, a, old, u, ha, hold, hu, rfl, rfl⟩ := Evaluation.expr_update hb heval
  rw [href, Option.getD_some] at hold
  rw [expr, Emission.identPlace, href, Option.getD_some] at hlinks ⊢
  dsimp only at hlinks ⊢
  rw [hb] at hlinks ⊢
  dsimp only at hlinks ⊢
  have hgrows := grows_variablePlace s t.context y
  have hlinks₁ := hlinks.before (grows_applyScores _ _ _ _)
  have hplace := (hlinks₁.before (expr_grows t.context _ e)).variablePlace
  have hs₁ : t.Starts p (variablePlace t.context s y).1 w m := hs.after hgrows hs.typed hs.agrees
  obtain ⟨m₁, hm₁⟩ := ih.expr hs₁ he ha hlinks₁
  have hreaches := (hs.agrees.reaches (commands_variablePlace ..)).trans
    (hm₁.reaches.mono hgrows.lastSlot)
  obtain ⟨m₂, hm₂⟩ := hm₁.reaches.agrees.updateScore (d := s.lastSlot) hs.hosts.sound
    (ne_concat_of_binary? hb) hu hplace hold (hm₁.carries _ rfl)
  refine ⟨m₂, hreaches.trans hm₂, fun u' hu' => ?_⟩
  cases hu'
  exact .shared hplace (by rw [World.read?_write, if_pos rfl])

/-- Code of expressions computes their values, if it does so with less fuel. -/
theorem expr_refines (ih : Refines p fuel) (hs : t.Starts p s w m) {e : Expr} {ty : Ty}
    {v : Option Value} (he : e.HasType t.context ty)
    (heval : Evaluation.expr p t.context (fuel + 1) w e = .ok (w', v))
    (hlinks : t.Links (expr t.context s e).1) : ∃ m', t.Computes s (expr t.context s e) w' v m m' := by
  cases he with
  | constant hk hn =>
    obtain ⟨rfl, hv⟩ := Evaluation.expr_constant heval
    obtain ⟨u, hu, -⟩ := Constant.value?_of_fits hk
    rw [expr] at hlinks ⊢
    rw [hv, hu]
    exact hs.agrees.literal hs.hosts.sound hs.tidy hlinks hk hu
  | ident hi hn =>
    obtain ⟨rfl, u, rfl, hu⟩ := Evaluation.expr_ident heval
    rw [expr] at hlinks ⊢
    exact ⟨m, hs.agrees.variableOperand hlinks hu⟩
  | group he hn =>
    rw [Evaluation.expr] at heval
    rw [expr] at hlinks ⊢
    exact ih.expr hs he heval hlinks
  | unary he hresult hn => exact unary_refines ih hs (.unary he hresult hn) heval hlinks
  | binary hl hr hresult hn => exact binary_refines ih hs (.binary hl hr hresult hn) heval hlinks
  | print hi hprint he hty hn => exact print_refines ih hs hi hprint he hty heval hlinks
  | call hi hprint hf hargs hn => exact declared_refines ih hs hi hprint hf hargs hn heval hlinks
  | assign he hi hn => exact assign_refines ih hs he hi heval hlinks
  | update hb he hi hresult hn => exact update_refines ih hs hb he hi heval hlinks

theorem arguments_refine (ih : Refines p fuel) (hs : t.Starts p s w m) {es : List Expr} {tys : List Ty}
    {vs : List Value} (he : Expr.HaveTypes t.context es tys) (htys : ∀ ty ∈ tys, ty.isValue = true)
    (heval : Evaluation.arguments p t.context (fuel + 1) w es = .ok (w', vs))
    (hlinks : t.Links (arguments t.context s es).1) :
    ∃ m', t.Reaches s.lastSlot s (arguments t.context s es).1 w' .none m m' ∧
      List.Forall₂ (t.Carries w' m' s.lastSlot (arguments t.context s es).1.lastSlot)
        (arguments t.context s es).2 vs := by
  cases he with
  | nil =>
    cases heval
    rw [arguments]
    exact ⟨m, hs.agrees.reaches rfl, .nil⟩
  | cons he hes =>
    rename_i e es ty tys
    rw [List.forall_mem_cons] at htys
    obtain ⟨w₁, u, us, hu, hus, rfl⟩ := Evaluation.arguments_cons heval
    rw [arguments] at hlinks ⊢
    dsimp only at hlinks ⊢
    have hge := expr_grows t.context s e
    have hgkept := grows_keep (expr t.context s e).1 (expr t.context s e).2 (es.any Expr.hasEffects)
    generalize hkept : (if es.any Expr.hasEffects then _ else _ : Emission × Operand) = kept
      at hlinks hgkept ⊢
    have hlinks₂ := hlinks.before (arguments_grows t.context kept.1 es)
    obtain ⟨m₁, hm₁⟩ := ih.expr hs he hu (hlinks₂.before hgkept)
    have hs₁ := hm₁.starts hs he hu
    obtain ⟨m₂, hreaches, hcarries, hown⟩ : ∃ m₂,
        t.Reaches s.lastSlot (expr t.context s e).1 kept.1 w₁ .none m₁ m₂ ∧
        t.Carries w₁ m₂ s.lastSlot kept.1.lastSlot kept.2 u ∧
        (kept.2.isOwn = true ∨ es.any Expr.hasEffects = false) := by
      subst hkept
      cases heffects : es.any Expr.hasEffects with
      | true =>
        rw [heffects, if_pos rfl] at hlinks₂
        obtain ⟨m₂, hm₂⟩ := hs₁.agrees.own hs.hosts.sound hs₁.tidy hlinks₂ (hm₁.carries _ rfl)
          hge.lastSlot
        exact ⟨m₂, hm₂.reaches, hm₂.carries, .inl hm₂.own⟩
      | false => exact ⟨m₁, hs₁.agrees.reaches rfl, hm₁.carries _ rfl, .inr rfl⟩
    have hs₂ := hs₁.after hgkept hs₁.typed hreaches.agrees
    obtain ⟨m₃, hrest, hothers⟩ := ih.arguments hs₂ hes htys.2 hus hlinks
    have hle : s.lastSlot ≤ kept.1.lastSlot := (hge.trans hgkept).lastSlot
    have hsame : kept.2.isOwn = true ∨ w' = w₁ := hown.imp_right fun h => Evaluation.arguments_world h hus
    refine ⟨m₃, (hm₁.reaches.trans hreaches).trans (hrest.mono hle), .cons ?_ ?_⟩
    · exact hcarries.later hrest.keeps hsame (arguments_grows t.context _ es).lastSlot
    · exact hothers.imp fun _ _ hx => hx.mono hle

theorem sound_bodyOf (ht : t.Sound) (name : Bytes) (params : List Nat) (body : List Stmt) :
    ({ t with slots := (s.bodyOf t.context name params body).slots } : Layout).Sound := by
  obtain ⟨more, hmore, hsorted, -⟩ := ((grows_takeParams t.context (s.opened name) 1 params).trans
    (stmts_grows t.context _ body)).slots
  refine ⟨ht.globals, ht.kinds, ?_⟩
  change (s.bodyOf t.context name params body).slots.Pairwise _
  rw [bodyOf, hmore]
  exact hsorted

/-- A function is entered, its parameters take their arguments, its body is run, and it is left. -/
theorem function_refines (ih : Refines p fuel) (hosts : t.Hosts p) {name : Bytes} {params : List Nat}
    {body : List Stmt} {vs : List Value} {locals : Nat → Option Value} {result : Option Ty}
    {ending : Ending} (hcode : t.HasCode name (s.bodyOf t.context name params body)) (hm : m.Ready)
    (hshares : t.Shares w m) (hhands : m.Hands 1 vs)
    (hbind : bindParams (fun _ => none) params vs = .ok locals)
    (hlocal : ∀ y ∈ params, t.context.resolution.isGlobal y = false)
    (htypes : vs.map Value.type = params.map t.context.typing.typeOfSymbol)
    (hw : ({ w with locals } : World).Typed t.context) (hbody : Stmt.AllTyped t.context result false body)
    (heval : Evaluation.stmts p t.context fuel { w with locals } body = .ok (w', ending)) :
    ∃ m', Runs t.code [.call (.declared name)] m m'.left ∧ m'.InCall ∧ t.Shares w' m' ∧
      m'.frames.tail = m.frames ∧ m'.entries.tail = m.entries ∧ m'.Gives ending.result? := by
  -- The variables of the function have slots of their own; all else is as for the caller.
  let t' : Layout := { t with slots := (s.bodyOf t.context name params body).slots }
  have ht' : t'.Sound := sound_bodyOf hosts.sound name params body
  have hosts' : t'.Hosts p := by
    refine ⟨ht', hosts.typed, fun f info hf hinfo => ?_, hosts.params⟩
    obtain ⟨s', hcode'⟩ := hosts.functions f info hf hinfo
    exact ⟨s', hcode'.code, hcode'.links⟩
  have hshares' : t'.Shares w m := ⟨hshares.holds, hshares.untouched, hshares.actions⟩
  have hentered := hshares'.entered ht' hm
  have hhands' : m.entered.Hands 1 vs := hhands.congr fun b n =>
    m.at?_entered (isPassing_argumentPlace b n).not_local (by cases b <;> nofun)
  obtain ⟨m₁, hm₁⟩ := hentered.takeParams (s := s.opened name) (d := 0) ht' hhands' hbind hlocal
    (hcode.links.before (stmts_grows _ _ _)) htypes
  have htidy : (takeParams t.context (s.opened name) 1 params).Tidy :=
    (grows_takeParams _ _ _ _).tidy nofun
  obtain ⟨m₂, ⟨_, rfl, hm₂⟩, hgives⟩ := ih.stmts (t := t') ⟨hosts', htidy, hw, hm₁.agrees⟩ hbody heval hcode.links
  have hkeeps := hm₁.keeps.trans (hm₂.keeps.mono (Nat.zero_le _))
  have hshares₂ := hm₂.agrees.shares
  obtain ⟨cs, hcs, hruns⟩ := hm₁.emits
  obtain ⟨ds, hds, hruns'⟩ := hm₂.emits
  refine ⟨m₂, .call rfl hcode.code (.append ?_ hm₂.agrees.inCall.runs_leave), hm₂.agrees.inCall,
    ⟨hshares₂.holds, hshares₂.untouched, hshares₂.actions⟩, hkeeps.frames, hkeeps.entries, hgives⟩
  have hcommands : (s.bodyOf t.context name params body).commands = _ := hds
  rw [hcommands, hcs]
  exact (hm.runs_enter.append hruns).append hruns'

/-- A call does what its evaluation does, if its body does so with less fuel. -/
theorem call_refines (ih : Refines p fuel) (hosts : t.Hosts p) {y : Nat} {info : FunctionInfo}
    {vs : List Value} {v : Option Value} (hw : w.Typed t.context) (h : t.Agrees w .none m)
    (hhands : m.Hands 1 vs) (hprint : isPrint t.context y = false)
    (hf : t.context.typing.functionOf? y = some info)
    (htypes : vs.map Value.type = info.signature.params)
    (heval : Evaluation.call p t.context (fuel + 1) w y vs = .ok (w', v)) :
    ∃ m', Runs t.code [.call (.declared (ResourceName.normalize info.name))] m m' ∧
      t.Agrees w' .none m' ∧ (∀ bound, t.Keeps bound m m') ∧ m'.Gives v := by
  obtain ⟨f, hfind, hmem, hfunction⟩ := hosts.typed.functionOf? hf
  obtain ⟨locals, inner, ending, hbind, hbody, hgive, rfl⟩ :=
    Evaluation.call_declared hprint hfind heval
  rw [hfunction.paramsOf] at hbind
  have htypes' := htypes.trans hfunction.params
  obtain ⟨locals', hbind', hlocals⟩ := bindParams_typed htypes' (fun _ => none) nofun
  rw [hbind] at hbind'
  cases hbind'
  obtain ⟨s, hcode⟩ := hosts.functions f info hmem hfunction
  obtain ⟨m', hruns, hin, hshares, hframes, hentries, hgives⟩ := function_refines ih hosts hcode
    h.inCall.toReady h.shares hhands hbind (hosts.params f info hmem hfunction) htypes'
    (hw.locals hlocals) hfunction.body.stmts hbody
  obtain ⟨hagrees, hkeeps⟩ := h.left hosts.sound hshares hin hframes hentries
  refine ⟨m'.left, hruns, hagrees, hkeeps, ?_⟩
  have hleft : m'.left.Gives ending.result? := hgives.congr fun b =>
    m'.at?_left (isPassing_resultPlace b).not_local (by cases b <;> nofun)
  cases ending with
  | next =>
    rw [Function.giveBack] at hgive
    split at hgive <;> cases hgive
    exact .none _
  | give u =>
    rw [Function.giveBack] at hgive
    split at hgive <;> cases hgive
    exact hleft
  | leave => cases hgive
  | again => cases hgive

end

end Craftlang
