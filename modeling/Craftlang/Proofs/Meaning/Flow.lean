import Craftlang.Proofs.Meaning.Evaluation

/-!
# How evaluation proceeds

What the parts of an expression or a statement were evaluated to, if the whole has a result. Then two
facts about the flow of control: an expression without effects leaves the variables as they are, and a
statement ends only in a way that it may end.
-/

namespace Craftlang

namespace Evaluation

theorem bind_eq_ok {α β : Type} {r : Except Stop α} {f : α → Except Stop β} {b : β} :
    r >>= f = .ok b ↔ ∃ a, r = .ok a ∧ f a = .ok b := by
  cases r with
  | ok a => exact ⟨fun h => ⟨a, rfl, h⟩, fun ⟨_, ha, h⟩ => by cases ha; exact h⟩
  | error stop => exact ⟨nofun, fun ⟨_, ha, _⟩ => by cases ha⟩

theorem map_eq_ok {α β : Type} {r : Except Stop α} {f : α → β} {b : β} :
    r.map f = .ok b ↔ ∃ a, r = .ok a ∧ f a = b := by
  cases r with
  | ok a => exact ⟨fun h => ⟨a, rfl, Except.ok.inj h⟩, fun ⟨_, ha, h⟩ => by cases ha; exact congrArg Except.ok h⟩
  | error stop => exact ⟨nofun, fun ⟨_, ha, _⟩ => by cases ha⟩

theorem map_eq_error {α β : Type} {r : Except Stop α} {f : α → β} {stop : Stop} :
    r.map f = .error stop ↔ r = .error stop := by
  cases r with
  | ok a => exact ⟨nofun, nofun⟩
  | error other => exact ⟨fun h => congrArg Except.error (Except.error.inj h), fun h => by cases h; rfl⟩

theorem ifNone_eq_ok {α : Type} {stop : Stop} {x : Option α} {a : α} :
    stop.ifNone x = .ok a ↔ x = some a := by
  cases x with
  | none => exact ⟨nofun, nofun⟩
  | some b => exact ⟨fun h => by cases h; rfl, fun h => by cases h; rfl⟩

theorem asValue_eq_ok {r : Except Stop (World × Option Value)} {w : World} {v : Value} :
    asValue r = .ok (w, v) ↔ r = .ok (w, some v) := by
  rw [asValue, bind_eq_ok]
  constructor
  · rintro ⟨⟨w', x⟩, rfl, h⟩
    obtain ⟨u, hu, h⟩ := bind_eq_ok.mp h
    cases ifNone_eq_ok.mp hu
    cases h
    rfl
  · rintro rfl
    exact ⟨_, rfl, rfl⟩

section

variable {p : Program} {c : EmissionContext} {fuel : Nat} {w w' : World} {v : Option Value}

theorem expr_constant {n : Node} {k : Constant} (h : expr p c (fuel + 1) w (.constant n k) = .ok (w', v)) :
    w' = w ∧ v = k.value? := by
  rw [expr] at h
  obtain ⟨u, hu, h⟩ := bind_eq_ok.mp h
  cases h
  exact ⟨rfl, (ifNone_eq_ok.mp hu).symm⟩

theorem expr_ident {i : Ident} (h : expr p c (fuel + 1) w (.ident i) = .ok (w', v)) :
    w' = w ∧ ∃ u, v = some u ∧
      w.read? c.resolution ((c.resolution.refOf? i.node.id).getD 0) = some u := by
  rw [expr] at h
  obtain ⟨u, hu, h⟩ := bind_eq_ok.mp h
  cases h
  exact ⟨rfl, u, rfl, ifNone_eq_ok.mp hu⟩

theorem expr_unary {n : Node} {op : UnaryOp} {e : Expr}
    (h : expr p c (fuel + 1) w (.unary n op e) = .ok (w', v)) :
    ∃ a u, expr p c fuel w e = .ok (w', some a) ∧ op.eval? a = some u ∧ v = some u := by
  rw [expr] at h
  obtain ⟨⟨w₁, a⟩, ha, h⟩ := bind_eq_ok.mp h
  obtain ⟨u, hu, h⟩ := bind_eq_ok.mp h
  cases h
  exact ⟨a, u, asValue_eq_ok.mp ha, ifNone_eq_ok.mp hu, rfl⟩

theorem expr_binary {n : Node} {op : BinaryOp} {span : Span} {l r : Expr}
    (h : expr p c (fuel + 1) w (.binary n op span l r) = .ok (w', v)) :
    ∃ w₁ a b u, expr p c fuel w l = .ok (w₁, some a) ∧ expr p c fuel w₁ r = .ok (w', some b) ∧
      op.eval? a b = some u ∧ v = some u := by
  rw [expr] at h
  obtain ⟨⟨w₁, a⟩, ha, h⟩ := bind_eq_ok.mp h
  obtain ⟨⟨w₂, b⟩, hb, h⟩ := bind_eq_ok.mp h
  obtain ⟨u, hu, h⟩ := bind_eq_ok.mp h
  cases h
  exact ⟨w₁, a, b, u, asValue_eq_ok.mp ha, asValue_eq_ok.mp hb, ifNone_eq_ok.mp hu, rfl⟩

theorem expr_call {n : Node} {target : Expr} {args : List Expr}
    (h : expr p c (fuel + 1) w (.call n target args) = .ok (w', v)) :
    ∃ w₁ vs, arguments p c fuel w args = .ok (w₁, vs) ∧
      call p c fuel w₁ (Emission.calleeOf c target) vs = .ok (w', v) := by
  rw [expr] at h
  obtain ⟨⟨w₁, vs⟩, hvs, h⟩ := bind_eq_ok.mp h
  exact ⟨w₁, vs, hvs, h⟩

theorem expr_assign {n : Node} {span : Span} {i : Ident} {e : Expr}
    (h : expr p c (fuel + 1) w (.assign n .set span i e) = .ok (w', v)) :
    ∃ w₁ u, expr p c fuel w e = .ok (w₁, some u) ∧ v = some u ∧
      w' = w₁.write c.resolution ((c.resolution.refOf? i.node.id).getD 0) u := by
  rw [expr] at h
  obtain ⟨⟨w₁, u⟩, hu, h⟩ := bind_eq_ok.mp h
  cases h
  exact ⟨w₁, u, asValue_eq_ok.mp hu, rfl, rfl⟩

theorem expr_update {n : Node} {op : AssignOp} {b : BinaryOp} {span : Span} {i : Ident} {e : Expr}
    (hb : op.binary? = some b) (h : expr p c (fuel + 1) w (.assign n op span i e) = .ok (w', v)) :
    ∃ w₁ a old u, expr p c fuel w e = .ok (w₁, some a) ∧
      w₁.read? c.resolution ((c.resolution.refOf? i.node.id).getD 0) = some old ∧
      b.eval? old a = some u ∧ v = some u ∧
      w' = w₁.write c.resolution ((c.resolution.refOf? i.node.id).getD 0) u := by
  rw [expr, hb] at h
  obtain ⟨⟨w₁, a⟩, ha, h⟩ := bind_eq_ok.mp h
  obtain ⟨old, hold, h⟩ := bind_eq_ok.mp h
  obtain ⟨u, hu, h⟩ := bind_eq_ok.mp h
  cases h
  exact ⟨w₁, a, old, u, asValue_eq_ok.mp ha, ifNone_eq_ok.mp hold, ifNone_eq_ok.mp hu, rfl, rfl⟩

theorem arguments_cons {e : Expr} {es : List Expr} {vs : List Value}
    (h : arguments p c (fuel + 1) w (e :: es) = .ok (w', vs)) :
    ∃ w₁ u us, expr p c fuel w e = .ok (w₁, some u) ∧ arguments p c fuel w₁ es = .ok (w', us) ∧
      vs = u :: us := by
  rw [arguments] at h
  obtain ⟨⟨w₁, u⟩, hu, h⟩ := bind_eq_ok.mp h
  obtain ⟨⟨w₂, us⟩, hus, h⟩ := bind_eq_ok.mp h
  cases h
  exact ⟨w₁, u, us, asValue_eq_ok.mp hu, hus, rfl⟩

theorem call_print {y : Nat} {vs : List Value} (hy : Emission.isPrint c y = true)
    (h : call p c (fuel + 1) w y vs = .ok (w', v)) :
    ∃ u, vs = [u] ∧ w' = w.act (.shown u) ∧ v = none := by
  rw [call, if_pos hy] at h
  unfold print at h
  split at h
  · cases h
    exact ⟨_, rfl, rfl, rfl⟩
  · cases h

theorem call_declared {y : Nat} {vs : List Value} {f : Function} (hy : Emission.isPrint c y = false)
    (hf : p.functionOf? c.resolution y = some f) (h : call p c (fuel + 1) w y vs = .ok (w', v)) :
    ∃ locals inner ending, bindParams (fun _ => none) (c.resolution.paramsOf f) vs = .ok locals ∧
      stmts p c fuel { w with locals } f.body.stmts = .ok (inner, ending) ∧
      f.giveBack ending = .ok v ∧ w' = { inner with locals := w.locals } := by
  rw [call, if_neg (by simp [hy]), hf] at h
  obtain ⟨g, hg, h⟩ := bind_eq_ok.mp h
  cases hg
  obtain ⟨locals, hlocals, h⟩ := bind_eq_ok.mp h
  obtain ⟨⟨inner, ending⟩, hinner, h⟩ := bind_eq_ok.mp h
  obtain ⟨u, hu, h⟩ := bind_eq_ok.mp h
  cases h
  exact ⟨locals, inner, ending, hlocals, hinner, hu, rfl⟩

end

/-- An expression without effects leaves the variables as they are. -/
theorem expr_world {p : Program} {c : EmissionContext} {fuel : Nat} {w w' : World} {v : Option Value} :
    (e : Expr) → e.hasEffects = false → expr p c fuel w e = .ok (w', v) → w' = w := by
  induction fuel generalizing w w' v with
  | zero =>
    intro e _ h
    cases h
  | succ fuel ih =>
    intro e he h
    cases e with
    | error n => cases h
    | constant n k => exact (expr_constant h).1
    | ident i => exact (expr_ident h).1
    | group n inner =>
      rw [expr] at h
      exact ih inner he h
    | unary n op operand =>
      obtain ⟨a, u, ha, -, -⟩ := expr_unary h
      exact ih operand he ha
    | binary n op span left right =>
      rw [Expr.hasEffects, Bool.or_eq_false_iff] at he
      obtain ⟨w₁, a, b, u, ha, hb, -, -⟩ := expr_binary h
      exact (ih right he.2 hb).trans (ih left he.1 ha)
    | call n target args => cases he
    | assign n op span i value => cases he

theorem arguments_world {p : Program} {c : EmissionContext} {fuel : Nat} {w w' : World}
    {es : List Expr} {vs : List Value} (he : es.any Expr.hasEffects = false)
    (h : arguments p c fuel w es = .ok (w', vs)) : w' = w := by
  induction fuel generalizing w w' es vs with
  | zero => cases h
  | succ fuel ih =>
    cases es with
    | nil =>
      cases h
      rfl
    | cons e es =>
      rw [List.any_cons, Bool.or_eq_false_iff] at he
      obtain ⟨w₁, u, us, hu, hus, -⟩ := arguments_cons h
      exact (ih he.2 hus).trans (expr_world e he.1 hu)

end Evaluation

namespace Ending

/-- Does a loop go on to its next round when its body ends so? -/
def repeats : Ending → Bool
  | next | again => true
  | leave | give _ => false

/-- How a loop ends when its body ends so and there is no next round. -/
def afterLoop : Ending → Ending
  | leave => next
  | ending => ending

/-- A way to end that a statement may have. -/
def IsAmong (mayLeave mayRepeat mayGive : Bool) : Ending → Prop
  | next => True
  | leave => mayLeave = true
  | again => mayRepeat = true
  | give _ => mayGive = true

end Ending

namespace Evaluation

section

variable {p : Program} {c : EmissionContext} {fuel : Nat} {w w' : World} {ending : Ending}

theorem stmt_var {n : Node} {name : Name} {type : Option Name} {e : Expr}
    (h : stmt p c (fuel + 1) w (.var n name type (some e)) = .ok (w', ending)) :
    ∃ w₁ u, expr p c fuel w e = .ok (w₁, some u) ∧ ending = .next ∧
      w' = w₁.write c.resolution ((c.resolution.declOf? n.id).getD 0) u := by
  rw [stmt] at h
  obtain ⟨⟨w₁, u⟩, hu, h⟩ := bind_eq_ok.mp h
  cases h
  exact ⟨w₁, u, asValue_eq_ok.mp hu, rfl, rfl⟩

theorem stmt_var_default {n : Node} {name : Name} {type : Option Name}
    (h : stmt p c (fuel + 1) w (.var n name type none) = .ok (w', ending)) :
    ∃ u, Value.default? (c.typing.typeOfSymbol ((c.resolution.declOf? n.id).getD 0)) = some u ∧
      ending = .next ∧ w' = w.write c.resolution ((c.resolution.declOf? n.id).getD 0) u := by
  rw [stmt] at h
  obtain ⟨u, hu, h⟩ := bind_eq_ok.mp h
  cases h
  exact ⟨u, ifNone_eq_ok.mp hu, rfl, rfl⟩

theorem stmt_expr {n : Node} {e : Expr}
    (h : stmt p c (fuel + 1) w (.expr n e) = .ok (w', ending)) :
    ∃ v, expr p c fuel w e = .ok (w', v) ∧ ending = .next := by
  rw [stmt] at h
  obtain ⟨⟨w₁, v⟩, hv, h⟩ := bind_eq_ok.mp h
  cases h
  exact ⟨v, hv, rfl⟩

theorem stmt_branch {n : Node} {cond : Expr} {body : Block} {otherwise : Otherwise}
    (h : stmt p c (fuel + 1) w (.branch n cond body otherwise) = .ok (w', ending)) :
    ∃ w₁ b, expr p c fuel w cond = .ok (w₁, some (.bool b)) ∧
      (if b then stmts p c fuel w₁ body.stmts else alternative p c fuel w₁ otherwise)
        = .ok (w', ending) := by
  rw [stmt] at h
  obtain ⟨⟨w₁, v⟩, hv, h⟩ := bind_eq_ok.mp h
  dsimp only at h
  split at h
  · exact ⟨w₁, true, asValue_eq_ok.mp hv, h⟩
  · exact ⟨w₁, false, asValue_eq_ok.mp hv, h⟩
  · cases h

theorem stmt_loop_before {n : Node} {cond : Expr} {body : Block}
    (h : stmt p c (fuel + 1) w (.loop n .before cond body) = .ok (w', ending)) :
    ∃ w₁ b, expr p c fuel w cond = .ok (w₁, some (.bool b)) ∧
      (b = false ∧ w' = w₁ ∧ ending = .next ∨
        b = true ∧ ∃ w₂ round, stmts p c fuel w₁ body.stmts = .ok (w₂, round) ∧
          (round.repeats = true ∧ stmt p c fuel w₂ (.loop n .before cond body) = .ok (w', ending) ∨
            round.repeats = false ∧ w' = w₂ ∧ ending = round.afterLoop)) := by
  rw [stmt] at h
  obtain ⟨⟨w₁, v⟩, hv, h⟩ := bind_eq_ok.mp h
  dsimp only at h
  split at h
  · obtain ⟨⟨w₂, round⟩, hround, h⟩ := bind_eq_ok.mp h
    refine ⟨w₁, true, asValue_eq_ok.mp hv, .inr ⟨rfl, w₂, round, hround, ?_⟩⟩
    cases round with
    | next => exact .inl ⟨rfl, h⟩
    | again => exact .inl ⟨rfl, h⟩
    | leave =>
      cases h
      exact .inr ⟨rfl, rfl, rfl⟩
    | give v =>
      cases h
      exact .inr ⟨rfl, rfl, rfl⟩
  · cases h
    exact ⟨_, false, asValue_eq_ok.mp hv, .inl ⟨rfl, rfl, rfl⟩⟩
  · cases h

theorem stmt_loop_after {n : Node} {cond : Expr} {body : Block}
    (h : stmt p c (fuel + 1) w (.loop n .after cond body) = .ok (w', ending)) :
    ∃ w₁ round, stmts p c fuel w body.stmts = .ok (w₁, round) ∧
      (round.repeats = false ∧ w' = w₁ ∧ ending = round.afterLoop ∨
        round.repeats = true ∧ ∃ w₂ b, expr p c fuel w₁ cond = .ok (w₂, some (.bool b)) ∧
          (b = true ∧ stmt p c fuel w₂ (.loop n .after cond body) = .ok (w', ending) ∨
            b = false ∧ w' = w₂ ∧ ending = .next)) := by
  rw [stmt] at h
  obtain ⟨⟨w₁, round⟩, hround, h⟩ := bind_eq_ok.mp h
  have htest : ∀ k : World × Value → Except Stop (World × Ending),
      (∀ w, k (w, .bool true) = stmt p c fuel w (.loop n .after cond body)) →
      (∀ w, k (w, .bool false) = .ok (w, .next)) → (∀ w n, k (w, .int n) = .error .meaningless) →
      (∀ w t, k (w, .string t) = .error .meaningless) →
      asValue (expr p c fuel w₁ cond) >>= k = .ok (w', ending) →
      ∃ w₂ b, expr p c fuel w₁ cond = .ok (w₂, some (.bool b)) ∧
        (b = true ∧ stmt p c fuel w₂ (.loop n .after cond body) = .ok (w', ending) ∨
          b = false ∧ w' = w₂ ∧ ending = .next) := by
    intro k htrue hfalse hint hstring hr
    obtain ⟨⟨w₂, v⟩, hv, hr⟩ := bind_eq_ok.mp hr
    cases v with
    | bool b =>
      refine ⟨w₂, b, asValue_eq_ok.mp hv, ?_⟩
      cases b with
      | true => exact .inl ⟨rfl, htrue w₂ ▸ hr⟩
      | false =>
        cases (hfalse w₂).symm.trans hr
        exact .inr ⟨rfl, rfl, rfl⟩
    | int n => cases (hint w₂ n).symm.trans hr
    | string t => cases (hstring w₂ t).symm.trans hr
  refine ⟨w₁, round, hround, ?_⟩
  cases round with
  | next => exact .inr ⟨rfl, htest _ (fun _ => rfl) (fun _ => rfl) (fun _ _ => rfl) (fun _ _ => rfl) h⟩
  | again => exact .inr ⟨rfl, htest _ (fun _ => rfl) (fun _ => rfl) (fun _ _ => rfl) (fun _ _ => rfl) h⟩
  | leave =>
    cases h
    exact .inl ⟨rfl, rfl, rfl⟩
  | give v =>
    cases h
    exact .inl ⟨rfl, rfl, rfl⟩

theorem stmt_give {n : Node} {e : Expr}
    (h : stmt p c (fuel + 1) w (.give n (some e)) = .ok (w', ending)) :
    ∃ u, expr p c fuel w e = .ok (w', some u) ∧ ending = .give (some u) := by
  rw [stmt] at h
  obtain ⟨⟨w₁, u⟩, hu, h⟩ := bind_eq_ok.mp h
  cases h
  exact ⟨u, asValue_eq_ok.mp hu, rfl⟩

theorem stmts_cons {s : Stmt} {rest : List Stmt}
    (h : stmts p c (fuel + 1) w (s :: rest) = .ok (w', ending)) :
    ∃ w₁ first, stmt p c fuel w s = .ok (w₁, first) ∧
      (first = .next ∧ stmts p c fuel w₁ rest = .ok (w', ending) ∨
        first ≠ .next ∧ w' = w₁ ∧ ending = first) := by
  rw [stmts] at h
  obtain ⟨⟨w₁, first⟩, hfirst, h⟩ := bind_eq_ok.mp h
  refine ⟨w₁, first, hfirst, ?_⟩
  cases first with
  | next => exact .inl ⟨rfl, h⟩
  | leave =>
    cases h
    exact .inr ⟨nofun, rfl, rfl⟩
  | again =>
    cases h
    exact .inr ⟨nofun, rfl, rfl⟩
  | give v =>
    cases h
    exact .inr ⟨nofun, rfl, rfl⟩

end

end Evaluation

theorem Block.mayLeave_stmts (b : Block) : b.mayLeave = Stmt.anyMayLeave b.stmts := by
  cases b
  rfl

theorem Block.mayRepeat_stmts (b : Block) : b.mayRepeat = Stmt.anyMayRepeat b.stmts := by
  cases b
  rfl

theorem Block.mayGive_stmts (b : Block) : b.mayGive = Stmt.anyMayGive b.stmts := by
  cases b
  rfl

theorem Ending.IsAmong.mono {l r g l' r' g' : Bool} {ending : Ending} (h : ending.IsAmong l r g)
    (hl : l = true → l' = true) (hr : r = true → r' = true) (hg : g = true → g' = true) :
    ending.IsAmong l' r' g' := by
  cases ending with
  | next => trivial
  | leave => exact hl h
  | again => exact hr h
  | give v => exact hg h

namespace Evaluation

/-- The ways in which the pieces of a program end, with some fuel. -/
structure Flows (p : Program) (c : EmissionContext) (fuel : Nat) : Prop where
  stmt : ∀ {w w' : World} {s : Stmt} {ending : Ending}, stmt p c fuel w s = .ok (w', ending) →
    ending.IsAmong s.mayLeave s.mayRepeat s.mayGive
  stmts : ∀ {w w' : World} {ss : List Stmt} {ending : Ending}, stmts p c fuel w ss = .ok (w', ending) →
    ending.IsAmong (Stmt.anyMayLeave ss) (Stmt.anyMayRepeat ss) (Stmt.anyMayGive ss)
  alternative : ∀ {w w' : World} {o : Otherwise} {ending : Ending},
    alternative p c fuel w o = .ok (w', ending) →
    ending.IsAmong o.mayLeave o.mayRepeat o.mayGive

section

variable {p : Program} {c : EmissionContext} {fuel : Nat} {w w' : World} {ending : Ending}

theorem Flows.body (ih : Flows p c fuel) {b : Block} (h : Evaluation.stmts p c fuel w b.stmts = .ok (w', ending)) :
    ending.IsAmong b.mayLeave b.mayRepeat b.mayGive := by
  rw [b.mayLeave_stmts, b.mayRepeat_stmts, b.mayGive_stmts]
  exact ih.stmts h

/-- A loop takes what leaves it or repeats it. -/
theorem isAmong_afterLoop {l r g : Bool} {round : Ending} (hr : round.repeats = false)
    (h : round.IsAmong l r g) : round.afterLoop.IsAmong false false g := by
  cases round with
  | next => cases hr
  | again => cases hr
  | leave => trivial
  | give v => exact h

theorem stmt_flows (ih : Flows p c fuel) {s : Stmt}
    (h : stmt p c (fuel + 1) w s = .ok (w', ending)) :
    ending.IsAmong s.mayLeave s.mayRepeat s.mayGive := by
  cases s with
  | error n => cases h
  | var n name type value =>
    cases value with
    | none =>
      obtain ⟨u, -, rfl, -⟩ := stmt_var_default h
      trivial
    | some e =>
      obtain ⟨w₁, u, -, rfl, -⟩ := stmt_var h
      trivial
  | expr n e =>
    obtain ⟨v, -, rfl⟩ := stmt_expr h
    trivial
  | branch n cond body otherwise =>
    obtain ⟨w₁, b, -, h⟩ := stmt_branch h
    rw [Stmt.mayLeave, Stmt.mayRepeat, Stmt.mayGive]
    cases b with
    | true =>
      exact (ih.body h).mono (fun h => by rw [h, Bool.true_or]) (fun h => by rw [h, Bool.true_or])
        fun h => by rw [h, Bool.true_or]
    | false =>
      exact (ih.alternative h).mono (fun h => by rw [h, Bool.or_true]) (fun h => by rw [h, Bool.or_true])
        fun h => by rw [h, Bool.or_true]
  | loop n kind cond body =>
    cases kind with
    | before =>
      obtain ⟨w₁, b, -, ⟨-, -, rfl⟩ | ⟨-, w₂, round, hround, ⟨-, h⟩ | ⟨hr, -, rfl⟩⟩⟩ := stmt_loop_before h
      · trivial
      · exact ih.stmt h
      · exact isAmong_afterLoop hr (ih.body hround)
    | after =>
      obtain ⟨w₁, round, hround, ⟨hr, -, rfl⟩ | ⟨-, w₂, b, -, ⟨-, h⟩ | ⟨-, -, rfl⟩⟩⟩ := stmt_loop_after h
      · exact isAmong_afterLoop hr (ih.body hround)
      · exact ih.stmt h
      · trivial
  | leave n =>
    cases h
    rfl
  | again n =>
    cases h
    rfl
  | give n value =>
    cases value with
    | none =>
      cases h
      rfl
    | some e =>
      obtain ⟨u, -, rfl⟩ := stmt_give h
      rfl
  | command n text =>
    cases h
    trivial

theorem stmts_flows (ih : Flows p c fuel) {ss : List Stmt}
    (h : stmts p c (fuel + 1) w ss = .ok (w', ending)) :
    ending.IsAmong (Stmt.anyMayLeave ss) (Stmt.anyMayRepeat ss) (Stmt.anyMayGive ss) := by
  cases ss with
  | nil =>
    cases h
    trivial
  | cons s rest =>
    rw [Stmt.anyMayLeave, Stmt.anyMayRepeat, Stmt.anyMayGive]
    obtain ⟨w₁, first, hfirst, ⟨-, h⟩ | ⟨-, -, rfl⟩⟩ := stmts_cons h
    · exact (ih.stmts h).mono (fun h => by rw [h, Bool.or_true]) (fun h => by rw [h, Bool.or_true])
        fun h => by rw [h, Bool.or_true]
    · exact (ih.stmt hfirst).mono (fun h => by rw [h, Bool.true_or]) (fun h => by rw [h, Bool.true_or])
        fun h => by rw [h, Bool.true_or]

theorem alternative_flows (ih : Flows p c fuel) {o : Otherwise}
    (h : alternative p c (fuel + 1) w o = .ok (w', ending)) :
    ending.IsAmong o.mayLeave o.mayRepeat o.mayGive := by
  cases o with
  | none =>
    cases h
    trivial
  | block body =>
    rw [alternative] at h
    exact ih.body h
  | chain s =>
    rw [alternative] at h
    exact ih.stmt h

end

/-- Every piece of a program ends in a way that it may end. -/
theorem flows (p : Program) (c : EmissionContext) (fuel : Nat) : Flows p c fuel := by
  induction fuel with
  | zero => exact ⟨nofun, nofun, nofun⟩
  | succ fuel ih => exact ⟨stmt_flows ih, stmts_flows ih, alternative_flows ih⟩

end Evaluation

end Craftlang
