import Craftlang.Proofs.Typing.Growth

/-!
# Paths through a function

A run of a statement in which conditions come out either way, except for the literal `true`. A function
with a result must not have a run that ends behind its last statement. The rule for this looks at
`break` and `return`; what it misses is a `continue` that leads to the test of a loop, where the loop
may end behind a `return` that was never reached. Without such a `continue` the rule is right.
-/

namespace Craftlang

/-- How a run of a statement ends: it goes on to what follows, it leaves the loop, it starts its next
round, or it returns, with or without a value. -/
inductive Exit where
  | next | leave | again
  | give (hasValue : Bool)
deriving DecidableEq, Repr

/-- What the end of a round means for the loop around it; none if another round may follow. -/
def Exit.outOfLoop : Exit → Option Exit
  | next | again => none
  | leave => some next
  | give b => some (give b)

/-- A condition may come out either way; only the literal `true` cannot fail. -/
def Expr.MayBe (cond : Expr) (b : Bool) : Prop := cond.isTrue = true → b = true

mutual

/-- A statement has a run that ends in some way. -/
inductive Stmt.Ends : Stmt → Exit → Prop
  | error {n} : Stmt.Ends (.error n) .next
  | var {n name type value} : Stmt.Ends (.var n name type value) .next
  | expr {n e} : Stmt.Ends (.expr n e) .next
  | command {n text} : Stmt.Ends (.command n text) .next
  | leave {n} : Stmt.Ends (.leave n) .leave
  | again {n} : Stmt.Ends (.again n) .again
  | give {n value} : Stmt.Ends (.give n value) (.give value.isSome)
  | holds {n cond body otherwise x} : cond.MayBe true → Block.Ends body x →
    Stmt.Ends (.branch n cond body otherwise) x
  | fails {n cond body otherwise x} : cond.MayBe false → Otherwise.Ends otherwise x →
    Stmt.Ends (.branch n cond body otherwise) x
  | stop {n cond body} : cond.MayBe false → Stmt.Ends (.loop n .before cond body) .next
  | round {n cond body y x} : cond.MayBe true → Block.Ends body y → y.outOfLoop = none →
    Stmt.Ends (.loop n .before cond body) x → Stmt.Ends (.loop n .before cond body) x
  | out {n cond body y x} : cond.MayBe true → Block.Ends body y → y.outOfLoop = some x →
    Stmt.Ends (.loop n .before cond body) x
  | stopAfter {n cond body y} : Block.Ends body y → y.outOfLoop = none → cond.MayBe false →
    Stmt.Ends (.loop n .after cond body) .next
  | roundAfter {n cond body y x} : Block.Ends body y → y.outOfLoop = none → cond.MayBe true →
    Stmt.Ends (.loop n .after cond body) x → Stmt.Ends (.loop n .after cond body) x
  | outAfter {n cond body y x} : Block.Ends body y → y.outOfLoop = some x →
    Stmt.Ends (.loop n .after cond body) x

inductive Block.Ends : Block → Exit → Prop
  | mk {n stmts x} : Stmt.AllEnd stmts x → Block.Ends (.mk n stmts) x

/-- Statements one after the other, up to the first that does not go on. -/
inductive Stmt.AllEnd : List Stmt → Exit → Prop
  | nil : Stmt.AllEnd [] .next
  | goOn {s rest x} : Stmt.Ends s .next → Stmt.AllEnd rest x → Stmt.AllEnd (s :: rest) x
  | jump {s rest x} : Stmt.Ends s x → x ≠ .next → Stmt.AllEnd (s :: rest) x

inductive Otherwise.Ends : Otherwise → Exit → Prop
  | none : Otherwise.Ends .none .next
  | block {body x} : Block.Ends body x → Otherwise.Ends (.block body) x
  | chain {s x} : Stmt.Ends s x → Otherwise.Ends (.chain s) x

end

mutual

/-- May a run of the statement end in some way? -/
def Stmt.mayEnd : Stmt → Exit → Bool
  | .leave _, x => x == .leave
  | .again _, x => x == .again
  | .give _ value, x => x == .give value.isSome
  | .branch _ cond body otherwise, x => body.mayEnd x || !cond.isTrue && otherwise.mayEnd x
  | .loop _ .before cond body, .next => !cond.isTrue || body.mayEnd .leave
  | .loop _ .after cond body, .next =>
    body.mayEnd .leave || !cond.isTrue && (body.mayEnd .next || body.mayEnd .again)
  | .loop _ _ _ body, .give b => body.mayEnd (.give b)
  | .loop .., _ => false
  | .error _, x | .var .., x | .expr .., x | .command .., x => x == .next

def Block.mayEnd : Block → Exit → Bool
  | .mk _ stmts, x => Stmt.allMayEnd stmts x

def Stmt.allMayEnd : List Stmt → Exit → Bool
  | [], x => x == .next
  | s :: rest, x => s.mayEnd .next && Stmt.allMayEnd rest x || x != .next && s.mayEnd x

def Otherwise.mayEnd : Otherwise → Exit → Bool
  | .none, x => x == .next
  | .block body, x => body.mayEnd x
  | .chain s, x => s.mayEnd x

end

mutual

/-- Does a `continue` in the statement lead to the test of a loop that the test may end? -/
def Stmt.retests : Stmt → Bool
  | .branch _ _ body otherwise => body.retests || otherwise.retests
  | .loop _ .before _ body => body.retests
  | .loop _ .after cond body => body.retests || !cond.isTrue && body.mayRepeat
  | _ => false

def Block.retests : Block → Bool
  | .mk _ stmts => Stmt.anyRetests stmts

def Stmt.anyRetests : List Stmt → Bool
  | [] => false
  | s :: rest => s.retests || Stmt.anyRetests rest

def Otherwise.retests : Otherwise → Bool
  | .none => false
  | .block body => body.retests
  | .chain s => s.retests

end

/-- Any condition may hold. -/
theorem Expr.mayBe_true (cond : Expr) : cond.MayBe true := fun _ => rfl

theorem Expr.mayBe_false_iff {cond : Expr} : cond.MayBe false ↔ cond.isTrue = false := by
  rw [MayBe, Bool.false_eq_true, imp_false, Bool.not_eq_true]

theorem Exit.outOfLoop_eq_none {x : Exit} (h : x.outOfLoop = none) : x = .next ∨ x = .again := by
  cases x with
  | next => exact .inl rfl
  | again => exact .inr rfl
  | leave => cases h
  | give b => cases h

section Exact

mutual

/-- Every way in which a run ends was foreseen. -/
theorem Stmt.Ends.mayEnd : {s : Stmt} → {x : Exit} → s.Ends x → s.mayEnd x = true
  | _, _, .error | _, _, .var | _, _, .expr | _, _, .command | _, _, .leave | _, _, .again => rfl
  | _, _, .give => by simp [Stmt.mayEnd]
  | _, _, .holds _ hb => by simp [Stmt.mayEnd, hb.mayEnd]
  | _, _, .fails hc ho => by simp [Stmt.mayEnd, ho.mayEnd, Expr.mayBe_false_iff.mp hc]
  | _, _, .stop hc => by simp [Stmt.mayEnd, Expr.mayBe_false_iff.mp hc]
  | _, _, .round _ _ _ hl => hl.mayEnd
  | _, _, .out (y := y) _ hb hy => by
    have hb := hb.mayEnd
    cases y <;> cases hy <;> simp [Stmt.mayEnd, hb]
  | _, _, .stopAfter hb hy hc => by
    have hb := hb.mayEnd
    rcases Exit.outOfLoop_eq_none hy with rfl | rfl <;>
      simp [Stmt.mayEnd, hb, Expr.mayBe_false_iff.mp hc]
  | _, _, .roundAfter _ _ _ hl => hl.mayEnd
  | _, _, .outAfter (y := y) hb hy => by
    have hb := hb.mayEnd
    cases y <;> cases hy <;> simp [Stmt.mayEnd, hb]

theorem Block.Ends.mayEnd : {b : Block} → {x : Exit} → b.Ends x → b.mayEnd x = true
  | _, _, .mk hs => by rw [Block.mayEnd, hs.mayEnd]

theorem Stmt.AllEnd.mayEnd : {ss : List Stmt} → {x : Exit} → Stmt.AllEnd ss x →
    Stmt.allMayEnd ss x = true
  | _, _, .nil => rfl
  | _, _, .goOn hs hr => by simp [Stmt.allMayEnd, hs.mayEnd, hr.mayEnd]
  | _, _, .jump hs hx => by simp [Stmt.allMayEnd, hs.mayEnd, hx]

theorem Otherwise.Ends.mayEnd : {o : Otherwise} → {x : Exit} → o.Ends x → o.mayEnd x = true
  | _, _, .none => rfl
  | _, _, .block hb => by rw [Otherwise.mayEnd, hb.mayEnd]
  | _, _, .chain hs => by rw [Otherwise.mayEnd, hs.mayEnd]

end

mutual

/-- Every foreseen way is one in which some run ends. -/
theorem Stmt.ends_of_mayEnd : (s : Stmt) → {x : Exit} → s.mayEnd x = true → s.Ends x
  | .error _, _, h | .var .., _, h | .expr .., _, h | .command .., _, h | .leave _, _, h
  | .again _, _, h | .give .., _, h => by
    obtain rfl := eq_of_beq h
    constructor
  | .branch _ cond body otherwise, x, h => by
    simp only [Stmt.mayEnd, Bool.or_eq_true, Bool.and_eq_true, Bool.not_eq_true'] at h
    rcases h with h | ⟨hc, h⟩
    · exact .holds cond.mayBe_true (Block.ends_of_mayEnd body h)
    · exact .fails (Expr.mayBe_false_iff.mpr hc) (Otherwise.ends_of_mayEnd otherwise h)
  | .loop _ .before cond body, .next, h => by
    simp only [Stmt.mayEnd, Bool.or_eq_true, Bool.not_eq_true'] at h
    rcases h with hc | h
    · exact .stop (Expr.mayBe_false_iff.mpr hc)
    · exact .out cond.mayBe_true (Block.ends_of_mayEnd body h) rfl
  | .loop _ .before cond body, .give _, h =>
    .out cond.mayBe_true (Block.ends_of_mayEnd body h) rfl
  | .loop _ .after cond body, .next, h => by
    simp only [Stmt.mayEnd, Bool.or_eq_true, Bool.and_eq_true, Bool.not_eq_true'] at h
    rcases h with h | ⟨hc, h | h⟩
    · exact .outAfter (Block.ends_of_mayEnd body h) rfl
    · exact .stopAfter (Block.ends_of_mayEnd body h) rfl (Expr.mayBe_false_iff.mpr hc)
    · exact .stopAfter (Block.ends_of_mayEnd body h) rfl (Expr.mayBe_false_iff.mpr hc)
  | .loop _ .after cond body, .give _, h => .outAfter (Block.ends_of_mayEnd body h) rfl
  | .loop _ .before _ _, .leave, h | .loop _ .before _ _, .again, h
  | .loop _ .after _ _, .leave, h | .loop _ .after _ _, .again, h => by cases h

theorem Block.ends_of_mayEnd : (b : Block) → {x : Exit} → b.mayEnd x = true → b.Ends x
  | .mk _ stmts, _, h => .mk (Stmt.allEnd_of_mayEnd stmts h)

theorem Stmt.allEnd_of_mayEnd : (ss : List Stmt) → {x : Exit} → Stmt.allMayEnd ss x = true →
    Stmt.AllEnd ss x
  | [], _, h => by
    obtain rfl := eq_of_beq h
    exact .nil
  | s :: rest, x, h => by
    simp only [Stmt.allMayEnd, Bool.or_eq_true, Bool.and_eq_true, bne_iff_ne] at h
    rcases h with ⟨hs, hr⟩ | ⟨hx, hs⟩
    · exact .goOn (Stmt.ends_of_mayEnd s hs) (Stmt.allEnd_of_mayEnd rest hr)
    · exact .jump (Stmt.ends_of_mayEnd s hs) hx

theorem Otherwise.ends_of_mayEnd : (o : Otherwise) → {x : Exit} → o.mayEnd x = true → o.Ends x
  | .none, _, h => by
    obtain rfl := eq_of_beq h
    exact .none
  | .block body, _, h => .block (Block.ends_of_mayEnd body h)
  | .chain s, _, h => .chain (Stmt.ends_of_mayEnd s h)

end

end Exact

section Closed

mutual

theorem Stmt.mayLeave_of_mayEnd : (s : Stmt) → s.mayEnd .leave = true → s.mayLeave = true
  | .leave _, _ => rfl
  | .branch _ cond body otherwise, h => by
    simp only [Stmt.mayEnd, Bool.or_eq_true, Bool.and_eq_true] at h
    simp only [Stmt.mayLeave, Bool.or_eq_true]
    exact h.imp (Block.mayLeave_of_mayEnd body) fun h => Otherwise.mayLeave_of_mayEnd otherwise h.2
  | .error _, h | .var .., h | .expr .., h | .command .., h | .again _, h | .give .., h
  | .loop _ .before _ _, h | .loop _ .after _ _, h => by cases h

theorem Block.mayLeave_of_mayEnd : (b : Block) → b.mayEnd .leave = true → b.mayLeave = true
  | .mk _ stmts, h => Stmt.anyMayLeave_of_mayEnd stmts h

theorem Stmt.anyMayLeave_of_mayEnd : (ss : List Stmt) → Stmt.allMayEnd ss .leave = true →
    Stmt.anyMayLeave ss = true
  | [], h => by cases h
  | s :: rest, h => by
    simp only [Stmt.allMayEnd, Bool.or_eq_true, Bool.and_eq_true] at h
    simp only [Stmt.anyMayLeave, Bool.or_eq_true]
    exact h.symm.imp (fun h => Stmt.mayLeave_of_mayEnd s h.2) fun h =>
      Stmt.anyMayLeave_of_mayEnd rest h.2

theorem Otherwise.mayLeave_of_mayEnd : (o : Otherwise) → o.mayEnd .leave = true → o.mayLeave = true
  | .none, h => by cases h
  | .block body, h => Block.mayLeave_of_mayEnd body h
  | .chain s, h => Stmt.mayLeave_of_mayEnd s h

end

mutual

theorem Stmt.mayRepeat_of_mayEnd : (s : Stmt) → s.mayEnd .again = true → s.mayRepeat = true
  | .again _, _ => rfl
  | .branch _ cond body otherwise, h => by
    simp only [Stmt.mayEnd, Bool.or_eq_true, Bool.and_eq_true] at h
    simp only [Stmt.mayRepeat, Bool.or_eq_true]
    exact h.imp (Block.mayRepeat_of_mayEnd body) fun h => Otherwise.mayRepeat_of_mayEnd otherwise h.2
  | .error _, h | .var .., h | .expr .., h | .command .., h | .leave _, h | .give .., h
  | .loop _ .before _ _, h | .loop _ .after _ _, h => by cases h

theorem Block.mayRepeat_of_mayEnd : (b : Block) → b.mayEnd .again = true → b.mayRepeat = true
  | .mk _ stmts, h => Stmt.anyMayRepeat_of_mayEnd stmts h

theorem Stmt.anyMayRepeat_of_mayEnd : (ss : List Stmt) → Stmt.allMayEnd ss .again = true →
    Stmt.anyMayRepeat ss = true
  | [], h => by cases h
  | s :: rest, h => by
    simp only [Stmt.allMayEnd, Bool.or_eq_true, Bool.and_eq_true] at h
    simp only [Stmt.anyMayRepeat, Bool.or_eq_true]
    exact h.symm.imp (fun h => Stmt.mayRepeat_of_mayEnd s h.2) fun h =>
      Stmt.anyMayRepeat_of_mayEnd rest h.2

theorem Otherwise.mayRepeat_of_mayEnd : (o : Otherwise) → o.mayEnd .again = true →
    o.mayRepeat = true
  | .none, h => by cases h
  | .block body, h => Block.mayRepeat_of_mayEnd body h
  | .chain s, h => Stmt.mayRepeat_of_mayEnd s h

end

mutual

/-- A closed statement that goes on after all does so through the test of a loop. -/
theorem Stmt.retests_of_isClosed : (s : Stmt) → s.isClosed = true → s.mayEnd .next = true →
    s.retests = true
  | .branch _ cond body otherwise, hc, h => by
    simp only [Stmt.isClosed, Bool.and_eq_true] at hc
    simp only [Stmt.mayEnd, Bool.or_eq_true, Bool.and_eq_true] at h
    simp only [Stmt.retests, Bool.or_eq_true]
    exact h.imp (Block.retests_of_isClosed body hc.1) fun h =>
      Otherwise.retests_of_isClosed otherwise hc.2 h.2
  | .loop _ .before cond body, hc, h => by
    simp only [Stmt.isClosed, Bool.and_eq_true, Bool.not_eq_true'] at hc
    simp only [Stmt.mayEnd, hc.1, Bool.not_true, Bool.false_or] at h
    have hleave := Block.mayLeave_of_mayEnd body h
    rw [hc.2] at hleave
    cases hleave
  | .loop _ .after cond body, hc, h => by
    simp only [Stmt.isClosed, Bool.and_eq_true, Bool.or_eq_true, Bool.not_eq_true'] at hc
    simp only [Stmt.mayEnd, Bool.or_eq_true, Bool.and_eq_true, Bool.not_eq_true'] at h
    simp only [Stmt.retests, Bool.or_eq_true, Bool.and_eq_true, Bool.not_eq_true']
    rcases h with h | ⟨htest, h⟩
    · have hleave := Block.mayLeave_of_mayEnd body h
      rw [hc.1] at hleave
      cases hleave
    · rcases h with h | h
      · rw [htest] at hc
        exact .inl (Block.retests_of_isClosed body (hc.2.resolve_right nofun) h)
      · exact .inr ⟨htest, Block.mayRepeat_of_mayEnd body h⟩
  | .give .., _, h => by cases h
  | .error _, hc, _ | .var .., hc, _ | .expr .., hc, _ | .command .., hc, _ | .leave _, hc, _
  | .again _, hc, _ => by cases hc

theorem Block.retests_of_isClosed : (b : Block) → b.isClosed = true → b.mayEnd .next = true →
    b.retests = true
  | .mk _ stmts, hc, h => Stmt.anyRetests_of_isClosed stmts hc h

theorem Stmt.anyRetests_of_isClosed : (ss : List Stmt) → Stmt.anyIsClosed ss = true →
    Stmt.allMayEnd ss .next = true → Stmt.anyRetests ss = true
  | [], hc, _ => by cases hc
  | s :: rest, hc, h => by
    simp only [Stmt.anyIsClosed, Bool.or_eq_true] at hc
    simp only [Stmt.allMayEnd, bne_self_eq_false, Bool.false_and, Bool.or_false,
      Bool.and_eq_true] at h
    simp only [Stmt.anyRetests, Bool.or_eq_true]
    exact hc.imp (fun hc => Stmt.retests_of_isClosed s hc h.1) fun hc =>
      Stmt.anyRetests_of_isClosed rest hc h.2

theorem Otherwise.retests_of_isClosed : (o : Otherwise) → o.isClosed = true →
    o.mayEnd .next = true → o.retests = true
  | .none, hc, _ => by cases hc
  | .block body, hc, h => Block.retests_of_isClosed body hc h
  | .chain s, hc, h => Stmt.retests_of_isClosed s hc h

end

end Closed

section Orderly

mutual

/-- Every jump has a loop around it, and every return hands a value back. -/
def Stmt.isOrderly (inLoop : Bool) : Stmt → Bool
  | .leave _ | .again _ => inLoop
  | .give _ value => value.isSome
  | .branch _ _ body otherwise => body.isOrderly inLoop && otherwise.isOrderly inLoop
  | .loop _ _ _ body => body.isOrderly true
  | .error _ | .var .. | .expr .. | .command .. => true

def Block.isOrderly (inLoop : Bool) : Block → Bool
  | .mk _ stmts => Stmt.areOrderly inLoop stmts

def Stmt.areOrderly (inLoop : Bool) : List Stmt → Bool
  | [] => true
  | s :: rest => s.isOrderly inLoop && Stmt.areOrderly inLoop rest

def Otherwise.isOrderly (inLoop : Bool) : Otherwise → Bool
  | .none => true
  | .block body => body.isOrderly inLoop
  | .chain s => s.isOrderly inLoop

end

/-- The ways in which an orderly statement may end. -/
def Exit.isOrderly (inLoop : Bool) : Exit → Bool
  | .next => true
  | .leave | .again => inLoop
  | .give b => b

mutual

theorem Stmt.isOrderly_of_mayEnd {inLoop : Bool} {x : Exit} : (s : Stmt) →
    s.isOrderly inLoop = true → s.mayEnd x = true → x.isOrderly inLoop = true
  | .error _, _, h | .var .., _, h | .expr .., _, h | .command .., _, h => by
    obtain rfl := eq_of_beq h
    rfl
  | .leave _, ho, h | .again _, ho, h | .give .., ho, h => by
    obtain rfl := eq_of_beq h
    exact ho
  | .branch _ cond body otherwise, ho, h => by
    simp only [Stmt.isOrderly, Bool.and_eq_true] at ho
    simp only [Stmt.mayEnd, Bool.or_eq_true, Bool.and_eq_true] at h
    rcases h with h | ⟨-, h⟩
    · exact Block.isOrderly_of_mayEnd body ho.1 h
    · exact Otherwise.isOrderly_of_mayEnd otherwise ho.2 h
  | .loop _ kind cond body, ho, h => by
    cases x with
    | next => rfl
    | give b =>
      have h : body.mayEnd (.give b) = true := by cases kind <;> exact h
      have ho : body.isOrderly true = true := ho
      exact (Block.isOrderly_of_mayEnd body ho h :)
    | leave => cases kind <;> cases h
    | again => cases kind <;> cases h

theorem Block.isOrderly_of_mayEnd {inLoop : Bool} {x : Exit} : (b : Block) →
    b.isOrderly inLoop = true → b.mayEnd x = true → x.isOrderly inLoop = true
  | .mk _ stmts, ho, h => Stmt.areOrderly_of_mayEnd stmts ho h

theorem Stmt.areOrderly_of_mayEnd {inLoop : Bool} {x : Exit} : (ss : List Stmt) →
    Stmt.areOrderly inLoop ss = true → Stmt.allMayEnd ss x = true → x.isOrderly inLoop = true
  | [], _, h => by
    obtain rfl := eq_of_beq h
    rfl
  | s :: rest, ho, h => by
    simp only [Stmt.areOrderly, Bool.and_eq_true] at ho
    simp only [Stmt.allMayEnd, Bool.or_eq_true, Bool.and_eq_true] at h
    rcases h with h | h
    · exact Stmt.areOrderly_of_mayEnd rest ho.2 h.2
    · exact Stmt.isOrderly_of_mayEnd s ho.1 h.2

theorem Otherwise.isOrderly_of_mayEnd {inLoop : Bool} {x : Exit} : (o : Otherwise) →
    o.isOrderly inLoop = true → o.mayEnd x = true → x.isOrderly inLoop = true
  | .none, _, h => by
    obtain rfl := eq_of_beq h
    rfl
  | .block body, ho, h => Block.isOrderly_of_mayEnd body ho h
  | .chain s, ho, h => Stmt.isOrderly_of_mayEnd s ho h

end

end Orderly

namespace Typing

/-- Nothing more was reported. -/
def Silent (t t' : Typing) : Prop := t'.diagnostics.length ≤ t.diagnostics.length

theorem Precedes.length_le {t t' : Typing} (h : t.Precedes t') :
    t.diagnostics.length ≤ t'.diagnostics.length := h.diagnostics.length_le

/-- Where nothing is reported in the end, nothing was reported on the way. -/
theorem Silent.first {t t' t'' : Typing} (h : t.Silent t'') (h' : t'.Precedes t'') : t.Silent t' :=
  Nat.le_trans h'.length_le h

theorem Silent.second {t t' t'' : Typing} (h : t.Silent t'') (h' : t.Precedes t') :
    t'.Silent t'' := Nat.le_trans h h'.length_le

theorem not_silent_report {t t' : Typing} {problem : TypeProblem} {span : Span} {notes : List Note}
    (h : t.Precedes t') : ¬ t.Silent (t'.report problem span notes) := by
  intro hs
  have := h.length_le
  rw [Silent, report, List.length_append, List.length_singleton] at hs
  omega

section

variable {c : TypingContext} {info : FunctionInfo}

/-- Where nothing is reported, every return of a function with a result hands a value back. -/
theorem isSome_of_give (hf : c.function = some info) (hv : info.result ≠ .void)
    (hi : info.result ≠ .invalid) (t : Typing) (n : Node) (value : Option Expr)
    (h : t.Silent (give c t n value)) : value.isSome = true := by
  cases value with
  | some e => rfl
  | none =>
    simp only [give, hf, hv, hi, decide_false, Bool.or_self, Bool.false_eq_true, if_false] at h
    exact absurd h (not_silent_report (.refl t))

mutual

theorem stmt_isOrderly {c : TypingContext} (hf : c.function = some info) (hv : info.result ≠ .void)
    (hi : info.result ≠ .invalid) (t : Typing) : (s : Stmt) → t.Silent (stmt c t s) →
    s.isOrderly c.inLoop = true
  | .error _, _ | .var .., _ | .expr .., _ | .command .., _ => rfl
  | .leave n, h | .again n, h => by
    rw [stmt] at h
    rw [Stmt.isOrderly]
    split at h
    · assumption
    · exact absurd h (not_silent_report (.refl t))
  | .give n value, h => by
    rw [stmt] at h
    exact isSome_of_give hf hv hi t n value h
  | .branch _ cond body otherwise, h => by
    have hcond := (extends_condition t c cond).toPrecedes
    have hbody := (extends_block c (condition c t cond) body).toPrecedes
    have hother := (extends_alternative c (block c (condition c t cond) body) otherwise).toPrecedes
    rw [stmt] at h
    rw [Stmt.isOrderly, Bool.and_eq_true]
    exact ⟨block_isOrderly hf hv hi _ body ((h.first hother).second hcond),
      alternative_isOrderly hf hv hi _ otherwise (h.second (hcond.trans hbody))⟩
  | .loop _ .before cond body, h => by
    have hcond := (extends_condition t c cond).toPrecedes
    rw [stmt] at h
    exact block_isOrderly (c := { c with inLoop := true }) hf hv hi _ body (h.second hcond)
  | .loop _ .after cond body, h => by
    have hcond := (extends_condition (block { c with inLoop := true } t body) c cond).toPrecedes
    rw [stmt] at h
    exact block_isOrderly (c := { c with inLoop := true }) hf hv hi _ body (h.first hcond)

theorem block_isOrderly {c : TypingContext} (hf : c.function = some info) (hv : info.result ≠ .void)
    (hi : info.result ≠ .invalid) (t : Typing) : (b : Block) → t.Silent (block c t b) →
    b.isOrderly c.inLoop = true
  | .mk _ body, h => by
    rw [block] at h
    exact stmts_isOrderly hf hv hi t body h

theorem stmts_isOrderly {c : TypingContext} (hf : c.function = some info) (hv : info.result ≠ .void)
    (hi : info.result ≠ .invalid) (t : Typing) : (ss : List Stmt) → t.Silent (stmts c t ss) →
    Stmt.areOrderly c.inLoop ss = true
  | [], _ => rfl
  | s :: rest, h => by
    have hs := (extends_stmt c t s).toPrecedes
    have hrest := (extends_stmts c (stmt c t s) rest).toPrecedes
    rw [stmts] at h
    rw [Stmt.areOrderly, Bool.and_eq_true]
    exact ⟨stmt_isOrderly hf hv hi t s (h.first hrest),
      stmts_isOrderly hf hv hi _ rest (h.second hs)⟩

theorem alternative_isOrderly {c : TypingContext} (hf : c.function = some info)
    (hv : info.result ≠ .void) (hi : info.result ≠ .invalid) (t : Typing) : (o : Otherwise) →
    t.Silent (alternative c t o) → o.isOrderly c.inLoop = true
  | .none, _ => rfl
  | .block body, h => by
    rw [alternative] at h
    exact block_isOrderly hf hv hi t body h
  | .chain s, h => by
    rw [alternative] at h
    exact stmt_isOrderly hf hv hi t s h

end

/-- A function with a result about which nothing is reported has a body that is orderly and closed. -/
theorem body_of_silent (hc : c.inLoop = false) {t : Typing} {f : Function}
    (hinfo : t.functionOfItem? f.node.id = some info) (hv : info.result ≠ .void)
    (hi : info.result ≠ .invalid) (h : t.Silent (function c t f)) :
    f.body.isOrderly false = true ∧ f.body.isClosed = true := by
  have hbody := (extends_block { c with function := some info } t f.body).toPrecedes
  simp only [function, hinfo, hv, hi, decide_false, Bool.false_or] at h
  cases hclosed : f.body.isClosed with
  | false =>
    rw [hclosed] at h
    exact absurd h (not_silent_report hbody)
  | true =>
    rw [hclosed] at h
    have ho := block_isOrderly (c := { c with function := some info }) rfl hv hi t f.body h
    rw [hc] at ho
    exact ⟨ho, rfl⟩

end

/-- Take a function with a known result about which nothing is reported. Every run of its body that ends
hands a value back, if and only if its body cannot end behind its last statement; and if it can, then
through a `continue` that leads to the test of a loop. -/
theorem gives_value_iff {r : Resolution} {aliases : List (Nat × Nat)} {t : Typing} {f : Function}
    {info : FunctionInfo} (hinfo : t.functionOfItem? f.node.id = some info)
    (hv : info.result ≠ .void) (hi : info.result ≠ .invalid)
    (h : (function { resolution := r, aliases } t f).diagnostics = t.diagnostics) :
    ((∀ x, f.body.Ends x → x = .give true) ↔ f.body.mayEnd .next = false) ∧
      (f.body.mayEnd .next = true → f.body.retests = true) := by
  have hsilent : t.Silent (function { resolution := r, aliases } t f) :=
    Nat.le_of_eq (congrArg List.length h)
  obtain ⟨horderly, hclosed⟩ := body_of_silent rfl hinfo hv hi hsilent
  refine ⟨⟨fun hall => ?_, fun hnext x hx => ?_⟩, Block.retests_of_isClosed f.body hclosed⟩
  · refine Bool.eq_false_iff.mpr fun hnext => ?_
    cases hall _ (Block.ends_of_mayEnd f.body hnext)
  · have hx := hx.mayEnd
    have hway := Block.isOrderly_of_mayEnd f.body horderly hx
    cases x with
    | next =>
      rw [hnext] at hx
      cases hx
    | give b =>
      rw [show b = true from hway]
    | leave => cases hway
    | again => cases hway

end Typing

/-- A function that starts the round over before it returns, in a loop whose test fails:
`do`, in it `if c` with `continue` and then `return 1`, and at its end `while false`. -/
def Function.restless : Function where
  node := ⟨11, ⟨0, 0, 93⟩⟩
  tags := []
  name := ⟨"f", ⟨0, 4, 5⟩⟩
  params := [⟨⟨"c", ⟨0, 6, 7⟩⟩, ⟨"bool", ⟨0, 9, 13⟩⟩⟩]
  result := some ⟨"int", ⟨0, 16, 19⟩⟩
  body := .mk ⟨10, ⟨0, 20, 93⟩⟩ [
    .loop ⟨9, ⟨0, 24, 93⟩⟩ .after (.constant ⟨8, ⟨0, 88, 93⟩⟩ (.bool false)) (.mk ⟨7, ⟨0, 27, 77⟩⟩ [
      .branch ⟨4, ⟨0, 35, 60⟩⟩ (.ident ⟨⟨1, ⟨0, 38, 39⟩⟩, "c"⟩)
        (.mk ⟨3, ⟨0, 40, 60⟩⟩ [.again ⟨2, ⟨0, 52, 60⟩⟩]) .none,
      .give ⟨6, ⟨0, 69, 77⟩⟩ (some (.constant ⟨5, ⟨0, 76, 77⟩⟩ (.int "1")))])]

/-- Nothing is reported about a program made of this function, and still the function has a run that
hands no value back. -/
theorem Typing.falls_off_restless :
    let p : Program := ⟨⟨0, 0, 94⟩, none, [.function .restless]⟩
    (p.resolve true).diagnostics = [] ∧ (p.typed (p.resolve true)).diagnostics = [] ∧
      ¬ ∀ x, Function.restless.body.Ends x → x = .give true := by
  intro p
  let c : TypingContext := { resolution := p.resolve true, aliases := p.aliases (p.resolve true) }
  have hinfo : ((declareFunction c (start c.resolution) .restless).functionOfItem? 11).map (·.result)
      = some .int := by decide +kernel
  have hsilent : (function c (declareFunction c (start c.resolution) .restless) .restless).diagnostics
      = (declareFunction c (start c.resolution) .restless).diagnostics := by decide +kernel
  obtain ⟨info, hinfo, hint⟩ := Option.map_eq_some_iff.mp hinfo
  have hgives := gives_value_iff hinfo (by simp [hint]) (by simp [hint]) hsilent
  refine ⟨by decide +kernel, by decide +kernel, fun hall => ?_⟩
  cases hgives.1.mp hall

end Craftlang
