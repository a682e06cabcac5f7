import Craftlang.Proofs.Syntax.Reading

/-!
# Runs of the expression parser

What the parser makes of the tokens in front of it, as a relation with one rule for each way through
its functions. A run takes some tokens and leaves a value; a run that fails takes some tokens and ends
with a report. The rules say what the functions do (`expression_runs`), no more and no less
(`ExprRun.parse`, `ExprFails.parse`), so a property of the parser is proved by induction on its
runs, and a function that changes changes its own rules.
-/

namespace Craftlang.Parse

/-- The functions of the expression parser, with the type of what each reads. -/
inductive ExprPart : Type → Type
  | expression : ExprPart Expr
  | operand (precedence : Nat) : ExprPart Expr
  | tail (precedence : Nat) (left : Expr) : ExprPart Expr
  | unary : ExprPart Expr
  | postfixed : ExprPart Expr
  | calls (target : Expr) : ExprPart Expr
  | arguments : ExprPart (List Expr × Span)
  | argumentList : ExprPart (List Expr × Span)
  | primary : ExprPart Expr

def ExprPart.parse {α : Type} (f : ExprPart α) (s : State) : Attempt s α :=
  match f with
  | .expression => Parse.expression s
  | .operand precedence => Parse.operand precedence s
  | .tail precedence left => operandTail precedence left s
  | .unary => Parse.unary s
  | .postfixed => Parse.postfixed s
  | .calls target => Parse.calls target s
  | .arguments => Parse.arguments s
  | .argumentList => Parse.argumentList s
  | .primary => Parse.primary s

/-- Is a token of this kind no operator that joins operands at least as closely as `n`? -/
def Yields (n : Nat) (k : Kind) : Prop := ∀ op, BinaryOp.ofKind? k = some op → op.precedence < n

/-- From a state a function takes these tokens, and leaves a value and another state. -/
inductive ExprRun : {α : Type} → ExprPart α → State → List Token → α → State → Prop
  | assignment {s t u : State} {ts us : List Token} {target : Ident} {step : Step t} {op : AssignOp}
      {value e : Expr} (hleft : ExprRun (.operand 1) s ts (.ident target) t) (hs : t.step? = some step)
      (hop : AssignOp.ofKind? step.token.kind = some op) (hvalue : ExprRun .expression step.state us value u)
      (he : e = .assign ⟨u.nextId, target.node.span.cover value.span⟩ op step.token.span target value) :
      ExprRun .expression s (ts ++ step.token :: us) e (u.making (.expr e))
  | operation {s t : State} {ts : List Token} {e : Expr} (hleft : ExprRun (.operand 1) s ts e t)
      (hk : AssignOp.ofKind? t.kind = none) : ExprRun .expression s ts e t
  | operand {s t u : State} {n : Nat} {ts us : List Token} {left e : Expr}
      (hfirst : ExprRun .unary s ts left t) (htail : ExprRun (.tail n left) t us e u) :
      ExprRun (.operand n) s (ts ++ us) e u
  | yielding {s : State} {n : Nat} {left : Expr} (hk : Yields n s.kind) : ExprRun (.tail n left) s [] left s
  | joined {s t u : State} {n : Nat} {ts us : List Token} {step : Step s} {op : BinaryOp}
      {left right join e : Expr} (hs : s.step? = some step) (hop : BinaryOp.ofKind? step.token.kind = some op)
      (hn : n ≤ op.precedence) (hright : ExprRun (.operand (op.precedence + 1)) step.state ts right t)
      (hj : join = .binary ⟨t.nextId, left.span.cover right.span⟩ op step.token.span left right)
      (htail : ExprRun (.tail n join) (t.making (.expr join)) us e u) :
      ExprRun (.tail n left) s (step.token :: (ts ++ us)) e u
  | plain {s t : State} {ts : List Token} {e : Expr} (hk : UnaryOp.ofKind? s.kind = none)
      (h : ExprRun .postfixed s ts e t) : ExprRun .unary s ts e t
  | prefixed {s t : State} {ts : List Token} {step : Step s} {op : UnaryOp} {inner e : Expr}
      (hs : s.step? = some step) (hop : UnaryOp.ofKind? step.token.kind = some op)
      (hinner : ExprRun .unary step.state ts inner t)
      (he : e = .unary ⟨t.nextId, step.token.span.cover inner.span⟩ op inner) :
      ExprRun .unary s (step.token :: ts) e (t.making (.expr e))
  | postfixed {s t u : State} {ts us : List Token} {target e : Expr} (htarget : ExprRun .primary s ts target t)
      (hcalls : ExprRun (.calls target) t us e u) : ExprRun .postfixed s (ts ++ us) e u
  | uncalled {s : State} {target : Expr} (hk : s.kind ≠ .lParen) : ExprRun (.calls target) s [] target s
  | called {s t u : State} {ts us : List Token} {step : Step s} {target call e : Expr} {args : List Expr}
      {close : Span} (hs : s.step? = some step) (hk : step.token.kind = .lParen)
      (hargs : ExprRun .arguments step.state ts (args, close) t)
      (hc : call = .call ⟨t.nextId, target.span.cover close⟩ target args)
      (hcalls : ExprRun (.calls call) (t.making (.expr call)) us e u) :
      ExprRun (.calls target) s (step.token :: (ts ++ us)) e u
  | noArgument {s : State} {step : Step s} (hs : s.step? = some step) (hk : step.token.kind = .rParen) :
      ExprRun .arguments s [step.token] ([], step.token.span) step.state
  | someArguments {s t : State} {ts : List Token} {args : List Expr × Span} (hk : s.kind ≠ .rParen)
      (h : ExprRun .argumentList s ts args t) : ExprRun .arguments s ts args t
  | moreArguments {s t u : State} {ts us : List Token} {step : Step t} {arg : Expr} {args : List Expr}
      {close : Span} (harg : ExprRun .expression s ts arg t) (hs : t.step? = some step)
      (hk : step.token.kind = .comma) (hargs : ExprRun .argumentList step.state us (args, close) u) :
      ExprRun .argumentList s (ts ++ step.token :: us) (arg :: args, close) u
  | lastArgument {s t : State} {ts : List Token} {step : Step t} {arg : Expr}
      (harg : ExprRun .expression s ts arg t) (hs : t.step? = some step) (hk : step.token.kind = .rParen) :
      ExprRun .argumentList s (ts ++ [step.token]) ([arg], step.token.span) step.state
  | constant {s : State} {step : Step s} {value : Constant} {e : Expr} (hs : s.step? = some step)
      (hvalue : constant? step.token = some value)
      (he : e = .constant ⟨step.state.nextId, step.token.span⟩ value) :
      ExprRun .primary s [step.token] e (step.state.making (.expr e))
  | name {s : State} {step : Step s} {e : Expr} (hs : s.step? = some step) (hk : step.token.kind = .ident)
      (he : e = .ident ⟨⟨step.state.nextId, step.token.span⟩, step.token.text⟩) :
      ExprRun .primary s [step.token] e (step.state.making (.expr e))
  | group {s t : State} {ts : List Token} {step : Step s} {close : Step t} {inner e : Expr}
      (hs : s.step? = some step) (hk : step.token.kind = .lParen)
      (hinner : ExprRun .expression step.state ts inner t) (hc : t.step? = some close)
      (hk' : close.token.kind = .rParen)
      (he : e = .group ⟨close.state.nextId, step.token.span.cover close.token.span⟩ inner) :
      ExprRun .primary s (step.token :: (ts ++ [close.token])) e (close.state.making (.expr e))

/-- Does no operand start with this token? -/
def StartsNone (s : State) : Prop :=
  ∀ step : Step s, s.step? = some step →
    constant? step.token = none ∧ step.token.kind ≠ .ident ∧ step.token.kind ≠ .lParen

/-- From a state a function takes these tokens, and fails with a report in another state. -/
inductive ExprFails : {α : Type} → ExprPart α → State → List Token → State → Prop
  | target {s t : State} {ts : List Token} {step : Step t} {op : AssignOp} {left : Expr}
      (hleft : ExprRun (.operand 1) s ts left t) (hs : t.step? = some step)
      (hop : AssignOp.ofKind? step.token.kind = some op) (hname : ∀ i, left ≠ .ident i) :
      ExprFails .expression s ts (t.report .badAssignmentTarget left.span)
  | value {s t u : State} {ts us : List Token} {target : Ident} {step : Step t} {op : AssignOp}
      (hleft : ExprRun (.operand 1) s ts (.ident target) t) (hs : t.step? = some step)
      (hop : AssignOp.ofKind? step.token.kind = some op) (h : ExprFails .expression step.state us u) :
      ExprFails .expression s (ts ++ step.token :: us) u
  | left {s t : State} {ts : List Token} (h : ExprFails (.operand 1) s ts t) : ExprFails .expression s ts t
  | first {s t : State} {n : Nat} {ts : List Token} (h : ExprFails .unary s ts t) :
      ExprFails (.operand n) s ts t
  | tail {s t u : State} {n : Nat} {ts us : List Token} {left : Expr} (hfirst : ExprRun .unary s ts left t)
      (h : ExprFails (.tail n left) t us u) : ExprFails (.operand n) s (ts ++ us) u
  | right {s t : State} {n : Nat} {ts : List Token} {step : Step s} {op : BinaryOp} {left : Expr}
      (hs : s.step? = some step) (hop : BinaryOp.ofKind? step.token.kind = some op) (hn : n ≤ op.precedence)
      (h : ExprFails (.operand (op.precedence + 1)) step.state ts t) :
      ExprFails (.tail n left) s (step.token :: ts) t
  | further {s t u : State} {n : Nat} {ts us : List Token} {step : Step s} {op : BinaryOp}
      {left right join : Expr} (hs : s.step? = some step) (hop : BinaryOp.ofKind? step.token.kind = some op)
      (hn : n ≤ op.precedence) (hright : ExprRun (.operand (op.precedence + 1)) step.state ts right t)
      (hj : join = .binary ⟨t.nextId, left.span.cover right.span⟩ op step.token.span left right)
      (h : ExprFails (.tail n join) (t.making (.expr join)) us u) :
      ExprFails (.tail n left) s (step.token :: (ts ++ us)) u
  | plain {s t : State} {ts : List Token} (hk : UnaryOp.ofKind? s.kind = none)
      (h : ExprFails .postfixed s ts t) : ExprFails .unary s ts t
  | prefixed {s t : State} {ts : List Token} {step : Step s} {op : UnaryOp} (hs : s.step? = some step)
      (hop : UnaryOp.ofKind? step.token.kind = some op) (h : ExprFails .unary step.state ts t) :
      ExprFails .unary s (step.token :: ts) t
  | called {s t : State} {ts : List Token} (h : ExprFails .primary s ts t) : ExprFails .postfixed s ts t
  | calls {s t u : State} {ts us : List Token} {target : Expr} (htarget : ExprRun .primary s ts target t)
      (h : ExprFails (.calls target) t us u) : ExprFails .postfixed s (ts ++ us) u
  | arguments {s t : State} {ts : List Token} {step : Step s} {target : Expr} (hs : s.step? = some step)
      (hk : step.token.kind = .lParen) (h : ExprFails .arguments step.state ts t) :
      ExprFails (.calls target) s (step.token :: ts) t
  | again {s t u : State} {ts us : List Token} {step : Step s} {target call : Expr} {args : List Expr}
      {close : Span} (hs : s.step? = some step) (hk : step.token.kind = .lParen)
      (hargs : ExprRun .arguments step.state ts (args, close) t)
      (hc : call = .call ⟨t.nextId, target.span.cover close⟩ target args)
      (h : ExprFails (.calls call) (t.making (.expr call)) us u) :
      ExprFails (.calls target) s (step.token :: (ts ++ us)) u
  | someArguments {s t : State} {ts : List Token} (hk : s.kind ≠ .rParen) (h : ExprFails .argumentList s ts t) :
      ExprFails .arguments s ts t
  | argument {s t : State} {ts : List Token} (h : ExprFails .expression s ts t) :
      ExprFails .argumentList s ts t
  | moreArguments {s t u : State} {ts us : List Token} {step : Step t} {arg : Expr}
      (harg : ExprRun .expression s ts arg t) (hs : t.step? = some step) (hk : step.token.kind = .comma)
      (h : ExprFails .argumentList step.state us u) : ExprFails .argumentList s (ts ++ step.token :: us) u
  | unlisted {s t : State} {ts : List Token} {arg : Expr} (harg : ExprRun .expression s ts arg t)
      (hk : t.kind ≠ .comma) (hk' : t.kind ≠ .rParen) :
      ExprFails .argumentList s ts (t.reportExpected .commaOrClose)
  | primary {s : State} (hnone : StartsNone s) : ExprFails .primary s [] (s.reportExpected .expression)
  | inner {s t : State} {ts : List Token} {step : Step s} (hs : s.step? = some step)
      (hk : step.token.kind = .lParen) (h : ExprFails .expression step.state ts t) :
      ExprFails .primary s (step.token :: ts) t
  | unclosed {s t : State} {ts : List Token} {step : Step s} {inner : Expr} (hs : s.step? = some step)
      (hk : step.token.kind = .lParen) (hinner : ExprRun .expression step.state ts inner t)
      (hk' : t.kind ≠ .rParen) :
      ExprFails .primary s (step.token :: ts) (t.reportExpected (.token .rParen))

/-! ## Every run follows the rules -/

/-- An attempt ends with a value, or fails. -/
def Attempt.Ends {s : State} {α : Type} (p : Attempt s α) (runs : α → State → Prop) (fails : State → Prop) :
    Prop :=
  match p.value with
  | some a => runs a p.state
  | none => fails p.state

namespace Attempt.Ends

variable {s : State} {α β : Type} {runs : α → State → Prop} {fails : State → Prop}

theorem ok {a : α} (h : runs a s) : (Attempt.ok s a).Ends runs fails := h

theorem expected {what : Expectation} (h : fails (s.reportExpected what)) :
    (Attempt.expected s what).Ends runs fails := h

theorem problem {p : Problem} {span : Span} (h : fails (s.report p span)) :
    (Attempt.problem s p span).Ends runs fails := h

theorem build [IsNode α] {span : Span} {make : Node → α}
    (h : runs (make ⟨s.nextId, span⟩) (s.making (IsNode.made (make ⟨s.nextId, span⟩)))) :
    (Attempt.build s span make).Ends runs fails := h

theorem since {t : State} {p : Attempt t α} {h : t.rest <:+ s.rest} (hp : p.Ends runs fails) :
    Attempt.Ends (p.since h) runs fails := hp

theorem mono {p : Attempt s α} {runs' : α → State → Prop} {fails' : State → Prop} (hp : p.Ends runs fails)
    (hruns : ∀ a t, runs a t → runs' a t) (hfails : ∀ t, fails t → fails' t) : p.Ends runs' fails' := by
  obtain ⟨v, t, hw⟩ := p
  cases v with
  | none => exact hfails t hp
  | some a => exact hruns a t hp

theorem bind {p : Attempt s α} {next : α → (t : State) → t.rest.length ≤ s.rest.length → Attempt t β}
    {runs' : β → State → Prop} {fails' : State → Prop} (hp : p.Ends runs fails)
    (hfails : ∀ t, fails t → fails' t) (hn : ∀ a t h, runs a t → (next a t h).Ends runs' fails') :
    (p.bind next).Ends runs' fails' := by
  obtain ⟨v, t, hw⟩ := p
  cases v with
  | none => exact hfails t hp
  | some a => exact hn a t hw.length_le hp

theorem buildThen [IsNode α] {span : Span} {make : Node → α}
    {next : α → (t : State) → t.rest.length ≤ s.rest.length → Attempt t β}
    {runs' : β → State → Prop} {fails' : State → Prop}
    (hn : ∀ h, (next (make ⟨s.nextId, span⟩) (s.making (IsNode.made (make ⟨s.nextId, span⟩))) h).Ends
      runs' fails') : ((Attempt.build s span make).bind next).Ends runs' fails' := hn (Nat.le_refl _)

end Attempt.Ends

theorem State.kind_eq_of_step {s : State} {step : Step s} (h : s.step? = some step) :
    s.kind = step.token.kind := by
  rw [State.kind_eq, (State.step?_eq_some h).1]
  rfl

theorem State.kind_eq_eof {s : State} (h : s.step? = none) : s.kind = .eof := by
  rw [State.kind_eq, State.step?_eq_none h]
  rfl

theorem State.kind_ne_of_take {s : State} {k : Kind} (h : s.take? k = none) (hk : k ≠ .eof) :
    s.kind ≠ k := by
  intro hs
  rw [State.take?] at h
  split at h
  · rename_i step hstep
    rw [if_pos ((State.kind_eq_of_step hstep).symm.trans hs)] at h
    cases h
  · rename_i hstep
    exact hk (hs.symm.trans (State.kind_eq_eof hstep))

/-- A token of the kind is taken, or the parser stays where it is. -/
theorem expect_runs (s : State) {k : Kind} (hk : k ≠ .eof) : (expect s k).Ends
    (fun t u => ∃ step : Step s, s.step? = some step ∧ step.token.kind = k ∧ t = step.token ∧ u = step.state)
    fun u => s.kind ≠ k ∧ u = s.reportExpected (.token k) := by
  rw [expect]
  split
  · rename_i step ht
    obtain ⟨hs, hstep⟩ := State.take?_eq_some ht
    exact .since (.ok ⟨step, hs, hstep, rfl, rfl⟩)
  · exact .expected ⟨State.kind_ne_of_take ‹_› hk, rfl⟩

/-- A function ends as one of its rules says. -/
def ExprPart.Runs {s : State} {α : Type} (f : ExprPart α) (p : Attempt s α) : Prop :=
  p.Ends (fun a t => ∃ ts, ExprRun f s ts a t) fun t => ∃ ts, ExprFails f s ts t

mutual

theorem expression_runs (s : State) : ExprPart.Runs .expression (expression s) := by
  rw [expression]
  refine .bind (operand_runs 1 s) (fun t ⟨ts, h⟩ => ⟨ts, .left h⟩) fun left t _ ⟨ts, hleft⟩ => ?_
  split
  · rename_i hs
    exact .ok ⟨ts, .operation hleft (by rw [State.kind_eq_eof hs]; rfl)⟩
  · rename_i step hs
    have hlen := step.length_lt
    split
    · rename_i hop
      exact .ok ⟨ts, .operation hleft (by rw [State.kind_eq_of_step hs, hop])⟩
    · rename_i op hop
      split
      · exact .since (.bind (expression_runs step.state) (fun u ⟨us, h⟩ => ⟨_, .value hleft hs hop h⟩)
          fun value u _ ⟨us, hvalue⟩ => .build ⟨_, .assignment hleft hs hop hvalue rfl⟩)
      · rename_i hname
        exact .problem ⟨ts, .target hleft hs hop hname⟩
termination_by s.rest.length * 8 + 6
decreasing_by all_goals omega

theorem operand_runs (n : Nat) (s : State) : ExprPart.Runs (.operand n) (operand n s) := by
  rw [operand]
  exact .bind (unary_runs s) (fun t ⟨ts, h⟩ => ⟨ts, .first h⟩) fun left t _ ⟨ts, hfirst⟩ =>
    (operandTail_runs n left t).mono (fun e u ⟨us, h⟩ => ⟨_, .operand hfirst h⟩)
      fun u ⟨us, h⟩ => ⟨_, .tail hfirst h⟩
termination_by s.rest.length * 8 + 5
decreasing_by all_goals omega

theorem operandTail_runs (n : Nat) (left : Expr) (s : State) :
    ExprPart.Runs (.tail n left) (operandTail n left s) := by
  rw [operandTail]
  split
  · rename_i hs
    refine .ok ⟨[], .yielding ?_⟩
    rw [State.kind_eq_eof hs]
    rintro op ⟨⟩
  · rename_i step hs
    have hlen := step.length_lt
    have hkind := State.kind_eq_of_step hs
    split
    · rename_i hop
      refine .ok ⟨[], .yielding ?_⟩
      rw [hkind, Yields, hop]
      rintro op ⟨⟩
    · rename_i op hop
      split
      · rename_i hlt
        refine .ok ⟨[], .yielding ?_⟩
        rw [hkind, Yields, hop]
        rintro _ ⟨⟩
        exact hlt
      · rename_i hge
        have hn := Nat.le_of_not_lt hge
        exact .since (.bind (operand_runs _ step.state) (fun t ⟨ts, h⟩ => ⟨_, .right hs hop hn h⟩)
          fun right t _ ⟨ts, hright⟩ => .buildThen fun _ => (operandTail_runs n _ _).mono
            (fun e u ⟨us, h⟩ => ⟨_, .joined hs hop hn hright rfl h⟩)
            fun u ⟨us, h⟩ => ⟨_, .further hs hop hn hright rfl h⟩)
termination_by s.rest.length * 8 + 4
decreasing_by all_goals omega

theorem unary_runs (s : State) : ExprPart.Runs .unary (unary s) := by
  have hplain : UnaryOp.ofKind? s.kind = none → ExprPart.Runs .unary (postfixed s) := fun hk =>
    (postfixed_runs s).mono (fun e t ⟨ts, h⟩ => ⟨ts, .plain hk h⟩) fun t ⟨ts, h⟩ => ⟨ts, .plain hk h⟩
  rw [unary]
  split
  · rename_i hs
    exact hplain (by rw [State.kind_eq_eof hs]; rfl)
  · rename_i step hs
    have hlen := step.length_lt
    split
    · rename_i hop
      exact hplain (by rw [State.kind_eq_of_step hs, hop])
    · rename_i op hop
      exact .since (.bind (unary_runs step.state) (fun t ⟨ts, h⟩ => ⟨_, .prefixed hs hop h⟩)
        fun inner t _ ⟨ts, hinner⟩ => .build ⟨_, .prefixed hs hop hinner rfl⟩)
termination_by s.rest.length * 8 + 3
decreasing_by all_goals omega

theorem postfixed_runs (s : State) : ExprPart.Runs .postfixed (postfixed s) := by
  rw [postfixed]
  exact .bind (primary_runs s) (fun t ⟨ts, h⟩ => ⟨ts, .called h⟩) fun target t _ ⟨ts, htarget⟩ =>
    (calls_runs target t).mono (fun e u ⟨us, h⟩ => ⟨_, .postfixed htarget h⟩)
      fun u ⟨us, h⟩ => ⟨_, .calls htarget h⟩
termination_by s.rest.length * 8 + 2
decreasing_by all_goals omega

theorem calls_runs (target : Expr) (s : State) : ExprPart.Runs (.calls target) (calls target s) := by
  rw [calls]
  split
  · exact .ok ⟨[], .uncalled (State.kind_ne_of_take ‹_› (by decide))⟩
  · rename_i step ht
    have hlen := step.length_lt
    obtain ⟨hs, hk⟩ := State.take?_eq_some ht
    exact .since (.bind (arguments_runs step.state) (fun t ⟨ts, h⟩ => ⟨_, .arguments hs hk h⟩)
      fun (args, close) t _ ⟨ts, hargs⟩ => .buildThen fun _ => (calls_runs _ _).mono
        (fun e u ⟨us, h⟩ => ⟨_, .called hs hk hargs rfl h⟩)
        fun u ⟨us, h⟩ => ⟨_, .again hs hk hargs rfl h⟩)
termination_by s.rest.length * 8 + 1
decreasing_by all_goals omega

theorem arguments_runs (s : State) : ExprPart.Runs .arguments (arguments s) := by
  rw [arguments]
  split
  · obtain ⟨hs, hk⟩ := State.take?_eq_some ‹_›
    exact .since (.ok ⟨_, .noArgument hs hk⟩)
  · have hk := State.kind_ne_of_take ‹_› (by decide)
    exact (argumentList_runs s).mono (fun args t ⟨ts, h⟩ => ⟨ts, .someArguments hk h⟩)
      fun t ⟨ts, h⟩ => ⟨ts, .someArguments hk h⟩
termination_by s.rest.length * 8 + 8
decreasing_by all_goals omega

theorem argumentList_runs (s : State) : ExprPart.Runs .argumentList (argumentList s) := by
  rw [argumentList]
  refine .bind (expression_runs s) (fun t ⟨ts, h⟩ => ⟨ts, .argument h⟩) fun arg t _ ⟨ts, harg⟩ => ?_
  split
  · rename_i comma ht
    have hlen := comma.length_lt
    obtain ⟨hs, hk⟩ := State.take?_eq_some ht
    exact .since (.bind (argumentList_runs comma.state) (fun u ⟨us, h⟩ => ⟨_, .moreArguments harg hs hk h⟩)
      fun (args, close) u _ ⟨us, hargs⟩ => .ok ⟨_, .moreArguments harg hs hk hargs⟩)
  · have hcomma := State.kind_ne_of_take ‹_› (by decide)
    split
    · obtain ⟨hs, hk⟩ := State.take?_eq_some ‹_›
      exact .since (.ok ⟨_, .lastArgument harg hs hk⟩)
    · exact .expected ⟨ts, .unlisted harg hcomma (State.kind_ne_of_take ‹_› (by decide))⟩
termination_by s.rest.length * 8 + 7
decreasing_by all_goals omega

theorem primary_runs (s : State) : ExprPart.Runs .primary (primary s) := by
  rw [primary]
  split
  · rename_i hs
    refine .expected ⟨[], .primary fun step hstep => ?_⟩
    rw [hs] at hstep
    cases hstep
  · rename_i step hs
    have hlen := step.length_lt
    split
    · rename_i value hvalue
      exact .since (.build ⟨_, .constant hs hvalue rfl⟩)
    · rename_i hvalue
      split
      · exact .since (.build ⟨_, .name hs ‹_› rfl⟩)
      · rename_i hk
        refine .since (.bind (expression_runs step.state) (fun t ⟨ts, h⟩ => ⟨_, .inner hs hk h⟩)
          fun inner t _ ⟨ts, hinner⟩ => .bind (expect_runs t (by decide)) ?_ ?_)
        · rintro u ⟨hk', rfl⟩
          exact ⟨_, .unclosed hs hk hinner hk'⟩
        · rintro _ u - ⟨close, hc, hk', rfl, rfl⟩
          exact .build ⟨_, .group hs hk hinner hc hk' rfl⟩
      · rename_i hname hopen
        refine .expected ⟨[], .primary fun step' hstep => ?_⟩
        rw [hs] at hstep
        cases hstep
        exact ⟨hvalue, hname, hopen⟩
termination_by s.rest.length * 8
decreasing_by all_goals omega

end

/-- An expression is read by a run, or a run fails. -/
theorem expression_cases (s : State) :
    (∃ e ts, (expression s).value = some e ∧ ExprRun .expression s ts e (expression s).state) ∨
      ((expression s).value = none ∧ ∃ ts, ExprFails .expression s ts (expression s).state) := by
  have h := expression_runs s
  rw [ExprPart.Runs, Attempt.Ends] at h
  split at h
  · exact .inl ⟨_, h.choose, ‹_›, h.choose_spec⟩
  · exact .inr ⟨‹_›, h⟩

/-! ## The rules allow nothing else -/

/-- An attempt succeeds with this value and leaves this state. -/
def Attempt.Gets {s : State} {α : Type} (p : Attempt s α) (a : α) (t : State) : Prop :=
  p.Ends (fun b u => b = a ∧ u = t) fun _ => False

/-- An attempt fails and leaves this state. -/
def Attempt.Misses {s : State} {α : Type} (p : Attempt s α) (t : State) : Prop :=
  p.Ends (fun _ _ => False) fun u => u = t

namespace Attempt

variable {s t : State} {α β : Type} {p : Attempt s α} {a : α}
  {next : α → (t : State) → t.rest.length ≤ s.rest.length → Attempt t β} {runs : β → State → Prop}
  {fails : State → Prop}

theorem Gets.bind (h : p.Gets a t) (hn : ∀ hle, (next a t hle).Ends runs fails) :
    (p.bind next).Ends runs fails :=
  Ends.bind h (fun _ => False.elim) fun _ _ hle ⟨ha, ht⟩ => by
    subst ha ht
    exact hn hle

theorem Gets.result (h : p.Gets a t) : p.value = some a ∧ p.state = t := by
  obtain ⟨v, u, hw⟩ := p
  cases v with
  | none => exact h.elim
  | some b => exact ⟨congrArg some h.1, h.2⟩

theorem Misses.result (h : p.Misses t) : p.value = none ∧ p.state = t := by
  obtain ⟨v, u, hw⟩ := p
  cases v with
  | none => exact ⟨rfl, h⟩
  | some b => exact h.elim

theorem Misses.bind (h : p.Misses t) (ht : fails t) : (p.bind next).Ends runs fails :=
  Ends.bind h (fun _ hu => hu ▸ ht) fun _ _ _ => False.elim

end Attempt

theorem State.take?_eq_some_of {s : State} {k : Kind} {step : Step s} (hs : s.step? = some step)
    (hk : step.token.kind = k) : s.take? k = some step := by
  rw [State.take?, hs]
  exact if_pos hk

theorem State.take?_eq_none {s : State} {k : Kind} (h : s.kind ≠ k) : s.take? k = none := by
  cases ht : s.take? k with
  | none => rfl
  | some step =>
    obtain ⟨hs, hk⟩ := State.take?_eq_some ht
    exact absurd ((State.kind_eq_of_step hs).trans hk) h

theorem expect_gets {s : State} {k : Kind} {step : Step s} (hs : s.step? = some step)
    (hk : step.token.kind = k) : (expect s k).Gets step.token step.state := by
  rw [expect, State.take?_eq_some_of hs hk]
  exact .since (.ok ⟨rfl, rfl⟩)

theorem expect_misses {s : State} {k : Kind} (hk : s.kind ≠ k) :
    (expect s k).Misses (s.reportExpected (.token k)) := by
  rw [expect, State.take?_eq_none hk]
  exact .expected rfl

/-- The parser does what the rules of a run say. -/
theorem ExprRun.parse {α : Type} {f : ExprPart α} {s t : State} {ts : List Token} {a : α}
    (h : ExprRun f s ts a t) : (f.parse s).Gets a t := by
  induction h with
  | assignment hleft hs hop hvalue he ihleft ihvalue =>
    subst he
    change (expression _).Gets _ _
    rw [expression]
    refine ihleft.bind fun _ => ?_
    simp only [hs, hop]
    exact .since (ihvalue.bind fun _ => .build ⟨rfl, rfl⟩)
  | operation hleft hk ihleft =>
    change (expression _).Gets _ _
    rw [expression]
    refine ihleft.bind fun _ => ?_
    split
    · exact .ok ⟨rfl, rfl⟩
    · rename_i step hs
      rw [State.kind_eq_of_step hs] at hk
      simp only [hk]
      exact .ok ⟨rfl, rfl⟩
  | operand hfirst htail ihfirst ihtail =>
    change (Parse.operand _ _).Gets _ _
    rw [Parse.operand]
    exact ihfirst.bind fun _ => ihtail
  | @yielding s n left hk =>
    change (operandTail n left s).Gets _ _
    rw [operandTail]
    split
    · exact .ok ⟨rfl, rfl⟩
    · rename_i step hs
      rw [State.kind_eq_of_step hs] at hk
      split
      · exact .ok ⟨rfl, rfl⟩
      · rename_i op hop
        rw [if_pos (hk op hop)]
        exact .ok ⟨rfl, rfl⟩
  | @joined s t u n ts us step op left right join e hs hop hn hright hj htail ihright ihtail =>
    subst hj
    change (operandTail n left s).Gets _ _
    rw [operandTail]
    simp only [hs, hop, if_neg (Nat.not_lt.mpr hn)]
    exact .since (ihright.bind fun _ => .buildThen fun _ => ihtail)
  | @plain s t ts e hk h ih =>
    change (Parse.unary s).Gets _ _
    rw [Parse.unary]
    split
    · exact ih
    · rename_i step hs
      rw [State.kind_eq_of_step hs] at hk
      simp only [hk]
      exact ih
  | @prefixed s t ts step op inner e hs hop hinner he ih =>
    subst he
    change (Parse.unary s).Gets _ _
    rw [Parse.unary]
    simp only [hs, hop]
    exact .since (ih.bind fun _ => .build ⟨rfl, rfl⟩)
  | @postfixed s t u ts us target e htarget hcalls ihtarget ihcalls =>
    change (Parse.postfixed s).Gets _ _
    rw [Parse.postfixed]
    exact ihtarget.bind fun _ => ihcalls
  | @uncalled s target hk =>
    change (Parse.calls target s).Gets _ _
    rw [Parse.calls, State.take?_eq_none hk]
    exact .ok ⟨rfl, rfl⟩
  | @called s t u ts us step target call e args close hs hk hargs hc hcalls ihargs ihcalls =>
    subst hc
    change (Parse.calls target s).Gets _ _
    rw [Parse.calls, State.take?_eq_some_of hs hk]
    exact .since (ihargs.bind fun _ => .buildThen fun _ => ihcalls)
  | @noArgument s step hs hk =>
    change (Parse.arguments s).Gets _ _
    rw [Parse.arguments, State.take?_eq_some_of hs hk]
    exact .since (.ok ⟨rfl, rfl⟩)
  | @someArguments s t ts args hk h ih =>
    change (Parse.arguments s).Gets _ _
    rw [Parse.arguments, State.take?_eq_none hk]
    exact ih
  | @moreArguments s t u ts us step arg args close harg hs hk hargs iharg ihargs =>
    change (Parse.argumentList s).Gets _ _
    rw [Parse.argumentList]
    refine iharg.bind fun _ => ?_
    rw [State.take?_eq_some_of hs hk]
    exact .since (ihargs.bind fun _ => .ok ⟨rfl, rfl⟩)
  | @lastArgument s t ts step arg harg hs hk iharg =>
    change (Parse.argumentList s).Gets _ _
    rw [Parse.argumentList]
    refine iharg.bind fun _ => ?_
    have hcomma : t.kind ≠ .comma := by
      rw [State.kind_eq_of_step hs, hk]
      decide
    rw [State.take?_eq_none hcomma, State.take?_eq_some_of hs hk]
    exact .since (.ok ⟨rfl, rfl⟩)
  | @constant s step value e hs hvalue he =>
    subst he
    change (Parse.primary s).Gets _ _
    rw [Parse.primary]
    simp only [hs, hvalue]
    exact .since (.build ⟨rfl, rfl⟩)
  | @name s step e hs hk he =>
    subst he
    have hvalue : constant? step.token = none := by rw [constant?, hk]
    change (Parse.primary s).Gets _ _
    rw [Parse.primary]
    simp only [hs, hvalue, hk]
    exact .since (.build ⟨rfl, rfl⟩)
  | @group s t ts step close inner e hs hk hinner hc hk' he ih =>
    subst he
    have hvalue : constant? step.token = none := by rw [constant?, hk]
    change (Parse.primary s).Gets _ _
    rw [Parse.primary]
    simp only [hs, hvalue, hk]
    exact .since (ih.bind fun _ => (expect_gets hc hk').bind fun _ => .build ⟨rfl, rfl⟩)

/-- So it is with the rules of a failure. -/
theorem ExprFails.parse {α : Type} {f : ExprPart α} {s t : State} {ts : List Token}
    (h : ExprFails f s ts t) : (f.parse s).Misses t := by
  induction h with
  | @target s t ts step op left hleft hs hop hname =>
    change (expression s).Misses _
    rw [expression]
    refine hleft.parse.bind fun _ => ?_
    simp only [hs, hop]
    exact .problem rfl
  | @value s t u ts us target step op hleft hs hop h ih =>
    change (expression s).Misses _
    rw [expression]
    refine hleft.parse.bind fun _ => ?_
    simp only [hs, hop]
    exact .since (ih.bind rfl)
  | @left s t ts h ih =>
    change (expression s).Misses _
    rw [expression]
    exact ih.bind rfl
  | @first s t n ts h ih =>
    change (operand n s).Misses _
    rw [operand]
    exact ih.bind rfl
  | @tail s t u n ts us left hfirst h ih =>
    change (operand n s).Misses _
    rw [operand]
    exact hfirst.parse.bind fun _ => ih
  | @right s t n ts step op left hs hop hn h ih =>
    change (operandTail n left s).Misses _
    rw [operandTail]
    simp only [hs, hop, if_neg (Nat.not_lt.mpr hn)]
    exact .since (ih.bind rfl)
  | @further s t u n ts us step op left right join hs hop hn hright hj h ih =>
    subst hj
    change (operandTail n left s).Misses _
    rw [operandTail]
    simp only [hs, hop, if_neg (Nat.not_lt.mpr hn)]
    exact .since (hright.parse.bind fun _ => .buildThen fun _ => ih)
  | @plain s t ts hk h ih =>
    change (unary s).Misses _
    rw [unary]
    split
    · exact ih
    · rename_i step hs
      rw [State.kind_eq_of_step hs] at hk
      simp only [hk]
      exact ih
  | @prefixed s t ts step op hs hop h ih =>
    change (unary s).Misses _
    rw [unary]
    simp only [hs, hop]
    exact .since (ih.bind rfl)
  | @called s t ts h ih =>
    change (postfixed s).Misses _
    rw [postfixed]
    exact ih.bind rfl
  | @calls s t u ts us target htarget h ih =>
    change (postfixed s).Misses _
    rw [postfixed]
    exact htarget.parse.bind fun _ => ih
  | @arguments s t ts step target hs hk h ih =>
    change (Parse.calls target s).Misses _
    rw [Parse.calls, State.take?_eq_some_of hs hk]
    exact .since (ih.bind rfl)
  | @again s t u ts us step target call args close hs hk hargs hc h ih =>
    subst hc
    change (Parse.calls target s).Misses _
    rw [Parse.calls, State.take?_eq_some_of hs hk]
    exact .since (hargs.parse.bind fun _ => .buildThen fun _ => ih)
  | @someArguments s t ts hk h ih =>
    change (Parse.arguments s).Misses _
    rw [Parse.arguments, State.take?_eq_none hk]
    exact ih
  | @argument s t ts h ih =>
    change (argumentList s).Misses _
    rw [argumentList]
    exact ih.bind rfl
  | @moreArguments s t u ts us step arg harg hs hk h ih =>
    change (argumentList s).Misses _
    rw [argumentList]
    refine harg.parse.bind fun _ => ?_
    rw [State.take?_eq_some_of hs hk]
    exact .since (ih.bind rfl)
  | @unlisted s t ts arg harg hk hk' =>
    change (argumentList s).Misses _
    rw [argumentList]
    refine harg.parse.bind fun _ => ?_
    rw [State.take?_eq_none hk, State.take?_eq_none hk']
    exact .expected rfl
  | @primary s hnone =>
    change (Parse.primary s).Misses _
    rw [Parse.primary]
    split
    · exact .expected rfl
    · rename_i step hs
      obtain ⟨hvalue, hname, hopen⟩ := hnone step hs
      simp only [hvalue]
      exact .expected rfl
  | @inner s t ts step hs hk h ih =>
    have hvalue : constant? step.token = none := by rw [constant?, hk]
    change (Parse.primary s).Misses _
    rw [Parse.primary]
    simp only [hs, hvalue, hk]
    exact .since (ih.bind rfl)
  | @unclosed s t ts step inner hs hk hinner hk' =>
    have hvalue : constant? step.token = none := by rw [constant?, hk]
    change (Parse.primary s).Misses _
    rw [Parse.primary]
    simp only [hs, hvalue, hk]
    exact .since (hinner.parse.bind fun _ => (expect_misses hk').bind rfl)

/-! ## What runs have in common -/

/-- From one state to another these tokens are taken, and nothing is reported. -/
structure State.Moves (s : State) (ts : List Token) (t : State) : Prop where
  rest : s.rest = ts ++ t.rest
  lastSpan : t.lastSpan = ts.foldl State.spanAfter s.lastSpan
  findings : t.findings = s.findings

namespace State.Moves

variable {s t u : State} {ts us : List Token}

theorem refl (s : State) : s.Moves [] s := ⟨rfl, rfl, rfl⟩

theorem trans (h : s.Moves ts t) (h' : t.Moves us u) : s.Moves (ts ++ us) u where
  rest := by rw [h.rest, h'.rest, List.append_assoc]
  lastSpan := by rw [h'.lastSpan, h.lastSpan, List.foldl_append]
  findings := h'.findings.trans h.findings

theorem making (h : s.Moves ts t) (m : Made) : s.Moves ts (t.making m) := ⟨h.rest, h.lastSpan, h.findings⟩

theorem of_making {m : Made} (h : (s.making m).Moves ts t) : s.Moves ts t := ⟨h.rest, h.lastSpan, h.findings⟩

theorem step {step : Step s} (hs : s.step? = some step) : s.Moves [step.token] step.state := by
  refine ⟨step.cons, ?_, (State.step?_eq_some hs).2.1⟩
  rw [State.step?] at hs
  split at hs
  · cases hs
  · cases hs
    rfl

/-- First a token is taken, then others. -/
theorem cons {step : Step s} (hs : s.step? = some step) (h : step.state.Moves ts t) :
    s.Moves (step.token :: ts) t := (Moves.step hs).trans h

theorem kinds (h : s.Moves ts t) : s.kinds = ts.map (·.kind) ++ t.kinds := by
  rw [State.kinds, h.rest, List.map_append]
  rfl

end State.Moves

/-- A run takes its tokens, and nothing is reported. -/
theorem ExprRun.moves {α : Type} {f : ExprPart α} {s t : State} {ts : List Token} {a : α}
    (h : ExprRun f s ts a t) : s.Moves ts t := by
  induction h with
  | assignment _ hs _ _ _ ihleft ihvalue => exact (ihleft.trans (.cons hs ihvalue)).making _
  | operation _ _ ih | plain _ _ ih | someArguments _ _ ih => exact ih
  | operand _ _ ihfirst ihtail | postfixed _ _ ihfirst ihtail => exact ihfirst.trans ihtail
  | yielding | uncalled => exact .refl _
  | joined hs _ _ _ _ _ ihright ihtail => exact .cons hs (ihright.trans ihtail.of_making)
  | prefixed hs _ _ _ ih => exact (State.Moves.cons hs ih).making _
  | called hs _ _ _ _ ihargs ihcalls => exact .cons hs (ihargs.trans ihcalls.of_making)
  | noArgument hs _ => exact .step hs
  | moreArguments _ hs _ _ iharg ihargs => exact iharg.trans (.cons hs ihargs)
  | lastArgument _ hs _ iharg => exact iharg.trans (.step hs)
  | constant hs _ _ | name hs _ _ => exact (State.Moves.step hs).making _
  | group hs _ _ hc _ _ ih => exact (State.Moves.cons hs (ih.trans (.step hc))).making _

/-- Where a failure ends: with a token that is missed, or with what an assignment has for a target,
which was read on the way. -/
inductive State.Stops (s w : State) : State → Prop
  | expected (what : Expectation) : s.Stops w (w.reportExpected what)
  | target {r : State} {ts us : List Token} {left : Expr} (hr : s.Moves ts r)
      (hleft : ExprRun (.operand 1) r us left w) : s.Stops w (w.report .badAssignmentTarget left.span)

theorem State.Stops.behind {s t w u : State} {ts : List Token} (h : t.Stops w u) (hs : s.Moves ts t) :
    s.Stops w u := by
  cases h with
  | expected what => exact .expected what
  | target hr hleft => exact .target (hs.trans hr) hleft

/-- A report takes no token. -/
theorem State.Stops.rest {s w t : State} (h : s.Stops w t) : t.rest = w.rest := by
  cases h with
  | expected what =>
    rw [State.reportExpected]
    split <;> rfl
  | target => rfl

theorem State.Stops.lastSpan {s w t : State} (h : s.Stops w t) : t.lastSpan = w.lastSpan := by
  cases h with
  | expected what =>
    rw [State.reportExpected]
    split <;> rfl
  | target => rfl

/-- A failure takes its tokens too, and then there is one report. -/
theorem ExprFails.moves {α : Type} {f : ExprPart α} {s t : State} {ts : List Token}
    (h : ExprFails f s ts t) : ∃ w, s.Moves ts w ∧ s.Stops w t := by
  have hafter : ∀ {r s t : State} {rs ts : List Token}, r.Moves rs s →
      (∃ w, s.Moves ts w ∧ s.Stops w t) → ∃ w, r.Moves (rs ++ ts) w ∧ r.Stops w t :=
    fun hr ⟨w, hw, hstops⟩ => ⟨w, hr.trans hw, hstops.behind hr⟩
  induction h with
  | target hleft hs hop hname => exact ⟨_, hleft.moves, .target (.refl _) hleft⟩
  | value hleft hs _ _ ih => exact hafter hleft.moves (hafter (.step hs) ih)
  | left _ ih | first _ ih | plain _ _ ih | called _ ih | someArguments _ _ ih | argument _ ih => exact ih
  | tail hfirst _ ih | calls hfirst _ ih => exact hafter hfirst.moves ih
  | right hs _ _ _ ih | prefixed hs _ _ ih | arguments hs _ _ ih | inner hs _ _ ih =>
    exact hafter (.step hs) ih
  | further hs _ _ hright _ _ ih | again hs _ hright _ _ ih =>
    exact hafter (.step hs) (hafter (hright.moves.making _) ih)
  | moreArguments harg hs _ _ ih => exact hafter harg.moves (hafter (.step hs) ih)
  | unlisted harg _ _ => exact ⟨_, harg.moves, .expected _⟩
  | primary => exact ⟨_, .refl _, .expected _⟩
  | unclosed hs _ hinner _ => exact ⟨_, .cons hs hinner.moves, .expected _⟩

/-! ### The tokens of a line -/

/-- The kind of a token that stands for a literal. -/
theorem isLiteral_of_constant {t : Token} {c : Constant} (h : constant? t = some c) :
    t.kind.isLiteral = true := by
  rw [constant?] at h
  split at h
  case h_5 => cases h
  all_goals
    rename_i hk
    rw [hk]
    rfl

theorem isInline_of_isLiteral {k : Kind} (h : k.isLiteral = true) : k.isInline = true := by
  cases k <;> first | rfl | cases h

theorem isInline_of_unary {k : Kind} {op : UnaryOp} (h : UnaryOp.ofKind? k = some op) :
    k.isInline = true := by
  cases k <;> first | rfl | cases h

theorem isInline_of_binary {k : Kind} {op : BinaryOp} (h : BinaryOp.ofKind? k = some op) :
    k.isInline = true := by
  cases k <;> first | rfl | cases h

theorem isInline_of_assign {k : Kind} {op : AssignOp} (h : AssignOp.ofKind? k = some op) :
    k.isInline = true := by
  cases k <;> first | rfl | cases h

/-- Are all these tokens within a line? -/
def AreInline (ts : List Token) : Prop := ∀ t ∈ ts, t.kind.isInline = true

namespace AreInline

variable {t : Token} {ts us : List Token}

theorem nil : AreInline [] := fun _ h => absurd h List.not_mem_nil

theorem cons (ht : t.kind.isInline = true) (h : AreInline ts) : AreInline (t :: ts) :=
  List.forall_mem_cons.mpr ⟨ht, h⟩

theorem append (h : AreInline ts) (h' : AreInline us) : AreInline (ts ++ us) :=
  List.forall_mem_append.mpr ⟨h, h'⟩

theorem of_kind {k : Kind} (ht : t.kind = k) (hk : k.isInline = true) (h : AreInline ts) :
    AreInline (t :: ts) := cons (ht ▸ hk) h

end AreInline

theorem ExprRun.inline {α : Type} {f : ExprPart α} {s t : State} {ts : List Token} {a : α}
    (h : ExprRun f s ts a t) : AreInline ts := by
  induction h with
  | assignment _ _ hop _ _ ihleft ihvalue => exact ihleft.append (.cons (isInline_of_assign hop) ihvalue)
  | operation _ _ ih | plain _ _ ih | someArguments _ _ ih => exact ih
  | operand _ _ ihfirst ihtail | postfixed _ _ ihfirst ihtail => exact ihfirst.append ihtail
  | yielding | uncalled => exact .nil
  | joined _ hop _ _ _ _ ihright ihtail => exact .cons (isInline_of_binary hop) (ihright.append ihtail)
  | prefixed _ hop _ _ ih => exact .cons (isInline_of_unary hop) ih
  | called _ hk _ _ _ ihargs ihcalls => exact .of_kind hk rfl (ihargs.append ihcalls)
  | noArgument _ hk | name _ hk _ => exact .of_kind hk rfl .nil
  | moreArguments _ _ hk _ iharg ihargs => exact iharg.append (.of_kind hk rfl ihargs)
  | lastArgument _ _ hk iharg => exact iharg.append (.of_kind hk rfl .nil)
  | constant _ hvalue _ => exact .cons (isInline_of_isLiteral (isLiteral_of_constant hvalue)) .nil
  | group _ hk _ _ hk' _ ih => exact .of_kind hk rfl (ih.append (.of_kind hk' rfl .nil))

theorem ExprFails.inline {α : Type} {f : ExprPart α} {s t : State} {ts : List Token}
    (h : ExprFails f s ts t) : AreInline ts := by
  induction h with
  | target hleft _ _ _ => exact hleft.inline
  | value hleft _ hop _ ih => exact hleft.inline.append (.cons (isInline_of_assign hop) ih)
  | left _ ih | first _ ih | plain _ _ ih | called _ ih | someArguments _ _ ih | argument _ ih => exact ih
  | tail hfirst _ ih | calls hfirst _ ih => exact hfirst.inline.append ih
  | right _ hop _ _ ih => exact .cons (isInline_of_binary hop) ih
  | further _ hop _ hright _ _ ih => exact .cons (isInline_of_binary hop) (hright.inline.append ih)
  | prefixed _ hop _ ih => exact .cons (isInline_of_unary hop) ih
  | arguments _ hk _ ih | inner _ hk _ ih => exact .of_kind hk rfl ih
  | again _ hk hargs _ _ ih => exact .of_kind hk rfl (hargs.inline.append ih)
  | moreArguments harg _ hk _ ih => exact harg.inline.append (.of_kind hk rfl ih)
  | unlisted harg _ _ => exact harg.inline
  | primary => exact .nil
  | unclosed _ hk hinner _ => exact .of_kind hk rfl hinner.inline

end Craftlang.Parse
