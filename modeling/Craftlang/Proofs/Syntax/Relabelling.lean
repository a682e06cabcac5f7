import Craftlang.Proofs.Syntax.SpanNesting
import Craftlang.Proofs.Tree.Relabelling

/-!
# Expressions read from relabelled tokens

Which tree is read depends on the kinds of the tokens alone. If tokens move, in order, and identifiers get
other texts, the same expression is read with its spans moved and its names changed, or both fail, and as much
is reported.
-/

namespace Craftlang

namespace Parse

/-- A state with relabelled tokens. -/
structure State.Mirrors (ρ : Relabelling) (s s' : State) : Prop where
  rest : List.Forall₂ (Token.Mirrors ρ) s.rest s'.rest
  lastSpan : s'.lastSpan = ρ.span s.lastSpan
  nextId : s'.nextId = s.nextId
  findings : s'.findings.length = s.findings.length

/-- Parsers with related values and states. -/
structure Parsed.Mirrors (ρ : Relabelling) {s s' : State} {α : Type} (R : α → α → Prop) (p : Parsed s α)
    (p' : Parsed s' α) : Prop where
  value : R p.value p'.value
  state : p.state.Mirrors ρ p'.state

/-- The same for parsers that may fail: both do or none. -/
def Attempt.Mirrors (ρ : Relabelling) {s s' : State} {α : Type} (R : α → α → Prop) (p : Attempt s α)
    (p' : Attempt s' α) : Prop :=
  Parsed.Mirrors ρ (Option.Rel R) p p'

/-- The value of the second parser is made of the first one's. -/
def Becomes {α : Type} (f : α → α) (a b : α) : Prop := b = f a

namespace State.Mirrors

variable {ρ : Relabelling} {s s' : State}

theorem kind (h : s.Mirrors ρ s') : s'.kind = s.kind := by
  obtain ⟨rest, -⟩ := h
  rw [State.kind, State.kind]
  revert rest
  generalize s.rest = ts
  generalize s'.rest = ts'
  rintro (_ | ⟨ht, _⟩)
  · rfl
  · exact ht.kind

theorem report (h : s.Mirrors ρ s') (p p' : Problem) (x x' : Span) :
    (s.report p x).Mirrors ρ (s'.report p' x') :=
  ⟨h.rest, h.lastSpan, h.nextId, congrArg (· + 1) h.findings⟩

theorem reportExpected (h : s.Mirrors ρ s') (what : Expectation) :
    (s.reportExpected what).Mirrors ρ (s'.reportExpected what) := by
  rw [State.reportExpected, State.reportExpected, h.kind]
  split
  · exact h
  · exact h.report ..

theorem withFindings (h : s.Mirrors ρ s') {t t' : State} (ht : t.Mirrors ρ t') :
    (s.withFindings t).Mirrors ρ (s'.withFindings t') :=
  ⟨h.rest, h.lastSpan, h.nextId, ht.findings⟩

theorem spanAfter {last : Span} {t t' : Token} (h : t.Mirrors ρ t') :
    State.spanAfter (ρ.span last) t' = ρ.span (State.spanAfter last t) := by
  rw [State.spanAfter, State.spanAfter, h.kind, h.span]
  split <;> rfl

/-- Either nothing remains, or the next tokens are related. -/
theorem step_cases (h : s.Mirrors ρ s') : s.step? = none ∧ s'.step? = none ∨
    ∃ (step : Step s) (step' : Step s'), s.step? = some step ∧ s'.step? = some step' ∧
      step.token.Mirrors ρ step'.token ∧ step.state.Mirrors ρ step'.state := by
  obtain ⟨rest, last, id, findings, made⟩ := s
  obtain ⟨rest', last', id', findings', made'⟩ := s'
  obtain ⟨hrest, hlast, hid, hfindings⟩ := h
  dsimp only at hrest hlast hid hfindings
  cases hrest with
  | nil => exact .inl ⟨rfl, rfl⟩
  | cons ht hts =>
    refine .inr ⟨_, _, rfl, rfl, ht, hts, ?_, hid, hfindings⟩
    rw [hlast]
    exact spanAfter ht

theorem take_cases (h : s.Mirrors ρ s') (k : Kind) : s.take? k = none ∧ s'.take? k = none ∨
    ∃ (step : Step s) (step' : Step s'), s.take? k = some step ∧ s'.take? k = some step' ∧
      step.token.Mirrors ρ step'.token ∧ step.token.kind = k ∧ step.state.Mirrors ρ step'.state := by
  obtain ⟨hs, hs'⟩ | ⟨step, step', hs, hs', ht, hstate⟩ := h.step_cases
  · exact .inl ⟨by rw [State.take?, hs], by rw [State.take?, hs']⟩
  · rw [State.take?, State.take?, hs, hs']
    dsimp only
    rw [ht.kind]
    by_cases hk : step.token.kind = k
    · exact .inr ⟨step, step', if_pos hk, if_pos hk, ht, hk, hstate⟩
    · exact .inl ⟨if_neg hk, if_neg hk⟩

end State.Mirrors

theorem skipBlock_mirrors {ρ : Relabelling} {ts ts' : List Token} (h : List.Forall₂ (Token.Mirrors ρ) ts ts')
    (depth : Nat) (last : Span) :
    (skipBlock depth (ρ.span last) ts').1 = ρ.span (skipBlock depth last ts).1 ∧
      List.Forall₂ (Token.Mirrors ρ) (skipBlock depth last ts).2 (skipBlock depth (ρ.span last) ts').2 := by
  induction h generalizing depth last with
  | nil => exact ⟨rfl, .nil⟩
  | @cons t t' ts ts' ht hts ih =>
    simp only [skipBlock, ht.kind, State.Mirrors.spanAfter ht]
    split
    · exact ⟨rfl, hts⟩
    · exact ih _ _
    · exact ⟨rfl, hts⟩
    · exact ih _ _
    · exact ih _ _

theorem skipLine_mirrors {ρ : Relabelling} (last : Span) (ts : List Token) : ∀ ts' : List Token,
    List.Forall₂ (Token.Mirrors ρ) ts ts' →
    (skipLine (ρ.span last) ts').1 = ρ.span (skipLine last ts).1 ∧
      List.Forall₂ (Token.Mirrors ρ) (skipLine last ts).2 (skipLine (ρ.span last) ts').2 := by
  fun_induction skipLine last ts with
  | case1 last =>
    rintro _ ⟨⟩
    rw [skipLine.eq_def]
    exact ⟨rfl, .nil⟩
  | case2 last t rest hk | case3 last t rest hk =>
    rintro _ (_ | ⟨ht, hts⟩)
    rw [skipLine.eq_def]
    simp only [ht.kind, hk]
    exact ⟨trivial, .cons ht hts⟩
  | case4 last t hk u below hu =>
    rintro _ (_ | ⟨ht, _ | ⟨hu', hts⟩⟩)
    rw [skipLine.eq_def]
    simp only [ht.kind, hk, hu'.kind, hu, if_true]
    exact skipBlock_mirrors hts 0 last
  | case5 last t hk u below hu =>
    rintro _ (_ | ⟨ht, _ | ⟨hu', hts⟩⟩)
    rw [skipLine.eq_def]
    simp only [ht.kind, hk, hu'.kind, hu, if_false]
    exact ⟨trivial, .cons hu' hts⟩
  | case6 last t hk =>
    rintro _ (_ | ⟨ht, ⟨⟩⟩)
    rw [skipLine.eq_def]
    simp only [ht.kind, hk]
    exact ⟨trivial, .nil⟩
  | case7 last t rest hk ih =>
    rintro _ (_ | ⟨ht, hts⟩)
    rw [skipLine.eq_def]
    obtain ⟨hlast, hrest⟩ := skipBlock_mirrors hts 0 last
    simp only [ht.kind, hk, hlast]
    exact ih _ hrest
  | case8 last t rest heof hdedent hnewline hindent ih =>
    rintro _ (_ | ⟨ht, hts⟩)
    rw [skipLine.eq_def]
    simp only [ht.kind, ht.span]
    exact ih _ hts

namespace Parsed.Mirrors

variable {ρ : Relabelling} {s s' : State} {α β : Type} {R : α → α → Prop} {Q : β → β → Prop}

theorem pure (hs : s.Mirrors ρ s') {a a' : α} (h : R a a') :
    Mirrors ρ R (Parsed.pure s a) (Parsed.pure s' a') := ⟨h, hs⟩

theorem build [IsNode α] (hs : s.Mirrors ρ s') {span span' : Span} {make make' : Node → α}
    (hspan : span' = ρ.span span) (h : ∀ id, R (make ⟨id, span⟩) (make' ⟨id, ρ.span span⟩)) :
    Mirrors ρ R (Parsed.build s span make) (Parsed.build s' span' make') := by
  refine ⟨?_, hs.rest, hs.lastSpan, congrArg (· + 1) hs.nextId, hs.findings⟩
  change R (make ⟨s.nextId, span⟩) (make' ⟨s'.nextId, span'⟩)
  rw [hspan, hs.nextId]
  exact h _

theorem andThen {p : Parsed s α} {p' : Parsed s' α}
    {next : α → (t : State) → t.rest.length ≤ s.rest.length → Parsed t β}
    {next' : α → (t : State) → t.rest.length ≤ s'.rest.length → Parsed t β} (hp : Mirrors ρ R p p')
    (hn : ∀ a a' t t' h h', R a a' → t.Mirrors ρ t' → Mirrors ρ Q (next a t h) (next' a' t' h')) :
    Mirrors ρ Q (p.andThen next) (p'.andThen next') := by
  have hnext := hn _ _ _ _ p.within.length_le p'.within.length_le hp.value hp.state
  exact ⟨hnext.value, hnext.state⟩

theorem since {t t' : State} {p : Parsed t α} {p' : Parsed t' α} (hp : Mirrors ρ R p p')
    {h : t.rest <:+ s.rest} {h' : t'.rest <:+ s'.rest} : Mirrors ρ R (p.since h) (p'.since h') :=
  ⟨hp.value, hp.state⟩

end Parsed.Mirrors

namespace Attempt.Mirrors

variable {ρ : Relabelling} {s s' : State} {α β : Type} {R : α → α → Prop} {Q : β → β → Prop}

theorem ok (hs : s.Mirrors ρ s') {a a' : α} (h : R a a') :
    Mirrors ρ R (Attempt.ok s a) (Attempt.ok s' a') := ⟨.some h, hs⟩

theorem build [IsNode α] (hs : s.Mirrors ρ s') {span span' : Span} {make make' : Node → α}
    (hspan : span' = ρ.span span) (h : ∀ id, R (make ⟨id, span⟩) (make' ⟨id, ρ.span span⟩)) :
    Mirrors ρ R (Attempt.build s span make) (Attempt.build s' span' make') := by
  obtain ⟨hvalue, hstate⟩ := Parsed.Mirrors.build hs hspan h
  exact ⟨.some hvalue, hstate⟩

theorem expected (hs : s.Mirrors ρ s') (what : Expectation) :
    Mirrors ρ R (Attempt.expected s what) (Attempt.expected s' what) := ⟨.none, hs.reportExpected what⟩

theorem bind {p : Attempt s α} {p' : Attempt s' α}
    {next : α → (t : State) → t.rest.length ≤ s.rest.length → Attempt t β}
    {next' : α → (t : State) → t.rest.length ≤ s'.rest.length → Attempt t β} (hp : Mirrors ρ R p p')
    (hn : ∀ a a' t t' h h', R a a' → t.Mirrors ρ t' → Mirrors ρ Q (next a t h) (next' a' t' h')) :
    Mirrors ρ Q (p.bind next) (p'.bind next') := by
  rw [Mirrors, Attempt.Reads.bind_eq, Attempt.Reads.bind_eq]
  refine Parsed.Mirrors.andThen hp fun v v' t t' h h' hv ht => ?_
  cases hv with
  | none => exact ⟨.none, ht⟩
  | some hv => exact hn _ _ _ _ h h' hv ht

theorem since {t t' : State} {p : Attempt t α} {p' : Attempt t' α} (hp : Mirrors ρ R p p')
    {h : t.rest <:+ s.rest} {h' : t'.rest <:+ s'.rest} :
    Mirrors ρ R (Parsed.since p h) (Parsed.since p' h') := Parsed.Mirrors.since hp

end Attempt.Mirrors

section Expressions

variable {ρ : Relabelling}

theorem constant?_mirrors {t t' : Token} (h : t.Mirrors ρ t') : constant? t' = constant? t := by
  have htext := h.text
  rw [constant?, constant?, h.kind]
  cases hk : t.kind <;> try rfl
  all_goals
    rw [htext, if_neg (by rw [hk]; decide)]

theorem expect_mirrors {s s' : State} (hs : s.Mirrors ρ s') (k : Kind) :
    Attempt.Mirrors ρ (Token.Mirrors ρ) (expect s k) (expect s' k) := by
  rw [expect, expect]
  obtain ⟨h, h'⟩ | ⟨step, step', h, h', ht, -, hstate⟩ := hs.take_cases k
  · rw [h, h']
    exact .expected hs _
  · rw [h, h']
    exact .since (.ok hstate ht)

theorem identifier_mirrors {s s' : State} (hs : s.Mirrors ρ s') :
    Attempt.Mirrors ρ (Name.Mirrors ρ) (identifier s) (identifier s') := by
  rw [identifier, identifier]
  obtain ⟨h, h'⟩ | ⟨step, step', h, h', ht, hk, hstate⟩ := hs.take_cases .ident
  · rw [h, h']
    exact .expected hs _
  · rw [h, h']
    exact .since (.ok hstate (ht.name hk))

theorem typeName_mirrors {s s' : State} (hs : s.Mirrors ρ s') :
    Attempt.Mirrors ρ (Name.Mirrors ρ) (typeName s) (typeName s') := by
  rw [typeName, typeName]
  obtain ⟨h, h'⟩ | ⟨step, step', h, h', ht, hk, hstate⟩ := hs.take_cases .ident
  · rw [h, h']
    exact .expected hs _
  · rw [h, h']
    exact .since (.ok hstate (ht.name hk))

/-- The function on relabelled trees. -/
def ExprPart.relabel (ρ : Relabelling) {α : Type} : ExprPart α → ExprPart α
  | .tail n left => .tail n (left.relabel ρ)
  | .calls target => .calls (target.relabel ρ)
  | .expression => .expression
  | .operand n => .operand n
  | .unary => .unary
  | .postfixed => .postfixed
  | .arguments => .arguments
  | .argumentList => .argumentList
  | .primary => .primary

/-- What it reads, relabelled. -/
def ExprPart.relabelRead (ρ : Relabelling) {α : Type} (p : ExprPart α) (a : α) : α :=
  match p, a with
  | .arguments, (args, close) | .argumentList, (args, close) => (Expr.relabelAll ρ args, ρ.span close)
  | .expression, e | .operand _, e | .tail _ _, e | .unary, e | .postfixed, e | .calls _, e | .primary, e =>
    e.relabel ρ

theorem State.Mirrors.step {s s' : State} (h : s.Mirrors ρ s') {step : Step s} (hs : s.step? = some step) :
    ∃ step' : Step s', s'.step? = some step' ∧ step.token.Mirrors ρ step'.token ∧
      step.state.Mirrors ρ step'.state := by
  obtain ⟨hnone, -⟩ | ⟨_, step', h, h', ht, hstate⟩ := h.step_cases
  · rw [hnone] at hs
    cases hs
  · rw [h] at hs
    cases hs
    exact ⟨step', h', ht, hstate⟩

theorem State.Mirrors.making {s s' : State} (h : s.Mirrors ρ s') (m m' : Made) :
    (s.making m).Mirrors ρ (s'.making m') :=
  ⟨h.rest, h.lastSpan, congrArg (· + 1) h.nextId, h.findings⟩

/-- The same node of mirrored states. -/
theorem State.Mirrors.node {s s' : State} (h : s.Mirrors ρ s') {x y : Span} (hx : y = ρ.span x) :
    (⟨s'.nextId, y⟩ : Node) = ρ.node ⟨s.nextId, x⟩ := by
  rw [hx, h.nextId]
  rfl

theorem ExprRun.mirrors {α : Type} {p : ExprPart α} {s t s' : State} {ts : List Token} {a : α}
    (h : ExprRun p s ts a t) (hs : s.Mirrors ρ s') :
    ∃ ts' t', ExprRun (p.relabel ρ) s' ts' (p.relabelRead ρ a) t' ∧ t.Mirrors ρ t' := by
  induction h generalizing s' with
  | @assignment s t u ts us target step op value e _ hstep hop _ he ihleft ihvalue =>
    obtain ⟨ts', t', hleft, ht⟩ := ihleft hs
    obtain ⟨step', hstep', htok, hstate⟩ := ht.step hstep
    obtain ⟨us', u', hvalue, hu⟩ := ihvalue hstate
    refine ⟨_, _, .assignment hleft hstep' (htok.kind ▸ hop) hvalue ?_, hu.making _ _⟩
    have hspan : (ρ.ident target).node.span.cover (value.relabel ρ).span =
        ρ.span (target.node.span.cover value.span) := by
      rw [ρ.span_cover, Expr.span_relabel]
      rfl
    subst he
    rw [ExprPart.relabelRead, Expr.relabel, ← hu.node hspan, ← htok.span]
    rfl
  | operation _ hk ih =>
    obtain ⟨ts', t', hleft, ht⟩ := ih hs
    exact ⟨_, _, .operation hleft (ht.kind ▸ hk), ht⟩
  | operand _ _ ihfirst ihtail =>
    obtain ⟨ts', t', hfirst, ht⟩ := ihfirst hs
    obtain ⟨us', u', htail, hu⟩ := ihtail ht
    exact ⟨_, _, .operand hfirst htail, hu⟩
  | yielding hk => exact ⟨_, _, .yielding (hs.kind ▸ hk), hs⟩
  | @joined s t u n ts us step op left right join e hstep hop hn _ hj _ ihright ihtail =>
    obtain ⟨step', hstep', htok, hstate⟩ := hs.step hstep
    obtain ⟨ts', t', hright, ht⟩ := ihright hstate
    obtain ⟨us', u', htail, hu⟩ := ihtail (ht.making _ (.expr (join.relabel ρ)))
    refine ⟨_, _, .joined hstep' (htok.kind ▸ hop) hn hright ?_ htail, hu⟩
    have hspan : (left.relabel ρ).span.cover (right.relabel ρ).span =
        ρ.span (left.span.cover right.span) := by
      rw [ρ.span_cover, Expr.span_relabel, Expr.span_relabel]
    subst hj
    rw [Expr.relabel, ← ht.node hspan, ← htok.span]
    rfl
  | plain hk _ ih =>
    obtain ⟨ts', t', hrun, ht⟩ := ih hs
    exact ⟨_, _, .plain (hs.kind ▸ hk) hrun, ht⟩
  | @prefixed s t ts step op inner e hstep hop _ he ih =>
    obtain ⟨step', hstep', htok, hstate⟩ := hs.step hstep
    obtain ⟨ts', t', hinner, ht⟩ := ih hstate
    refine ⟨_, _, .prefixed hstep' (htok.kind ▸ hop) hinner ?_, ht.making _ _⟩
    have hspan : step'.token.span.cover (inner.relabel ρ).span =
        ρ.span (step.token.span.cover inner.span) := by
      rw [ρ.span_cover, Expr.span_relabel, htok.span]
    subst he
    rw [ExprPart.relabelRead, Expr.relabel, ← ht.node hspan]
    rfl
  | postfixed _ _ ihtarget ihcalls =>
    obtain ⟨ts', t', htarget, ht⟩ := ihtarget hs
    obtain ⟨us', u', hcalls, hu⟩ := ihcalls ht
    exact ⟨_, _, .postfixed htarget hcalls, hu⟩
  | uncalled hk => exact ⟨_, _, .uncalled (hs.kind ▸ hk), hs⟩
  | @called s t u ts us step target call e args close hstep hk _ hc _ ihargs ihcalls =>
    obtain ⟨step', hstep', htok, hstate⟩ := hs.step hstep
    obtain ⟨ts', t', hargs, ht⟩ := ihargs hstate
    obtain ⟨us', u', hcalls, hu⟩ := ihcalls (ht.making _ (.expr (call.relabel ρ)))
    refine ⟨_, _, .called hstep' (htok.kind.trans hk) hargs ?_ hcalls, hu⟩
    have hspan : (target.relabel ρ).span.cover (ρ.span close) = ρ.span (target.span.cover close) := by
      rw [ρ.span_cover, Expr.span_relabel]
    subst hc
    rw [Expr.relabel, ← ht.node hspan]
  | noArgument hstep hk =>
    obtain ⟨step', hstep', htok, hstate⟩ := hs.step hstep
    refine ⟨[step'.token], step'.state, ?_, hstate⟩
    rw [ExprPart.relabelRead, ← htok.span]
    exact .noArgument hstep' (htok.kind.trans hk)
  | someArguments hk _ ih =>
    obtain ⟨ts', t', hargs, ht⟩ := ih hs
    exact ⟨_, _, .someArguments (hs.kind ▸ hk) hargs, ht⟩
  | moreArguments _ hstep hk _ iharg ihargs =>
    obtain ⟨ts', t', harg, ht⟩ := iharg hs
    obtain ⟨step', hstep', htok, hstate⟩ := ht.step hstep
    obtain ⟨us', u', hargs, hu⟩ := ihargs hstate
    exact ⟨_, _, .moreArguments harg hstep' (htok.kind.trans hk) hargs, hu⟩
  | lastArgument _ hstep hk iharg =>
    obtain ⟨ts', t', harg, ht⟩ := iharg hs
    obtain ⟨step', hstep', htok, hstate⟩ := ht.step hstep
    refine ⟨ts' ++ [step'.token], step'.state, ?_, hstate⟩
    rw [ExprPart.relabelRead, ← htok.span]
    exact .lastArgument harg hstep' (htok.kind.trans hk)
  | constant hstep hvalue he =>
    obtain ⟨step', hstep', htok, hstate⟩ := hs.step hstep
    refine ⟨_, _, .constant hstep' ((constant?_mirrors htok).trans hvalue) ?_, hstate.making _ _⟩
    subst he
    rw [ExprPart.relabelRead, Expr.relabel, ← hstate.node htok.span]
  | @name s step e hstep hk he =>
    obtain ⟨step', hstep', htok, hstate⟩ := hs.step hstep
    refine ⟨_, _, .name hstep' (htok.kind.trans hk) ?_, hstate.making _ _⟩
    have htext := htok.text
    rw [if_pos hk] at htext
    subst he
    rw [ExprPart.relabelRead, Expr.relabel, Relabelling.ident, ← hstate.node htok.span, ← htext]
  | @group s t ts step close inner e hstep hk _ hc hk' he ih =>
    obtain ⟨step', hstep', htok, hstate⟩ := hs.step hstep
    obtain ⟨ts', t', hinner, ht⟩ := ih hstate
    obtain ⟨close', hclose, hclosed, hend⟩ := ht.step hc
    refine ⟨_, _, .group hstep' (htok.kind.trans hk) hinner hclose (hclosed.kind.trans hk') ?_, hend.making _ _⟩
    have hspan : step'.token.span.cover close'.token.span =
        ρ.span (step.token.span.cover close.token.span) := by
      rw [ρ.span_cover, htok.span, hclosed.span]
    subst he
    change (Expr.group _ inner).relabel ρ = .group _ (inner.relabel ρ)
    rw [Expr.relabel, ← hend.node hspan]

theorem State.Mirrors.startsNone {s s' : State} (h : s.Mirrors ρ s') (hs : StartsNone s) : StartsNone s' := by
  intro step' hstep'
  obtain ⟨-, hnone⟩ | ⟨step, other, hstep, hother, htok, -⟩ := h.step_cases
  · rw [hnone] at hstep'
    cases hstep'
  · rw [hother] at hstep'
    cases hstep'
    rw [constant?_mirrors htok, htok.kind]
    exact hs step hstep

theorem ExprFails.mirrors {α : Type} {p : ExprPart α} {s t s' : State} {ts : List Token}
    (h : ExprFails p s ts t) (hs : s.Mirrors ρ s') :
    ∃ ts' t', ExprFails (p.relabel ρ) s' ts' t' ∧ t.Mirrors ρ t' := by
  induction h generalizing s' with
  | @target s t ts step op left hleft hstep hop hname =>
    obtain ⟨ts', t', hleft', ht⟩ := hleft.mirrors hs
    obtain ⟨step', hstep', htok, -⟩ := ht.step hstep
    refine ⟨_, _, .target hleft' hstep' (htok.kind ▸ hop) fun i hi => ?_, ht.report ..⟩
    cases left with
    | ident target => exact hname target rfl
    | _ => cases hi
  | value hleft hstep hop _ ih =>
    obtain ⟨ts', t', hleft', ht⟩ := hleft.mirrors hs
    obtain ⟨step', hstep', htok, hstate⟩ := ht.step hstep
    obtain ⟨us', u', hfails, hu⟩ := ih hstate
    exact ⟨_, _, .value hleft' hstep' (htok.kind ▸ hop) hfails, hu⟩
  | left _ ih =>
    obtain ⟨ts', t', hfails, ht⟩ := ih hs
    exact ⟨_, _, .left hfails, ht⟩
  | first _ ih =>
    obtain ⟨ts', t', hfails, ht⟩ := ih hs
    exact ⟨_, _, .first hfails, ht⟩
  | tail hfirst _ ih =>
    obtain ⟨ts', t', hfirst', ht⟩ := hfirst.mirrors hs
    obtain ⟨us', u', hfails, hu⟩ := ih ht
    exact ⟨_, _, .tail hfirst' hfails, hu⟩
  | right hstep hop hn _ ih =>
    obtain ⟨step', hstep', htok, hstate⟩ := hs.step hstep
    obtain ⟨ts', t', hfails, ht⟩ := ih hstate
    exact ⟨_, _, .right hstep' (htok.kind ▸ hop) hn hfails, ht⟩
  | @further s t u n ts us step op left right join hstep hop hn hright hj _ ih =>
    obtain ⟨step', hstep', htok, hstate⟩ := hs.step hstep
    obtain ⟨ts', t', hright', ht⟩ := hright.mirrors hstate
    obtain ⟨us', u', hfails, hu⟩ := ih (ht.making _ (.expr (join.relabel ρ)))
    refine ⟨_, _, .further hstep' (htok.kind ▸ hop) hn hright' ?_ hfails, hu⟩
    have hspan : (left.relabel ρ).span.cover (right.relabel ρ).span =
        ρ.span (left.span.cover right.span) := by
      rw [ρ.span_cover, Expr.span_relabel, Expr.span_relabel]
    subst hj
    rw [Expr.relabel, ← ht.node hspan, ← htok.span]
    rfl
  | plain hk _ ih =>
    obtain ⟨ts', t', hfails, ht⟩ := ih hs
    exact ⟨_, _, .plain (hs.kind ▸ hk) hfails, ht⟩
  | prefixed hstep hop _ ih =>
    obtain ⟨step', hstep', htok, hstate⟩ := hs.step hstep
    obtain ⟨ts', t', hfails, ht⟩ := ih hstate
    exact ⟨_, _, .prefixed hstep' (htok.kind ▸ hop) hfails, ht⟩
  | called _ ih =>
    obtain ⟨ts', t', hfails, ht⟩ := ih hs
    exact ⟨_, _, .called hfails, ht⟩
  | calls htarget _ ih =>
    obtain ⟨ts', t', htarget', ht⟩ := htarget.mirrors hs
    obtain ⟨us', u', hfails, hu⟩ := ih ht
    exact ⟨_, _, .calls htarget' hfails, hu⟩
  | arguments hstep hk _ ih =>
    obtain ⟨step', hstep', htok, hstate⟩ := hs.step hstep
    obtain ⟨ts', t', hfails, ht⟩ := ih hstate
    exact ⟨_, _, .arguments hstep' (htok.kind.trans hk) hfails, ht⟩
  | @again s t u ts us step target call args close hstep hk hargs hc _ ih =>
    obtain ⟨step', hstep', htok, hstate⟩ := hs.step hstep
    obtain ⟨ts', t', hargs', ht⟩ := hargs.mirrors hstate
    obtain ⟨us', u', hfails, hu⟩ := ih (ht.making _ (.expr (call.relabel ρ)))
    refine ⟨_, _, .again hstep' (htok.kind.trans hk) hargs' ?_ hfails, hu⟩
    have hspan : (target.relabel ρ).span.cover (ρ.span close) = ρ.span (target.span.cover close) := by
      rw [ρ.span_cover, Expr.span_relabel]
    subst hc
    rw [Expr.relabel, ← ht.node hspan]
  | someArguments hk _ ih =>
    obtain ⟨ts', t', hfails, ht⟩ := ih hs
    exact ⟨_, _, .someArguments (hs.kind ▸ hk) hfails, ht⟩
  | argument _ ih =>
    obtain ⟨ts', t', hfails, ht⟩ := ih hs
    exact ⟨_, _, .argument hfails, ht⟩
  | moreArguments harg hstep hk _ ih =>
    obtain ⟨ts', t', harg', ht⟩ := harg.mirrors hs
    obtain ⟨step', hstep', htok, hstate⟩ := ht.step hstep
    obtain ⟨us', u', hfails, hu⟩ := ih hstate
    exact ⟨_, _, .moreArguments harg' hstep' (htok.kind.trans hk) hfails, hu⟩
  | unlisted harg hk hk' =>
    obtain ⟨ts', t', harg', ht⟩ := harg.mirrors hs
    exact ⟨_, _, .unlisted harg' (ht.kind ▸ hk) (ht.kind ▸ hk'), ht.reportExpected _⟩
  | primary hnone => exact ⟨_, _, .primary (hs.startsNone hnone), hs.reportExpected _⟩
  | inner hstep hk _ ih =>
    obtain ⟨step', hstep', htok, hstate⟩ := hs.step hstep
    obtain ⟨ts', t', hfails, ht⟩ := ih hstate
    exact ⟨_, _, .inner hstep' (htok.kind.trans hk) hfails, ht⟩
  | unclosed hstep hk hinner hk' =>
    obtain ⟨step', hstep', htok, hstate⟩ := hs.step hstep
    obtain ⟨ts', t', hinner', ht⟩ := hinner.mirrors hstate
    exact ⟨_, _, .unclosed hstep' (htok.kind.trans hk) hinner' (ht.kind ▸ hk'), ht.reportExpected _⟩

theorem expression_mirrors {s s' : State} (hs : s.Mirrors ρ s') :
    Attempt.Mirrors ρ (Becomes (Expr.relabel ρ)) (expression s) (expression s') := by
  obtain ⟨e, ts, hvalue, hrun⟩ | ⟨hvalue, ts, hfails⟩ := expression_cases s
  · obtain ⟨ts', t', hrun', ht⟩ := hrun.mirrors hs
    obtain ⟨hvalue', rfl⟩ : (expression s').value = some (e.relabel ρ) ∧ (expression s').state = t' :=
      hrun'.parse.result
    refine ⟨?_, ht⟩
    rw [hvalue, hvalue']
    exact .some rfl
  · obtain ⟨ts', t', hfails', ht⟩ := hfails.mirrors hs
    obtain ⟨hvalue', rfl⟩ : (expression s').value = none ∧ (expression s').state = t' :=
      hfails'.parse.result
    refine ⟨?_, ht⟩
    rw [hvalue, hvalue']
    exact .none

end Expressions

end Parse

end Craftlang
