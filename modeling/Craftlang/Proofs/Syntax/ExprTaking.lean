import Craftlang.Proofs.Syntax.ExprReading
import Craftlang.Proofs.Syntax.Reading

/-!
# Phrases of expressions are taken

The phrase of a level is a first operand and a chain of operators with their right operands. Along the
chain the precedences do not rise, which is how the parser, which takes for each operator as much as
binds closer, comes to take the whole of it.
-/

/-!
## What a parser takes

The other direction: when the tokens that remain start with a phrase, and what follows cannot be part of
it, the parser takes exactly that phrase and reports nothing.
-/

namespace Craftlang.Parse

/-- The parser takes these tokens, reports nothing, and its answer is as it should be. -/
def Parsed.Takes {s : State} {α : Type} (p : Parsed s α) (ts : List Kind) (good : α → Prop) : Prop :=
  good p.value ∧ p.state.findings = s.findings ∧ s.kinds = ts ++ p.state.kinds

namespace Parsed.Takes

variable {s : State} {α β : Type} {p : Parsed s α} {ts ks : List Kind} {good : α → Prop}

/-- What remains is what followed. -/
theorem kinds_eq (h : p.Takes ts good) (hs : s.kinds = ts ++ ks) : p.state.kinds = ks :=
  List.append_cancel_left (h.2.2.symm.trans hs)

theorem pure {a : α} (h : good a) : (Parsed.pure s a).Takes [] good := ⟨h, rfl, rfl⟩

theorem build [IsNode α] {span : Span} {make : Node → α} (h : ∀ n, good (make n)) :
    (Parsed.build s span make).Takes [] good :=
  ⟨h _, rfl, rfl⟩

theorem andThen {us : List Kind} {okay : β → Prop}
    {next : α → (t : State) → t.rest.length ≤ s.rest.length → Parsed t β}
    (hs : s.kinds = ts ++ (us ++ ks)) (hp : p.Takes ts good)
    (hn : ∀ a t h, good a → t.kinds = us ++ ks → (next a t h).Takes us okay) :
    (p.andThen next).Takes (ts ++ us) okay := by
  obtain ⟨hv, hf, hk⟩ := hn p.value p.state p.within.length_le hp.1 (hp.kinds_eq hs)
  refine ⟨hv, hf.trans hp.2.1, ?_⟩
  rw [hp.2.2, hk, List.append_assoc]
  rfl

theorem since {step : Step s} (hs : s.step? = some step) {p : Parsed step.state α}
    (h : p.Takes ts good) : (p.since step.suffix).Takes (step.token.kind :: ts) good := by
  obtain ⟨hk, hf, -⟩ := State.step?_eq_some hs
  refine ⟨h.1, h.2.1.trans hf, ?_⟩
  rw [hk, h.2.2]
  rfl

end Parsed.Takes

/-- Making a node takes no token. -/
theorem Parsed.takes_buildThen {s : State} {α β : Type} [IsNode α] {us : List Kind} {okay : β → Prop}
    {span : Span} {make : Node → α}
    {next : α → (t : State) → t.rest.length ≤ s.rest.length → Parsed t β}
    (hn : ∀ n t h, t.kinds = s.kinds → (next (make n) t h).Takes us okay) :
    ((Parsed.build s span make).andThen next).Takes us okay :=
  hn ⟨s.nextId, span⟩ (s.making _) (Nat.le_refl _) rfl

/-- What a chain of parsers comes to once the first one has an answer. -/
theorem Attempt.bind_of_value {s : State} {α β : Type} {p : Attempt s α} {a : α}
    {next : α → (t : State) → t.rest.length ≤ s.rest.length → Attempt t β} (h : p.value = some a) :
    p.bind next = Parsed.since (next a p.state p.within.length_le) p.within := by
  rw [Attempt.bind]
  split
  · rename_i hnone
    rw [hnone] at h
    cases h
  · rename_i b hb
    rw [hb] at h
    cases h
    rfl

/-- A chain of parsers that may fail takes what its parts take. -/
theorem Attempt.takes_bind {s : State} {α β : Type} {p : Attempt s α} {ts us ks : List Kind}
    {good : α → Prop} {okay : Option β → Prop}
    {next : α → (t : State) → t.rest.length ≤ s.rest.length → Attempt t β}
    (hs : s.kinds = ts ++ (us ++ ks)) (hp : p.Takes ts fun v => ∃ a, v = some a ∧ good a)
    (hn : ∀ a t h, good a → t.kinds = us ++ ks → (next a t h).Takes us okay) :
    (p.bind next).Takes (ts ++ us) okay := by
  obtain ⟨⟨a, hv, ha⟩, hf, hk⟩ := hp
  have hks : p.state.kinds = us ++ ks := List.append_cancel_left (hk.symm.trans hs)
  obtain ⟨hv', hf', hk'⟩ := hn a p.state p.within.length_le ha hks
  rw [Attempt.bind_of_value hv]
  refine ⟨hv', hf'.trans hf, ?_⟩
  rw [hk, hk', List.append_assoc]
  rfl

/-- A last parser that takes nothing. -/
theorem Attempt.takes_bind_nil {s : State} {α β : Type} {p : Attempt s α} {ts : List Kind}
    {good : α → Prop} {okay : Option β → Prop}
    {next : α → (t : State) → t.rest.length ≤ s.rest.length → Attempt t β}
    (hp : p.Takes ts fun v => ∃ a, v = some a ∧ good a)
    (hn : ∀ a t h, good a → (next a t h).Takes [] okay) : (p.bind next).Takes ts okay := by
  have hs : s.kinds = ts ++ ([] ++ p.state.kinds) := hp.2.2
  have h := Attempt.takes_bind hs hp fun a t ht ha _ => hn a t ht ha
  rwa [List.append_nil] at h

theorem Attempt.takes_build {s : State} {α : Type} [IsNode α] {span : Span} {make : Node → α}
    {good : α → Prop} (h : ∀ n, good (make n)) :
    (Attempt.build s span make).Takes [] fun v => ∃ a, v = some a ∧ good a :=
  ⟨⟨_, rfl, h _⟩, rfl, rfl⟩

/-- Making a node takes no token. -/
theorem Attempt.takes_buildThen {s : State} {α β : Type} [IsNode α] {us : List Kind} {okay : Option β → Prop}
    {span : Span} {make : Node → α}
    {next : α → (t : State) → t.rest.length ≤ s.rest.length → Attempt t β}
    (hn : ∀ n t h, t.kinds = s.kinds → (next (make n) t h).Takes us okay) :
    ((Attempt.build s span make).bind next).Takes us okay :=
  hn ⟨s.nextId, span⟩ (s.making _) (Nat.le_refl _) rfl

/-- Of every state that starts with the tokens and goes on with what may follow, the parser takes the
tokens. -/
def Taken {α : Type} (parser : (s : State) → Parsed s α) (follow : List Kind → Prop)
    (ts : List Kind) (good : α → Prop) : Prop :=
  ∀ s ks, s.kinds = ts ++ ks → follow ks → (parser s).Takes ts good

/-- The same for a parser that may fail. -/
def TakenSome {α : Type} (parser : (s : State) → Attempt s α) (follow : List Kind → Prop)
    (ts : List Kind) (good : α → Prop) : Prop :=
  Taken parser follow ts fun v => ∃ a, v = some a ∧ good a

/-- The next token can be taken. -/
theorem State.exists_step {s : State} {k : Kind} {ks : List Kind} (h : s.kinds = k :: ks) :
    ∃ step : Step s, s.step? = some step ∧ step.token.kind = k ∧ step.state.kinds = ks := by
  cases hs : s.step? with
  | none =>
    rw [step?_eq_none hs] at h
    cases h
  | some step =>
    have hk := (step?_eq_some hs).1
    rw [h] at hk
    injection hk with hk hks
    exact ⟨step, rfl, hk.symm, hks.symm⟩

theorem State.exists_take {s : State} {k : Kind} {ks : List Kind} (h : s.kinds = k :: ks) :
    ∃ step : Step s, s.take? k = some step ∧ s.step? = some step ∧ step.token.kind = k ∧
      step.state.kinds = ks := by
  obtain ⟨step, hs, hk, hks⟩ := exists_step h
  refine ⟨step, ?_, hs, hk, hks⟩
  rw [take?, hs]
  simp only
  rw [if_pos hk]

theorem State.take?_eq_none_of {s : State} {k : Kind} (h : s.kinds.head? ≠ some k) :
    s.take? k = none := by
  cases ht : s.take? k with
  | none => rfl
  | some step =>
    obtain ⟨hs, hk⟩ := take?_eq_some ht
    rw [(step?_eq_some hs).1, hk] at h
    exact absurd rfl h

theorem expect_taken (k : Kind) : TakenSome (expect · k) (fun _ => True) [k] fun _ => True := by
  intro s ks hs _
  obtain ⟨step, ht, hstep, hk, -⟩ := State.exists_take hs
  simp only [expect, ht]
  rw [← hk]
  exact .since hstep (.pure ⟨_, rfl, trivial⟩)

theorem identifier_taken : TakenSome identifier (fun _ => True) [.ident] fun _ => True := by
  intro s ks hs _
  obtain ⟨step, ht, hstep, hk, -⟩ := State.exists_take hs
  simp only [identifier, ht]
  rw [← hk]
  exact .since hstep (.pure ⟨_, rfl, trivial⟩)

theorem typeName_taken : TakenSome typeName (fun _ => True) [.ident] fun _ => True := by
  intro s ks hs _
  obtain ⟨step, ht, hstep, hk, -⟩ := State.exists_take hs
  simp only [typeName, ht]
  rw [← hk]
  exact .since hstep (.pure ⟨_, rfl, trivial⟩)


/-- No call goes on here. -/
def NoCall (ks : List Kind) : Prop := ks.head? ≠ some .lParen

/-- Nothing goes on here that binds at least as close as a level. -/
def Stops (n : Nat) (ks : List Kind) : Prop :=
  NoCall ks ∧ ∀ k op, ks.head? = some k → BinaryOp.ofKind? k = some op → op.precedence < n

/-- An expression ends here; before a name it does, though a name has no place there. -/
def EndsExpr (ks : List Kind) : Prop :=
  ks.head? = some .newline ∨ ks.head? = some .rParen ∨ ks.head? = some .comma ∨ ks.head? = some .ident

theorem EndsExpr.stops {ks : List Kind} (h : EndsExpr ks) (n : Nat) : Stops n ks := by
  rcases h with h | h | h | h <;>
    exact ⟨by rw [NoCall, h]; decide, fun k op hk hop => by rw [h] at hk; cases hk; cases hop⟩

/-- Can an operand without prefix operators start with a kind of token? -/
def startsOperand (k : Kind) : Bool := k == .ident || k == .lParen || k.isLiteral

/-- Can an expression start with a kind of token? -/
def startsExpr (k : Kind) : Bool := startsOperand k || (UnaryOp.ofKind? k).isSome

/-- Operators of at least a precedence with their right operands. No precedence rises above the one
before, the first not above `high`. -/
inductive Chain (n : Nat) : Nat → List Kind → Prop
  | nil {high} : Chain n high []
  | cons {high k op r rest} : BinaryOp.ofKind? k = some op → n ≤ op.precedence →
    op.precedence ≤ high →
    TakenSome (operand (op.precedence + 1)) (Stops (op.precedence + 1)) r (fun _ => True) →
    Chain n op.precedence rest → Chain n high (k :: (r ++ rest))

namespace Chain

variable {n high : Nat} {c ks : List Kind}

/-- After an operand comes an operator that does not bind closer than the one before. -/
theorem stops (h : Chain n high c) (hn : n ≤ high + 1) (hk : Stops n ks) :
    Stops (high + 1) (c ++ ks) := by
  cases h with
  | nil => exact ⟨hk.1, fun k op hh hop => Nat.lt_of_lt_of_le (hk.2 k op hh hop) hn⟩
  | cons hop _ hhigh _ _ =>
    refine ⟨?_, fun k' op' hh hop' => ?_⟩
    · rw [NoCall, List.cons_append, List.head?_cons]
      rintro ⟨⟩
      cases hop
    · rw [List.cons_append, List.head?_cons] at hh
      cases hh
      rw [hop] at hop'
      cases hop'
      omega

theorem mono (h : Chain n high c) {m high' : Nat} (hm : m ≤ n) (hh : high ≤ high') :
    Chain m high' c := by
  induction h generalizing high' with
  | nil => exact .nil
  | cons hop hn hhigh hr _ ih =>
    exact .cons hop (by omega) (by omega) hr (ih (Nat.le_refl _))

/-- An operator of the lowest precedence goes on at the end. -/
theorem append {k : Kind} {op : BinaryOp} {r : List Kind} (h : Chain n high c)
    (hop : BinaryOp.ofKind? k = some op) (hn : op.precedence = n) (hh : n ≤ high)
    (hr : TakenSome (operand (op.precedence + 1)) (Stops (op.precedence + 1)) r fun _ => True) :
    Chain n high (c ++ k :: r) := by
  induction h with
  | @nil high =>
    have hc : Chain n high (k :: (r ++ [])) := .cons hop (by omega) (by omega) hr .nil
    simpa using hc
  | cons hop' hn' hhigh' hr' _ ih =>
    rw [List.cons_append, List.append_assoc]
    exact .cons hop' hn' hhigh' hr' (ih hn')

/-- The parser goes along the chain. -/
theorem taken (h : Chain n high c) (left : Expr) :
    TakenSome (operandTail n left) (Stops n) c fun _ => True := by
  induction h generalizing left with
  | nil =>
    intro s ks hs hstop
    rw [operandTail]
    cases hstep : s.step? with
    | none => exact .pure ⟨left, rfl, trivial⟩
    | some step =>
      have hk := (State.step?_eq_some hstep).1
      rw [List.nil_append] at hs
      simp only
      split
      · exact .pure ⟨left, rfl, trivial⟩
      · rename_i op hop
        rw [if_pos (hstop.2 _ op (by rw [← hs, hk]; rfl) hop)]
        exact .pure ⟨left, rfl, trivial⟩
  | @cons high k op r rest hop hn hhigh hr hrest ih =>
    intro s ks hs hstop
    rw [operandTail]
    rw [List.cons_append, List.append_assoc] at hs
    obtain ⟨step, hstep, hk, hks⟩ := State.exists_step hs
    simp only [hstep]
    rw [hk, hop]
    simp only
    rw [if_neg (by omega), ← hk]
    refine .since hstep (Attempt.takes_bind hks (hr step.state (rest ++ ks) hks ?_) ?_)
    · exact hrest.stops (by omega) hstop
    · intro right t ht _ htk
      refine Attempt.takes_buildThen fun node u hu huk => ?_
      exact ih _ u ks (huk.trans htk) hstop

end Chain

/-- The phrase of a level as the parser sees it. -/
def LevelTaken (n : Nat) (ts : List Kind) : Prop :=
  ∃ u c, ts = u ++ c ∧ TakenSome unary NoCall u (fun _ => True) ∧ Chain n 7 c

theorem LevelTaken.operand {n : Nat} {ts : List Kind} (h : LevelTaken n ts) (hn : n ≤ 8) :
    TakenSome (operand n) (Stops n) ts fun _ => True := by
  obtain ⟨u, c, rfl, hu, hc⟩ := h
  intro s ks hs hstop
  rw [List.append_assoc] at hs
  rw [Parse.operand]
  refine Attempt.takes_bind hs (hu s (c ++ ks) hs (hc.stops hn hstop).1) ?_
  intro left t ht _ htk
  exact hc.taken left t ks htk hstop

theorem calls_taken_nil (target : Expr) :
    TakenSome (calls target) NoCall [] fun e => e = target := by
  intro s ks hs hno
  rw [calls, State.take?_eq_none_of (by rw [hs]; exact hno)]
  exact .pure ⟨target, rfl, rfl⟩

theorem calls_taken_cons {as cs : List Kind} (ha : TakenSome arguments (fun _ => True)
    (as ++ [Kind.rParen]) fun _ => True) (hc : ∀ e, TakenSome (calls e) NoCall cs fun _ => True)
    (target : Expr) :
    TakenSome (calls target) NoCall (Kind.lParen :: as ++ Kind.rParen :: cs) fun _ => True := by
  intro s ks hs hno
  have hs' : s.kinds = Kind.lParen :: ((as ++ [Kind.rParen]) ++ (cs ++ ks)) := by simpa using hs
  obtain ⟨step, ht, hstep, hk, hks⟩ := State.exists_take hs'
  have hkinds : Kind.lParen :: as ++ Kind.rParen :: cs = step.token.kind :: ((as ++ [Kind.rParen]) ++ cs) := by
    simp [hk]
  rw [calls, hkinds]
  simp only [ht]
  refine .since hstep (Attempt.takes_bind hks (ha step.state _ hks trivial) ?_)
  rintro ⟨args, close⟩ t hl - htk
  refine Attempt.takes_buildThen fun node u hu huk => ?_
  exact hc _ u ks (huk.trans htk) hno

theorem postfixed_taken {a cs : List Kind}
    (ha : TakenSome primary (fun _ => True) a fun _ => True)
    (hc : ∀ e, TakenSome (calls e) NoCall cs fun _ => True) :
    TakenSome postfixed NoCall (a ++ cs) fun _ => True := by
  intro s ks hs hno
  rw [List.append_assoc] at hs
  rw [postfixed]
  refine Attempt.takes_bind hs (ha s (cs ++ ks) hs trivial) ?_
  intro target t ht _ htk
  exact hc target t ks htk hno

theorem unary_taken_plain {a : List Kind} (ha : TakenSome postfixed NoCall a fun _ => True)
    (hh : ∃ k rest, a = k :: rest ∧ startsOperand k = true) :
    TakenSome unary NoCall a fun _ => True := by
  obtain ⟨k, rest, rfl, hk⟩ := hh
  intro s ks hs hno
  obtain ⟨step, hstep, hkind, -⟩ := State.exists_step hs
  rw [unary]
  simp only [hstep]
  have hu : UnaryOp.ofKind? step.token.kind = none := by
    rw [hkind]
    cases k <;> first | rfl | cases hk
  rw [hu]
  exact ha s ks hs hno

theorem unary_taken_prefixed {k : Kind} {op : UnaryOp} {a : List Kind}
    (hop : UnaryOp.ofKind? k = some op) (ha : TakenSome unary NoCall a fun _ => True) :
    TakenSome unary NoCall (k :: a) fun _ => True := by
  intro s ks hs hno
  obtain ⟨step, hstep, hk, hks⟩ := State.exists_step hs
  rw [unary]
  simp only [hstep]
  rw [hk, hop, ← hk]
  refine .since hstep ?_
  exact Attempt.takes_bind_nil (ha step.state ks hks hno) fun inner t ht _ =>
    Attempt.takes_build fun _ => trivial

theorem exists_constant {t : Token} (h : t.kind.isLiteral = true) : ∃ c, constant? t = some c := by
  rw [constant?]
  cases hk : t.kind <;> rw [hk] at h <;> first | exact ⟨_, rfl⟩ | cases h

theorem primary_taken_literal {k : Kind} (hk : k.isLiteral = true) :
    TakenSome primary (fun _ => True) [k] fun _ => True := by
  intro s ks hs _
  obtain ⟨step, hstep, hkind, -⟩ := State.exists_step hs
  rw [primary]
  simp only [hstep]
  obtain ⟨c, hc⟩ := exists_constant (hkind ▸ hk)
  simp only [hc]
  rw [← hkind]
  exact .since hstep (Attempt.takes_build fun _ => trivial)

theorem constant?_eq_none {t : Token} (h : t.kind.isLiteral = false) : constant? t = none := by
  cases hc : constant? t with
  | none => rfl
  | some c =>
    rw [isLiteral_of_constant hc] at h
    cases h

theorem primary_taken_name :
    TakenSome primary (fun _ => True) [.ident] fun e => ∃ i, e = .ident i := by
  intro s ks hs _
  obtain ⟨step, hstep, hkind, -⟩ := State.exists_step hs
  rw [primary]
  simp only [hstep]
  rw [constant?_eq_none (by rw [hkind]; rfl)]
  simp only [hkind]
  rw [← hkind]
  exact .since hstep (Attempt.takes_build fun _ => ⟨_, rfl⟩)

theorem primary_taken_group {e : List Kind} (he : TakenSome expression EndsExpr e fun _ => True) :
    TakenSome primary (fun _ => True) (Kind.lParen :: e ++ [Kind.rParen]) fun _ => True := by
  intro s ks hs _
  have hs' : s.kinds = Kind.lParen :: (e ++ ([Kind.rParen] ++ ks)) := by simpa using hs
  obtain ⟨step, hstep, hkind, hks⟩ := State.exists_step hs'
  rw [primary]
  simp only [hstep]
  rw [constant?_eq_none (by rw [hkind]; rfl)]
  simp only [hkind]
  rw [List.cons_append, ← hkind]
  refine .since hstep (Attempt.takes_bind hks (he step.state _ hks (.inr (.inl rfl))) ?_)
  intro inner t ht _ htk
  exact Attempt.takes_bind_nil (expect_taken .rParen t ks htk trivial) fun close u hu _ =>
    Attempt.takes_build fun _ => trivial

theorem argumentList_taken_last {e : List Kind}
    (he : TakenSome expression EndsExpr e fun _ => True) :
    TakenSome argumentList (fun _ => True) (e ++ [Kind.rParen]) fun _ => True := by
  intro s ks hs _
  rw [List.append_assoc] at hs
  rw [argumentList]
  refine Attempt.takes_bind hs (he s _ hs (.inr (.inl rfl))) ?_
  intro arg t ht _ htk
  obtain ⟨close, hclose, hstep, hk, -⟩ := State.exists_take htk
  rw [State.take?_eq_none_of (by rw [htk]; simp)]
  simp only [hclose]
  rw [← hk]
  exact .since hstep (.pure ⟨_, rfl, trivial⟩)

theorem argumentList_taken_more {e as : List Kind}
    (he : TakenSome expression EndsExpr e fun _ => True)
    (ha : TakenSome argumentList (fun _ => True) (as ++ [Kind.rParen]) fun _ => True) :
    TakenSome argumentList (fun _ => True) ((e ++ Kind.comma :: as) ++ [Kind.rParen]) fun _ => True := by
  intro s ks hs _
  have hs' : s.kinds = e ++ ((Kind.comma :: (as ++ [Kind.rParen])) ++ ks) := by simpa using hs
  rw [argumentList, List.append_assoc]
  refine Attempt.takes_bind hs' (he s _ hs' (.inr (.inr (.inl rfl)))) ?_
  intro arg t ht _ htk
  obtain ⟨comma, hcomma, hstep, hk, hks⟩ := State.exists_take htk
  simp only [hcomma]
  rw [List.cons_append, ← hk]
  refine .since hstep (Attempt.takes_bind_nil (ha comma.state ks hks trivial) ?_)
  rintro ⟨args, close⟩ u hu -
  exact .pure ⟨_, rfl, trivial⟩

theorem arguments_taken_nil :
    TakenSome arguments (fun _ => True) ([] ++ [Kind.rParen]) fun _ => True := by
  intro s ks hs _
  obtain ⟨close, hclose, hstep, hk, -⟩ := State.exists_take hs
  rw [arguments]
  simp only [hclose]
  rw [List.nil_append, ← hk]
  exact .since hstep (.pure ⟨_, rfl, trivial⟩)

theorem arguments_taken_some {as : List Kind}
    (ha : TakenSome argumentList (fun _ => True) (as ++ [Kind.rParen]) fun _ => True)
    (hh : ∃ k rest, as = k :: rest ∧ startsExpr k = true) :
    TakenSome arguments (fun _ => True) (as ++ [Kind.rParen]) fun _ => True := by
  obtain ⟨k, rest, rfl, hk⟩ := hh
  intro s ks hs _
  rw [arguments, State.take?_eq_none_of ?_]
  · exact ha s ks hs trivial
  · rw [hs]
    rintro ⟨⟩
    cases hk

theorem expression_taken_operation {ts : List Kind} (h : LevelTaken 1 ts) :
    TakenSome expression EndsExpr ts fun _ => True := by
  intro s ks hs hend
  have hs' : s.kinds = ts ++ ([] ++ ks) := hs
  rw [expression, ← List.append_nil ts]
  refine Attempt.takes_bind hs' (h.operand (by omega) s ks hs (hend.stops 1)) ?_
  intro left t ht _ htk
  cases hstep : t.step? with
  | none => exact .pure ⟨left, rfl, trivial⟩
  | some step =>
    have hk := (State.step?_eq_some hstep).1
    rw [List.nil_append] at htk
    rw [htk] at hk
    have hno : AssignOp.ofKind? step.token.kind = none := by
      rw [hk] at hend
      rcases hend with h | h | h | h <;> (injection h with h; rw [h]; rfl)
    simp only [hno]
    exact .pure ⟨left, rfl, trivial⟩

/-- A name in front of an assignment is a target. -/
theorem operand_taken_target {s : State} {k : Kind} {op : AssignOp} {ks : List Kind}
    (hop : AssignOp.ofKind? k = some op) (hs : s.kinds = [Kind.ident] ++ (k :: ks)) :
    (operand 1 s).Takes [.ident] fun v => ∃ e, v = some e ∧ ∃ i, e = .ident i := by
  have hno : NoCall (k :: ks) := by
    rintro ⟨⟩
    cases hop
  have hnil : s.kinds = [Kind.ident] ++ ([] ++ (k :: ks)) := hs
  have hpost : (postfixed s).Takes ([Kind.ident] ++ []) fun v => ∃ e, v = some e ∧ ∃ i, e = .ident i := by
    rw [postfixed]
    refine Attempt.takes_bind hnil (primary_taken_name s _ hs trivial) ?_
    rintro target t ht ⟨i, rfl⟩ htk
    obtain ⟨⟨e, he, rfl⟩, hf, hk⟩ := calls_taken_nil (.ident i) t (k :: ks) htk hno
    exact ⟨⟨_, he, i, rfl⟩, hf, hk⟩
  have hunary : (unary s).Takes [.ident] fun v => ∃ e, v = some e ∧ ∃ i, e = .ident i := by
    obtain ⟨step, hstep, hkind, -⟩ := State.exists_step hs
    rw [unary]
    simp only [hstep]
    rw [hkind]
    exact hpost
  rw [operand, ← List.append_nil [Kind.ident]]
  refine Attempt.takes_bind hnil hunary ?_
  rintro left t ht hleft htk
  obtain ⟨step, hstep, hkind, -⟩ := State.exists_step htk
  rw [operandTail]
  simp only [hstep]
  have hbin : BinaryOp.ofKind? step.token.kind = none := by
    rw [hkind]
    cases k <;> first | rfl | cases hop
  rw [hbin]
  exact .pure ⟨left, rfl, hleft⟩

theorem expression_taken_assignment {k : Kind} {op : AssignOp} {e : List Kind}
    (hop : AssignOp.ofKind? k = some op) (he : TakenSome expression EndsExpr e fun _ => True) :
    TakenSome expression EndsExpr (.ident :: k :: e) fun _ => True := by
  intro s ks hs hend
  have hs' : s.kinds = [Kind.ident] ++ ((k :: e) ++ ks) := hs
  rw [expression]
  change Parsed.Takes _ ([Kind.ident] ++ (k :: e)) _
  refine Attempt.takes_bind hs' (operand_taken_target hop hs') ?_
  rintro left t ht ⟨i, rfl⟩ htk
  obtain ⟨step, hstep, hkind, hks⟩ := State.exists_step htk
  simp only [hstep]
  rw [hkind, hop, ← hkind]
  refine .since hstep (Attempt.takes_bind_nil (he step.state ks hks hend) ?_)
  intro value u hu _
  exact Attempt.takes_build fun _ => trivial

end Craftlang.Parse
