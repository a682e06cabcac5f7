import Craftlang.Proofs.Syntax.Precedence
import Craftlang.Proofs.Syntax.ExprTaking

/-!
# Trees of the table are read back

The other direction: from the tokens that a tree of the table is written with, the parser reads that
tree again, up to the numbers and the places of its nodes. So no tokens have two trees, and what the
parser makes of them is the tree of the table.
-/

namespace Craftlang

namespace Expr

mutual

/-- A tree without the numbers and the places of its nodes. -/
def form : Expr → Expr
  | error _ => .error default
  | constant _ value => .constant default value
  | ident i => .ident ⟨default, i.name⟩
  | binary _ op span left right => .binary default op span left.form right.form
  | unary _ op operand => .unary default op operand.form
  | call _ target args => .call default target.form (forms args)
  | group _ inner => .group default inner.form
  | assign _ op span target value => .assign default op span ⟨default, target.name⟩ value.form

def forms : List Expr → List Expr
  | [] => []
  | e :: es => e.form :: forms es

end

end Expr

/-- The first leaf stands for the first token. -/
theorem Spell.uncons {ts : List Token} {l : Leaf} {ls : List Leaf} (h : Spell ts (l :: ls)) :
    ∃ t us, ts = t :: us ∧ l.StandsFor t ∧ Spell us ls := by
  obtain ⟨t, us, ht, hus, rfl⟩ := List.forall₂_cons_right_iff.mp h
  exact ⟨t, us, rfl, ht, hus⟩

theorem Spell.eq_nil {ts : List Token} (h : Spell ts []) : ts = [] := List.forall₂_nil_right_iff.mp h

theorem Spell.of_append {ts : List Token} {ls ms : List Leaf} (h : Spell ts (ls ++ ms)) :
    ∃ us vs, ts = us ++ vs ∧ Spell us ls ∧ Spell vs ms := by
  induction ls generalizing ts with
  | nil => exact ⟨[], ts, rfl, .nil, h⟩
  | cons l ls ih =>
    obtain ⟨t, us, rfl, ht, hus⟩ := h.uncons
    obtain ⟨vs, ws, rfl, hvs, hws⟩ := ih hus
    exact ⟨t :: vs, ws, rfl, .cons ht hvs, hws⟩

namespace Parse

theorem Attempt.bind_value_none {s : State} {α β : Type} {p : Attempt s α}
    {next : α → (t : State) → t.rest.length ≤ s.rest.length → Attempt t β} (h : p.value = none) :
    (p.bind next).value = none := by
  rw [Attempt.bind]
  split
  · rfl
  · rename_i a ha
    rw [h] at ha
    cases ha

theorem EndsOperation.yields {n : Nat} {k : Kind} (h : EndsOperation k) : Yields n k :=
  .of_none h.binary

theorem binary_none_of_assign {k : Kind} {op : AssignOp} (h : AssignOp.ofKind? k = some op) :
    BinaryOp.ofKind? k = none := by
  cases k <;> first | rfl | cases h

theorem unary_none_of_isLiteral {k : Kind} (h : k.isLiteral = true) : UnaryOp.ofKind? k = none := by
  cases k <;> first | rfl | cases h

/-- The kind of the first of the tokens that remain. -/
def nextKind (rest : List Token) : Kind := (rest.head?.map (·.kind)).getD .eof

theorem State.kind_eq_nextKind {s : State} {rest : List Token} (h : s.rest = rest) :
    s.kind = nextKind rest :=
  congrArg nextKind h

/-- The next token is taken. -/
theorem State.exists_step_of_rest {s : State} {t : Token} {rest : List Token} (h : s.rest = t :: rest) :
    ∃ step : Step s, s.step? = some step ∧ step.token = t ∧ step.state.rest = rest := by
  have hkinds : s.kinds = t.kind :: rest.map (·.kind) := by
    rw [State.kinds, h]
    rfl
  obtain ⟨step, hs, -, -⟩ := State.exists_step hkinds
  have hcons := step.cons.symm.trans h
  injection hcons with ht hrest
  exact ⟨step, hs, ht, hrest⟩

theorem State.exists_take_of_rest {s : State} {t : Token} {rest : List Token} {k : Kind}
    (h : s.rest = t :: rest) (hk : t.kind = k) :
    ∃ step : Step s, s.take? k = some step ∧ step.token = t ∧ step.state.rest = rest := by
  obtain ⟨step, hs, ht, hrest⟩ := State.exists_step_of_rest h
  refine ⟨step, ?_, ht, hrest⟩
  rw [State.take?, hs]
  exact if_pos (ht ▸ hk)

/-- An attempt succeeds with a result as it should be and leaves `rest`. -/
def Attempt.Finds {s : State} {α : Type} (p : Attempt s α) (good : α → Prop) (rest : List Token) : Prop :=
  ∃ a, p.value = some a ∧ good a ∧ p.state.rest = rest

/-- An attempt goes on as `next` does, from a tree as it should be and with `rest` before it. -/
def Attempt.GoesOn {s : State} (p : Attempt s Expr) (next : Expr → (t : State) → Attempt t Expr)
    (good : Expr → Prop) (rest : List Token) : Prop :=
  ∃ e t, good e ∧ t.rest = rest ∧ p.value = (next e t).value ∧ p.state = (next e t).state

namespace Attempt

variable {s : State} {α β : Type} {good : α → Prop} {okay : β → Prop} {rest rest' : List Token}

theorem Finds.ok {a : α} (h : good a) : (Attempt.ok s a).Finds good s.rest := ⟨a, rfl, h, rfl⟩

theorem Finds.build [IsNode α] {span : Span} {make : Node → α} (h : ∀ node, good (make node)) :
    (Attempt.build s span make).Finds good s.rest :=
  ⟨_, rfl, h _, rfl⟩

theorem Finds.bind {p : Attempt s α}
    {next : α → (t : State) → t.rest.length ≤ s.rest.length → Attempt t β} (h : p.Finds good rest)
    (hn : ∀ a t h, good a → t.rest = rest → (next a t h).Finds okay rest') :
    (p.bind next).Finds okay rest' := by
  obtain ⟨a, hvalue, ha, hrest⟩ := h
  rw [Attempt.bind_of_value hvalue]
  exact hn a p.state p.within.length_le ha hrest

theorem Finds.since {step : Step s} {p : Attempt step.state α} (h : p.Finds good rest) :
    Attempt.Finds (p.since step.suffix) good rest :=
  h

/-- What follows a result goes on from it. -/
theorem Finds.goesOn {p : Attempt s Expr} {next : Expr → (t : State) → Attempt t Expr}
    {good : Expr → Prop} (h : p.Finds good rest) :
    (p.bind fun e t _ => next e t).GoesOn next good rest := by
  obtain ⟨e, hvalue, he, hrest⟩ := h
  rw [Attempt.bind_of_value hvalue]
  exact ⟨e, p.state, he, hrest, rfl, rfl⟩

/-- What is made of a result goes on. -/
theorem Finds.bindGoesOn {p : Attempt s α}
    {more : α → (t : State) → t.rest.length ≤ s.rest.length → Attempt t Expr}
    {next : Expr → (t : State) → Attempt t Expr} {good' : Expr → Prop} (h : p.Finds good rest)
    (hn : ∀ a t h, good a → t.rest = rest → (more a t h).GoesOn next good' rest') :
    (p.bind more).GoesOn next good' rest' := by
  obtain ⟨a, hvalue, ha, hrest⟩ := h
  rw [Attempt.bind_of_value hvalue]
  exact hn a p.state p.within.length_le ha hrest

theorem GoesOn.since {step : Step s} {p : Attempt step.state Expr}
    {next : Expr → (t : State) → Attempt t Expr} {good' : Expr → Prop} (h : p.GoesOn next good' rest) :
    Attempt.GoesOn (p.since step.suffix) next good' rest :=
  h

theorem GoesOn.build {span : Span} {make : Node → Expr} {next : Expr → (t : State) → Attempt t Expr}
    {good' : Expr → Prop} (h : ∀ node, good' (make node)) :
    ((Attempt.build s span make).bind fun e t _ => next e t).GoesOn next good' s.rest :=
  ⟨_, s.making _, h _, rfl, rfl, rfl⟩

variable {p : Attempt s Expr} {next next' : Expr → (t : State) → Attempt t Expr}
  {good good' : Expr → Prop}

theorem GoesOn.finds (h : p.GoesOn next good rest)
    (hn : ∀ e t, good e → t.rest = rest → (next e t).Finds good' rest') : p.Finds good' rest' := by
  obtain ⟨e, t, he, ht, hvalue, hstate⟩ := h
  obtain ⟨e', hv, hgood, hrest⟩ := hn e t he ht
  exact ⟨e', hvalue.trans hv, hgood, by rw [hstate, hrest]⟩

theorem GoesOn.trans (h : p.GoesOn next good rest)
    (hn : ∀ e t, good e → t.rest = rest → (next e t).GoesOn next' good' rest') :
    p.GoesOn next' good' rest' := by
  obtain ⟨e, t, he, ht, hvalue, hstate⟩ := h
  obtain ⟨e', t', he', ht', hv, hst⟩ := hn e t he ht
  exact ⟨e', t', he', ht', hvalue.trans hv, hstate.trans hst⟩

end Attempt

/-- No call follows. -/
theorem calls_finds {e : Expr} {s : State} {good : Expr → Prop} (he : good e) (h : s.kind ≠ .lParen) :
    (calls e s).Finds good s.rest := by
  rw [calls, State.take?_eq_none h]
  exact .ok he

/-- No operator that binds closely enough follows. -/
theorem operandTail_finds {n : Nat} {e : Expr} {s : State} {good : Expr → Prop} (he : good e)
    (h : Yields n s.kind) : (operandTail n e s).Finds good s.rest := by
  rw [operandTail]
  split
  · exact .ok he
  · rename_i step hs
    rw [State.kind_eq_of_step hs] at h
    split
    · exact .ok he
    · rename_i op hop
      rw [if_pos (h op hop)]
      exact .ok he

/-- What starts with no prefix operator is a primary expression and the calls on it. -/
theorem unary_goesOn {s : State} {good : Expr → Prop} {rest : List Token}
    (hkind : UnaryOp.ofKind? s.kind = none) (h : (primary s).Finds good rest) :
    (unary s).GoesOn calls good rest := by
  have hpost : (postfixed s).GoesOn calls good rest := by
    rw [postfixed]
    exact h.goesOn
  rw [unary]
  split
  · exact hpost
  · rename_i step hstep
    rw [← State.kind_eq_of_step hstep, hkind]
    exact hpost

theorem operand_goesOn {n : Nat} {s : State} {good : Expr → Prop} {rest : List Token}
    (h : (unary s).Finds good rest) : (operand n s).GoesOn (operandTail n) good rest := by
  rw [operand]
  exact h.goesOn

/-- An operand that no operator follows is a whole expression. -/
theorem expression_finds {s : State} {good : Expr → Prop} {rest : List Token}
    (h : (operand 1 s).GoesOn (operandTail 1) good rest) (hends : EndsOperation (nextKind rest)) :
    (expression s).Finds good rest := by
  have hoperand : (operand 1 s).Finds good rest := by
    refine h.finds fun e t he ht => ?_
    rw [← ht] at hends ⊢
    exact operandTail_finds he hends.yields
  rw [expression]
  refine hoperand.bind fun e t h he ht => ?_
  rw [← ht] at hends ⊢
  split
  · exact .ok he
  · rename_i step hstep
    rw [← State.kind_eq_of_step hstep, State.kind_eq_nextKind rfl, hends.assign]
    exact .ok he

/-- How the parser reads the tokens that a tree of the table is written with, by how closely the tree
binds: as what calls may follow, as an operand with its prefixes, as what operators may follow, as a
whole. -/
structure Rereads (e : Expr) (ts : List Token) : Prop where
  closest : 9 ≤ e.level → ∀ s rest, s.rest = ts ++ rest → (unary s).GoesOn calls (·.form = e.form) rest
  prefixed : 8 ≤ e.level → ∀ s rest, s.rest = ts ++ rest → nextKind rest ≠ .lParen →
    (unary s).Finds (·.form = e.form) rest
  operand : 1 ≤ e.level → ∀ n s rest, n ≤ e.level → s.rest = ts ++ rest → nextKind rest ≠ .lParen →
    Yields (e.level + 1) (nextKind rest) → (operand n s).GoesOn (operandTail n) (·.form = e.form) rest
  whole : ∀ s rest, s.rest = ts ++ rest → EndsOperation (nextKind rest) →
    (expression s).Finds (·.form = e.form) rest

namespace Rereads

variable {e : Expr} {ts : List Token}

/-- Assignments are read as a whole only. -/
theorem of_whole (hlevel : e.level = 0) (h : ∀ s rest, s.rest = ts ++ rest →
    EndsOperation (nextKind rest) → (expression s).Finds (·.form = e.form) rest) : Rereads e ts where
  closest hn := absurd hn (by omega)
  prefixed hn := absurd hn (by omega)
  operand hn := absurd hn (by omega)
  whole := h

theorem of_operand (hlow : 1 ≤ e.level) (hlevel : e.level < 8)
    (h : ∀ n s rest, n ≤ e.level → s.rest = ts ++ rest → nextKind rest ≠ .lParen →
      Yields (e.level + 1) (nextKind rest) →
      (Parse.operand n s).GoesOn (operandTail n) (·.form = e.form) rest) : Rereads e ts where
  closest hn := absurd hn (by omega)
  prefixed hn := absurd hn (by omega)
  operand _ := h
  whole s rest hs hends := expression_finds (h 1 s rest hlow hs hends.call hends.yields) hends

theorem of_prefixed (hlevel : e.level = 8) (h : ∀ s rest, s.rest = ts ++ rest →
    nextKind rest ≠ .lParen → (Parse.unary s).Finds (·.form = e.form) rest) : Rereads e ts where
  closest hn := absurd hn (by omega)
  prefixed _ := h
  operand _ _ s rest _ hs hcall _ := operand_goesOn (h s rest hs hcall)
  whole s rest hs hends := expression_finds (operand_goesOn (h s rest hs hends.call)) hends

theorem of_closest (h : ∀ s rest, s.rest = ts ++ rest →
    (Parse.unary s).GoesOn calls (·.form = e.form) rest) : Rereads e ts := by
  have hprefixed : ∀ s rest, s.rest = ts ++ rest → nextKind rest ≠ .lParen →
      (Parse.unary s).Finds (·.form = e.form) rest := by
    intro s rest hs hcall
    refine (h s rest hs).finds fun e' t he ht => ?_
    rw [← ht] at hcall ⊢
    exact calls_finds he hcall
  exact {
    closest := fun _ => h
    prefixed := fun _ => hprefixed
    operand := fun _ _ s rest _ hs hcall _ => operand_goesOn (hprefixed s rest hs hcall)
    whole := fun s rest hs hends =>
      expression_finds (operand_goesOn (hprefixed s rest hs hends.call)) hends }

end Rereads

section Primary

variable {s : State} {t : Token} {rest : List Token}

theorem primary_constant {value : Constant} (hs : s.rest = t :: rest) (hvalue : constant? t = some value) :
    (primary s).Finds (·.form = .constant default value) rest := by
  obtain ⟨step, hstep, rfl, rfl⟩ := State.exists_step_of_rest hs
  rw [primary, hstep]
  simp only [hvalue]
  exact .since (.build fun _ => rfl)

theorem primary_name (hs : s.rest = t :: rest) (hname : t.kind = .ident) :
    (primary s).Finds (·.form = .ident ⟨default, t.text⟩) rest := by
  obtain ⟨step, hstep, rfl, rfl⟩ := State.exists_step_of_rest hs
  have hnone : constant? step.token = none := constant?_eq_none (by rw [hname]; rfl)
  rw [primary, hstep]
  simp only [hnone, hname]
  exact .since (.build fun _ => rfl)

theorem expect_finds {k : Kind} (hs : s.rest = t :: rest) (hk : t.kind = k) :
    (expect s k).Finds (· = t) rest := by
  obtain ⟨step, hstep, rfl, rfl⟩ := State.exists_take_of_rest hs hk
  rw [expect, hstep]
  exact .ok rfl

theorem primary_group {close : Token} {us : List Token} {form : Expr} (hs : s.rest = t :: us)
    (hopen : t.kind = .lParen) (hclose : close.kind = .rParen)
    (h : ∀ s, s.rest = us → (expression s).Finds (·.form = form) (close :: rest)) :
    (primary s).Finds (·.form = .group default form) rest := by
  obtain ⟨step, hstep, rfl, rfl⟩ := State.exists_step_of_rest hs
  have hnone : constant? step.token = none := constant?_eq_none (by rw [hopen]; rfl)
  rw [primary, hstep]
  simp only [hnone, hopen]
  refine (h step.state rfl).bind fun inner u _ hinner hu => ?_
  refine (expect_finds hu hclose).bind fun c v _ _ hv => ?_
  rw [← hv]
  exact .build fun node => congrArg (Expr.group default) hinner

end Primary

/-- A name is read as what it is. -/
theorem rereads_name {i : Ident} {t : Token} (hname : t.kind = .ident) (htext : t.text = i.name) :
    Rereads (.ident i) [t] := by
  refine .of_closest fun s rest hs => unary_goesOn ?_ ?_
  · rw [State.kind_eq_nextKind hs]
    exact congrArg UnaryOp.ofKind? hname
  · rw [Expr.form, ← htext]
    exact primary_name hs hname

/-- What has the form of a name is a name. -/
theorem eq_ident_of_form {e : Expr} {name : Bytes} (h : e.form = .ident ⟨default, name⟩) :
    ∃ i : Ident, e = .ident i ∧ i.name = name := by
  cases e with
  | ident i =>
    injection h with h
    injection h with hnode hname
    exact ⟨i, rfl, hname⟩
  | _ => cases h

/-- Where a closing parenthesis comes no expression starts. -/
theorem argumentList_value_none {s : State} (h : s.kind = .rParen) : (argumentList s).value = none := by
  have hprimary : (primary s).value = none := by
    rw [primary]
    split
    · rfl
    · rename_i step hstep
      rw [State.kind_eq_of_step hstep] at h
      have hnone : constant? step.token = none := constant?_eq_none (by rw [h]; rfl)
      simp only [hnone, h]
      rfl
  have hpost : (postfixed s).value = none := by
    rw [postfixed]
    exact Attempt.bind_value_none hprimary
  have hunary : (unary s).value = none := by
    rw [unary]
    split
    · exact hpost
    · rename_i step hstep
      rw [← State.kind_eq_of_step hstep, h]
      exact hpost
  have hoperand : (operand 1 s).value = none := by
    rw [operand]
    exact Attempt.bind_value_none hunary
  have hexpression : (expression s).value = none := by
    rw [expression]
    exact Attempt.bind_value_none hoperand
  rw [argumentList]
  exact Attempt.bind_value_none hexpression

/-- Arguments are none or a list. -/
theorem arguments_finds {es : List Expr} {ts rest : List Token} {close : Token} {s : State}
    (hspell : Spell ts (Expr.argLeaves es)) (hclose : close.kind = .rParen)
    (hs : s.rest = ts ++ close :: rest)
    (h : es ≠ [] → (argumentList s).Finds (fun answer => Expr.forms answer.1 = Expr.forms es) rest) :
    (arguments s).Finds (fun answer => Expr.forms answer.1 = Expr.forms es) rest := by
  cases es with
  | nil =>
    rw [hspell.eq_nil] at hs
    obtain ⟨step, hstep, -, rfl⟩ := State.exists_take_of_rest hs hclose
    rw [arguments, hstep]
    exact .since (.ok rfl)
  | cons e es =>
    have hfinds := h (List.cons_ne_nil e es)
    have hnone : s.take? .rParen = none := State.take?_eq_none fun hk => by
      obtain ⟨answer, hvalue, -⟩ := hfinds
      rw [argumentList_value_none hk] at hvalue
      cases hvalue
    rw [arguments, hnone]
    exact hfinds

theorem endsOperation_of_mark {t : Token} {rest : List Token} {k : Kind} (hk : t.kind = k)
    (h : k = .rParen ∨ k = .comma) : EndsOperation (nextKind (t :: rest)) := by
  change EndsOperation t.kind
  rw [hk]
  rcases h with rfl | rfl
  · exact ⟨rfl, rfl, by decide⟩
  · exact ⟨rfl, rfl, by decide⟩

mutual

/-- The parser reads every tree of the table from the tokens it is written with. -/
theorem rereads (e : Expr) (ts : List Token) (hspell : Spell ts e.leaves) (htable : e.FollowsTable) :
    Rereads e ts := by
  cases e with
  | error node => exact htable.elim
  | constant node value =>
    obtain ⟨t, us, rfl, ⟨hvalue, -⟩, hnil⟩ := hspell.uncons
    obtain rfl := hnil.eq_nil
    refine .of_closest fun s rest hs => unary_goesOn ?_ (primary_constant hs hvalue)
    rw [State.kind_eq_nextKind hs]
    exact unary_none_of_isLiteral (isLiteral_of_constant hvalue)
  | ident i =>
    obtain ⟨t, us, rfl, ⟨hname, htext, -⟩, hnil⟩ := hspell.uncons
    obtain rfl := hnil.eq_nil
    exact rereads_name hname htext
  | group node inner =>
    obtain ⟨t, us, rfl, hopen, hus⟩ := hspell.uncons
    obtain ⟨vs, ws, rfl, hvs, hws⟩ := hus.of_append
    obtain ⟨close, xs, rfl, hclose, hnil⟩ := hws.uncons
    obtain rfl := hnil.eq_nil
    refine .of_closest fun s rest hs => unary_goesOn ?_ ?_
    · rw [State.kind_eq_nextKind hs]
      exact congrArg UnaryOp.ofKind? hopen
    · rw [List.cons_append, List.append_assoc] at hs
      exact primary_group hs hopen hclose fun u hu =>
        (rereads inner vs hvs htable).whole u _ hu (endsOperation_of_mark hclose (by decide))
  | unary node op operand =>
    obtain ⟨t, us, rfl, hop, hus⟩ := hspell.uncons
    refine .of_prefixed rfl fun s rest hs hcall => ?_
    obtain ⟨step, hstep, rfl, hrest⟩ := State.exists_step_of_rest hs
    rw [Parse.unary, hstep]
    simp only [show UnaryOp.ofKind? step.token.kind = some op from hop]
    refine ((rereads operand us hus htable.2).prefixed htable.1 _ _ hrest hcall).bind
      fun inner u _ hinner hu => ?_
    rw [← hu]
    exact .build fun node => congrArg (Expr.unary default op) hinner
  | binary node op span left right =>
    obtain ⟨hleft, hright, htl, htr⟩ := htable
    obtain ⟨ls, us, rfl, hls, hus⟩ := hspell.of_append
    obtain ⟨t, rs, rfl, ⟨hop, rfl⟩, hrs⟩ := hus.uncons
    have hlow := one_le_precedence op
    refine .of_operand hlow (Phrase.precedence_lt op) fun n s rest hn hs hcall hyields => ?_
    rw [List.append_assoc, List.cons_append] at hs
    change n ≤ op.precedence at hn
    change Yields (op.precedence + 1) (nextKind rest) at hyields
    have hnext : Yields (left.level + 1) t.kind := by
      intro op' hop'
      rw [hop] at hop'
      cases hop'
      exact Nat.lt_succ_of_le hleft
    have hnocall : t.kind ≠ .lParen := by
      intro hk
      rw [hk] at hop
      cases hop
    refine ((rereads left ls hls htl).operand (by omega) n s _ (Nat.le_trans hn hleft) hs hnocall
      hnext).trans fun left' u hl hu => ?_
    obtain ⟨step, hstep, rfl, hrest⟩ := State.exists_step_of_rest hu
    have hfinds : (operand (op.precedence + 1) step.state).Finds (·.form = right.form) rest := by
      refine ((rereads right rs hrs htr).operand (by omega) _ _ _ hright hrest hcall
        (Yields.mono hyields (by omega))).finds fun right' v hr hv => ?_
      rw [← hv] at hyields ⊢
      exact operandTail_finds hr hyields
    rw [operandTail, hstep]
    simp only [hop]
    rw [if_neg (Nat.not_lt.mpr hn)]
    refine .since (hfinds.bindGoesOn fun right' v _ hr hv => ?_)
    rw [← hv]
    refine .build fun _ => ?_
    rw [Expr.form, Expr.form, hl, hr]
  | call node target args =>
    obtain ⟨hclosest, htable, hargs⟩ := htable
    obtain ⟨vs, us, rfl, hvs, hus⟩ := hspell.of_append
    obtain ⟨t, ws, rfl, hopen, hws⟩ := hus.uncons
    obtain ⟨as, cs, rfl, has, hcs⟩ := hws.of_append
    obtain ⟨close, xs, rfl, hclose, hnil⟩ := hcs.uncons
    obtain rfl := hnil.eq_nil
    refine .of_closest fun s rest hs => ?_
    rw [List.append_assoc, List.cons_append, List.append_assoc, List.singleton_append] at hs
    refine ((rereads target vs hvs htable).closest hclosest s _ hs).trans fun target' u ht hu => ?_
    obtain ⟨step, hstep, -, hrest⟩ := State.exists_take_of_rest hu hopen
    rw [calls, hstep]
    have hfinds := arguments_finds has hclose hrest fun hne =>
      rereads_args args hne as has hargs hclose hrest
    refine .since (hfinds.bindGoesOn fun (args', span) v _ ha hv => ?_)
    rw [← hv]
    exact .build fun _ => congrArg₂ (Expr.call default) ht ha
  | assign node op span target value =>
    obtain ⟨t, us, rfl, ⟨hname, htext, -⟩, hus⟩ := hspell.uncons
    obtain ⟨o, vs, rfl, ⟨hop, rfl⟩, hvs⟩ := hus.uncons
    refine .of_whole rfl fun s rest hs hends => ?_
    have hlevel : 1 ≤ (Expr.ident target).level := by
      rw [Expr.level]
      decide
    have hbinary : BinaryOp.ofKind? o.kind = none := binary_none_of_assign hop
    have hfinds : (operand 1 s).Finds (·.form = .ident ⟨default, target.name⟩) (o :: (vs ++ rest)) := by
      refine ((rereads_name hname htext).operand hlevel 1 s (o :: (vs ++ rest)) hlevel hs ?_
        (.of_none hbinary)).finds fun e u he hu => ?_
      · intro hk
        rw [show o.kind = .lParen from hk] at hop
        cases hop
      · rw [← hu]
        refine operandTail_finds he (.of_none ?_)
        rw [State.kind_eq_nextKind hu]
        exact hbinary
    rw [expression]
    refine hfinds.bind fun left u _ hl hu => ?_
    obtain ⟨i, rfl, hi⟩ := eq_ident_of_form hl
    obtain ⟨step, hstep, rfl, hrest⟩ := State.exists_step_of_rest hu
    rw [hstep]
    simp only [hop]
    refine .since (((rereads value vs hvs htable).whole _ _ hrest hends).bind fun value' v _ hv hr => ?_)
    rw [← hr]
    refine .build fun _ => ?_
    rw [Expr.form, Expr.form, hi, hv]
termination_by sizeOf e
decreasing_by all_goals (subst_vars; simp +arith)

theorem rereads_args (es : List Expr) (hne : es ≠ []) (ts : List Token)
    (hspell : Spell ts (Expr.argLeaves es)) (htable : Expr.AllFollowTable es) {close : Token}
    (hclose : close.kind = .rParen) {s : State} {rest : List Token} (hs : s.rest = ts ++ close :: rest) :
    (argumentList s).Finds (fun answer => Expr.forms answer.1 = Expr.forms es) rest := by
  obtain ⟨e, es, rfl⟩ := List.exists_cons_of_ne_nil hne
  obtain ⟨us, vs, rfl, hus, hvs⟩ := hspell.of_append
  rw [List.append_assoc] at hs
  have harg := (rereads e us hus htable.1).whole s _ hs
  rw [argumentList]
  by_cases hlast : es = []
  · rw [hlast] at hvs
    rw [hvs.eq_nil, List.nil_append] at harg
    refine (harg (endsOperation_of_mark hclose (by decide))).bind fun arg t _ ha ht => ?_
    have hcomma : t.take? .comma = none := State.take?_eq_none fun hk => by
      have hkind : t.kind = close.kind := State.kind_eq_nextKind ht
      rw [hkind, hclose] at hk
      cases hk
    obtain ⟨step, hstep, -, rfl⟩ := State.exists_take_of_rest ht hclose
    rw [hcomma, hstep, hlast]
    exact .since (.ok (congrArg (· :: []) ha))
  · rw [Expr.moreLeaves_of_ne hlast] at hvs
    obtain ⟨comma, ws, rfl, hcomma, hws⟩ := hvs.uncons
    refine (harg (endsOperation_of_mark hcomma (by decide))).bind fun arg t _ ha ht => ?_
    obtain ⟨step, hstep, -, hrest⟩ := State.exists_take_of_rest ht hcomma
    rw [hstep]
    refine .since ((rereads_args es hlast ws hws htable.2 hclose hrest).bind
      fun (args, span) u _ hargs hu => ?_)
    rw [← hu]
    exact .ok (congrArg₂ List.cons ha hargs)
termination_by sizeOf es
decreasing_by all_goals (subst_vars; simp +arith)

end

/-- Tokens are written for one tree of the table at most. -/
theorem form_eq_of_spell {e e' : Expr} {ts : List Token} (h : Spell ts e.leaves) (ht : e.FollowsTable)
    (h' : Spell ts e'.leaves) (ht' : e'.FollowsTable) : e.form = e'.form := by
  let s : State := { rest := ts ++ [], lastSpan := .point 0 0 }
  have hends : EndsOperation (nextKind []) := ⟨rfl, rfl, by decide⟩
  obtain ⟨read, hvalue, hform, -⟩ := (rereads e ts h ht).whole s [] rfl hends
  obtain ⟨read', hvalue', hform', -⟩ := (rereads e' ts h' ht').whole s [] rfl hends
  rw [hvalue] at hvalue'
  cases hvalue'
  exact hform.symm.trans hform'

/-- Whatever the tokens, an expression that is read is the tree of the table for the tokens that were
taken, the only one, and nothing that follows goes on with it. -/
theorem expression_follows_table (s : State) (e : Expr) (h : (expression s).value = some e) :
    ∃ taken, s.rest = taken ++ (expression s).state.rest ∧ Spell taken e.leaves ∧ e.FollowsTable ∧
      EndsOperation (expression s).state.kind ∧
      ∀ other : Expr, Spell taken other.leaves → other.FollowsTable → other.form = e.form := by
  obtain ⟨taken, htaken, hread, hends⟩ := expression_gives h
  refine ⟨taken, htaken, hread.spell, hread.table, hends, fun other hspell htable => ?_⟩
  exact form_eq_of_spell hspell htable hread.spell hread.table

/-- As in `a = b += - -c * (d = 2) - f(x, y)`, with a fault on the next line. -/
def mixture : State where
  rest := [Kind.ident, .assign, .ident, .plusAssign, .minus, .minus, .ident, .star, .lParen, .ident,
    .assign, .intLit, .rParen, .minus, .ident, .lParen, .ident, .comma, .ident, .rParen, .newline,
    .rParen].map fun k => { kind := k, span := .point 0 0 }
  lastSpan := .point 0 0

theorem mixture_follows_table : ∃ e, (expression mixture).value = some e ∧ e.FollowsTable ∧
    (expression mixture).state.kind = .newline := by
  have hread : (expression mixture).value.isSome = true := by decide +kernel
  have hnext : (expression mixture).state.kind = .newline := by decide +kernel
  obtain ⟨e, he⟩ := Option.isSome_iff_exists.mp hread
  obtain ⟨-, -, -, htable, -⟩ := expression_follows_table mixture e he
  exact ⟨e, he, htable, hnext⟩

end Parse

end Craftlang
