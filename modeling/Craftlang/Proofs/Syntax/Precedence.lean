import Craftlang.Proofs.Syntax.ExprReading
import Mathlib.Data.List.Forall2

/-!
# The tree of the operator table

When the parser reads an expression, the leaves of the tree are the tokens that were taken, in their
order, and the tree groups them as the table of operators says: an operand binds at least as closely as
what it is an operand of, the right one of a binary operator more closely. The parser stops where no
operator and no call goes on.
-/

namespace Craftlang

/-- What a tree tells of a token that it was read from. -/
inductive Leaf where
  | constant (value : Constant) (span : Span)
  | name (text : Bytes) (span : Span)
  | binary (op : BinaryOp) (span : Span)
  | assign (op : AssignOp) (span : Span)
  | unary (op : UnaryOp)
  | mark (kind : Kind)
deriving DecidableEq, Repr

/-- Does a leaf stand for a token? -/
def Leaf.StandsFor (t : Token) : Leaf → Prop
  | constant value span => Parse.constant? t = some value ∧ t.span = span
  | name text span => t.kind = .ident ∧ t.text = text ∧ t.span = span
  | binary op span => BinaryOp.ofKind? t.kind = some op ∧ t.span = span
  | assign op span => AssignOp.ofKind? t.kind = some op ∧ t.span = span
  | unary op => UnaryOp.ofKind? t.kind = some op
  | mark kind => t.kind = kind

namespace Expr

mutual

/-- The leaves of a tree in the order in which they are written. -/
def leaves : Expr → List Leaf
  | error _ => []
  | constant node value => [.constant value node.span]
  | ident i => [.name i.name i.node.span]
  | binary _ op span left right => left.leaves ++ .binary op span :: right.leaves
  | unary _ op operand => .unary op :: operand.leaves
  | call _ target args => target.leaves ++ .mark .lParen :: (argLeaves args ++ [.mark .rParen])
  | group _ inner => .mark .lParen :: (inner.leaves ++ [.mark .rParen])
  | assign _ op span target value =>
    .name target.name target.node.span :: .assign op span :: value.leaves

/-- The leaves of arguments, with the commas between them. -/
def argLeaves : List Expr → List Leaf
  | [] => []
  | e :: es => e.leaves ++ moreLeaves es

/-- The leaves of arguments that follow another one. -/
def moreLeaves : List Expr → List Leaf
  | [] => []
  | e :: es => .mark .comma :: (e.leaves ++ moreLeaves es)

end

theorem moreLeaves_of_ne {es : List Expr} (h : es ≠ []) :
    moreLeaves es = .mark .comma :: argLeaves es := by
  cases es with
  | nil => exact absurd rfl h
  | cons e es => rfl

/-- How closely the outermost form of an expression binds: assignments least, then the binary operators
by their precedence, then the prefix operators; calls, names, literals and groups bind closest. -/
def level : Expr → Nat
  | assign .. => 0
  | binary _ op .. => op.precedence
  | unary .. => 8
  | error _ | constant .. | ident _ | call .. | group .. => 9

mutual

/-- Do the operands of all operators bind as closely as the table asks? Inside parentheses and as the
value of an assignment any expression may stand. -/
def FollowsTable : Expr → Prop
  | error _ => False
  | constant .. | ident _ => True
  | binary _ op _ left right =>
    op.precedence ≤ left.level ∧ op.precedence < right.level ∧ left.FollowsTable ∧ right.FollowsTable
  | unary _ _ operand => 8 ≤ operand.level ∧ operand.FollowsTable
  | call _ target args => 9 ≤ target.level ∧ target.FollowsTable ∧ AllFollowTable args
  | group _ inner => inner.FollowsTable
  | assign _ _ _ _ value => value.FollowsTable

def AllFollowTable : List Expr → Prop
  | [] => True
  | e :: es => e.FollowsTable ∧ AllFollowTable es

end

end Expr

/-- Are tokens, one by one, what some leaves stand for? -/
def Spell (ts : List Token) (leaves : List Leaf) : Prop := List.Forall₂ Leaf.StandsFor ts leaves

theorem Spell.append {ts us : List Token} {ls ms : List Leaf} (ht : Spell ts ls) (hu : Spell us ms) :
    Spell (ts ++ us) (ls ++ ms) :=
  List.rel_append ht hu

theorem Spell.cons {t : Token} {ts : List Token} {l : Leaf} {ls : List Leaf} (h : l.StandsFor t)
    (ht : Spell ts ls) : Spell (t :: ts) (l :: ls) :=
  List.Forall₂.cons h ht

theorem Spell.nil : Spell [] [] := List.Forall₂.nil

namespace Parse

/-- Does no expression go on with a token of this kind? -/
structure EndsOperation (k : Kind) : Prop where
  binary : BinaryOp.ofKind? k = none
  assign : AssignOp.ofKind? k = none
  call : k ≠ .lParen

theorem Yields.mono {m n : Nat} {k : Kind} (h : Yields m k) (hmn : m ≤ n) : Yields n k :=
  fun op hop => Nat.lt_of_lt_of_le (h op hop) hmn

theorem Yields.of_none {n : Nat} {k : Kind} (h : BinaryOp.ofKind? k = none) : Yields n k := by
  intro op hop
  rw [h] at hop
  cases hop

theorem one_le_precedence (op : BinaryOp) : 1 ≤ op.precedence := by
  cases op <;> decide

theorem Yields.eq_none {k : Kind} (h : Yields 1 k) : BinaryOp.ofKind? k = none := by
  cases hop : BinaryOp.ofKind? k with
  | none => rfl
  | some op =>
    have hlt := h op hop
    have hle := one_le_precedence op
    omega

/-- A tree that binds as closely as `n` and whose leaves are `before` and what `ts` spell. -/
structure IsOperand (n : Nat) (before : List Leaf) (e : Expr) (ts : List Token) : Prop where
  spelled : ∃ ls, Spell ts ls ∧ e.leaves = before ++ ls
  level : n ≤ e.level
  table : e.FollowsTable

namespace IsOperand

variable {n : Nat} {before : List Leaf} {e : Expr} {ts : List Token}

theorem spell (h : IsOperand n [] e ts) : Spell ts e.leaves := by
  obtain ⟨ls, hls, he⟩ := h.spelled
  rw [he]
  exact hls

theorem of_spell (hs : Spell ts e.leaves) (hn : n ≤ e.level) (ht : e.FollowsTable) :
    IsOperand n [] e ts :=
  ⟨⟨e.leaves, hs, rfl⟩, hn, ht⟩

/-- What was read before belongs to the tree. -/
theorem self (hn : n ≤ e.level) (ht : e.FollowsTable) : IsOperand n e.leaves e [] :=
  ⟨⟨[], .nil, (List.append_nil _).symm⟩, hn, ht⟩

theorem mono {m : Nat} (h : IsOperand n before e ts) (hm : m ≤ n) : IsOperand m before e ts :=
  ⟨h.spelled, Nat.le_trans hm h.level, h.table⟩

/-- What is read on after a tree that tokens were read for. -/
theorem trans {first : Expr} {us : List Token} (h : IsOperand n first.leaves e us)
    (hfirst : ∃ ls, Spell ts ls ∧ first.leaves = before ++ ls) :
    IsOperand n before e (ts ++ us) := by
  obtain ⟨ls, hls, he⟩ := h.spelled
  obtain ⟨ms, hms, hf⟩ := hfirst
  exact ⟨⟨ms ++ ls, hms.append hls, by rw [he, hf, List.append_assoc]⟩, h.level, h.table⟩

end IsOperand

/-- What the functions make of their tokens, as the table says it, and what they leave. The tail of an operand
goes on with operators that bind no more closely than what was read of it. -/
def ExprPart.Gives {α : Type} (f : ExprPart α) (s : State) (ts : List Token) (a : α) (t : State) : Prop :=
  match f, a with
  | .expression, e => IsOperand 0 [] e ts ∧ EndsOperation t.kind
  | .operand n, e => n ≤ 8 → IsOperand n [] e ts ∧ Yields n t.kind ∧ t.kind ≠ .lParen
  | .tail n left, e => n ≤ left.level → left.FollowsTable → s.kind ≠ .lParen →
    (∀ op, BinaryOp.ofKind? s.kind = some op → op.precedence ≤ left.level) →
    IsOperand n left.leaves e ts ∧ Yields n t.kind ∧ t.kind ≠ .lParen
  | .unary, e => IsOperand 8 [] e ts ∧ t.kind ≠ .lParen
  | .postfixed, e => IsOperand 9 [] e ts ∧ t.kind ≠ .lParen
  | .calls target, e => 9 ≤ target.level → target.FollowsTable →
    IsOperand 9 target.leaves e ts ∧ t.kind ≠ .lParen
  | .arguments, args => Spell ts (Expr.argLeaves args.1 ++ [.mark .rParen]) ∧ Expr.AllFollowTable args.1
  | .argumentList, args => args.1 ≠ [] ∧ Spell ts (Expr.argLeaves args.1 ++ [.mark .rParen]) ∧
    Expr.AllFollowTable args.1
  | .primary, e => IsOperand 9 [] e ts

theorem ExprRun.gives {α : Type} {f : ExprPart α} {s t : State} {ts : List Token} {a : α}
    (h : ExprRun f s ts a t) : f.Gives s ts a t := by
  induction h with
  | assignment _ _ hop _ he ihleft ihvalue =>
    subst he
    obtain ⟨hvalue, hstop⟩ := ihvalue
    exact ⟨.of_spell ((ihleft (by decide)).1.spell.append (.cons ⟨hop, rfl⟩ hvalue.spell)) (Nat.zero_le _)
      hvalue.table, hstop⟩
  | operation _ hk ih =>
    obtain ⟨hleft, hyields, hcall⟩ := ih (by decide)
    exact ⟨hleft.mono (Nat.zero_le 1), hyields.eq_none, hk, hcall⟩
  | operand _ _ ihfirst ihtail =>
    intro hn
    obtain ⟨hfirst, hcall⟩ := ihfirst
    obtain ⟨he, hstop⟩ := ihtail (Nat.le_trans hn hfirst.level) hfirst.table hcall fun op hop => by
      have hlevel := hfirst.level
      have hlt := Phrase.precedence_lt op
      omega
    exact ⟨he.trans hfirst.spelled, hstop⟩
  | yielding hk => exact fun hn htable hcall _ => ⟨.self hn htable, hk, hcall⟩
  | @joined s t u n ts us step op left right join e hs hop hn _ hj _ ihright ihtail =>
    intro _ htable _ hnext
    subst hj
    rw [State.kind_eq_of_step hs] at hnext
    have hprec := Phrase.precedence_lt op
    obtain ⟨hright, hyields, hstop⟩ := ihright (by omega)
    have hspell : Spell (step.token :: ts) (.binary op step.token.span :: right.leaves) :=
      .cons ⟨hop, rfl⟩ hright.spell
    obtain ⟨he, hend⟩ := ihtail hn ⟨hnext op hop, hright.level, htable, hright.table⟩ hstop
      fun op' hop' => Nat.le_of_lt_succ (hyields op' hop')
    exact ⟨he.trans ⟨_, hspell, rfl⟩, hend⟩
  | plain _ _ ih => exact ⟨ih.1.mono (by decide), ih.2⟩
  | prefixed _ hop _ he ih =>
    subst he
    obtain ⟨hinner, hcall⟩ := ih
    exact ⟨.of_spell (.cons hop hinner.spell) (Nat.le_refl 8) ⟨hinner.level, hinner.table⟩, hcall⟩
  | postfixed _ _ ihtarget ihcalls =>
    obtain ⟨he, hcall⟩ := ihcalls ihtarget.level ihtarget.table
    exact ⟨he.trans ihtarget.spelled, hcall⟩
  | uncalled hk => exact fun hn htable => ⟨.self hn htable, hk⟩
  | @called s t u ts us step target call e args close _ hk _ hc _ ihargs ihcalls =>
    intro hn htable
    subst hc
    obtain ⟨hspell, hargs⟩ := ihargs
    have hcalled : Spell (step.token :: ts) (.mark .lParen :: (Expr.argLeaves args ++ [.mark .rParen])) :=
      .cons hk hspell
    obtain ⟨he, hcall⟩ := ihcalls (Nat.le_refl 9) ⟨hn, htable, hargs⟩
    exact ⟨he.trans ⟨_, hcalled, rfl⟩, hcall⟩
  | noArgument _ hk => exact ⟨.cons hk .nil, trivial⟩
  | someArguments _ _ ih => exact ih.2
  | moreArguments _ _ hk _ iharg ihargs =>
    obtain ⟨harg, -⟩ := iharg
    obtain ⟨hne, hspell, hargs⟩ := ihargs
    refine ⟨List.cons_ne_nil _ _, ?_, harg.table, hargs⟩
    rw [Expr.argLeaves, Expr.moreLeaves_of_ne hne, List.append_assoc]
    exact harg.spell.append (.cons hk hspell)
  | lastArgument _ _ hk iharg =>
    obtain ⟨harg, -⟩ := iharg
    refine ⟨List.cons_ne_nil _ _, ?_, harg.table, trivial⟩
    rw [Expr.argLeaves, Expr.moreLeaves, List.append_nil]
    exact harg.spell.append (.cons hk .nil)
  | constant _ hvalue he =>
    subst he
    exact .of_spell (.cons ⟨hvalue, rfl⟩ .nil) (Nat.le_refl 9) trivial
  | name _ hk he =>
    subst he
    exact .of_spell (.cons ⟨hk, rfl, rfl⟩ .nil) (Nat.le_refl 9) trivial
  | group _ hk _ _ hk' he ih =>
    subst he
    obtain ⟨hinner, -⟩ := ih
    exact .of_spell (.cons hk (hinner.spell.append (.cons hk' .nil))) (Nat.le_refl 9) hinner.table

/-- What is read is the tree of the table for the tokens that are taken, and the parser stops where nothing
goes on. -/
theorem expression_gives {s : State} {e : Expr} (h : (expression s).value = some e) :
    ∃ ts, s.rest = ts ++ (expression s).state.rest ∧ IsOperand 0 [] e ts ∧
      EndsOperation (expression s).state.kind := by
  obtain ⟨e', ts, hvalue, hrun⟩ | ⟨hvalue, -⟩ := expression_cases s
  · rw [hvalue] at h
    cases h
    exact ⟨ts, hrun.moves.rest, hrun.gives⟩
  · rw [hvalue] at h
    cases h

end Parse

end Craftlang
