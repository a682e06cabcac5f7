import Craftlang.Proofs.Syntax.ExprRuns
import Craftlang.Proofs.Tree.Building
import Craftlang.Proofs.Tree.Parts

/-!
# Nodes are made in order, and each is used once

The parser gives every node it makes the next number and keeps it, and the nodes below it were made before.
What it gives up was made in order too: a statement whose line does not end is kept beside the error that
takes its place, and so is all that was read of an expression that breaks off. No state is left with a number
that was given before, so the numbers in a program are all different.
-/

namespace Craftlang.Parse

/-- What was made is in order, and the next number is the one after it. -/
structure State.Counts (s : State) : Prop where
  next : s.nextId = s.made.length + 1
  order : Made.InOrder s.made

/-- The state is left for another, in which nothing that was made is lost. -/
structure State.Follows (s t : State) : Prop where
  counts : t.Counts
  keeps : s.made <:+ t.made
  le : s.nextId ≤ t.nextId

/-- Trees that were made, with numbers from `a` on that are all different. -/
structure State.Keeps (s : State) (a : Nat) (ms : List Made) : Prop where
  made : ms ⊆ s.made
  spread : Spread a s.nextId (ms.flatMap Made.ids)

namespace State

variable {s t u : State} {a : Nat} {ms ns : List Made} {m : Made}

/-- Reports and tokens make no nodes. -/
theorem Counts.unmoved (hs : s.Counts) (hn : t.nextId = s.nextId) (hm : t.made = s.made) : s.Follows t where
  counts := ⟨by rw [hn, hm, hs.next], hm ▸ hs.order⟩
  keeps := hm ▸ List.suffix_rfl
  le := Nat.le_of_eq hn.symm

theorem Counts.refl (hs : s.Counts) : s.Follows s := hs.unmoved rfl rfl

theorem Counts.step (hs : s.Counts) {step : Step s} (h : s.step? = some step) : s.Follows step.state := by
  rw [step?] at h
  split at h
  · cases h
  · cases h
    exact hs.unmoved rfl rfl

theorem Counts.take (hs : s.Counts) {k : Kind} {step : Step s} (h : s.take? k = some step) :
    s.Follows step.state :=
  hs.step (take?_eq_some h).1

/-- What follows a state follows the state behind its next token. -/
theorem Follows.of_step (hf : s.Follows t) {step : Step s} (h : s.step? = some step) : step.state.Follows t := by
  rw [step?] at h
  split at h
  · cases h
  · cases h
    exact ⟨hf.counts, hf.keeps, hf.le⟩

theorem Counts.reportExpected (hs : s.Counts) (what : Expectation) : s.Follows (s.reportExpected what) := by
  rw [State.reportExpected]
  split
  · exact hs.refl
  · exact hs.unmoved rfl rfl

theorem Follows.trans (h : s.Follows t) (h' : t.Follows u) : s.Follows u :=
  ⟨h'.counts, h.keeps.trans h'.keeps, Nat.le_trans h.le h'.le⟩

namespace Keeps

theorem nil (h : a ≤ s.nextId) : s.Keeps a [] := ⟨List.nil_subset _, .nil h⟩

theorem le (h : s.Keeps a ms) : a ≤ s.nextId := h.spread.le

theorem follow (h : s.Keeps a ms) (hf : s.Follows t) : t.Keeps a ms :=
  ⟨fun _ hm => hf.keeps.subset (h.made hm), h.spread.widen hf.le⟩

/-- First some trees were made, and others later. -/
theorem append (h : s.Keeps a ms) (hf : s.Follows t) (h' : t.Keeps s.nextId ns) : t.Keeps a (ms ++ ns) := by
  refine ⟨List.append_subset.mpr ⟨fun _ hm => hf.keeps.subset (h.made hm), h'.made⟩, ?_⟩
  rw [List.flatMap_append]
  exact h.spread.append h'.spread

/-- What is made later may be listed first. -/
theorem append_swap (h : s.Keeps a ms) (hf : s.Follows t) (h' : t.Keeps s.nextId ns) :
    t.Keeps a (ns ++ ms) := by
  have hboth := h.append hf h'
  refine ⟨fun _ hm => hboth.made (List.perm_append_comm.mem_iff.mp hm), ?_⟩
  exact hboth.spread.perm (List.perm_append_comm.flatMap_right _)

/-- What was made earlier counts from there. -/
theorem after {b : Nat} (h : s.Keeps a ms) (hb : b ≤ a) : s.Keeps b ms := ⟨h.made, h.spread.after hb⟩

end Keeps

end State

/-- What was parsed was made, with numbers from `a` on that are all different. -/
structure Parsed.Makes {s : State} {α : Type} (p : Parsed s α) (a : Nat) (nodes : α → List Made) : Prop where
  follows : s.Follows p.state
  keeps : p.state.Keeps a (nodes p.value)

/-- The same for a parser that may fail. -/
def Attempt.Makes {s : State} {α : Type} (p : Attempt s α) (a : Nat) (nodes : α → List Made) : Prop :=
  Parsed.Makes p a fun v => (v.map nodes).getD []

/-- What has no nodes. -/
def unmade {α : Type} (_ : α) : List Made := []

/-- What is a node. -/
def one {α : Type} [IsNode α] (a : α) : List Made := [IsNode.made a]

/-- A node that joins trees. -/
structure State.Joins (s : State) (a : Nat) {α : Type} [IsNode α] (make : Node → α) : Prop where
  node : ∀ n, (IsNode.made (make n)).node = n
  parts : ∀ n, s.Keeps a (IsNode.made (make n)).parts

/-- A node is made of trees that are kept. -/
theorem State.Counts.node {s : State} {a : Nat} {m x : Made} (hs : s.Counts) (hm : m = x)
    (hx : x.number = s.nextId) (h : s.Keeps a x.parts) :
    s.Follows (s.making m) ∧ (s.making m).Keeps a [m] := by
  subst hm
  refine ⟨⟨⟨congrArg (· + 1) hs.next, hx.trans hs.next, h.made, hs.order⟩,
    List.suffix_cons _ _, Nat.le_succ _⟩, List.cons_subset.mpr ⟨List.mem_cons_self, List.nil_subset _⟩, ?_⟩
  refine h.spread.snoc.perm ?_
  rw [List.flatMap_singleton]
  exact (List.perm_append_singleton _ _).trans (hx ▸ m.ids_perm).symm

namespace Parsed.Makes

variable {s : State} {α β : Type} {p : Parsed s α} {a b : Nat} {nodes : α → List Made}
  {nodes' : β → List Made}

theorem pure {v : α} (hs : s.Counts) (h : s.Keeps a (nodes v)) : (Parsed.pure s v).Makes a nodes :=
  ⟨hs.refl, h⟩

theorem build [IsNode α] {span : Span} {make : Node → α} (hs : s.Counts) (h : s.Joins a make) :
    (Parsed.build s span make).Makes a one := by
  have hnumber : (IsNode.made (make ⟨s.nextId, span⟩)).number = s.nextId := by rw [Made.number, h.node]
  obtain ⟨hfollows, hkeeps⟩ := hs.node rfl hnumber (h.parts _)
  exact ⟨hfollows, hkeeps⟩

theorem andThen {next : α → (t : State) → t.rest.length ≤ s.rest.length → Parsed t β} (hp : p.Makes a nodes)
    (hn : ∀ v t h, s.Follows t → t.Keeps a (nodes v) → (next v t h).Makes b nodes') :
    (p.andThen next).Makes b nodes' := by
  have hnext := hn p.value p.state p.within.length_le hp.follows hp.keeps
  exact ⟨hp.follows.trans hnext.follows, hnext.keeps⟩

theorem since {t : State} {p : Parsed t α} {h : t.rest <:+ s.rest} (ht : s.Follows t) (hp : p.Makes a nodes) :
    (p.since h).Makes a nodes :=
  ⟨ht.trans hp.follows, hp.keeps⟩

theorem after {b : Nat} (hp : p.Makes a nodes) (hb : b ≤ a) : p.Makes b nodes :=
  ⟨hp.follows, hp.keeps.after hb⟩

end Parsed.Makes

namespace Attempt.Makes

variable {s : State} {α β : Type} {p : Attempt s α} {a b : Nat} {nodes : α → List Made}
  {nodes' : β → List Made}

theorem fails {t : State} {h : t.rest <:+ s.rest} (ha : a ≤ s.nextId) (ht : s.Follows t) :
    Attempt.Makes (⟨none, t, h⟩ : Attempt s α) a nodes :=
  ⟨ht, .nil (Nat.le_trans ha ht.le)⟩

theorem ok {v : α} (hs : s.Counts) (h : s.Keeps a (nodes v)) : (Attempt.ok s v).Makes a nodes :=
  ⟨hs.refl, h⟩

theorem build [IsNode α] {span : Span} {make : Node → α} (hs : s.Counts) (h : s.Joins a make) :
    (Attempt.build s span make).Makes a one :=
  have hb := Parsed.Makes.build (a := a) hs h
  ⟨hb.follows, hb.keeps⟩

theorem expected {what : Expectation} (hs : s.Counts) (ha : a ≤ s.nextId) :
    (Attempt.expected s what : Attempt s α).Makes a nodes :=
  .fails ha (hs.reportExpected what)

theorem bind {next : α → (t : State) → t.rest.length ≤ s.rest.length → Attempt t β} (hb : b ≤ s.nextId)
    (hp : p.Makes a nodes)
    (hn : ∀ v t h, s.Follows t → t.Keeps a (nodes v) → (next v t h).Makes b nodes') :
    (p.bind next).Makes b nodes' := by
  obtain ⟨v, t, hw⟩ := p
  cases v with
  | none => exact .fails hb hp.follows
  | some v =>
    have hnext := hn v t hw.length_le hp.follows hp.keeps
    exact ⟨hp.follows.trans hnext.follows, hnext.keeps⟩

theorem since {t : State} {p : Attempt t α} {h : t.rest <:+ s.rest} (ht : s.Follows t) (hp : p.Makes a nodes) :
    Attempt.Makes (Parsed.since p h) a nodes :=
  Parsed.Makes.since ht hp

theorem after (hp : p.Makes a nodes) (hb : b ≤ a) : p.Makes b nodes := Parsed.Makes.after hp hb

/-- What comes of an attempt, failed or not. -/
theorem andThen {next : Option α → (t : State) → t.rest.length ≤ s.rest.length → Parsed t β}
    (hp : p.Makes a nodes)
    (hn : ∀ v t h, s.Follows t → t.Keeps a ((v.map nodes).getD []) → (next v t h).Makes b nodes') :
    Parsed.Makes (Parsed.andThen p next) b nodes' :=
  Parsed.Makes.andThen hp hn

end Attempt.Makes

/-! ### Tokens -/

section Tokens

variable {s : State}

theorem expect_makes (hs : s.Counts) (k : Kind) : (expect s k).Makes s.nextId unmade := by
  rw [expect]
  split
  · rename_i step h
    exact .since (hs.take h) (.ok (hs.take h).counts (.nil (hs.take h).le))
  · exact .expected hs (Nat.le_refl _)

theorem identifier_makes (hs : s.Counts) : (identifier s).Makes s.nextId unmade := by
  rw [identifier]
  split
  · rename_i step h
    exact .since (hs.take h) (.ok (hs.take h).counts (.nil (hs.take h).le))
  · exact .expected hs (Nat.le_refl _)

theorem typeName_makes (hs : s.Counts) : (typeName s).Makes s.nextId unmade := by
  rw [typeName]
  split
  · rename_i step h
    exact .since (hs.take h) (.ok (hs.take h).counts (.nil (hs.take h).le))
  · exact .expected hs (Nat.le_refl _)

theorem recovered_makes (hs : s.Counts) : (recovered s).Makes s.nextId unmade :=
  ⟨hs.unmoved rfl rfl, .nil (Nat.le_refl _)⟩

theorem skipped_makes (hs : s.Counts) : (skipped s).Makes s.nextId unmade :=
  ⟨hs.unmoved rfl rfl, .nil (Nat.le_refl _)⟩

theorem lineEnd_makes (hs : s.Counts) : (lineEnd s).Makes s.nextId unmade := by
  rw [lineEnd]
  split
  · exact .pure hs (.nil (Nat.le_refl _))
  · rename_i step h
    split
    · exact .since (hs.step h) (.pure (hs.step h).counts (.nil (hs.step h).le))
    · exact .pure hs (.nil (Nat.le_refl _))
    · exact .pure hs (.nil (Nat.le_refl _))
    · have hreported := hs.reportExpected .lineEnd
      exact ⟨hreported.trans (hreported.counts.unmoved rfl rfl), .nil hreported.le⟩

theorem typeMark_makes (hs : s.Counts) : (typeMark s).Makes s.nextId unmade := by
  rw [typeMark]
  split
  · exact .ok hs (.nil (Nat.le_refl _))
  · rename_i colon h
    have hcolon := hs.take h
    exact .since hcolon (.bind hcolon.le (typeName_makes hcolon.counts) fun _ _ _ ht _ =>
      .ok ht.counts (.nil (Nat.le_trans hcolon.le ht.le)))

end Tokens

/-! ### Expressions -/

/-- The nodes of expressions in a row. -/
def exprNodes (es : List Expr) : List Made := es.map .expr

/-- The nodes of what a function reads. -/
def ExprPart.nodes {α : Type} (f : ExprPart α) (a : α) : List Made :=
  match f, a with
  | .arguments, args | .argumentList, args => exprNodes args.1
  | .expression, e | .operand _, e | .tail _ _, e | .unary, e | .postfixed, e | .calls _, e | .primary, e =>
    one e

/-- The nodes of what was read before a function is called. -/
def ExprPart.before {α : Type} : ExprPart α → List Made
  | .tail _ left | .calls left => one left
  | .expression | .operand _ | .unary | .postfixed | .arguments | .argumentList | .primary => []

/-- What a run reads is made of what it makes and of what was read before. -/
theorem ExprRun.makes {α : Type} {f : ExprPart α} {s t : State} {ts : List Token} {e : α}
    (h : ExprRun f s ts e t) {a : Nat} (hs : s.Counts) (ha : s.Keeps a f.before) :
    s.Follows t ∧ t.Keeps a (f.nodes e) := by
  have hnone : ∀ s : State, s.Keeps s.nextId [] := fun s => .nil (Nat.le_refl _)
  induction h generalizing a with
  | assignment _ hstep _ _ he ihleft ihvalue =>
    obtain ⟨ht, hleft⟩ := ihleft hs ha
    have hsign := ht.counts.step hstep
    obtain ⟨hu, hvalue⟩ := ihvalue hsign.counts (hnone _)
    obtain ⟨hv, hnode⟩ := hu.counts.node (congrArg Made.expr he) rfl ((hleft.follow hsign).append hu hvalue)
    exact ⟨ht.trans (hsign.trans (hu.trans hv)), hnode⟩
  | operation _ _ ih => exact ih hs ha
  | operand _ _ ihfirst ihtail =>
    obtain ⟨ht, hfirst⟩ := ihfirst hs ha
    obtain ⟨hu, htail⟩ := ihtail ht.counts hfirst
    exact ⟨ht.trans hu, htail⟩
  | yielding | uncalled => exact ⟨hs.refl, ha⟩
  | joined hstep _ _ _ hj _ ihright ihtail =>
    have hsign := hs.step hstep
    obtain ⟨ht, hright⟩ := ihright hsign.counts (hnone _)
    obtain ⟨hu, hjoin⟩ := ht.counts.node (congrArg Made.expr hj) rfl ((ha.follow hsign).append ht hright)
    obtain ⟨hv, htail⟩ := ihtail hu.counts hjoin
    exact ⟨hsign.trans (ht.trans (hu.trans hv)), htail⟩
  | plain _ _ ih => exact ih hs ha
  | prefixed hstep _ _ he ih =>
    have hsign := hs.step hstep
    obtain ⟨ht, hinner⟩ := ih hsign.counts (ha.follow hsign)
    obtain ⟨hu, hnode⟩ := ht.counts.node (congrArg Made.expr he) rfl hinner
    exact ⟨hsign.trans (ht.trans hu), hnode⟩
  | postfixed _ _ ihtarget ihcalls =>
    obtain ⟨ht, htarget⟩ := ihtarget hs ha
    obtain ⟨hu, hcalls⟩ := ihcalls ht.counts htarget
    exact ⟨ht.trans hu, hcalls⟩
  | called hstep _ _ hc _ ihargs ihcalls =>
    have hopen := hs.step hstep
    obtain ⟨ht, hargs⟩ := ihargs hopen.counts (hnone _)
    obtain ⟨hu, hcall⟩ := ht.counts.node (congrArg Made.expr hc) rfl ((ha.follow hopen).append ht hargs)
    obtain ⟨hv, hcalls⟩ := ihcalls hu.counts hcall
    exact ⟨hopen.trans (ht.trans (hu.trans hv)), hcalls⟩
  | noArgument hstep _ => exact ⟨hs.step hstep, ha.follow (hs.step hstep)⟩
  | someArguments _ _ ih => exact ih hs ha
  | moreArguments _ hstep _ _ iharg ihargs =>
    obtain ⟨ht, harg⟩ := iharg hs ha
    have hcomma := ht.counts.step hstep
    obtain ⟨hu, hargs⟩ := ihargs hcomma.counts (hnone _)
    exact ⟨ht.trans (hcomma.trans hu), (harg.follow hcomma).append hu hargs⟩
  | lastArgument _ hstep _ iharg =>
    obtain ⟨ht, harg⟩ := iharg hs ha
    have hclose := ht.counts.step hstep
    exact ⟨ht.trans hclose, harg.follow hclose⟩
  | constant hstep _ he | name hstep _ he =>
    have htaken := hs.step hstep
    obtain ⟨ht, hnode⟩ := htaken.counts.node (congrArg Made.expr he) rfl (ha.follow htaken)
    exact ⟨htaken.trans ht, hnode⟩
  | group hstep _ _ hc _ he ih =>
    have hopen := hs.step hstep
    obtain ⟨ht, hinner⟩ := ih hopen.counts (ha.follow hopen)
    have hclose := ht.counts.step hc
    obtain ⟨hu, hnode⟩ := hclose.counts.node (congrArg Made.expr he) rfl (hinner.follow hclose)
    exact ⟨hopen.trans (ht.trans (hclose.trans hu)), hnode⟩

/-- What a run that fails makes is kept too. -/
theorem ExprFails.makes {α : Type} {f : ExprPart α} {s t : State} {ts : List Token}
    (h : ExprFails f s ts t) {a : Nat} (hs : s.Counts) (ha : s.Keeps a f.before) : s.Follows t := by
  have hnone : ∀ s : State, s.Keeps s.nextId [] := fun s => .nil (Nat.le_refl _)
  induction h generalizing a with
  | target hleft _ _ _ =>
    obtain ⟨ht, -⟩ := hleft.makes hs ha
    exact ht.trans (ht.counts.unmoved rfl rfl)
  | value hleft hstep _ _ ih =>
    obtain ⟨ht, -⟩ := hleft.makes hs ha
    have hsign := ht.counts.step hstep
    exact ht.trans (hsign.trans (ih hsign.counts (hnone _)))
  | left _ ih | first _ ih | plain _ _ ih | called _ ih | someArguments _ _ ih | argument _ ih =>
    exact ih hs ha
  | tail hfirst _ ih | calls hfirst _ ih =>
    obtain ⟨ht, hleft⟩ := hfirst.makes hs ha
    exact ht.trans (ih ht.counts hleft)
  | right hstep _ _ _ ih | prefixed hstep _ _ ih | arguments hstep _ _ ih | inner hstep _ _ ih =>
    have hsign := hs.step hstep
    exact hsign.trans (ih hsign.counts (hnone _))
  | further hstep _ _ hright hj _ ih | again hstep _ hright hj _ ih =>
    have hsign := hs.step hstep
    obtain ⟨ht, hright⟩ := hright.makes hsign.counts (hnone _)
    obtain ⟨hu, hjoin⟩ := ht.counts.node (congrArg Made.expr hj) rfl ((ha.follow hsign).append ht hright)
    exact hsign.trans (ht.trans (hu.trans (ih hu.counts hjoin)))
  | moreArguments harg hstep _ _ ih =>
    obtain ⟨ht, -⟩ := harg.makes hs ha
    have hcomma := ht.counts.step hstep
    exact ht.trans (hcomma.trans (ih hcomma.counts (hnone _)))
  | unlisted harg _ _ =>
    obtain ⟨ht, -⟩ := harg.makes hs ha
    exact ht.trans (ht.counts.reportExpected _)
  | primary => exact hs.reportExpected _
  | unclosed hstep _ hinner _ =>
    have hopen := hs.step hstep
    obtain ⟨ht, -⟩ := hinner.makes hopen.counts (hnone _)
    exact hopen.trans (ht.trans (ht.counts.reportExpected _))

theorem expression_makes {s : State} (hs : s.Counts) : (expression s).Makes s.nextId one := by
  have hnone : s.Keeps s.nextId [] := .nil (Nat.le_refl _)
  obtain ⟨e, ts, hvalue, hrun⟩ | ⟨hvalue, ts, hfails⟩ := expression_cases s
  · obtain ⟨hfollows, hkeeps⟩ := hrun.makes hs hnone
    refine ⟨hfollows, ?_⟩
    rw [hvalue]
    exact hkeeps
  · have hfollows := hfails.makes hs hnone
    refine ⟨hfollows, ?_⟩
    rw [hvalue]
    exact .nil hfollows.le

/-! ### Statements -/

section Statements

variable {s : State} {start : Span} {a : Nat}

/-- An error has no parts, whatever was made before it. -/
theorem error_makes {span : Span} (hs : s.Counts) (ha : a ≤ s.nextId) :
    (Parsed.build s span Stmt.error).Makes a one :=
  .build hs ⟨fun _ => rfl, fun _ => .nil ha⟩

theorem failed_makes (hs : s.Counts) (ha : a ≤ s.nextId) : (failed s start).Makes a one :=
  .andThen (recovered_makes hs) fun _ _ _ ht _ => error_makes ht.counts (Nat.le_trans ha ht.le)

/-- The statement is made, and the error too if the line does not end. -/
theorem simple_makes {span : Span} {make : Node → Stmt} (hs : s.Counts) (h : s.Joins a make) :
    (simple s span make).Makes a one := by
  refine .andThen (.build hs h) fun stmt t _ ht hstmt => ?_
  refine .andThen (lineEnd_makes ht.counts) fun ended u _ hu _ => ?_
  split
  · exact .pure hu.counts (hstmt.follow hu)
  · exact error_makes hu.counts (hstmt.follow hu).le

theorem declaration_makes (hs : s.Counts) : (declaration start s).Makes s.nextId one := by
  have hheader : Attempt.Makes ((identifier s).bind fun name t _ =>
      (typeMark t).bind fun type u _ => .ok u (name, type)) s.nextId unmade :=
    .bind (Nat.le_refl _) (identifier_makes hs) fun _ _ _ ht _ =>
      .bind ht.le (typeMark_makes ht.counts) fun _ _ _ hu _ => .ok hu.counts (.nil (Nat.le_trans ht.le hu.le))
  rw [declaration]
  refine Attempt.Makes.andThen hheader fun parts t _ ht _ => ?_
  split
  · exact failed_makes ht.counts ht.le
  · split
    · exact simple_makes ht.counts ⟨fun _ => rfl, fun _ => .nil ht.le⟩
    · rename_i sign h
      have hsign := ht.counts.take h
      have hle := Nat.le_trans ht.le hsign.le
      refine .since hsign (Attempt.Makes.andThen (expression_makes hsign.counts) fun value u _ hu hvalue => ?_)
      split
      · exact simple_makes hu.counts ⟨fun _ => rfl, fun _ => hvalue.after hle⟩
      · -- the error stands for the value
        have hbuilt : Parsed.Makes (Parsed.build u (sign.token.span.cover u.lastSpan) Expr.error) s.nextId one :=
          .build hu.counts ⟨fun _ => rfl, fun _ => .nil (Nat.le_trans hle hu.le)⟩
        refine .andThen hbuilt fun e v _ hv he => .andThen (recovered_makes hv.counts) fun _ w _ hw _ => ?_
        exact .build hw.counts ⟨fun _ => rfl, fun _ => he.follow hw⟩

theorem returned_makes (hs : s.Counts) : (returned start s).Makes s.nextId one := by
  have hbare : (simple s (start.cover s.lastSpan) fun node => .give node none).Makes s.nextId one :=
    simple_makes hs ⟨fun _ => rfl, fun _ => .nil (Nat.le_refl _)⟩
  rw [returned]
  split
  · exact hbare
  · exact hbare
  · exact hbare
  · refine Attempt.Makes.andThen (expression_makes hs) fun value t _ ht hvalue => ?_
    split
    · exact failed_makes ht.counts ht.le
    · exact simple_makes ht.counts ⟨fun _ => rfl, fun _ => hvalue⟩

theorem condition_makes (hs : s.Counts) : (condition s).Makes s.nextId one := by
  rw [condition]
  refine Attempt.Makes.andThen (expression_makes hs) fun cond t _ ht hcond => ?_
  split
  · exact .andThen (recovered_makes ht.counts) fun _ u _ hu _ => .pure hu.counts (hcond.follow hu)
  · refine .andThen (lineEnd_makes ht.counts) fun ended u _ hu _ => .pure hu.counts ?_
    split
    · exact hcond.follow hu
    · exact .nil (hcond.follow hu).le

end Statements

mutual

theorem block_makes {s : State} (hs : s.Counts) : (block s).Makes s.nextId one := by
  rw [block]
  split
  · exact .expected hs (Nat.le_refl _)
  · rename_i opening h
    have hlen := opening.length_lt
    have hopening := hs.take h
    refine Parsed.Makes.since hopening
      (.andThen (statements_makes hopening.counts) fun stmts t _ ht hstmts => ?_)
    exact Attempt.Makes.build ht.counts ⟨fun _ => rfl, fun _ => hstmts.after hopening.le⟩
termination_by s.rest.length * 4 + 1
decreasing_by all_goals omega

theorem statements_makes {s : State} (hs : s.Counts) : (statements s).Makes s.nextId (·.map .stmt) := by
  rw [statements]
  split
  · exact .pure hs (.nil (Nat.le_refl _))
  · rename_i step h
    have hlen := step.length_lt
    have hstep := hs.step h
    split
    · exact .pure hs (.nil (Nat.le_refl _))
    · split
      · exact .since hstep (.pure hstep.counts (.nil hstep.le))
      · split
        · exact .since hstep ((statements_makes hstep.counts).after hstep.le)
        · rename_i heof hdedent _
          refine .since hstep (.andThen (statement_makes hs step h heof hdedent) fun stmt t hle ht hstmt => ?_)
          refine .andThen (statements_makes ht.counts) fun stmts u _ hu hstmts => .pure hu.counts ?_
          exact (hstmt.append hu hstmts).after hstep.le
termination_by s.rest.length * 4
decreasing_by all_goals omega

theorem statement_makes {s : State} (hs : s.Counts) (step : Step s) (h : s.step? = some step)
    (heof : step.token.kind ≠ .eof) (hdedent : step.token.kind ≠ .dedent) :
    (statement s step heof hdedent).Makes step.state.nextId one := by
  have hlen := step.length_lt
  have hstep := hs.step h
  have hleaf : step.state.Keeps step.state.nextId [] := .nil (Nat.le_refl _)
  rw [statement]
  split
  · exact declaration_makes hstep.counts
  · exact branch_makes hstep.counts
  · refine Attempt.Makes.andThen (condition_makes hstep.counts) fun cond t _ ht hcond => ?_
    split
    · exact error_makes ht.counts ht.le
    · refine Attempt.Makes.andThen (block_makes ht.counts) fun body u _ hu hbody => ?_
      split
      · exact error_makes hu.counts (hcond.follow hu).le
      · exact .build hu.counts ⟨fun _ => rfl, fun _ => hcond.append hu hbody⟩
  · refine .andThen (lineEnd_makes hstep.counts) fun ended t _ ht _ => ?_
    split
    · exact error_makes ht.counts ht.le
    · refine Attempt.Makes.andThen (block_makes ht.counts) fun body u _ hu hbody => ?_
      have hbody := hbody.after ht.le
      split
      · exact error_makes hu.counts hbody.le
      · have hwhile : Attempt.Makes ((expect u .kwWhile).bind fun _ v _ => expression v) u.nextId one :=
          .bind (Nat.le_refl _) (expect_makes hu.counts .kwWhile) fun _ v _ hv _ =>
            (expression_makes hv.counts).after hv.le
        refine Attempt.Makes.andThen hwhile fun cond v _ hv hcond => ?_
        split
        · exact failed_makes hv.counts (hbody.follow hv).le
        · exact simple_makes hv.counts ⟨fun _ => rfl, fun _ => hbody.append_swap hv hcond⟩
  · exact simple_makes hstep.counts ⟨fun _ => rfl, fun _ => hleaf⟩
  · exact simple_makes hstep.counts ⟨fun _ => rfl, fun _ => hleaf⟩
  · exact returned_makes hstep.counts
  · exact simple_makes hstep.counts ⟨fun _ => rfl, fun _ => hleaf⟩
  · have hnoted : step.state.Follows (step.state.withFindings (s.report .unexpectedIndent step.token.span)) :=
      hstep.counts.unmoved rfl rfl
    exact .since hnoted (.andThen (skipped_makes hnoted.counts) fun _ _ _ ht _ => error_makes ht.counts ht.le)
  case h_15 =>
    have he := expression_makes hs
    have hfollows := he.follows.of_step h
    rw [(State.step?_eq_some h).2.2]
    split
    · rename_i e hv
      have hvalue : (expression s).state.Keeps s.nextId (one e) := by
        have hkeeps := he.keeps
        rwa [hv] at hkeeps
      exact .since hfollows (simple_makes he.follows.counts ⟨fun _ => rfl, fun _ => hvalue⟩)
    · have hskipped := (recovered_makes he.follows.counts).follows
      exact .since (hfollows.trans hskipped) (error_makes hskipped.counts (he.follows.trans hskipped).le)
  all_goals
    have hnoted : step.state.Follows (step.state.withFindings (s.reportExpected .statement)) :=
      hstep.counts.unmoved rfl rfl
    exact .since hnoted (failed_makes hnoted.counts (Nat.le_refl _))
termination_by s.rest.length * 4 - 1
decreasing_by all_goals omega

theorem branch_makes {start : Span} {s : State} (hs : s.Counts) : (branch start s).Makes s.nextId one := by
  rw [branch]
  refine Attempt.Makes.andThen (condition_makes hs) fun cond t _ ht hcond => ?_
  split
  · exact error_makes ht.counts ht.le
  · refine Attempt.Makes.andThen (block_makes ht.counts) fun body u _ hu hbody => ?_
    have hhead := hcond.append hu hbody
    split
    · exact error_makes hu.counts (hcond.follow hu).le
    · split
      · exact .build hu.counts ⟨fun _ => rfl, fun _ => hhead⟩
      · rename_i other ho
        have hlen := other.length_lt
        have hother := hu.counts.take ho
        have hhead := hhead.follow hother
        refine .since hother ?_
        split
        · rename_i again ha
          have hlen' := again.length_lt
          have hagain := hother.counts.take ha
          refine .since hagain (.andThen (branch_makes hagain.counts) fun chained v _ hv hchained => ?_)
          exact .build hv.counts ⟨fun _ => rfl, fun _ => (hhead.follow hagain).append hv hchained⟩
        · refine .andThen (lineEnd_makes hother.counts) fun ended v _ hv _ => ?_
          have hhead := hhead.follow hv
          split
          · exact error_makes hv.counts hhead.le
          · refine Attempt.Makes.andThen (block_makes hv.counts) fun rest w _ hw hrest => ?_
            split
            · exact error_makes hw.counts (hhead.follow hw).le
            · exact .build hw.counts ⟨fun _ => rfl, fun _ => hhead.append hw hrest⟩
termination_by s.rest.length * 4 + 2
decreasing_by all_goals omega

end

/-! ### Items -/

section Items

variable {s : State} {start : Span} {tags : List DottedName}

theorem dottedName_makes {s : State} (hs : s.Counts) : (dottedName s).Makes s.nextId unmade := by
  rw [dottedName]
  refine .bind (Nat.le_refl _) (identifier_makes hs) fun name t _ ht _ => ?_
  split
  · exact .ok ht.counts (.nil ht.le)
  · rename_i dot h
    have hlen := dot.length_lt
    have hdot := ht.trans (ht.counts.take h)
    exact .since (ht.counts.take h) (.bind hdot.le (dottedName_makes hdot.counts) fun _ _ _ hu _ =>
      .ok hu.counts (.nil (hdot.trans hu).le))
termination_by s.rest.length
decreasing_by all_goals omega

theorem header_makes (hs : s.Counts) : (header s).Makes s.nextId unmade := by
  rw [header]
  split
  · exact .pure hs (.nil (Nat.le_refl _))
  · rename_i step h
    have hstep := hs.take h
    refine .since hstep (Attempt.Makes.andThen (dottedName_makes hstep.counts) fun name t _ ht _ => ?_)
    have ht := hstep.trans ht
    split
    · exact .andThen (recovered_makes ht.counts) fun _ _ _ hu _ => .pure hu.counts (.nil (ht.trans hu).le)
    · exact .andThen (lineEnd_makes ht.counts) fun _ _ _ hu _ => .pure hu.counts (.nil (ht.trans hu).le)

theorem parameter_makes (hs : s.Counts) : (parameter s).Makes s.nextId unmade :=
  .bind (Nat.le_refl _) (identifier_makes hs) fun _ _ _ ht _ =>
    .bind ht.le (expect_makes ht.counts .colon) fun _ _ _ hu _ =>
      .bind (ht.trans hu).le (typeName_makes hu.counts) fun _ _ _ hv _ =>
        .ok hv.counts (.nil ((ht.trans hu).trans hv).le)

theorem parameterList_makes {s : State} (hs : s.Counts) : (parameterList s).Makes s.nextId unmade := by
  rw [parameterList]
  refine .bind (Nat.le_refl _) (parameter_makes hs) fun param t _ ht _ => ?_
  split
  · rename_i comma h
    have hlen := comma.length_lt
    have hcomma := ht.trans (ht.counts.take h)
    exact .since (ht.counts.take h) (.bind hcomma.le (parameterList_makes hcomma.counts) fun _ _ _ hu _ =>
      .ok hu.counts (.nil (hcomma.trans hu).le))
  · split
    · rename_i close h
      have hclose := ht.trans (ht.counts.take h)
      exact .since (ht.counts.take h) (.ok hclose.counts (.nil hclose.le))
    · exact .expected ht.counts ht.le
termination_by s.rest.length
decreasing_by all_goals omega

theorem parameters_makes (hs : s.Counts) : (parameters s).Makes s.nextId unmade := by
  rw [parameters]
  split
  · rename_i close h
    exact .since (hs.take h) (.ok (hs.take h).counts (.nil (hs.take h).le))
  · exact parameterList_makes hs

theorem signature_makes (hs : s.Counts) : (signature s).Makes s.nextId unmade :=
  .bind (Nat.le_refl _) (identifier_makes hs) fun _ _ _ ht _ =>
    .bind ht.le (expect_makes ht.counts .lParen) fun _ _ _ hu _ =>
      have hu := ht.trans hu
      .bind hu.le (parameters_makes hu.counts) fun _ _ _ hv _ =>
        have hv := hu.trans hv
        .bind hv.le (typeMark_makes hv.counts) fun _ _ _ hw _ => .ok hw.counts (.nil (hv.trans hw).le)

theorem abandonedItem_makes {a : Nat} (hs : s.Counts) (ha : a ≤ s.nextId) : (abandonedItem s start).Makes a one :=
  .build hs ⟨fun _ => rfl, fun _ => .nil ha⟩

theorem failedItem_makes {a : Nat} (hs : s.Counts) (ha : a ≤ s.nextId) : (failedItem s start).Makes a one :=
  .andThen (recovered_makes hs) fun _ _ _ ht _ => abandonedItem_makes ht.counts (Nat.le_trans ha ht.le)

theorem function_makes (hs : s.Counts) : (function start tags s).Makes s.nextId one := by
  rw [function]
  refine Attempt.Makes.andThen (signature_makes hs) fun sig t _ ht _ => ?_
  split
  · exact failedItem_makes ht.counts ht.le
  · refine .andThen (lineEnd_makes ht.counts) fun ended u _ hu _ => ?_
    have hu := ht.trans hu
    split
    · exact abandonedItem_makes hu.counts hu.le
    · refine Attempt.Makes.andThen (block_makes hu.counts) fun body v _ hv hbody => ?_
      split
      · exact abandonedItem_makes hv.counts (hu.trans hv).le
      · exact .build hv.counts ⟨fun _ => rfl, fun _ => hbody.after hu.le⟩

theorem taggedFunction_makes {s : State} {tags : List DottedName} (hs : s.Counts) :
    (taggedFunction start tags s).Makes s.nextId one := by
  rw [taggedFunction]
  refine Attempt.Makes.andThen (dottedName_makes hs) fun name t _ ht _ => ?_
  split
  · exact failedItem_makes ht.counts ht.le
  · refine .andThen (lineEnd_makes ht.counts) fun ended u _ hu _ => ?_
    have htu := ht.trans hu
    split
    · exact abandonedItem_makes hu.counts htu.le
    · split
      · rename_i step h
        have hlen := step.length_lt
        have hstep := hu.counts.take h
        exact .since hstep ((taggedFunction_makes hstep.counts).after (htu.trans hstep).le)
      · split
        · rename_i step h
          have hstep := hu.counts.take h
          exact .since hstep ((function_makes hstep.counts).after (htu.trans hstep).le)
        · have hexpected : Attempt.Makes (Attempt.expected u .functionAfterTag : Attempt u Unit) u.nextId unmade :=
            .expected hu.counts (Nat.le_refl _)
          exact Attempt.Makes.andThen hexpected fun _ _ _ hv _ =>
            abandonedItem_makes hv.counts (htu.trans hv).le
termination_by s.rest.length
decreasing_by all_goals omega

theorem typeAlias_makes (hs : s.Counts) : (typeAlias start s).Makes s.nextId one := by
  have hparts : Attempt.Makes ((identifier s).bind fun name t _ =>
      (expect t .assign).bind fun _ u _ =>
        (typeName u).bind fun target v _ => .ok v (name, target)) s.nextId unmade :=
    .bind (Nat.le_refl _) (identifier_makes hs) fun _ _ _ ht _ =>
      .bind ht.le (expect_makes ht.counts .assign) fun _ _ _ hu _ =>
        .bind (ht.trans hu).le (typeName_makes hu.counts) fun _ _ _ hv _ =>
          .ok hv.counts (.nil ((ht.trans hu).trans hv).le)
  rw [typeAlias]
  refine Attempt.Makes.andThen hparts fun parts t _ ht _ => ?_
  split
  · exact failedItem_makes ht.counts ht.le
  · refine .andThen (lineEnd_makes ht.counts) fun ended u _ hu _ => .build hu.counts ?_
    have hleaf : u.Keeps s.nextId [] := .nil (ht.trans hu).le
    cases ended with
    | true => exact ⟨fun _ => rfl, fun _ => hleaf⟩
    | false => exact ⟨fun _ => rfl, fun _ => hleaf⟩

theorem item_makes (hs : s.Counts) (step : Step s) (h : s.step? = some step)
    (heof : step.token.kind ≠ .eof) (hdedent : step.token.kind ≠ .dedent) :
    (item s step heof hdedent).Makes step.state.nextId one := by
  have hstep := hs.step h
  rw [item]
  split
  · exact taggedFunction_makes hstep.counts
  · exact function_makes hstep.counts
  · exact typeAlias_makes hstep.counts
  · have hnoted : step.state.Follows (step.state.withFindings (s.report .lateNamespace step.token.span)) :=
      hstep.counts.unmoved rfl rfl
    exact .since hnoted (failedItem_makes hnoted.counts (Nat.le_refl _))
  · exact .andThen (statement_makes hs step h heof hdedent) fun stmt t _ ht hstmt =>
      .build ht.counts ⟨fun _ => rfl, fun _ => hstmt⟩

theorem items_makes {s : State} (hs : s.Counts) : (items s).Makes s.nextId (·.map .item) := by
  rw [items]
  split
  · exact .pure hs (.nil (Nat.le_refl _))
  · rename_i step h
    have hlen := step.length_lt
    have hstep := hs.step h
    split
    · exact .pure hs (.nil (Nat.le_refl _))
    · split
      · exact .since hstep ((items_makes hstep.counts).after hstep.le)
      · split
        · exact .since hstep ((items_makes hstep.counts).after hstep.le)
        · rename_i heof hdedent _
          refine .since hstep (.andThen (item_makes hs step h heof hdedent) fun item t hle ht hitem => ?_)
          refine .andThen (items_makes ht.counts) fun more u _ hu hmore => .pure hu.counts ?_
          exact (hitem.append hu hmore).after hstep.le
termination_by s.rest.length
decreasing_by all_goals omega

end Items

/-- All that is made of a file is made in order, and its items are among it, numbered apart. -/
theorem fileParts_makes (file : File) (tokens : List Token) :
    (fileParts file tokens).Makes 1 fun parts => parts.2.map .item :=
  .andThen (header_makes ⟨rfl, trivial⟩) fun _ _ _ ht _ =>
    .andThen (items_makes ht.counts) fun _ _ _ hu hitems => .pure hu.counts (hitems.after ht.le)

/-- No two nodes of a program have the same number. -/
theorem program_nodup (file : File) (tokens : List Token) : (program file tokens).1.ids.Nodup := by
  have hspread := (fileParts_makes file tokens).keeps.spread
  rw [List.flatMap_map] at hspread
  exact hspread.nodup

end Craftlang.Parse
