import Craftlang.Tree.Operator
import Craftlang.Tree.Basic
import Craftlang.Proofs.Syntax.ExprRuns
import Craftlang.Proofs.Tree.Parts

/-!
# Expressions are read by the grammar

The parser of expressions takes operators as they come and compares precedences, where the grammar has
one level for each precedence. A run of operands that the parser joins is a phrase of every level
that its operators reach (`Phrase.level_append`).
-/

/-!
## The grammar

The sources of the language as sequences of kinds of tokens, one rule for each form. Operators are
layered by precedence: level `n` has the operators of precedence `n`, which bind to the left, and what
binds closer than all of them stands at the innermost level.
-/

namespace Craftlang

/-- What a piece of a source can be read as. -/
inductive PhraseKind where
  | file | items | item | function | params | paramList | param | typeMark | block | stmts | stmt
  | branch | otherwise | dotted | expr | level (n : Nat) | unary | call | calls | args | argList
  | primary
deriving DecidableEq, Repr

/-- The level inside all binary operators. -/
def PhraseKind.innermost : PhraseKind := .level 8

open Kind PhraseKind in
/-- The pieces of each category. -/
inductive Phrase : PhraseKind → List Kind → Prop
  | headed {q is} : Phrase dotted q → Phrase items is →
    Phrase file (kwNamespace :: q ++ newline :: is)
  | headless {is} : Phrase items is → Phrase file is
  | noItem : Phrase items []
  | someItem {i is} : Phrase item i → Phrase items is → Phrase items (i ++ is)
  | functionItem {f} : Phrase function f → Phrase item f
  | typeItem : Phrase item [kwType, ident, assign, ident, newline]
  | stmtItem {s} : Phrase stmt s → Phrase item s
  | tagged {q f} : Phrase dotted q → Phrase function f →
    Phrase function (kwTag :: q ++ newline :: f)
  | bare {ps r b} : Phrase params ps → Phrase typeMark r → Phrase block b →
    Phrase function (kwFun :: ident :: lParen :: ps ++ rParen :: r ++ newline :: b)
  | noParam : Phrase params []
  | someParams {ps} : Phrase paramList ps → Phrase params ps
  | lastParam {p} : Phrase param p → Phrase paramList p
  | moreParams {p ps} : Phrase param p → Phrase paramList ps → Phrase paramList (p ++ comma :: ps)
  | typedParam : Phrase param [ident, colon, ident]
  | untyped : Phrase typeMark []
  | typed : Phrase typeMark [colon, ident]
  | indented {ss} : Phrase stmts ss → Phrase block (indent :: ss ++ [dedent])
  | lastStmt {s} : Phrase stmt s → Phrase stmts s
  | moreStmts {s ss} : Phrase stmt s → Phrase stmts ss → Phrase stmts (s ++ ss)
  | declared {t} : Phrase typeMark t → Phrase stmt (kwVar :: ident :: t ++ [newline])
  | initialized {t e} : Phrase typeMark t → Phrase expr e →
    Phrase stmt (kwVar :: ident :: t ++ assign :: e ++ [newline])
  | branchStmt {s} : Phrase branch s → Phrase stmt s
  | whileStmt {e b} : Phrase expr e → Phrase block b → Phrase stmt (kwWhile :: e ++ newline :: b)
  | doStmt {b e} : Phrase block b → Phrase expr e →
    Phrase stmt (kwDo :: newline :: b ++ kwWhile :: e ++ [newline])
  | breakStmt : Phrase stmt [kwBreak, newline]
  | continueStmt : Phrase stmt [kwContinue, newline]
  | bareReturn : Phrase stmt [kwReturn, newline]
  | valueReturn {e} : Phrase expr e → Phrase stmt (kwReturn :: e ++ [newline])
  | commandStmt : Phrase stmt [command, newline]
  | exprStmt {e} : Phrase expr e → Phrase stmt (e ++ [newline])
  | ifStmt {e b o} : Phrase expr e → Phrase block b → Phrase otherwise o →
    Phrase branch (kwIf :: e ++ newline :: b ++ o)
  | noElse : Phrase otherwise []
  | elseBlock {b} : Phrase block b → Phrase otherwise (kwElse :: newline :: b)
  | elseIf {s} : Phrase branch s → Phrase otherwise (kwElse :: s)
  | oneName : Phrase dotted [ident]
  | moreNames {q} : Phrase dotted q → Phrase dotted (ident :: dot :: q)
  | assignment {k op e} : AssignOp.ofKind? k = some op → Phrase expr e →
    Phrase expr (ident :: k :: e)
  | operation {e} : Phrase (level 1) e → Phrase expr e
  | binary {k op a b} : BinaryOp.ofKind? k = some op → Phrase (level op.precedence) a →
    Phrase (level (op.precedence + 1)) b → Phrase (level op.precedence) (a ++ k :: b)
  | inner {n a} : Phrase (level (n + 1)) a → Phrase (level n) a
  | operand {a} : Phrase unary a → Phrase innermost a
  | prefixed {k op a} : UnaryOp.ofKind? k = some op → Phrase unary a → Phrase unary (k :: a)
  | plain {a} : Phrase call a → Phrase unary a
  | applied {a cs} : Phrase primary a → Phrase calls cs → Phrase call (a ++ cs)
  | noCall : Phrase calls []
  | someCall {as cs} : Phrase args as → Phrase calls cs →
    Phrase calls (lParen :: as ++ rParen :: cs)
  | noArg : Phrase args []
  | someArgs {as} : Phrase argList as → Phrase args as
  | lastArg {e} : Phrase expr e → Phrase argList e
  | moreArgs {e as} : Phrase expr e → Phrase argList as → Phrase argList (e ++ comma :: as)
  | name : Phrase primary [ident]
  | literal {k} : k.isLiteral = true → Phrase primary [k]
  | grouped {e} : Phrase expr e → Phrase primary (lParen :: e ++ [rParen])

/-! ## Reading by the grammar -/

namespace Phrase

/-- What binds closest stands at every level. -/
theorem level_of_unary {a : List Kind} (h : Phrase .unary a) {n : Nat} (hn : n ≤ 8) :
    Phrase (.level n) a := by
  obtain ⟨m, rfl⟩ : ∃ m, n = 8 - m := ⟨8 - n, by omega⟩
  induction m with
  | zero => exact .operand h
  | succ m ih =>
    by_cases hm : m < 8
    · refine .inner ?_
      rw [show 8 - (m + 1) + 1 = 8 - m by omega]
      exact ih (by omega)
    · rw [show 8 - (m + 1) = 8 - m by omega]
      exact ih (by omega)

theorem precedence_lt (op : BinaryOp) : op.precedence < 8 := by
  cases op <;> decide

/-- A phrase of a level goes on with an operator that binds no less. -/
theorem level_append {n : Nat} {a b : List Kind} {k : Kind} {op : BinaryOp}
    (ha : Phrase (.level n) a) (hk : BinaryOp.ofKind? k = some op) (hn : n ≤ op.precedence)
    (hb : Phrase (.level (op.precedence + 1)) b) : Phrase (.level n) (a ++ k :: b) := by
  generalize hc : PhraseKind.level n = c at ha
  induction ha generalizing n with
  | @binary k' op' a' b' hk' ha' hb' _ ih =>
    cases hc
    by_cases he : op'.precedence = op.precedence
    · rw [he]
      refine .binary hk ?_ hb
      rw [← he]
      exact .binary hk' ha' hb'
    · rw [List.append_assoc]
      exact .binary hk' ha' (ih (by omega) rfl)
  | @inner m a' ha' ih =>
    cases hc
    by_cases he : m = op.precedence
    · rw [he]
      refine .binary hk ?_ hb
      rw [← he]
      exact .inner ha'
    · exact .inner (ih (by omega) rfl)
  | operand h =>
    cases hc
    have := precedence_lt op
    omega
  | _ => cases hc

end Phrase

namespace Parse

/-- What is read as an expression: a phrase, a whole tree, and a name only for a single token. -/
structure ReadAs (c : PhraseKind) (e : Expr) (ks : List Kind) : Prop where
  phrase : Phrase c ks
  whole : e.isWhole = true
  name : ∀ i, e = .ident i → ks = [.ident]

/-- What is read on after an expression: it makes the tree no less whole, and no longer a name. -/
structure ReadOn (left e : Expr) (ks : List Kind) : Prop where
  whole : left.isWhole = true → e.isWhole = true
  name : ∀ i, e = .ident i → ks = [] ∧ left = e

theorem ReadOn.refl (e : Expr) : ReadOn e e [] := ⟨id, fun _ _ => ⟨rfl, rfl⟩⟩

/-- What goes on is no name any more. -/
theorem ReadOn.behind {left mid e : Expr} {ks : List Kind} {all : List Kind} (h : ReadOn mid e ks)
    (hmid : ∀ i, mid ≠ .ident i) (hwhole : left.isWhole = true → mid.isWhole = true) :
    ReadOn left e all := by
  refine ⟨fun hl => h.whole (hwhole hl), fun i he => ?_⟩
  obtain ⟨-, hne⟩ := h.name i he
  exact absurd (hne.trans he) (hmid i)

theorem ReadAs.trans {c c' : PhraseKind} {left e : Expr} {ks ls : List Kind} (h : ReadAs c left ks)
    (h' : ReadOn left e ls) (hphrase : Phrase c' (ks ++ ls)) : ReadAs c' e (ks ++ ls) := by
  refine ⟨hphrase, h'.whole h.whole, fun i he => ?_⟩
  obtain ⟨rfl, rfl⟩ := h'.name i he
  rw [List.append_nil]
  exact h.name i he

/-- What the functions read, as the grammar says it. -/
def ExprPart.Reads {α : Type} (f : ExprPart α) (a : α) (ks : List Kind) : Prop :=
  match f, a with
  | .expression, e => Phrase .expr ks ∧ e.isWhole = true
  | .operand n, e => n ≤ 8 → ReadAs (.level n) e ks
  | .tail n left, e => n ≤ 8 → (∀ a, Phrase (.level n) a → Phrase (.level n) (a ++ ks)) ∧ ReadOn left e ks
  | .unary, e => ReadAs .unary e ks
  | .postfixed, e => ReadAs .call e ks
  | .calls target, e => Phrase .calls ks ∧ ReadOn target e ks
  | .arguments, args => ∃ as, ks = as ++ [.rParen] ∧ Phrase .args as ∧ Expr.areWhole args.1 = true
  | .argumentList, args => ∃ as, ks = as ++ [.rParen] ∧ Phrase .argList as ∧ Expr.areWhole args.1 = true
  | .primary, e => ReadAs .primary e ks

theorem ExprRun.reads {α : Type} {f : ExprPart α} {s t : State} {ts : List Token} {a : α}
    (h : ExprRun f s ts a t) : f.Reads a (ts.map (·.kind)) := by
  induction h with
  | @assignment s t u ts us target step op value e _ _ hop _ he ihleft ihvalue =>
    subst he
    rw [List.map_append, List.map_cons, (ihleft (by decide)).name target rfl]
    exact ⟨.assignment hop ihvalue.1, ihvalue.2⟩
  | operation _ _ ih => exact ⟨.operation (ih (by decide)).phrase, (ih (by decide)).whole⟩
  | operand _ _ ihfirst ihtail =>
    intro hn
    rw [List.map_append]
    obtain ⟨hphrase, hon⟩ := ihtail hn
    exact ihfirst.trans hon (hphrase _ (Phrase.level_of_unary ihfirst.phrase hn))
  | yielding => exact fun hn => ⟨fun a ha => by rwa [List.map_nil, List.append_nil], .refl _⟩
  | @joined s t u n ts us step op left right join e _ hop hn _ hj _ ihright ihtail =>
    intro hle
    subst hj
    have hlt := Phrase.precedence_lt op
    have hright := ihright (by omega)
    obtain ⟨hphrase, hon⟩ := ihtail hle
    refine ⟨fun a ha => ?_, hon.behind (fun i hi => by cases hi) fun hl => ?_⟩
    · have h := hphrase _ (Phrase.level_append ha hop hn hright.phrase)
      simpa using h
    · rw [Expr.isWhole, hl, hright.whole]
      rfl
  | plain _ _ ih => exact ⟨.plain ih.phrase, ih.whole, ih.name⟩
  | prefixed _ hop _ he ih =>
    subst he
    exact ⟨.prefixed hop ih.phrase, ih.whole, fun i hi => by cases hi⟩
  | postfixed _ _ ihtarget ihcalls =>
    rw [ExprPart.Reads, List.map_append]
    exact ihtarget.trans ihcalls.2 (.applied ihtarget.phrase ihcalls.1)
  | uncalled => exact ⟨.noCall, .refl _⟩
  | @called s t u ts us step target call e args close _ hk _ hc _ ihargs ihcalls =>
    subst hc
    obtain ⟨as, has, hargs, hwhole⟩ := ihargs
    refine ⟨?_, ihcalls.2.behind (fun i hi => by cases hi) fun ht => ?_⟩
    · rw [List.map_cons, List.map_append, has, hk]
      simpa using Phrase.someCall hargs ihcalls.1
    · rw [Expr.isWhole, ht, hwhole]
      rfl
  | noArgument _ hk => exact ⟨[], by rw [List.map_singleton, hk]; rfl, .noArg, rfl⟩
  | someArguments _ _ ih =>
    obtain ⟨as, has, hargs, hwhole⟩ := ih
    exact ⟨as, has, .someArgs hargs, hwhole⟩
  | @moreArguments s t u ts us step arg args close _ _ hk _ iharg ihargs =>
    obtain ⟨as, has, hargs, hwhole⟩ := ihargs
    refine ⟨_, ?_, .moreArgs iharg.1 hargs, ?_⟩
    · rw [List.map_append, List.map_cons, has, hk]
      simp
    · rw [Expr.areWhole, iharg.2, hwhole]
      rfl
  | @lastArgument s t ts step arg _ _ hk iharg =>
    refine ⟨_, ?_, .lastArg iharg.1, ?_⟩
    · rw [List.map_append, List.map_singleton, hk]
    · rw [Expr.areWhole, iharg.2]
      rfl
  | constant _ hvalue he =>
    subst he
    exact ⟨.literal (isLiteral_of_constant hvalue), rfl, fun i hi => by cases hi⟩
  | name _ hk he =>
    subst he
    rw [ExprPart.Reads, List.map_singleton, hk]
    exact ⟨.name, rfl, fun _ _ => rfl⟩
  | @group s t ts step close inner e _ hk _ _ hk' he ih =>
    subst he
    rw [ExprPart.Reads, List.map_cons, List.map_append, List.map_singleton, hk, hk']
    exact ⟨.grouped ih.1, ih.2, fun i hi => by cases hi⟩

/-- Tokens of a line lead on in the line. -/
theorem laid_of_inline {q : LinePlace} {d : Nat} {ts : List Token} {ks : List Kind} (hts : AreInline ts)
    (h : Laid q d (ts.map (·.kind) ++ ks)) : ∃ q', Laid q' d ks ∧ (ts ≠ [] → q' = .inLine) := by
  induction ts generalizing q with
  | nil => exact ⟨q, h, fun hne => absurd rfl hne⟩
  | cons t ts ih =>
    have hboth := List.forall_mem_cons.mp hts
    obtain ⟨q', hlaid, hq⟩ := ih hboth.2 ((laid_cons_of_isInline hboth.1).mp h)
    by_cases hnil : ts = []
    · subst hnil
      exact ⟨.inLine, (laid_cons_of_isInline hboth.1).mp h, fun _ => rfl⟩
    · exact ⟨q', hlaid, fun _ => hq hnil⟩

/-- A failure is reported, unless something that is no token stands where it stops. -/
theorem State.Stops.findings_ne {s w t : State} (h : s.Stops w t) (hk : w.kind ≠ .invalid) :
    t.findings ≠ w.findings := by
  cases h with
  | expected what => exact State.findings_reportExpected_ne hk
  | target => exact List.cons_ne_self _ _

theorem State.Stops.findings {s w t : State} (h : s.Stops w t) : w.findings <:+ t.findings := by
  cases h with
  | expected what => exact w.findings_reportExpected what
  | target => exact List.suffix_cons _ _

theorem expression_reads (s : State) (q : LinePlace) (d : Nat) :
    Attempt.Reads (expression s) (Laid q d) (fun e ts ks =>
      Phrase .expr ts ∧ e.isWhole = true ∧ Laid .inLine d ks) := by
  obtain ⟨e, ts, hvalue, hrun⟩ | ⟨-, ts, hfails⟩ := expression_cases s
  · have hmoves := hrun.moves
    refine ⟨hmoves.findings ▸ List.suffix_rfl, fun hlaid _ => ⟨_, hmoves.kinds, e, hvalue, ?_⟩⟩
    have hne : ts ≠ [] := by
      rintro rfl
      have hlt := expression_length_lt s (by rw [hvalue]; rfl)
      rw [hmoves.rest] at hlt
      exact absurd hlt (Nat.lt_irrefl _)
    rw [hmoves.kinds] at hlaid
    obtain ⟨q', hrest, hq⟩ := laid_of_inline hrun.inline hlaid
    exact ⟨hrun.reads.1, hrun.reads.2, hq hne ▸ hrest⟩
  · obtain ⟨w, hmoves, hstops⟩ := hfails.moves
    refine ⟨hmoves.findings ▸ hstops.findings, fun hlaid hsame => ?_⟩
    refine absurd (hsame.trans hmoves.findings.symm) (hstops.findings_ne fun hk => ?_)
    rw [hmoves.kinds] at hlaid
    obtain ⟨q', hrest, -⟩ := laid_of_inline hfails.inline hlaid
    refine hrest.head_ne_invalid ?_
    rw [State.kind_eq] at hk
    cases hh : w.kinds.head? with
    | none =>
      rw [hh] at hk
      cases hk
    | some k =>
      rw [hh] at hk
      exact congrArg some hk

end Parse

end Craftlang
