import Craftlang.Proofs.Syntax.ExprReading

/-!
# Statements are read by the grammar

The parser lets the end of a block or of the file stand for the end of a line, skips line ends where a
statement may start, and takes the end of the tokens for the end of a block. None of this happens
with tokens of the right shape: within a line, its end comes before the end of anything else, and a
block that is open will be closed.
-/

namespace Craftlang.Parse

open Parsed (Reads)

/-- A parser that is entered with something new found only has to keep it. -/
theorem Parsed.Reads.found {s t : State} {α : Type} {p : Parsed t α} {hw : t.rest <:+ s.rest}
    {pre : List Kind → Prop} {post : α → List Kind → List Kind → Prop}
    (hp : t.findings <:+ p.state.findings) (hg : s.findings <:+ t.findings)
    (hne : pre s.kinds → t.findings ≠ s.findings) : (p.since hw).Reads pre post := by
  refine ⟨hg.trans hp, fun hpre hf => absurd ?_ (hne hpre)⟩
  refine (hg.eq_of_length_le ?_).symm
  rw [← hf]
  exact hp.length_le

theorem failed_grows (s : State) (start : Span) :
    s.findings <:+ (failed s start).state.findings := List.suffix_rfl

/-- The end of a line. -/
theorem lineEnd_reads (s : State) (d : Nat) :
    (lineEnd s).Reads (Laid .inLine d) fun ended ts ks =>
      ended = true ∧ ts = [.newline] ∧ Laid .lineStart d ks := by
  rw [lineEnd]
  split
  · rename_i hs
    refine ⟨List.suffix_rfl, fun hl => ?_⟩
    rw [State.step?_eq_none hs] at hl
    exact absurd hl.1 (by decide)
  · rename_i step hs
    split
    · rename_i hk
      refine .since hs (.pure fun ks hl => ?_)
      rw [hk] at hl ⊢
      exact ⟨rfl, rfl, hl.2⟩
    · rename_i hk
      refine ⟨List.suffix_rfl, fun hl => ?_⟩
      rw [(State.step?_eq_some hs).1, hk] at hl
      exact absurd hl.1 (by decide)
    · rename_i hk
      refine ⟨List.suffix_rfl, fun hl => ?_⟩
      rw [(State.step?_eq_some hs).1, hk] at hl
      exact absurd hl.1 (by decide)
    · refine ⟨s.findings_reportExpected .lineEnd, fun hl hf => absurd hf ?_⟩
      refine State.findings_reportExpected_ne ?_
      have hk := hl.head_ne_invalid
      rw [State.kind_eq]
      cases hh : s.kinds.head? with
      | none => simp
      | some k =>
        rw [hh] at hk
        simpa using hk

theorem simple_reads (s : State) (span : Span) (make : Node → Stmt) (d : Nat) :
    (simple s span make).Reads (Laid .inLine d) fun stmt ts ks =>
      (∃ n, stmt = make n) ∧ ts = [.newline] ∧ Laid .lineStart d ks := by
  rw [simple]
  refine .buildThen fun n t h => (lineEnd_reads t d).andThen fun ended u hu => ?_
  split
  · refine .pure ?_
    rintro ks - ts - ⟨-, rfl, hl⟩
    exact ⟨⟨n, rfl⟩, rfl, hl⟩
  · rename_i hended
    refine .build ?_
    rintro _ ks - ts - ⟨hen, -⟩
    exact absurd hen hended

theorem typeMark_reads (s : State) (d : Nat) :
    Attempt.Reads (typeMark s) (Laid .inLine d) fun _ ts ks =>
      Phrase .typeMark ts ∧ Laid .inLine d ks := by
  rw [typeMark]
  split
  · exact .ok fun ks hl => ⟨.untyped, hl⟩
  · rename_i colon ht
    obtain ⟨hs, hk⟩ := State.take?_eq_some ht
    refine .since hs (((typeName_reads colon.state (q := .inLine) (d := d)).of ?_).bind
      fun type t h => .ok ?_)
    · intro ks hl
      rw [hk] at hl
      exact (laid_cons_of_isInline rfl).mp hl
    · rintro ks - ts - ⟨rfl, hl⟩
      rw [hk]
      exact ⟨.typed, hl⟩

/-- What is read as a statement that starts with a kind of token. -/
def StmtReadAs (c : PhraseKind) (k : Kind) (d : Nat) (stmt : Stmt) (ts ks : List Kind) : Prop :=
  Phrase c (k :: ts) ∧ stmt.isWhole = true ∧ Laid .lineStart d ks

theorem declaration_reads (start : Span) (s : State) (d : Nat) :
    (declaration start s).Reads (Laid .inLine d) (StmtReadAs .stmt .kwVar d) := by
  rw [declaration]
  have hheader : Attempt.Reads ((identifier s).bind fun name t _ =>
      (typeMark t).bind fun type u _ => Attempt.ok u (name, type)) (Laid .inLine d)
      fun _ ts ks => ∃ m, ts = .ident :: m ∧ Phrase .typeMark m ∧ Laid .inLine d ks := by
    refine (identifier_reads s).bind fun name t h =>
      ((typeMark_reads t d).of ?_).bind fun type u hu => .ok ?_
    · rintro ks ⟨ts, -, -, hl⟩
      exact hl
    · rintro ks - m - ⟨hm, hl⟩ ts - ⟨rfl, -⟩
      exact ⟨m, by simp, hm, hl⟩
  refine Reads.andThen hheader fun header t h => ?_
  split
  · exact .afterFailure (failed_grows t start)
  · rename_i name type
    split
    · refine ((simple_reads t _ _ d).mono ?_ ?_)
      · rintro ks ⟨ts, -, a, ha, m, -, -, hl⟩
        exact hl
      · rintro stmt ts ks - ⟨⟨n, rfl⟩, rfl, hl⟩ ts₁ - ⟨a, -, m, rfl, hm, -⟩
        exact ⟨by simpa using Phrase.declared hm, rfl, hl⟩
    · rename_i sign ht
      obtain ⟨hs, hk⟩ := State.take?_eq_some ht
      refine .since hs (Reads.andThen ((expression_reads sign.state .inLine d).of ?_)
        fun value u hu => ?_)
      · rintro ks ⟨ts, -, a, ha, m, -, -, hl⟩
        rw [hk] at hl
        exact (laid_cons_of_isInline rfl).mp hl
      · split
        · rename_i e
          refine ((simple_reads u _ _ d).mono ?_ ?_)
          · rintro ks ⟨ts, -, a, ha, -, -, hl⟩
            exact hl
          · rintro stmt ts ks - ⟨⟨n, rfl⟩, rfl, hl⟩ es - ⟨e', he, hphrase, hw, -⟩ ts₁ -
              ⟨a, -, m, rfl, hm, -⟩
            cases he
            rw [hk]
            exact ⟨by simpa using Phrase.initialized hm hphrase, hw, hl⟩
        · exact .afterFailure List.suffix_rfl

theorem returned_reads (start : Span) (s : State) (d : Nat) :
    (returned start s).Reads (Laid .inLine d) (StmtReadAs .stmt .kwReturn d) := by
  have hbare : ∀ span, (simple s span fun node => .give node none).Reads (Laid .inLine d)
      (StmtReadAs .stmt .kwReturn d) := fun span => (simple_reads s _ _ d).mono (fun _ hl => hl) <| by
    rintro stmt ts ks - ⟨⟨n, rfl⟩, rfl, hl⟩
    exact ⟨.bareReturn, rfl, hl⟩
  rw [returned]
  split
  · exact hbare _
  · exact hbare _
  · exact hbare _
  · refine Reads.andThen (expression_reads s .inLine d) fun value t h => ?_
    split
    · exact .afterFailure (failed_grows t start)
    · rename_i e
      refine ((simple_reads t _ _ d).mono ?_ ?_)
      · rintro ks ⟨ts, -, a, ha, -, -, hl⟩
        exact hl
      · rintro stmt ts ks - ⟨⟨n, rfl⟩, rfl, hl⟩ es - ⟨e', he, hphrase, hw, -⟩
        cases he
        exact ⟨by simpa using Phrase.valueReturn hphrase, hw, hl⟩

theorem condition_reads (s : State) (d : Nat) :
    Attempt.Reads (condition s) (Laid .inLine d) fun cond ts ks =>
      ∃ es, ts = es ++ [.newline] ∧ Phrase .expr es ∧ cond.isWhole = true ∧ Laid .lineStart d ks := by
  rw [condition]
  refine Reads.andThen (expression_reads s .inLine d) fun cond t h => ?_
  split
  · exact .afterFailure List.suffix_rfl
  · rename_i e
    refine ((lineEnd_reads t d).of ?_).andThen fun ended u hu => .pure ?_
    · rintro ks ⟨ts, -, a, ha, -, -, hl⟩
      exact hl
    · rintro ks - ts - ⟨rfl, rfl, hl⟩ es - ⟨e', he, hphrase, hw, -⟩
      cases he
      exact ⟨e, rfl, es, rfl, hphrase, hw, hl⟩

/-- The parser of a token and what follows it, seen from after the token. -/
theorem Parsed.Reads.after {s : State} {α : Type} {step : Step s} (hs : s.step? = some step)
    {p : Parsed s α} {p' : Parsed step.state α} {pre : List Kind → Prop}
    {post : α → List Kind → List Kind → Prop} (hv : p'.value = p.value) (ht : p'.state = p.state)
    (h : p.Reads pre post) (hne : ∀ a ks, ¬ post a [] ks) :
    p'.Reads (fun ks => pre (step.token.kind :: ks))
      fun a ts ks => post a (step.token.kind :: ts) ks := by
  obtain ⟨hk, hf, -⟩ := State.step?_eq_some hs
  refine ⟨?_, fun hpre hsame => ?_⟩
  · rw [hf, ht]
    exact h.1
  · rw [ht, hf] at hsame
    obtain ⟨ts, hts, hpost⟩ := h.2 (hk ▸ hpre) hsame
    rw [hv, ht]
    cases ts with
    | nil => exact absurd hpost (hne _ _)
    | cons k ts =>
      rw [hk, List.cons_append] at hts
      injection hts with hk' hts
      exact ⟨ts, hts, hk' ▸ hpost⟩

/-- An expression and the end of its line. -/
theorem exprLine_reads (s : State) (start : Span) (q : LinePlace) (d : Nat) :
    (Parsed.andThen (expression s) fun v t _ =>
      match v with
      | some e => simple t e.span fun node => .expr node e
      | none => failed t start).Reads (Laid q d) fun stmt ts ks =>
        ts ≠ [] ∧ Phrase .stmt ts ∧ stmt.isWhole = true ∧ Laid .lineStart d ks := by
  refine Reads.andThen (expression_reads s q d) fun v t h => ?_
  split
  · rename_i e
    refine (simple_reads t _ _ d).mono ?_ ?_
    · rintro ks ⟨ts, -, a, ha, -, -, hl⟩
      exact hl
    · rintro stmt ts ks - ⟨⟨n, rfl⟩, rfl, hl⟩ es - ⟨e', he, hphrase, hw, -⟩
      cases he
      exact ⟨by simp, .exprStmt hphrase, hw, hl⟩
  · exact .afterFailure (failed_grows t _)

/-- The condition behind the block of a loop. -/
theorem loopEnd_reads (s : State) (start : Span) (body : Block) (d : Nat) :
    (Parsed.andThen ((expect s .kwWhile).bind fun _ t _ => expression t) fun cond t _ =>
      match cond with
      | none => failed t start
      | some cond => simple t (start.cover t.lastSpan) fun node => .loop node .after cond body).Reads
        (Laid .lineStart d) fun stmt ts ks => ∃ es cond n, ts = .kwWhile :: (es ++ [.newline]) ∧
          Phrase .expr es ∧ cond.isWhole = true ∧ stmt = .loop n .after cond body ∧
          Laid .lineStart d ks := by
  have hcond : Attempt.Reads ((expect s .kwWhile).bind fun _ t _ => expression t)
      (Laid .lineStart d) fun e ts ks => ∃ es, ts = .kwWhile :: es ∧ Phrase .expr es ∧
        e.isWhole = true ∧ Laid .inLine d ks := by
    refine (expect_reads s rfl).bind fun _ t _ =>
      (expression_reads t .inLine d).mono ?_ ?_
    · rintro ks ⟨ts, -, -, hl⟩
      exact hl
    · rintro e es ks - ⟨hexpr, hw, hl⟩ ts - ⟨rfl, -⟩
      exact ⟨es, rfl, hexpr, hw, hl⟩
  refine Reads.andThen hcond fun cond t h => ?_
  split
  · exact .afterFailure (failed_grows _ _)
  · rename_i cond
    refine (simple_reads t _ _ d).mono ?_ ?_
    · rintro ks ⟨ts, -, a, -, es, -, -, -, hl⟩
      exact hl
    · rintro stmt ts ks - ⟨⟨n, rfl⟩, rfl, hlaid⟩ ws - ⟨e, he, es, rfl, hexpr, hwe, -⟩
      cases he
      exact ⟨es, cond, n, rfl, hexpr, hwe, rfl, hlaid⟩

/-- A statement that is an expression. -/
theorem exprStmt_reads (s : State) (step : Step s) (hs : s.step? = some step)
    (heof : step.token.kind ≠ .eof) (hdedent : step.token.kind ≠ .dedent) (q : LinePlace) (d : Nat) :
    Parsed.Reads (match h : (expression s).value with
      | some e =>
        (simple (expression s).state e.span fun node => .expr node e).since
          (expression_suffix_tail s step (by simp [h]))
      | none =>
        let skipped := (expression s).state.recover
        (Parsed.build skipped (step.token.span.cover skipped.lastSpan) Stmt.error).since
          (State.recover_suffix_tail (step.cons ▸ (expression s).within) heof hdedent))
      (fun ks => Laid q d (step.token.kind :: ks)) (StmtReadAs .stmt step.token.kind d) := by
  refine (Parsed.Reads.after hs ?_ ?_ (exprLine_reads s step.token.span q d) fun _ _ h => h.1 rfl).mono (fun _ hl => hl)
    fun _ _ _ _ h => h.2
  · split
    · simp_all [Parsed.andThen, Parsed.since]
    · simp_all [Parsed.andThen, Parsed.since]
      rfl
  · split
    · simp_all [Parsed.andThen, Parsed.since]
    · simp_all [Parsed.andThen, Parsed.since]
      rfl

/-- A keyword that starts no statement is reported. -/
theorem misplaced_reads {s : State} {step : Step s} (hs : s.step? = some step)
    (hk : step.token.kind ≠ .invalid) {pre : List Kind → Prop}
    {post : Stmt → List Kind → List Kind → Prop} :
    ((failed (step.state.withFindings (s.reportExpected .statement)) step.token.span).since
      List.suffix_rfl : Parsed step.state Stmt).Reads pre post := by
  obtain ⟨hkinds, hf, -⟩ := State.step?_eq_some hs
  refine .found (failed_grows _ _) ?_ fun _ => ?_
  · rw [hf]
    exact s.findings_reportExpected .statement
  · rw [hf]
    refine State.findings_reportExpected_ne ?_
    rw [State.kind_eq, hkinds]
    exact hk

mutual

theorem block_reads (s : State) (d : Nat) :
    Attempt.Reads (block s) (Laid .lineStart d) fun b ts ks =>
      Phrase .block ts ∧ b.isWhole = true ∧ Laid .lineStart d ks := by
  rw [block]
  split
  · exact .expected fun ks hl => hl.head_ne_invalid
  · rename_i opening ht
    have hlen := opening.length_lt
    obtain ⟨hs, hk⟩ := State.take?_eq_some ht
    refine .since hs (Reads.andThen ((statements_reads opening.state .indented (by decide) d).of
      ?_) fun stmts t h => .buildSome ?_)
    · intro ks hl
      rw [hk] at hl
      exact hl.2
    · rintro n ks - ts hl ⟨⟨ss, rfl, hss⟩, hw, hlaid⟩
      rw [hk] at hl ⊢
      rcases hss with rfl | hss
      · exact absurd hl.2.1 (by decide)
      · exact ⟨_, rfl, by simpa using Phrase.indented hss, hw, hlaid⟩
termination_by s.rest.length * 4 + 1
decreasing_by all_goals omega

theorem statements_reads (s : State) (q : LinePlace) (hq : q ≠ .inLine) (d : Nat) :
    (statements s).Reads (Laid q (d + 1)) fun stmts ts ks =>
      (∃ ss, ts = ss ++ [.dedent] ∧ (ss = [] ∨ Phrase .stmts ss)) ∧
        Stmt.areWhole stmts = true ∧ Laid .lineStart d ks := by
  rw [statements]
  split
  · rename_i hs
    refine ⟨List.suffix_rfl, fun hl => ?_⟩
    rw [State.step?_eq_none hs] at hl
    exact absurd hl.2 (by omega)
  · rename_i step hs
    have hlen := step.length_lt
    have hkinds := (State.step?_eq_some hs).1
    split
    · rename_i hk
      refine ⟨List.suffix_rfl, fun hl => ?_⟩
      rw [hkinds, hk] at hl
      exact absurd hl.1 (by decide)
    · rename_i heof
      split
      · rename_i hk
        refine .since hs (.pure fun ks hl => ?_)
        rw [hk] at hl ⊢
        exact ⟨⟨[], rfl, .inl rfl⟩, rfl, hl.2.2⟩
      · rename_i hdedent
        split
        · rename_i hk
          -- A line end cannot come where a line starts.
          refine .since hs (.unreached (statements_reads step.state q hq d).1 fun ks hl => ?_)
          rw [hk] at hl
          exact hq hl.1
        · refine .since hs ((statement_reads s step hs heof hdedent q (d + 1)).andThen
            fun stmt t h => ((statements_reads t .lineStart (by decide) d).of ?_).andThen
              fun stmts u hu => .pure ?_)
          · rintro ks ⟨ts, -, hr⟩
            exact hr.2.2
          · rintro ks - ts - ⟨⟨ss, rfl, hss⟩, hw, hlaid⟩ ts₁ - ⟨hphrase, hw₁, -⟩
            refine ⟨⟨step.token.kind :: (ts₁ ++ ss), by simp, .inr ?_⟩, ?_, hlaid⟩
            · rcases hss with rfl | hss
              · simpa using Phrase.lastStmt hphrase
              · exact Phrase.moreStmts hphrase hss
            · rw [Stmt.areWhole, hw₁, hw]
              rfl
termination_by s.rest.length * 4
decreasing_by all_goals omega

theorem statement_reads (s : State) (step : Step s) (hs : s.step? = some step)
    (heof : step.token.kind ≠ .eof) (hdedent : step.token.kind ≠ .dedent) (q : LinePlace)
    (d : Nat) :
    (statement s step heof hdedent).Reads (fun ks => Laid q d (step.token.kind :: ks))
      (StmtReadAs .stmt step.token.kind d) := by
  have hlen := step.length_lt
  rw [statement]
  dsimp only
  split
  · rename_i hk
    rw [hk]
    exact (declaration_reads _ _ d).of fun ks hl => (laid_cons_of_isInline rfl).mp hl
  · rename_i hk
    rw [hk]
    refine (branch_reads _ _ d).mono (fun ks hl => (laid_cons_of_isInline rfl).mp hl) ?_
    rintro stmt ts ks - ⟨hphrase, hr⟩
    exact ⟨.branchStmt hphrase, hr⟩
  · rename_i hk
    rw [hk]
    refine Reads.andThen ((condition_reads step.state d).of
      fun ks hl => (laid_cons_of_isInline rfl).mp hl) fun cond t h => ?_
    split
    · exact .afterFailure List.suffix_rfl
    · rename_i cond
      refine Reads.andThen ((block_reads t d).of ?_) fun body u hu => ?_
      · rintro ks ⟨ts, -, a, -, es, -, -, -, hl⟩
        exact hl
      · split
        · exact .afterFailure List.suffix_rfl
        · rename_i body
          refine .build ?_
          rintro n ks - bs - ⟨b, hb, hblock, hwb, hlaid⟩ ts - ⟨e, he, es, rfl, hexpr, hwe, -⟩
          cases hb
          cases he
          refine ⟨by simpa using Phrase.whileStmt hexpr hblock, ?_, hlaid⟩
          rw [Stmt.isWhole, hwe, hwb]
          rfl
  · rename_i hk
    rw [hk]
    refine Reads.andThen ((lineEnd_reads step.state d).of
      fun ks hl => (laid_cons_of_isInline rfl).mp hl) fun ended t h => ?_
    split
    · rename_i hn
      refine .unreached List.suffix_rfl ?_
      rintro ks ⟨ts, -, rfl, -⟩
      cases hn
    · refine Reads.andThen ((block_reads t d).of ?_) fun body u hu => ?_
      · rintro ks ⟨ts, -, -, -, hl⟩
        exact hl
      · split
        · exact .afterFailure List.suffix_rfl
        · rename_i body
          refine (loopEnd_reads u step.token.span body d).mono ?_ ?_
          · rintro ks ⟨ts, -, a, -, -, -, hl⟩
            exact hl
          · rintro stmt ts ks - ⟨es, cond, n, rfl, hexpr, hwe, rfl, hlaid⟩ bs -
              ⟨b, hb, hblock, hwb, -⟩ ns - ⟨-, rfl, -⟩
            cases hb
            refine ⟨by simpa using Phrase.doStmt hblock hexpr, ?_, hlaid⟩
            rw [Stmt.isWhole, hwe, hwb]
            rfl
  · rename_i hk
    rw [hk]
    refine (simple_reads _ _ _ d).mono (fun ks hl => (laid_cons_of_isInline rfl).mp hl) ?_
    rintro stmt ts ks - ⟨⟨n, rfl⟩, rfl, hl⟩
    exact ⟨.breakStmt, rfl, hl⟩
  · rename_i hk
    rw [hk]
    refine (simple_reads _ _ _ d).mono (fun ks hl => (laid_cons_of_isInline rfl).mp hl) ?_
    rintro stmt ts ks - ⟨⟨n, rfl⟩, rfl, hl⟩
    exact ⟨.continueStmt, rfl, hl⟩
  · rename_i hk
    rw [hk]
    exact (returned_reads _ _ d).of fun ks hl => (laid_cons_of_isInline rfl).mp hl
  · rename_i hk
    rw [hk]
    refine (simple_reads _ _ _ d).mono (fun ks hl => (laid_cons_of_isInline rfl).mp hl) ?_
    rintro stmt ts ks - ⟨⟨n, rfl⟩, rfl, hl⟩
    exact ⟨.commandStmt, rfl, hl⟩
  · refine .found List.suffix_rfl ?_ fun _ => ?_
    · rw [(State.step?_eq_some hs).2.1]
      exact List.suffix_cons _ _
    · rw [(State.step?_eq_some hs).2.1]
      exact List.cons_ne_self _ _
  · rename_i hk
    exact misplaced_reads hs (by rw [hk]; decide)
  · rename_i hk
    exact misplaced_reads hs (by rw [hk]; decide)
  · rename_i hk
    exact misplaced_reads hs (by rw [hk]; decide)
  · rename_i hk
    exact misplaced_reads hs (by rw [hk]; decide)
  · rename_i hk
    exact misplaced_reads hs (by rw [hk]; decide)
  · exact exprStmt_reads s step hs heof hdedent q d
termination_by s.rest.length * 4 - 1
decreasing_by all_goals omega

theorem branch_reads (start : Span) (s : State) (d : Nat) :
    (branch start s).Reads (Laid .inLine d) (StmtReadAs .branch .kwIf d) := by
  rw [branch]
  refine Reads.andThen (condition_reads s d) fun cond t h => ?_
  split
  · exact .afterFailure List.suffix_rfl
  · rename_i cond
    refine Reads.andThen ((block_reads t d).of ?_) fun body u hu => ?_
    · rintro ks ⟨ts, -, a, -, es, -, -, -, hl⟩
      exact hl
    · split
      · exact .afterFailure List.suffix_rfl
      · rename_i body
        -- What comes before decides the phrase, and what comes after `else` completes it.
        have hjoin : ∀ n o os ks, Phrase .otherwise os → o.isWhole = true → Laid .lineStart d ks →
            ∀ bs, (∃ b, some body = some b ∧ Phrase .block bs ∧ b.isWhole = true ∧
              Laid .lineStart d (os ++ ks)) →
            ∀ ts, (∃ a, some cond = some a ∧ ∃ es, ts = es ++ [.newline] ∧ Phrase .expr es ∧
              a.isWhole = true ∧ Laid .lineStart d (bs ++ os ++ ks)) →
            StmtReadAs .branch .kwIf d (.branch n cond body o) (ts ++ (bs ++ os)) ks := by
          rintro n o os ks ho hwo hlaid bs ⟨b, hb, hblock, hwb, -⟩ ts ⟨e, he, es, rfl, hexpr, hwe, -⟩
          cases hb
          cases he
          refine ⟨by simpa using Phrase.ifStmt hexpr hblock ho, ?_, hlaid⟩
          rw [Stmt.isWhole, hwe, hwb, hwo]
          rfl
        split
        · refine .build fun n ks hpre bs _ hb ts _ ha => ?_
          obtain ⟨-, -, -, -, -, -, hlaid⟩ := hpre
          simpa using hjoin n .none [] ks .noElse rfl hlaid bs hb ts (by simpa using ha)
        · rename_i other ht
          have hlen := other.length_lt
          obtain ⟨hs, hk⟩ := State.take?_eq_some ht
          refine .since hs ?_
          rw [hk]
          split
          · rename_i again ht'
            have hlen' := again.length_lt
            obtain ⟨hs', hk'⟩ := State.take?_eq_some ht'
            refine .since hs' (((branch_reads again.token.span again.state d).of ?_).andThen
              fun chained v hv => .build ?_)
            · rintro ks ⟨bs, -, b, -, -, -, hl⟩
              rw [hk'] at hl
              exact (laid_cons_of_isInline rfl).mp ((laid_cons_of_isInline rfl).mp hl)
            · rintro n ks - os hpre ⟨hphrase, hwo, hlaid⟩ bs - hb ts - ha
              rw [hk'] at hb ha ⊢
              exact hjoin n (.chain chained) _ ks (by simpa using Phrase.elseIf hphrase) hwo hlaid
                bs hb ts ha
          · refine ((lineEnd_reads other.state d).of ?_).andThen fun ended v hv => ?_
            · rintro ks ⟨bs, -, b, -, -, -, hl⟩
              exact (laid_cons_of_isInline rfl).mp hl
            · split
              · rename_i hn
                refine .unreached List.suffix_rfl ?_
                rintro ks ⟨ts, -, rfl, -⟩
                cases hn
              · refine Reads.andThen ((block_reads v d).of ?_) fun rest w hw => ?_
                · rintro ks ⟨ts, -, -, -, hl⟩
                  exact hl
                · split
                  · exact .afterFailure List.suffix_rfl
                  · rename_i rest
                    refine .build ?_
                    rintro n ks - rs hpre ⟨r, hr, hblock, hwr, hlaid⟩ ns hpre' ⟨-, rfl, -⟩ bs - hb
                      ts - ha
                    cases hr
                    exact hjoin n (.block rest) _ ks (by simpa using Phrase.elseBlock hblock) hwr
                      hlaid bs hb ts ha
termination_by s.rest.length * 4 + 2
decreasing_by all_goals omega

end

end Craftlang.Parse
