import Craftlang.Proofs.Syntax.Relabelling

/-!
# Programs read from relabelled tokens

What holds of expressions holds of statements, items and programs: relabelled tokens make a relabelled tree. So
the names of a program are the identifiers of its file.
-/

namespace Craftlang

namespace Parse

section Statements

variable {ρ : Relabelling} {s s' : State}

theorem State.Mirrors.recover (hs : s.Mirrors ρ s') : s.recover.Mirrors ρ s'.recover := by
  obtain ⟨hlast, hrest⟩ := skipLine_mirrors s.lastSpan s.rest s'.rest hs.rest
  rw [← hs.lastSpan] at hlast hrest
  exact ⟨hrest, hlast, hs.nextId, hs.findings⟩

theorem recovered_mirrors (hs : s.Mirrors ρ s') : Parsed.Mirrors ρ Eq (recovered s) (recovered s') :=
  ⟨rfl, hs.recover⟩

theorem skipped_mirrors (hs : s.Mirrors ρ s') : Parsed.Mirrors ρ Eq (skipped s) (skipped s') := by
  obtain ⟨hlast, hrest⟩ := skipBlock_mirrors hs.rest 0 s.lastSpan
  rw [← hs.lastSpan] at hlast hrest
  exact ⟨rfl, hrest, hlast, hs.nextId, hs.findings⟩

theorem lineEnd_mirrors (hs : s.Mirrors ρ s') : Parsed.Mirrors ρ Eq (lineEnd s) (lineEnd s') := by
  rw [lineEnd, lineEnd]
  obtain ⟨h, h'⟩ | ⟨step, step', h, h', ht, hstate⟩ := hs.step_cases
  · rw [h, h']
    exact .pure hs rfl
  · rw [h, h']
    dsimp only
    rw [ht.kind]
    split
    · exact .since (.pure hstate rfl)
    · exact .pure hs rfl
    · exact .pure hs rfl
    · exact ⟨rfl, (hs.reportExpected _).recover⟩

theorem simple_mirrors (hs : s.Mirrors ρ s') {span span' : Span} {make make' : Node → Stmt}
    (hspan : span' = ρ.span span)
    (h : ∀ id, Becomes (Stmt.relabel ρ) (make ⟨id, span⟩) (make' ⟨id, ρ.span span⟩)) :
    Parsed.Mirrors ρ (Becomes (Stmt.relabel ρ)) (simple s span make) (simple s' span' make') := by
  refine .andThen (.build hs hspan h) fun stmt _ t t' _ _ hstmt ht => ?_
  refine .andThen (lineEnd_mirrors ht) fun ended _ u u' _ _ hended hu => ?_
  subst hended
  split
  · exact .pure hu hstmt
  · exact .build hu hspan fun id => rfl

theorem failed_mirrors (hs : s.Mirrors ρ s') (start : Span) :
    Parsed.Mirrors ρ (Becomes (Stmt.relabel ρ)) (failed s start) (failed s' (ρ.span start)) := by
  refine .andThen (recovered_mirrors hs) fun _ _ t t' _ _ _ ht => .build ht ?_ fun id => rfl
  rw [ρ.span_cover, ht.lastSpan]

theorem abandoned_mirrors (hs : s.Mirrors ρ s') (start : Span) :
    Parsed.Mirrors ρ (Becomes (Stmt.relabel ρ)) (abandoned s start) (abandoned s' (ρ.span start)) := by
  refine .build hs ?_ fun id => rfl
  rw [ρ.span_cover, hs.lastSpan]

theorem typeMark_mirrors (hs : s.Mirrors ρ s') :
    Attempt.Mirrors ρ (Becomes (Option.map ρ.name)) (typeMark s) (typeMark s') := by
  rw [typeMark, typeMark]
  obtain ⟨h, h'⟩ | ⟨step, step', h, h', -, -, hstate⟩ := hs.take_cases .colon
  · rw [h, h']
    exact .ok hs rfl
  · rw [h, h']
    refine .since (.bind (typeName_mirrors hstate) fun type _ t t' _ _ htype ht => .ok ht ?_)
    rw [htype.eq]
    rfl

theorem declaration_mirrors (hs : s.Mirrors ρ s') (start : Span) :
    Parsed.Mirrors ρ (Becomes (Stmt.relabel ρ)) (declaration start s) (declaration (ρ.span start) s') := by
  have hheader : Attempt.Mirrors ρ (Becomes fun x : Name × Option Name => (ρ.name x.1, x.2.map ρ.name))
      ((identifier s).bind fun name t _ => (typeMark t).bind fun type u _ => .ok u (name, type))
      ((identifier s').bind fun name t _ => (typeMark t).bind fun type u _ => .ok u (name, type)) := by
    refine .bind (identifier_mirrors hs) fun name _ t t' _ _ hname ht => ?_
    refine .bind (typeMark_mirrors ht) fun type _ u u' _ _ htype hu => .ok hu ?_
    rw [hname.eq, htype, Becomes]
  rw [declaration, declaration]
  refine Parsed.Mirrors.andThen hheader fun header _ t t' _ _ hvalue ht => ?_
  cases hvalue with
  | none => exact failed_mirrors ht start
  | @some header _ hvalue =>
    subst hvalue
    dsimp only
    obtain ⟨h, h'⟩ | ⟨sign, sign', h, h', hsign, -, hstate⟩ := ht.take_cases .assign
    · rw [h, h']
      refine simple_mirrors ht ?_ fun id => rfl
      rw [ρ.span_cover, ht.lastSpan]
    · rw [h, h']
      refine .since (Parsed.Mirrors.andThen (expression_mirrors hstate) fun value _ u u' _ _ hvalue hu => ?_)
      cases hvalue with
      | @some e _ he =>
        subst he
        refine simple_mirrors hu ?_ fun id => rfl
        rw [ρ.span_cover, hu.lastSpan]
      | none =>
        have hspan : sign'.token.span.cover u'.lastSpan = ρ.span (sign.token.span.cover u.lastSpan) := by
          rw [ρ.span_cover, hsign.span, hu.lastSpan]
        refine .andThen (R := Becomes (Expr.relabel ρ)) (.build hu hspan fun id => rfl)
          fun e _ v v' _ _ he hv => ?_
        subst he
        refine .andThen (recovered_mirrors hv) fun _ _ w w' _ _ _ hw => .build hw ?_ fun id => rfl
        rw [ρ.span_cover, hspan]

theorem returned_mirrors (hs : s.Mirrors ρ s') (start : Span) :
    Parsed.Mirrors ρ (Becomes (Stmt.relabel ρ)) (returned start s) (returned (ρ.span start) s') := by
  have hspan : ∀ {t t' : State}, t.Mirrors ρ t' →
      (ρ.span start).cover t'.lastSpan = ρ.span (start.cover t.lastSpan) := fun ht => by
    rw [ρ.span_cover, ht.lastSpan]
  rw [returned, returned, hs.kind]
  split
  iterate 3 exact simple_mirrors hs (hspan hs) fun id => rfl
  refine Parsed.Mirrors.andThen (expression_mirrors hs) fun value _ t t' _ _ hvalue ht => ?_
  cases hvalue with
  | none => exact failed_mirrors ht start
  | @some e _ he =>
    subst he
    exact simple_mirrors ht (hspan ht) fun id => rfl

theorem condition_mirrors (hs : s.Mirrors ρ s') :
    Attempt.Mirrors ρ (Becomes (Expr.relabel ρ)) (condition s) (condition s') := by
  refine Parsed.Mirrors.andThen (expression_mirrors hs) fun cond _ t t' _ _ hcond ht => ?_
  cases hcond with
  | none => exact .andThen (recovered_mirrors ht) fun _ _ u u' _ _ _ hu => .pure hu .none
  | @some e _ he =>
    refine .andThen (lineEnd_mirrors ht) fun ended _ u u' _ _ hended hu => .pure hu ?_
    subst hended
    cases ended with
    | true => exact .some he
    | false => exact .none

end Statements

mutual

theorem block_mirrors {ρ : Relabelling} {s s' : State} (hs : s.Mirrors ρ s') :
    Attempt.Mirrors ρ (Becomes (Block.relabel ρ)) (block s) (block s') := by
  rw [block.eq_1 s, block.eq_1 s']
  obtain ⟨h, h'⟩ | ⟨opening, opening', h, h', hopening, -, hstate⟩ := hs.take_cases .indent
  · rw [h, h']
    exact .expected hs _
  · have hlen := opening.length_lt
    rw [h, h']
    refine Parsed.Mirrors.since (.andThen (statements_mirrors hstate) fun stmts _ t t' _ _ hstmts ht => ?_)
    subst hstmts
    refine Attempt.Mirrors.build ht ?_ fun id => rfl
    rw [Stmt.relabelAll_eq, List.getLast?_map]
    cases stmts.getLast? with
    | none => exact hopening.span
    | some last => exact (congrArg₂ Span.cover hopening.span (last.span_relabel ρ)).trans (ρ.span_cover ..).symm
termination_by s.rest.length * 4 + 1
decreasing_by all_goals omega

theorem statements_mirrors {ρ : Relabelling} {s s' : State} (hs : s.Mirrors ρ s') :
    Parsed.Mirrors ρ (Becomes (Stmt.relabelAll ρ)) (statements s) (statements s') := by
  rw [statements.eq_1 s, statements.eq_1 s']
  obtain ⟨h, h'⟩ | ⟨step, step', h, h', htok, hstate⟩ := hs.step_cases
  · rw [h, h']
    exact .pure hs rfl
  · have hlen := step.length_lt
    rw [h, h']
    dsimp only
    by_cases heof : step.token.kind = .eof
    · rw [dif_pos heof, dif_pos (htok.kind.trans heof)]
      exact .pure hs rfl
    have heof' : ¬ step'.token.kind = .eof := htok.kind ▸ heof
    rw [dif_neg heof, dif_neg heof']
    by_cases hdedent : step.token.kind = .dedent
    · rw [dif_pos hdedent, dif_pos (htok.kind.trans hdedent)]
      exact .since (.pure (R := Becomes (Stmt.relabelAll ρ)) hstate rfl)
    have hdedent' : ¬ step'.token.kind = .dedent := htok.kind ▸ hdedent
    rw [dif_neg hdedent, dif_neg hdedent', htok.kind]
    split
    · exact .since (statements_mirrors hstate)
    · refine .since (.andThen (statement_mirrors hs htok hstate heof hdedent heof' hdedent')
        fun stmt _ t t' hle _ hstmt ht => ?_)
      refine .andThen (statements_mirrors ht) fun stmts _ u u' _ _ hstmts hu => .pure hu ?_
      rw [hstmt, hstmts]
      rfl
termination_by s.rest.length * 4
decreasing_by all_goals omega

theorem statement_mirrors {ρ : Relabelling} {s s' : State} (hs : s.Mirrors ρ s') {step : Step s}
    {step' : Step s'} (htok : step.token.Mirrors ρ step'.token) (hstate : step.state.Mirrors ρ step'.state)
    (heof : step.token.kind ≠ .eof) (hdedent : step.token.kind ≠ .dedent)
    (heof' : step'.token.kind ≠ .eof) (hdedent' : step'.token.kind ≠ .dedent) :
    Parsed.Mirrors ρ (Becomes (Stmt.relabel ρ)) (statement s step heof hdedent)
      (statement s' step' heof' hdedent') := by
  have hlen := step.length_lt
  have hspan : ∀ {t t' : State}, t.Mirrors ρ t' →
      step'.token.span.cover t'.lastSpan = ρ.span (step.token.span.cover t.lastSpan) := fun ht => by
    rw [ρ.span_cover, htok.span, ht.lastSpan]
  have habandoned : ∀ {t t' : State}, t.Mirrors ρ t' → Parsed.Mirrors ρ (Becomes (Stmt.relabel ρ))
      (abandoned t step.token.span) (abandoned t' step'.token.span) := fun ht => by
    rw [htok.span]
    exact abandoned_mirrors ht _
  have hfailed : ∀ {t t' : State}, t.Mirrors ρ t' → Parsed.Mirrors ρ (Becomes (Stmt.relabel ρ))
      (failed t step.token.span) (failed t' step'.token.span) := fun ht => by
    rw [htok.span]
    exact failed_mirrors ht _
  rw [statement.eq_1 s, statement.eq_1 s']
  dsimp only
  rw [htok.kind]
  split
  · rw [htok.span]
    exact declaration_mirrors hstate _
  · rw [htok.span]
    exact branch_mirrors hstate _
  · refine Parsed.Mirrors.andThen (condition_mirrors hstate) fun cond _ t t' _ _ hcond ht => ?_
    cases hcond with
    | none => exact habandoned ht
    | @some cond _ hcond =>
      subst hcond
      refine Parsed.Mirrors.andThen (block_mirrors ht) fun body _ u u' _ _ hbody hu => ?_
      cases hbody with
      | none => exact habandoned hu
      | @some body _ hbody =>
        subst hbody
        exact .build hu (hspan hu) fun id => rfl
  · refine .andThen (lineEnd_mirrors hstate) fun ended _ t t' _ _ hended ht => ?_
    subst hended
    split
    · exact .build ht htok.span fun id => rfl
    · refine Parsed.Mirrors.andThen (block_mirrors ht) fun body _ u u' _ _ hbody hu => ?_
      cases hbody with
      | none => exact habandoned hu
      | @some body _ hbody =>
        subst hbody
        have hcond := Attempt.Mirrors.bind (expect_mirrors hu .kwWhile)
          fun _ _ v v' _ _ _ hv => expression_mirrors hv
        refine Parsed.Mirrors.andThen hcond fun cond _ v v' _ _ hcond hv => ?_
        cases hcond with
        | none => exact hfailed hv
        | @some cond _ hcond =>
          subst hcond
          exact simple_mirrors hv (hspan hv) fun id => rfl
  iterate 2 exact simple_mirrors hstate htok.span fun id => rfl
  · rw [htok.span]
    exact returned_mirrors hstate _
  · rename_i hk
    refine simple_mirrors hstate htok.span fun id => ?_
    rw [htok.text, if_neg (by rw [hk]; decide)]
    rfl
  · refine .since (.andThen (skipped_mirrors (hstate.withFindings (hs.report ..)))
      fun _ _ t t' _ _ _ ht => .build ht htok.span fun id => rfl)
  iterate 5 exact .since (hfailed (hstate.withFindings (hs.reportExpected _)))
  · obtain ⟨hvalue, hend⟩ := expression_mirrors hs
    have hspan := hspan hend.recover
    split
    · rename_i e he
      rw [he] at hvalue
      split
      · rename_i e' he'
        rw [he'] at hvalue
        cases hvalue with
        | some he =>
          subst he
          refine .since (simple_mirrors hend (e.span_relabel ρ) fun id => ?_)
          rfl
      · rename_i he'
        rw [he'] at hvalue
        cases hvalue
    · rename_i he
      rw [he] at hvalue
      split
      · rename_i e' he'
        rw [he'] at hvalue
        cases hvalue
      · exact .since (.build hend.recover hspan fun id => rfl)
termination_by s.rest.length * 4 - 1
decreasing_by all_goals omega

theorem branch_mirrors {ρ : Relabelling} {s s' : State} (hs : s.Mirrors ρ s') (start : Span) :
    Parsed.Mirrors ρ (Becomes (Stmt.relabel ρ)) (branch start s) (branch (ρ.span start) s') := by
  have hspan : ∀ {t t' : State}, t.Mirrors ρ t' →
      (ρ.span start).cover t'.lastSpan = ρ.span (start.cover t.lastSpan) := fun ht => by
    rw [ρ.span_cover, ht.lastSpan]
  rw [branch.eq_1 start s, branch.eq_1 (ρ.span start) s']
  refine Parsed.Mirrors.andThen (condition_mirrors hs) fun cond _ t t' _ _ hcond ht => ?_
  cases hcond with
  | none => exact abandoned_mirrors ht start
  | @some cond _ hcond =>
    subst hcond
    refine Parsed.Mirrors.andThen (block_mirrors ht) fun body _ u u' _ _ hbody hu => ?_
    cases hbody with
    | none => exact abandoned_mirrors hu start
    | @some body _ hbody =>
      subst hbody
      dsimp only
      obtain ⟨h, h'⟩ | ⟨other, other', h, h', hother, -, hstate⟩ := hu.take_cases .kwElse
      · rw [h, h']
        exact .build hu (hspan hu) fun id => rfl
      · have hlen := other.length_lt
        rw [h, h']
        dsimp only
        obtain ⟨h, h'⟩ | ⟨again, again', h, h', hagain, -, hnext⟩ := hstate.take_cases .kwIf
        · rw [h, h']
          refine .since (.andThen (lineEnd_mirrors hstate) fun ended _ v v' _ _ hended hv => ?_)
          subst hended
          split
          · exact .build hv hother.span fun id => rfl
          · refine Parsed.Mirrors.andThen (block_mirrors hv) fun rest _ w w' _ _ hrest hw => ?_
            cases hrest with
            | none => exact .build hw hother.span fun id => rfl
            | @some rest _ hrest =>
              subst hrest
              exact .build hw (hspan hw) fun id => rfl
        · have hlen' := again.length_lt
          rw [h, h']
          dsimp only
          rw [hagain.span]
          refine .since (.since (.andThen (branch_mirrors hnext again.token.span)
            fun chained _ v v' _ _ hchained hv => ?_))
          subst hchained
          exact .build hv (hspan hv) fun id => rfl
termination_by s.rest.length * 4 + 2
decreasing_by all_goals omega

end

section Items

variable {ρ : Relabelling}

theorem dottedName_mirrors {s s' : State} (hs : s.Mirrors ρ s') :
    Attempt.Mirrors ρ (DottedName.Mirrors ρ) (dottedName s) (dottedName s') := by
  rw [dottedName.eq_1 s, dottedName.eq_1 s']
  refine .bind (identifier_mirrors hs) fun name _ t t' _ _ hname ht => ?_
  obtain ⟨hfile, rfl⟩ := hname
  -- the text of the first part stays, or it is one that changes
  have htext : ρ.text name.span name.text = name.text ∨ ∃ x text, name.span.contains x = true ∧
      ρ.text x text ≠ text := by
    by_cases h : ρ.text name.span name.text = name.text
    · exact .inl h
    · exact .inr ⟨_, _, by simp [Span.contains], h⟩
  obtain ⟨h, h'⟩ | ⟨dot, dot', h, h', -, -, hstate⟩ := ht.take_cases .dot
  · rw [h, h']
    refine .ok ht ⟨hfile, rfl, htext.imp_left fun h => ?_⟩
    exact congrArg (fun x => [x]) h
  · have hlen := dot.length_lt
    rw [h, h']
    refine .since (.bind (dottedName_mirrors hstate) fun more more' u u' _ _ hmore hu => .ok hu ?_)
    have hsame : name.span.file = more.span.file := hfile.trans hmore.inFile.symm
    have hcover : name.span.cover more.span = ⟨name.span.file, min name.span.start more.span.start,
        max name.span.stop more.span.stop⟩ := if_pos hsame
    refine ⟨by rw [hcover]; exact hfile, ?_, ?_⟩
    · rw [ρ.span_cover, ← hmore.span]
      rfl
    · rcases htext with hname | ⟨x, text, hx, hne⟩
      · rcases hmore.parts with hparts | ⟨x, text, hx, hne⟩
        · exact .inl (congrArg₂ List.cons hname hparts)
        · refine .inr ⟨x, text, ?_, hne⟩
          rw [hcover]
          simp only [Span.contains, Bool.and_eq_true, beq_iff_eq, decide_eq_true_eq] at hx ⊢
          exact ⟨⟨hsame.trans hx.1.1, by omega⟩, by omega⟩
      · refine .inr ⟨x, text, ?_, hne⟩
        rw [hcover]
        simp only [Span.contains, Bool.and_eq_true, beq_iff_eq, decide_eq_true_eq] at hx ⊢
        exact ⟨⟨hx.1.1, by omega⟩, by omega⟩
termination_by s.rest.length
decreasing_by all_goals omega

theorem parameter_mirrors {s s' : State} (hs : s.Mirrors ρ s') :
    Attempt.Mirrors ρ (Becomes ρ.param) (parameter s) (parameter s') := by
  refine .bind (identifier_mirrors hs) fun name _ t t' _ _ hname ht => ?_
  refine .bind (expect_mirrors ht .colon) fun _ _ u u' _ _ _ hu => ?_
  refine .bind (typeName_mirrors hu) fun type _ v v' _ _ htype hv => .ok hv ?_
  rw [hname.eq, htype.eq]
  rfl

theorem parameterList_mirrors {s s' : State} (hs : s.Mirrors ρ s') :
    Attempt.Mirrors ρ (Becomes (List.map ρ.param)) (parameterList s) (parameterList s') := by
  rw [parameterList.eq_1 s, parameterList.eq_1 s']
  refine .bind (parameter_mirrors hs) fun param _ t t' _ _ hparam ht => ?_
  subst hparam
  obtain ⟨h, h'⟩ | ⟨comma, comma', h, h', -, -, hcomma⟩ := ht.take_cases .comma
  · rw [h, h']
    dsimp only
    obtain ⟨h, h'⟩ | ⟨close, close', h, h', -, -, hclose⟩ := ht.take_cases .rParen
    · rw [h, h']
      exact .expected ht _
    · rw [h, h']
      exact .since (.ok (R := Becomes (List.map ρ.param)) hclose rfl)
  · have hlen := comma.length_lt
    rw [h, h']
    refine .since (.bind (parameterList_mirrors hcomma) fun params _ u u' _ _ hparams hu => .ok hu ?_)
    subst hparams
    rfl
termination_by s.rest.length
decreasing_by all_goals omega

theorem parameters_mirrors {s s' : State} (hs : s.Mirrors ρ s') :
    Attempt.Mirrors ρ (Becomes (List.map ρ.param)) (parameters s) (parameters s') := by
  rw [parameters, parameters]
  obtain ⟨h, h'⟩ | ⟨close, close', h, h', -, -, hclose⟩ := hs.take_cases .rParen
  · rw [h, h']
    exact parameterList_mirrors hs
  · rw [h, h']
    exact .since (.ok (R := Becomes (List.map ρ.param)) hclose rfl)

theorem signature_mirrors {s s' : State} (hs : s.Mirrors ρ s') :
    Attempt.Mirrors ρ (Becomes fun x : Name × List Param × Option Name =>
      (ρ.name x.1, x.2.1.map ρ.param, x.2.2.map ρ.name)) (signature s) (signature s') := by
  refine .bind (identifier_mirrors hs) fun name _ t t' _ _ hname ht => ?_
  refine .bind (expect_mirrors ht .lParen) fun _ _ u u' _ _ _ hu => ?_
  refine .bind (parameters_mirrors hu) fun params _ v v' _ _ hparams hv => ?_
  refine .bind (typeMark_mirrors hv) fun result _ w w' _ _ hresult hw => .ok hw ?_
  rw [hname.eq, hparams, hresult, Becomes]

theorem abandonedItem_mirrors {s s' : State} (hs : s.Mirrors ρ s') (start : Span) :
    Parsed.Mirrors ρ (Item.Mirrors ρ) (abandonedItem s start) (abandonedItem s' (ρ.span start)) := by
  refine .build hs ?_ fun id => .plain (i := .error _)
  rw [ρ.span_cover, hs.lastSpan]

theorem failedItem_mirrors {s s' : State} (hs : s.Mirrors ρ s') (start : Span) :
    Parsed.Mirrors ρ (Item.Mirrors ρ) (failedItem s start) (failedItem s' (ρ.span start)) :=
  .andThen (recovered_mirrors hs) fun _ _ _ _ _ _ _ ht => abandonedItem_mirrors ht start

theorem function_mirrors {s s' : State} (hs : s.Mirrors ρ s') (start : Span) {tags tags' : List DottedName}
    (htags : List.Forall₂ (DottedName.Mirrors ρ) tags tags') :
    Parsed.Mirrors ρ (Item.Mirrors ρ) (function start tags s) (function (ρ.span start) tags' s') := by
  refine Parsed.Mirrors.andThen (signature_mirrors hs) fun sig _ t t' _ _ hsig ht => ?_
  cases hsig with
  | none => exact failedItem_mirrors ht start
  | @some sig _ hsig =>
    obtain ⟨name, params, result⟩ := sig
    subst hsig
    refine .andThen (lineEnd_mirrors ht) fun ended _ u u' _ _ hended hu => ?_
    subst hended
    split
    · exact abandonedItem_mirrors hu start
    · refine Parsed.Mirrors.andThen (block_mirrors hu) fun body _ v v' _ _ hbody hv => ?_
      cases hbody with
      | none => exact abandonedItem_mirrors hv start
      | @some body _ hbody =>
        subst hbody
        refine .build hv ?_ fun id => .function htags
        rw [ρ.span_cover, hv.lastSpan]

theorem taggedFunction_mirrors {s s' : State} (hs : s.Mirrors ρ s') (start : Span)
    {tags tags' : List DottedName} (htags : List.Forall₂ (DottedName.Mirrors ρ) tags tags') :
    Parsed.Mirrors ρ (Item.Mirrors ρ) (taggedFunction start tags s)
      (taggedFunction (ρ.span start) tags' s') := by
  rw [taggedFunction.eq_1 start tags s, taggedFunction.eq_1 (ρ.span start) tags' s']
  refine Parsed.Mirrors.andThen (dottedName_mirrors hs) fun name _ t t' hle _ hname ht => ?_
  cases hname with
  | none => exact failedItem_mirrors ht start
  | @some name name' hname =>
    refine .andThen (lineEnd_mirrors ht) fun ended _ u u' hle' _ hended hu => ?_
    subst hended
    split
    · exact abandonedItem_mirrors hu start
    have hall : List.Forall₂ (DottedName.Mirrors ρ) (tags ++ [name]) (tags' ++ [name']) :=
      List.rel_append htags (.cons hname .nil)
    obtain ⟨h, h'⟩ | ⟨step, step', h, h', -, -, hstate⟩ := hu.take_cases .kwTag
    · rw [h, h']
      dsimp only
      obtain ⟨h, h'⟩ | ⟨step, step', h, h', -, -, hstate⟩ := hu.take_cases .kwFun
      · rw [h, h']
        exact .andThen (R := fun _ _ => True) ⟨trivial, hu.reportExpected _⟩
          fun _ _ _ _ _ _ _ hv => abandonedItem_mirrors hv start
      · rw [h, h']
        exact .since (function_mirrors hstate start hall)
    · have hlen := step.length_lt
      rw [h, h']
      exact .since (taggedFunction_mirrors hstate start hall)
termination_by s.rest.length
decreasing_by all_goals omega

theorem typeAlias_mirrors {s s' : State} (hs : s.Mirrors ρ s') (start : Span) :
    Parsed.Mirrors ρ (Item.Mirrors ρ) (typeAlias start s) (typeAlias (ρ.span start) s') := by
  have hparts : Attempt.Mirrors ρ (Becomes fun x : Name × Name => (ρ.name x.1, ρ.name x.2))
      ((identifier s).bind fun name t _ => (expect t .assign).bind fun _ u _ =>
        (typeName u).bind fun target v _ => .ok v (name, target))
      ((identifier s').bind fun name t _ => (expect t .assign).bind fun _ u _ =>
        (typeName u).bind fun target v _ => .ok v (name, target)) := by
    refine .bind (identifier_mirrors hs) fun name _ t t' _ _ hname ht => ?_
    refine .bind (expect_mirrors ht .assign) fun _ _ u u' _ _ _ hu => ?_
    refine .bind (typeName_mirrors hu) fun target _ v v' _ _ htarget hv => .ok hv ?_
    rw [hname.eq, htarget.eq, Becomes]
  refine Parsed.Mirrors.andThen hparts fun parts _ t t' _ _ hparts ht => ?_
  cases hparts with
  | none => exact failedItem_mirrors ht start
  | @some parts _ hparts =>
    obtain ⟨name, target⟩ := parts
    subst hparts
    refine .andThen (lineEnd_mirrors ht) fun ended _ u u' _ _ hended hu => ?_
    subst hended
    refine .build hu ?_ fun id => ?_
    · rw [ρ.span_cover, ht.lastSpan]
    · cases ended with
      | true => exact .plain (i := .typeAlias _)
      | false => exact .plain (i := .error _)

theorem item_mirrors {s s' : State} (hs : s.Mirrors ρ s') {step : Step s} {step' : Step s'}
    (htok : step.token.Mirrors ρ step'.token) (hstate : step.state.Mirrors ρ step'.state)
    (heof : step.token.kind ≠ .eof) (hdedent : step.token.kind ≠ .dedent)
    (heof' : step'.token.kind ≠ .eof) (hdedent' : step'.token.kind ≠ .dedent) :
    Parsed.Mirrors ρ (Item.Mirrors ρ) (item s step heof hdedent) (item s' step' heof' hdedent') := by
  rw [item, item]
  dsimp only
  rw [htok.kind]
  split
  · rw [htok.span]
    exact taggedFunction_mirrors hstate _ .nil
  · rw [htok.span]
    exact function_mirrors hstate _ .nil
  · rw [htok.span]
    exact typeAlias_mirrors hstate _
  · have hfailed := failedItem_mirrors (hstate.withFindings (hs.report .lateNamespace .lateNamespace
      step.token.span step'.token.span)) step.token.span
    rw [← htok.span] at hfailed
    exact .since hfailed
  · refine .andThen (statement_mirrors hs htok hstate heof hdedent heof' hdedent')
      fun stmt _ t t' _ _ hstmt ht => ?_
    subst hstmt
    exact .build ht (stmt.span_relabel ρ) fun id => .plain (i := .stmt _ stmt)

theorem items_mirrors {s s' : State} (hs : s.Mirrors ρ s') :
    Parsed.Mirrors ρ (List.Forall₂ (Item.Mirrors ρ)) (items s) (items s') := by
  rw [items.eq_1 s, items.eq_1 s']
  obtain ⟨h, h'⟩ | ⟨step, step', h, h', htok, hstate⟩ := hs.step_cases
  · rw [h, h']
    exact .pure hs .nil
  · have hlen := step.length_lt
    rw [h, h']
    dsimp only
    by_cases heof : step.token.kind = .eof
    · rw [dif_pos heof, dif_pos (htok.kind.trans heof)]
      exact .pure hs .nil
    have heof' : ¬ step'.token.kind = .eof := htok.kind ▸ heof
    rw [dif_neg heof, dif_neg heof']
    by_cases hdedent : step.token.kind = .dedent
    · rw [dif_pos hdedent, dif_pos (htok.kind.trans hdedent)]
      exact .since (items_mirrors hstate)
    have hdedent' : ¬ step'.token.kind = .dedent := htok.kind ▸ hdedent
    rw [dif_neg hdedent, dif_neg hdedent', htok.kind]
    split
    · exact .since (items_mirrors hstate)
    · refine .since (.andThen (item_mirrors hs htok hstate heof hdedent heof' hdedent')
        fun i i' t t' hle _ hi ht => ?_)
      exact .andThen (items_mirrors ht) fun more more' u u' _ _ hmore hu => .pure hu (.cons hi hmore)
termination_by s.rest.length
decreasing_by all_goals omega

theorem header_mirrors {s s' : State} (hs : s.Mirrors ρ s') :
    Parsed.Mirrors ρ (fun _ _ => True) (header s) (header s') := by
  rw [header, header]
  obtain ⟨h, h'⟩ | ⟨step, step', h, h', -, -, hstate⟩ := hs.take_cases .kwNamespace
  · rw [h, h']
    exact .pure hs trivial
  · rw [h, h']
    refine .since (Parsed.Mirrors.andThen (dottedName_mirrors hstate) fun name _ t t' _ _ hname ht => ?_)
    cases hname with
    | none => exact .andThen (recovered_mirrors ht) fun _ _ _ _ _ _ _ hu => .pure hu trivial
    | some _ => exact .andThen (lineEnd_mirrors ht) fun _ _ _ _ _ _ _ hu => .pure hu trivial

/-- From relabelled tokens of a file a relabelled program is read, and as much is found on the way. -/
theorem program_mirrors {f f' : File} {tokens tokens' : List Token} (hid : f'.id = f.id)
    (hstart : ρ.place 0 = 0) (h : List.Forall₂ (Token.Mirrors ρ) tokens tokens') :
    List.Forall₂ (Item.Mirrors ρ) (program f tokens).1.items (program f' tokens').1.items ∧
      (program f' tokens').2.length = (program f tokens).2.length := by
  have hs : (fileStart f tokens).Mirrors ρ (fileStart f' tokens') := by
    refine ⟨h, ?_, rfl, rfl⟩
    rw [fileStart, fileStart, Relabelling.span, hid]
    simp only [Span.point, hstart]
  have hparts : Parsed.Mirrors ρ (fun x x' => List.Forall₂ (Item.Mirrors ρ) x.2 x'.2)
      (fileParts f tokens) (fileParts f' tokens') :=
    .andThen (header_mirrors hs) fun _ _ t t' _ _ _ ht =>
      .andThen (items_mirrors ht) fun _ _ u u' _ _ hitems hu => .pure hu hitems
  refine ⟨hparts.value, ?_⟩
  rw [program, program, List.length_reverse, List.length_reverse]
  exact hparts.state.findings

end Items

end Parse

/-- Every name of a program is an identifier of its file. -/
theorem File.mention_token {f : File} {m : Mention} (hm : m ∈ f.parse.program.mentions) :
    ∃ t ∈ f.tokenize.dropLast, t.kind = .ident ∧ t.span = m.span ∧ t.text = m.text := by
  by_contra hnone
  -- If no identifier is written there, giving another text to it changes no token, but it changes the name.
  let ρ : Relabelling := ⟨f.id, fun a => a, fun _ _ h => h, fun x text =>
    if x = m.span ∧ text = m.text then text ++ [0] else text⟩
  have htokens : List.Forall₂ (Token.Mirrors ρ) f.tokenize.dropLast f.tokenize.dropLast := by
    refine List.forall₂_same.mpr fun t ht => ⟨(f.stands_start.bears t ht).text.file, rfl, rfl, ?_⟩
    split
    · rename_i hk
      refine (if_neg fun heq => hnone ⟨t, ht, hk, heq⟩).symm
    · rfl
  obtain ⟨hitems, -⟩ := Parse.program_mirrors (show f.id = f.id from rfl) rfl htokens
  obtain ⟨i, hi, hmi⟩ := List.mem_flatMap.mp hm
  have hsame := (List.forall₂_same.mp hitems i hi).mentions
  rw [← List.map_id i.mentions, List.map_map] at hsame
  have htext := congrArg Mention.text (List.map_inj_left.mp hsame m hmi)
  have hchanged : ρ.text m.span m.text = m.text ++ [0] := if_pos ⟨rfl, rfl⟩
  change m.text = ρ.text m.span m.text at htext
  rw [hchanged] at htext
  simpa using congrArg List.length htext

end Craftlang
