import Craftlang.Proofs.Syntax.Placing

/-!
# The spans of a tree nest

Whatever is wrong with a source, the span of each node of its tree is a part of the text, not an empty one,
and the spans of what the node holds stand in it one after the other. A construct starts with a token that
was taken; it ends with the last token taken, which is that token or comes behind it, also after recovery.
-/

namespace Craftlang

namespace Parse

/-- The state comes behind a token, with which a construct starts. -/
structure State.Behind (f : File) (start : Span) (s : State) : Prop where
  stands : s.Stands f
  file : start.file = f.id
  pos : start.start < start.stop
  start_le : start.start ≤ s.lastSpan.start
  stop_le : start.stop ≤ s.lastSpan.stop

namespace State

variable {f : File} {s t : State} {start : Span} {lo : Nat} {held : List Span} {frames : List NodeFrame}

theorem Ahead.passes {a : Nat} (h : s.Ahead a) (hp : s.Passes t) : t.Ahead a := by
  obtain ⟨ts, hts, -⟩ := hp.takes
  intro x hx
  exact h x (hts ▸ List.mem_append_right _ hx)

namespace Behind

theorem takes (h : s.Behind f start) (hp : s.Takes t) : t.Behind f start := by
  obtain ⟨hstands, hstart, hstop⟩ := h.stands.takes hp
  exact ⟨hstands, h.file, h.pos, Nat.le_trans h.start_le hstart, Nat.le_trans h.stop_le hstop⟩

theorem passes (h : s.Behind f start) (hp : s.Passes t) : t.Behind f start := h.takes hp.takes

theorem cover (h : s.Behind f start) : start.cover s.lastSpan = ⟨f.id, start.start, s.lastSpan.stop⟩ := by
  rw [Span.cover, if_pos (h.file.trans h.stands.file.symm), h.file, Nat.min_eq_left h.start_le,
    Nat.max_eq_right h.stop_le]

/-- The construct up to the last token, with what it holds. -/
theorem frame (h : s.Behind f start) (hlo : lo ≤ start.start)
    (hheld : Framed f start.stop s.lastSpan.stop held frames) : Framed f lo s.lastSpan.stop
      [start.cover s.lastSpan] (⟨start.cover s.lastSpan, held⟩ :: frames) := by
  have hpos := h.pos
  have hstop := h.stop_le
  rw [h.cover]
  exact .frame ⟨rfl, hlo, Nat.lt_of_lt_of_le hpos hstop, Nat.le_refl _⟩ h.stands.inside
    (hheld.mono (Nat.le_of_lt hpos) (Nat.le_refl _))

theorem leaf (h : s.Behind f start) (hlo : lo ≤ start.start) : Framed f lo s.lastSpan.stop
    [start.cover s.lastSpan] [⟨start.cover s.lastSpan, []⟩] := h.frame hlo (.nil h.stop_le)

/-- The token itself. -/
theorem row (h : s.Behind f start) (hlo : lo ≤ start.start) : Span.Row f lo s.lastSpan.stop [start] :=
  ⟨h.file, hlo, h.pos, h.stop_le⟩

end Behind

/-- A token of a line that is taken starts a construct. -/
theorem Stands.behind_step (h : s.Stands f) {step : Step s} (hs : s.step? = some step)
    (hk : step.token.kind.isContent = true) : step.state.Behind f step.token.span := by
  have hrow := h.row_step h.ahead hs hk
  have hlast := lastSpan_step hs hk
  exact ⟨h.step hs, hrow.1, hrow.2.2.1, Nat.le_of_eq (congrArg Span.start hlast.symm),
    Nat.le_of_eq (congrArg Span.stop hlast.symm)⟩

theorem Stands.behind_take (h : s.Stands f) {k : Kind} {step : Step s} (ht : s.take? k = some step)
    (hk : k.isContent = true) : step.state.Behind f step.token.span := by
  obtain ⟨hs, rfl⟩ := take?_eq_some ht
  exact h.behind_step hs hk

end State

/-- A parser of which only the tokens it passes matter. -/
theorem Parsed.Lays.passing {s : State} {α β : Type} {p : Parsed s α} {g : β → Nat → Prop}
    {next : α → (t : State) → t.rest.length ≤ s.rest.length → Parsed t β} (hp : s.Passes p.state)
    (hn : ∀ v t h, s.Passes t → (next v t h).Lays g) : (p.andThen next).Lays g :=
  .andThen (g := fun _ _ => True) ⟨hp, trivial⟩ fun v t h ht _ => hn v t h ht

/-- A parser that goes on behind a token after something was reported at that token. -/
theorem Parsed.Lays.noted {s u : State} {step : Step s} {α : Type} {g : α → Nat → Prop}
    {p : Parsed (step.state.withFindings u) α} (hs : s.step? = some step)
    (hu : ∀ f, s.Stands f → s.Reported f → u.Reported f) (hp : p.Lays g) :
    ((p.since List.suffix_rfl : Parsed step.state α).since step.suffix).Lays g := by
  have htakes : s.Takes (step.state.withFindings u) := (State.Takes.step hs).trans (.of_eq rfl rfl)
  have hpasses : s.Passes (step.state.withFindings u) := ⟨htakes, hu⟩
  exact ⟨hpasses.trans hp.1, hp.2⟩

theorem recovered_passes (s : State) : s.Passes (recovered s).state :=
  ⟨skipLine_takes s.lastSpan s.rest, fun _ _ h => h⟩

theorem skipped_passes (s : State) : s.Passes (skipped s).state :=
  ⟨skipBlock_takes 0 s.lastSpan s.rest, fun _ _ h => h⟩

theorem lineEnd_passes (s : State) : s.Passes (lineEnd s).state := by
  rw [lineEnd]
  split
  · exact .refl s
  · split
    · exact .step ‹_›
    · exact .refl s
    · exact .refl s
    · exact (State.Passes.reportExpected s _).trans (recovered_passes _)

/-- A statement stands in the row, with all below it. -/
def StmtLies (f : File) (lo : Nat) (st : Stmt) (hi : Nat) : Prop := Framed f lo hi [st.span] st.frames

section Statements

variable {f : File} {s : State} {start : Span} {lo : Nat}

theorem simple_lays {span : Span} {m : Node → Stmt} (hs : s.Stands f)
    (hspan : Span.Row f lo s.lastSpan.stop [span])
    (hmake : ∀ id, StmtLies f lo (m ⟨id, span⟩) s.lastSpan.stop) :
    (simple s span m).Lays (StmtLies f lo) := by
  refine .andThen (.build hmake) fun stmt t _ ht hstmt => ?_
  refine .passing (lineEnd_passes t) fun ended u _ hu => ?_
  obtain ⟨hstands, -, hstop⟩ := (hs.passes ht).1.passes hu
  have hspan' := hspan.mono (Nat.le_refl _) (Nat.le_trans (hs.passes ht).2.2 hstop)
  split
  · exact .pure (hstmt.mono (Nat.le_refl _) hstop)
  · exact .build fun id => .leaf hspan' hstands.inside

theorem abandoned_lays (h : s.Behind f start) (hlo : lo ≤ start.start) :
    (abandoned s start).Lays (StmtLies f lo) := .build fun _ => h.leaf hlo

theorem failed_lays (h : s.Behind f start) (hlo : lo ≤ start.start) : (failed s start).Lays (StmtLies f lo) :=
  .passing (recovered_passes s) fun _ _ _ ht => .build fun _ => (h.passes ht).leaf hlo

/-- A simple statement from its first token to the last one. -/
theorem simple_cover_lays {make : Node → Stmt} {held : List Span} {frames : List NodeFrame}
    (h : s.Behind f start) (hlo : lo ≤ start.start) (hheld : Framed f start.stop s.lastSpan.stop held frames)
    (hmake : ∀ n : Node, (make n).span = n.span ∧ (make n).frames = ⟨n.span, held⟩ :: frames) :
    (simple s (start.cover s.lastSpan) make).Lays (StmtLies f lo) := by
  have hframe := h.frame hlo hheld
  refine simple_lays h.stands hframe.row fun id => ?_
  obtain ⟨hspan, hframes⟩ := hmake ⟨id, start.cover s.lastSpan⟩
  rw [StmtLies, hspan, hframes]
  exact hframe

theorem declaration_lays (h : s.Behind f start) (hlo : lo ≤ start.start) :
    (declaration start s).Lays (StmtLies f lo) := by
  rw [declaration]
  have hheader : Attempt.Lays ((identifier s).bind fun name t _ =>
      (typeMark t).bind fun type u _ => .ok u (name, type)) fun head hi =>
        Span.Row f start.stop hi (head.1.span :: Name.spans? head.2) :=
    .bind (identifier_lays h.stands h.stands.ahead) fun name t _ ht hname =>
      .bind (typeMark_lays (h.stands.passes ht).1) fun type u _ hu htype =>
        .ok ((hname.append htype).mono h.stop_le (Nat.le_refl _))
  refine .andThen hheader fun header t _ ht hrow => ?_
  have ht := h.passes ht
  split
  · exact failed_lays ht hlo
  · rename_i name type
    have hrow := hrow (name, type) rfl
    split
    · exact simple_cover_lays ht hlo (.of_row hrow) fun n => ⟨rfl, by simp [Stmt.frames, Expr.spans?, Expr.frames?]⟩
    · rename_i sign hsign
      have hrowSign := ht.stands.row_take ht.stands.ahead hsign rfl
      have hsign' := ht.passes (.step (State.take?_eq_some hsign).1)
      refine .sinceTake hsign (.andThen (expression_lays hsign'.stands hsign'.stands.ahead)
        fun value u _ hu hv => ?_)
      split
      · rename_i e
        have hvalue := (Framed.of_row hrow).append ((hv e rfl).mono hrowSign.le (Nat.le_refl _))
        exact simple_cover_lays (hsign'.passes hu) hlo hvalue fun n => ⟨rfl, rfl⟩
      · -- the name is declared all the same; its value is an error from the sign to the last token
        have hsigned := (ht.stands.behind_take hsign rfl).passes hu
        have hu := hsign'.passes hu
        have hvalue := (Framed.of_row hrow).append
          (hsigned.leaf (ht.stands.ahead _ (by rw [sign.cons]; exact List.mem_cons_self)))
        have hcover : start.cover (sign.token.span.cover u.lastSpan) = start.cover u.lastSpan := by
          have hbefore := hrowSign.2.1
          have hstart := ht.stop_le
          have hpos := ht.pos
          have hstop := hu.stop_le
          rw [hu.cover, hsigned.cover, Span.cover, if_pos hu.file, hu.file]
          congr 1 <;> simp only <;> omega
        refine .andThen (g := fun e _ => e.span = sign.token.span.cover u.lastSpan ∧
          e.frames = [⟨sign.token.span.cover u.lastSpan, []⟩]) (.build fun id => ⟨rfl, rfl⟩) fun e v _ hv he => ?_
        refine .passing (recovered_passes v) fun _ w _ hw => .build fun id => ?_
        have hstop := (hu.stands.passes (hv.trans hw)).2.2
        rw [← he.2, ← he.1] at hvalue
        rw [hcover]
        exact (hu.frame hlo hvalue).mono (Nat.le_refl _) hstop

theorem returned_lays (h : s.Behind f start) (hlo : lo ≤ start.start) :
    (returned start s).Lays (StmtLies f lo) := by
  rw [returned]
  have hnone : (simple s (start.cover s.lastSpan) fun node => .give node none).Lays (StmtLies f lo) :=
    simple_cover_lays h hlo (.nil h.stop_le) fun n => ⟨rfl, rfl⟩
  split
  iterate 3 exact hnone
  refine .andThen (expression_lays h.stands h.stands.ahead) fun value t _ ht hv => ?_
  have ht := h.passes ht
  split
  · exact failed_lays ht hlo
  · rename_i e
    exact simple_cover_lays ht hlo ((hv e rfl).mono h.stop_le (Nat.le_refl _)) fun n => ⟨rfl, rfl⟩

theorem condition_lays (hs : s.Stands f) : (condition s).Lays (Lies f s.lastSpan.stop) := by
  rw [condition]
  refine Parsed.Lays.andThen (expression_lays hs hs.ahead) fun cond t _ ht hcond => ?_
  have ht := (hs.passes ht).1
  split
  · exact .passing (recovered_passes t) fun _ u _ _ => .pure fun e he => by cases he
  · rename_i e
    refine .passing (lineEnd_passes t) fun ended u _ hu => .pure fun e' he => ?_
    cases ended with
    | true =>
      obtain rfl : e = e' := Option.some.inj he
      exact (hcond e rfl).mono (Nat.le_refl _) (ht.passes hu).2.2
    | false => cases he

/-- Behind the start of a block comes a token of a line. -/
theorem State.Stands.exists_content (hs : s.Stands f) {step : Step s} (hk : step.token.kind = .indent) :
    ∃ next : Step step.state, step.state.step? = some next ∧ next.token.kind.isContent = true ∧
      step.token.span.stop ≤ next.token.span.start := by
  obtain ⟨q, d, hn⟩ := hs.nested
  have hordered := hs.ordered
  rw [State.kinds, step.cons, List.map_cons, hk] at hn
  rw [step.cons] at hordered
  have hn := hn.2
  cases hnext : step.state.step? with
  | none =>
    have hnil := State.step?_eq_none hnext
    rw [State.kinds] at hnil
    rw [hnil] at hn
    cases hn.1
  | some next =>
    rw [next.cons, List.map_cons] at hn
    refine ⟨next, rfl, ?_, ?_⟩
    · refine Kind.isContent_of_ne (fun heq => ?_) (fun heq => ?_) (fun heq => ?_) fun heq => ?_
      · rw [heq] at hn
        exact hn.1 rfl
      all_goals
        rw [heq] at hn
        cases hn.1
    · refine (List.pairwise_cons.mp hordered).1 _ ?_
      rw [next.cons]
      exact List.mem_cons_self

/-- Once a token is taken behind the start of a block, the last one comes behind that start. -/
theorem State.Stands.behind_indent (hs : s.Stands f) {step : Step s} (hstep : s.step? = some step)
    (hk : step.token.kind = .indent) {t : State} (ht : step.state.Takes t)
    (hlt : t.rest.length < step.state.rest.length) : t.Behind f step.token.span := by
  obtain ⟨next, hnext, hcontent, hle⟩ := hs.exists_content hk
  have hmem : step.token ∈ s.rest := by
    rw [step.cons]
    exact List.mem_cons_self
  have hbears := hs.bears _ hmem
  have hsuffix : t.rest <:+ step.state.rest := by
    obtain ⟨ts, hts, -⟩ := ht
    exact ⟨ts, hts.symm⟩
  have hbehind := ((hs.step hstep).behind_step hnext hcontent).takes
    (ht.behind hnext (next.suffix_of_length_lt hsuffix hlt))
  have hstart := hbehind.start_le
  have hstop := hbehind.stop_le
  have hpos := hbehind.pos
  have hindent := hbears.nonempty (.inl hk)
  exact ⟨hbehind.stands, hbears.text.file, hindent, by omega, by omega⟩

/-- Skipping a block takes a token, at least. -/
theorem State.Stands.length_skipped (hs : s.Stands f) {step : Step s} (hk : step.token.kind = .indent)
    (u : State) : (skipped (step.state.withFindings u)).state.rest.length < step.state.rest.length := by
  obtain ⟨q, d, hn⟩ := hs.nested
  rw [State.kinds, step.cons, List.map_cons, hk] at hn
  obtain ⟨inside, heq, -, -⟩ := skipped_closes (s := step.state.withFindings u) hn.2
  have hlength := congrArg List.length heq
  rw [List.length_append, List.length_cons, State.kinds, State.kinds, List.length_map, List.length_map] at hlength
  change step.state.rest.length = _ at hlength
  omega

theorem statements_ne_nil {step : Step s} (hstep : s.step? = some step)
    (hk : step.token.kind.isContent = true) : (statements s).value ≠ [] := by
  rw [statements, hstep]
  dsimp only
  split
  · rename_i heq
    rw [heq] at hk
    cases hk
  split
  · rename_i heq
    rw [heq] at hk
    cases hk
  split
  · rename_i heq
    rw [heq] at hk
    cases hk
  · exact List.cons_ne_nil _ _

mutual

/-- A block covers its indentation and its statements; there is at least one. -/
theorem block_lays {s : State} (hs : s.Stands f) :
    (block s).Lays fun b hi => Framed f s.lastSpan.stop hi [b.span] b.frames := by
  rw [block]
  split
  · exact .expected
  · rename_i opening hopening
    have hlen := opening.length_lt
    obtain ⟨hstep, hk⟩ := State.take?_eq_some hopening
    have hmem : opening.token ∈ s.rest := by
      rw [opening.cons]
      exact List.mem_cons_self
    have hordered := hs.ordered
    rw [opening.cons] at hordered
    have hbears := hs.bears _ hmem
    obtain ⟨next, hnext, hcontent, -⟩ := hs.exists_content hk
    have hne := statements_ne_nil hnext hcontent
    obtain ⟨ht, hrow, hsound⟩ := statements_lays (hs.step hstep) (List.pairwise_cons.mp hordered).1
    have hall : Span.Row f s.lastSpan.stop (statements opening.state).state.lastSpan.stop
        (opening.token.span :: (statements opening.state).value.map Stmt.span) :=
      ⟨hbears.text.file, hs.ahead _ hmem, hbears.nonempty (.inl hk), hrow hne⟩
    have hlast := List.getLast?_eq_some_getLast hne
    refine ⟨(State.Passes.step hstep).trans (ht.trans (.of_eq rfl rfl rfl)), fun b hb => ?_⟩
    obtain rfl := Option.some.inj hb
    dsimp only [Block.span, Block.node, Block.frames]
    rw [hlast]
    refine Framed.node ⟨hall, hsound⟩ rfl ?_ (List.sublist_cons_self _ _) ((hs.step hstep).passes ht).1.inside
    rw [List.getLast?_cons, List.getLast?_map, hlast]
    rfl
termination_by s.rest.length * 4 + 1
decreasing_by all_goals omega

/-- The statements of a block stand in a row. -/
theorem statements_lays {s : State} {a : Nat} (hs : s.Stands f) (ha : s.Ahead a) : (statements s).Lays
    fun ss hi => (ss ≠ [] → Span.Row f a hi (ss.map Stmt.span)) ∧ ∀ fr ∈ Stmt.framesOf ss, fr.Sound f := by
  rw [statements]
  have hnil : ∀ hi, (([] : List Stmt) ≠ [] → Span.Row f a hi ([].map Stmt.span)) ∧
      ∀ fr ∈ Stmt.framesOf [], fr.Sound f :=
    fun _ => ⟨fun h => absurd rfl h, fun _ hfr => absurd hfr List.not_mem_nil⟩
  split
  · exact .pure (hnil _)
  · rename_i step hstep
    have hlen := step.length_lt
    split
    · exact .pure (hnil _)
    split
    · exact .since hstep (.pure (hnil _))
    split
    · exact .since hstep (statements_lays (hs.step hstep) (ha.passes (.step hstep)))
    · rename_i heof hdedent hnewline
      have hshort := (statement s step heof hdedent).within.length_le
      obtain ⟨ht, hfirst⟩ := statement_lays hs ha hstep heof hdedent hnewline
      have hstands := (hs.passes ht).1
      obtain ⟨hu, hrow, hsound⟩ := statements_lays (s := (statement s step heof hdedent).state) hstands
        hstands.ahead
      refine ⟨ht.trans hu, fun _ => ?_, fun fr hfr => ?_⟩
      · change Span.Row f a _ (_ :: (statements (statement s step heof hdedent).state).value.map Stmt.span)
        by_cases hss : (statements (statement s step heof hdedent).state).value = []
        · rw [hss]
          exact hfirst.row.mono (Nat.le_refl _) (hstands.passes hu).2.2
        · exact hfirst.row.append (hrow hss)
      · exact (List.mem_append.mp hfr).elim (hfirst.sound fr) (hsound fr)
termination_by s.rest.length * 4
decreasing_by all_goals omega

theorem statement_lays {s : State} {a : Nat} (hs : s.Stands f) (ha : s.Ahead a) {step : Step s}
    (hstep : s.step? = some step) (heof : step.token.kind ≠ .eof) (hdedent : step.token.kind ≠ .dedent)
    (hnewline : step.token.kind ≠ .newline) :
    ((statement s step heof hdedent).since step.suffix).Lays (StmtLies f a) := by
  have hlen := step.length_lt
  have hcontent := Kind.isContent_of_ne heof hdedent hnewline
  have hstart : a ≤ step.token.span.start := ha _ (by rw [step.cons]; exact List.mem_cons_self)
  have hbehind := fun hk => hs.behind_step hstep (hcontent hk)
  rw [statement]
  split
  · rename_i hk
    exact .since hstep (declaration_lays (hbehind (by rw [hk]; decide)) hstart)
  · rename_i hk
    exact .since hstep (branch_lays (hbehind (by rw [hk]; decide)) hstart)
  · rename_i hk
    have hbegin := hbehind (by rw [hk]; decide)
    refine .since hstep (.andThen (condition_lays hbegin.stands) fun cond t _ ht hcond => ?_)
    have ht := hbegin.passes ht
    split
    · exact abandoned_lays ht hstart
    · rename_i cond
      refine .andThen (block_lays ht.stands) fun body u _ hu hbody => ?_
      have hu := ht.passes hu
      split
      · exact abandoned_lays hu hstart
      · rename_i body
        exact .build fun id => hu.frame hstart
          (((hcond cond rfl).append (hbody body rfl)).mono hbegin.stop_le (Nat.le_refl _))
  · rename_i hk
    have hbegin := hbehind (by rw [hk]; decide)
    refine .since hstep (.passing (lineEnd_passes _) fun ended t _ ht => ?_)
    have ht := hbegin.passes ht
    split
    · exact .build fun id => .leaf (ht.row hstart) ht.stands.inside
    · refine .andThen (block_lays ht.stands) fun body u _ hu hbody => ?_
      have hu := ht.passes hu
      split
      · exact abandoned_lays hu hstart
      · rename_i body
        have hcond : Attempt.Lays ((expect u .kwWhile).bind fun _ v _ => expression v)
            (Lies f u.lastSpan.stop) :=
          .bind (expect_lays hu.stands hu.stands.ahead rfl) fun sign v _ hv _ =>
            expression_lays (hu.passes hv).stands (hu.stands.ahead.passes hv)
        refine .andThen hcond fun cond v _ hv hcond => ?_
        have hv := hu.passes hv
        split
        · exact failed_lays hv hstart
        · rename_i cond
          exact simple_cover_lays hv hstart
            (((hbody body rfl).append (hcond cond rfl)).mono ht.stop_le (Nat.le_refl _)) fun n => ⟨rfl, rfl⟩
  iterate 2
    · rename_i hk
      have hbegin := hbehind (by rw [hk]; decide)
      exact .since hstep (simple_lays hbegin.stands (hbegin.row hstart) fun id =>
        .leaf (hbegin.row hstart) hbegin.stands.inside)
  · rename_i hk
    exact .since hstep (returned_lays (hbehind (by rw [hk]; decide)) hstart)
  · rename_i hk
    have hbegin := hbehind (by rw [hk]; decide)
    exact .since hstep (simple_lays hbegin.stands (hbegin.row hstart) fun id =>
      .leaf (hbegin.row hstart) hbegin.stands.inside)
  · -- an indentation where none belongs stands for the block that it starts
    rename_i hk
    have hskip := skipped_passes (step.state.withFindings (s.report .unexpectedIndent step.token.span))
    have htakes := (State.Takes.of_eq (s := step.state) rfl rfl).trans hskip.takes
    have hend := hs.behind_indent hstep hk htakes (hs.length_skipped hk _)
    exact .noted hstep (fun g hg hr => hr.report _ (hg.shows_step step))
      ⟨hskip.trans (.of_eq rfl rfl rfl), .leaf (hend.row hstart) hend.stands.inside⟩
  iterate 5
    · rename_i hk
      have hbegin := (hbehind (by rw [hk]; decide)).takes (t := step.state.withFindings
        (s.reportExpected .statement)) (.of_eq rfl rfl)
      exact .noted hstep (fun g hg hr => hg.reportExpected hr _) (failed_lays hbegin hstart)
  · obtain ⟨ht, hexpr⟩ := expression_lays hs ha
    have hstands := (hs.passes ht).1
    split
    · rename_i e he
      have hexpr := hexpr e he
      obtain ⟨hend, hlies⟩ := simple_lays (m := fun node => .expr node e) hstands hexpr.row fun id =>
        .frame hexpr.row hstands.inside
          ⟨⟨hexpr.row.1, Nat.le_refl _, hexpr.row.2.2.1, Nat.le_refl _⟩, hexpr.sound⟩
      exact ⟨ht.trans hend, hlies⟩
    · have hend := ht.trans (recovered_passes (expression s).state)
      have hbegin := (hbehind ‹_›).takes (hend.takes.behind hstep
        (State.recover_suffix_tail (step.cons ▸ (expression s).within) heof hdedent))
      exact ⟨hend.trans (.of_eq rfl rfl rfl), hbegin.leaf hstart⟩
termination_by s.rest.length * 4 - 1
decreasing_by all_goals omega

theorem branch_lays {start : Span} {s : State} {lo : Nat} (h : s.Behind f start) (hlo : lo ≤ start.start) :
    (branch start s).Lays (StmtLies f lo) := by
  rw [branch]
  refine .andThen (condition_lays h.stands) fun cond t _ ht hcond => ?_
  have ht := h.passes ht
  split
  · exact abandoned_lays ht hlo
  · rename_i cond
    refine .andThen (block_lays ht.stands) fun body u _ hu hbody => ?_
    have hu := ht.passes hu
    split
    · exact abandoned_lays hu hlo
    · rename_i body
      have hheld := ((hcond cond rfl).append (hbody body rfl)).mono h.stop_le (Nat.le_refl _)
      split
      · exact .build fun id => hu.frame hlo (hheld.append (.nil (Nat.le_refl _)))
      · rename_i other hother
        have hlen := other.length_lt
        have hrow := hu.stands.row_take hu.stands.ahead hother rfl
        have hother' := hu.passes (.step (State.take?_eq_some hother).1)
        have hstart := hu.stop_le
        have hpos := hu.pos
        split
        · rename_i again hagain
          have hlen' := again.length_lt
          have hagainRow := hother'.stands.row_take hother'.stands.ahead hagain rfl
          have hchain : (branch again.token.span again.state).Lays (StmtLies f u.lastSpan.stop) :=
            branch_lays (hother'.stands.behind_take hagain rfl) (Nat.le_trans hrow.le hagainRow.2.1)
          refine .sinceTake hother (.sinceTake hagain (.andThen hchain fun chained v _ hv hchained => ?_))
          have hv := (hother'.passes (.step (State.take?_eq_some hagain).1)).passes hv
          exact .build fun id => hv.frame hlo (hheld.append hchained)
        · have hfaulty : ∀ {v : State}, other.state.Passes v →
              Framed f lo v.lastSpan.stop [other.token.span] [⟨other.token.span, []⟩] := by
            intro v hv
            have hv := (hu.stands.behind_take hother rfl).passes hv
            exact .leaf (hv.row (by have := hrow.2.1; omega)) hv.stands.inside
          refine .sinceTake hother (.passing (lineEnd_passes _) fun ended v _ hv => ?_)
          split
          · exact .build fun id => hfaulty hv
          · refine .andThen (block_lays (hother'.passes hv).stands) fun rest w _ hw hrest => ?_
            split
            · exact .build fun id => hfaulty (hv.trans hw)
            · rename_i rest
              have hle := Nat.le_trans hrow.le (hother'.stands.passes hv).2.2
              exact .build fun id => ((hother'.passes hv).passes hw).frame hlo
                (hheld.append ((hrest rest rfl).mono hle (Nat.le_refl _)))
termination_by s.rest.length * 4 + 2
decreasing_by all_goals omega

end

end Statements

/-- An item stands in the row, with all below it. -/
def ItemLies (f : File) (lo : Nat) (i : Item) (hi : Nat) : Prop := Framed f lo hi [i.span] i.frames

section Items

variable {f : File} {s : State} {start : Span} {lo : Nat}

theorem abandonedItem_lays (h : s.Behind f start) (hlo : lo ≤ start.start) :
    (abandonedItem s start).Lays (ItemLies f lo) := .build fun _ => h.leaf hlo

theorem failedItem_lays (h : s.Behind f start) (hlo : lo ≤ start.start) :
    (failedItem s start).Lays (ItemLies f lo) :=
  .passing (recovered_passes s) fun _ _ _ ht => abandonedItem_lays (h.passes ht) hlo

theorem function_lays {tags : List DottedName} (h : s.Behind f start) (hlo : lo ≤ start.start)
    (htags : Span.Row f start.stop s.lastSpan.stop (tags.map (·.span))) :
    (function start tags s).Lays (ItemLies f lo) := by
  rw [function]
  refine .andThen (signature_lays h.stands) fun sig t _ ht hsig => ?_
  have ht := h.passes ht
  split
  · exact failedItem_lays ht hlo
  · rename_i name params result
    have hhead := htags.append (hsig (name, params, result) rfl)
    refine .passing (lineEnd_passes t) fun ended u _ hu => ?_
    have hle := (ht.stands.passes hu).2.2
    have hu := ht.passes hu
    split
    · exact abandonedItem_lays hu hlo
    · refine .andThen (block_lays hu.stands) fun body v _ hv hbody => ?_
      have hv := hu.passes hv
      split
      · exact abandonedItem_lays hv hlo
      · rename_i body
        have hheld := (Framed.of_row hhead).append ((hbody body rfl).mono hle (Nat.le_refl _))
        rw [List.append_assoc] at hheld
        exact .build fun id => hv.frame hlo hheld

theorem taggedFunction_lays {start : Span} {tags : List DottedName} {s : State} (h : s.Behind f start)
    (hlo : lo ≤ start.start) (htags : Span.Row f start.stop s.lastSpan.stop (tags.map (·.span))) :
    (taggedFunction start tags s).Lays (ItemLies f lo) := by
  rw [taggedFunction]
  refine .andThen (dottedName_lays h.stands h.stands.ahead) fun name t hle ht hname => ?_
  have ht := h.passes ht
  split
  · exact failedItem_lays ht hlo
  · rename_i name
    have hall : Span.Row f start.stop t.lastSpan.stop ((tags ++ [name]).map (·.span)) := by
      rw [List.map_append]
      exact htags.append (hname name rfl)
    refine .passing (lineEnd_passes t) fun ended u hle' hu => ?_
    have hstop := (ht.stands.passes hu).2.2
    have hu := ht.passes hu
    split
    · exact abandonedItem_lays hu hlo
    · split
      · rename_i step htag
        have hlen := step.length_lt
        have hrow := hu.stands.row_take hu.stands.ahead htag rfl
        exact .sinceTake htag (taggedFunction_lays (hu.passes (.step (State.take?_eq_some htag).1)) hlo
          (hall.mono (Nat.le_refl _) (Nat.le_trans hstop hrow.le)))
      · split
        · rename_i step hfun
          have hrow := hu.stands.row_take hu.stands.ahead hfun rfl
          exact .sinceTake hfun (function_lays (hu.passes (.step (State.take?_eq_some hfun).1)) hlo
            (hall.mono (Nat.le_refl _) (Nat.le_trans hstop hrow.le)))
        · exact .passing (.reportExpected u _) fun _ v _ hv => abandonedItem_lays (hu.passes hv) hlo
termination_by s.rest.length
decreasing_by all_goals omega

theorem typeAlias_lays (h : s.Behind f start) (hlo : lo ≤ start.start) :
    (typeAlias start s).Lays (ItemLies f lo) := by
  rw [typeAlias]
  have hparts : Attempt.Lays ((identifier s).bind fun name t _ => (expect t .assign).bind fun _ u _ =>
      (typeName u).bind fun target v _ => .ok v (name, target)) fun (name, target) hi =>
        Span.Row f start.stop hi [name.span, target.span] := by
    refine .bind (identifier_lays h.stands h.stands.ahead) fun name t _ ht hname => ?_
    have ht := (h.stands.passes ht).1
    refine .bind (expect_lays ht ht.ahead rfl) fun sign u _ hu hsign => ?_
    have hu := (ht.passes hu).1
    exact .bind (typeName_lays hu hu.ahead) fun target v _ hv htarget =>
      .ok ((hname.append (htarget.mono hsign.le (Nat.le_refl _))).mono h.stop_le (Nat.le_refl _))
  refine .andThen hparts fun parts t _ ht hrow => ?_
  have ht := h.passes ht
  split
  · exact failedItem_lays ht hlo
  · rename_i name target
    have hframe := ht.frame hlo (.of_row (hrow (name, target) rfl))
    refine .passing (lineEnd_passes t) fun ended u _ hu => .build fun id => ?_
    obtain ⟨hstands, -, hstop⟩ := ht.stands.passes hu
    cases ended with
    | true => exact hframe.mono (Nat.le_refl _) hstop
    | false => exact .leaf (hframe.row.mono (Nat.le_refl _) hstop) hstands.inside

theorem item_lays {a : Nat} (hs : s.Stands f) (ha : s.Ahead a) {step : Step s} (hstep : s.step? = some step)
    (heof : step.token.kind ≠ .eof) (hdedent : step.token.kind ≠ .dedent) (hnewline : step.token.kind ≠ .newline) :
    ((item s step heof hdedent).since step.suffix).Lays (ItemLies f a) := by
  have hstart : a ≤ step.token.span.start := ha _ (by rw [step.cons]; exact List.mem_cons_self)
  have hcontent := Kind.isContent_of_ne heof hdedent hnewline
  have hbehind := fun hk => hs.behind_step hstep (hcontent hk)
  rw [item]
  split
  · rename_i hk
    have hbegin := hbehind (by rw [hk]; decide)
    exact .since hstep (taggedFunction_lays hbegin hstart hbegin.stop_le)
  · rename_i hk
    have hbegin := hbehind (by rw [hk]; decide)
    exact .since hstep (function_lays hbegin hstart hbegin.stop_le)
  · rename_i hk
    exact .since hstep (typeAlias_lays (hbehind (by rw [hk]; decide)) hstart)
  · rename_i hk
    have hbegin := (hbehind (by rw [hk]; decide)).takes (t := step.state.withFindings
      (s.report .lateNamespace step.token.span)) (.of_eq rfl rfl)
    exact .noted hstep (fun g hg hr => hr.report _ (hg.shows_step step)) (failedItem_lays hbegin hstart)
  · obtain ⟨ht, hlies⟩ := statement_lays hs ha hstep heof hdedent hnewline
    refine ⟨ht.trans (.of_eq rfl rfl rfl), Framed.frame hlies.row (hs.passes ht).1.inside ⟨?_, hlies.sound⟩⟩
    exact ⟨hlies.row.1, Nat.le_refl _, hlies.row.2.2.1, Nat.le_refl _⟩

/-- The items of a program stand in a row. -/
theorem items_lays {s : State} {a : Nat} (hs : s.Stands f) (ha : a ≤ s.lastSpan.stop) : (items s).Lays
    fun is hi => Framed f a hi (is.map Item.span) (is.flatMap Item.frames) := by
  rw [items]
  split
  · exact .pure (.nil ha)
  · rename_i step hstep
    have hlen := step.length_lt
    obtain ⟨hstands, -, hstop⟩ := hs.passes (.step hstep)
    have hnext := items_lays hstands (Nat.le_trans ha hstop)
    split
    · exact .pure (.nil ha)
    split
    · exact .since hstep hnext
    split
    · exact .since hstep hnext
    · rename_i heof hdedent hnewline
      have hshort := (item s step heof hdedent).within.length_le
      obtain ⟨ht, hfirst⟩ := item_lays hs hs.ahead hstep heof hdedent hnewline
      obtain ⟨hu, hmore⟩ := items_lays (s := (item s step heof hdedent).state) (hs.passes ht).1 (Nat.le_refl _)
      exact ⟨ht.trans hu, (hfirst.mono ha (Nat.le_refl _)).append hmore⟩
termination_by s.rest.length
decreasing_by all_goals omega

theorem header_lays (hs : s.Stands f) : (header s).Lays
    fun name hi => Span.Row f s.lastSpan.stop hi (name.map (·.span)).toList := by
  rw [header]
  split
  · exact .pure (Nat.le_refl s.lastSpan.stop)
  · rename_i step hstep
    have hrow := hs.row_take hs.ahead hstep rfl
    have hstands := hs.take hstep
    refine .sinceTake hstep (.andThen (dottedName_lays hstands hstands.ahead) fun name t _ ht hname => ?_)
    have hle := Nat.le_trans hrow.le (hstands.passes ht).2.2
    have ht := (hstands.passes ht).1
    split
    · exact .passing (recovered_passes t) fun _ u _ hu => .pure (Nat.le_trans hle (ht.passes hu).2.2)
    · rename_i name
      refine .passing (lineEnd_passes t) fun ended u _ hu => .pure ?_
      have hstop := (ht.passes hu).2.2
      cases ended with
      | true => exact (hname name rfl).mono hrow.le hstop
      | false => exact Nat.le_trans hle hstop

end Items

end Parse

namespace File

/-- The tokens of a file stand in their order. -/
theorem stands_start (f : File) : (Parse.fileStart f f.tokenize.dropLast).Stands f := by
  obtain ⟨mark, htiling⟩ := f.tokenize_tiling
  obtain ⟨ks, hks, hn⟩ := f.tokenize_nested
  have hsub := List.dropLast_sublist f.tokenize
  refine ⟨fun t ht => (htiling.tokens t (hsub.subset ht)).1, htiling.ordered.sublist hsub,
    ⟨.lineStart, 0, ?_⟩, rfl, Nat.le_refl 0, Nat.zero_le _, fun t _ => Nat.zero_le _⟩
  rw [Parse.State.kinds, Parse.fileStart, List.map_dropLast, hks, List.dropLast_concat]
  exact hn

/-- Parsing passes tokens of the file, and what it reads stands in a row. -/
theorem program_lays (f : File) :
    (Parse.fileParts f f.tokenize.dropLast).Lays fun (name, items) hi =>
      Framed f 0 hi ((name.map (·.span)).toList ++ items.map Item.span) (items.flatMap Item.frames) := by
  have hs := f.stands_start
  refine .andThen (Parse.header_lays hs) fun name t _ ht hname => ?_
  have ht := (hs.passes ht).1
  refine .andThen (Parse.items_lays ht (Nat.le_refl _)) fun items u _ hu hlies => .pure ?_
  exact (Framed.of_row hname).append hlies

/-- What a program holds stands in a row in the file, with all below it. -/
theorem parse_framed (f : File) : Framed f 0 f.size f.parse.program.spans f.parse.program.frames := by
  obtain ⟨hpasses, hframed⟩ := f.program_lays
  exact hframed.mono (Nat.le_refl _) (f.stands_start.passes hpasses).1.inside

/-- What is wrong with the order of tokens is reported at places in the file. -/
theorem shows_of_mem_findings {f : File} {d : Parse.Finding}
    (hd : d ∈ (Parse.program f f.tokenize.dropLast).2) : f.Shows d.span :=
  f.program_lays.1.reported f f.stands_start nofun d (List.mem_reverse.mp hd)

end File

/-- Only what is empty is normalised to nothing. -/
theorem normalizeLineEnds_ne_nil {raw : Bytes} (h : raw ≠ []) : normalizeLineEnds raw ≠ [] := by
  fun_cases normalizeLineEnds raw with
  | case1 | case2 => exact List.cons_ne_nil _ _
  | case3 => exact absurd rfl h

namespace FileSet

/-- However faulty a source is, the spans of its tree fit it, if there is anything behind a byte order mark:
no fault is found in the spans of its items, and each item, statement and expression has a span that is a
part of the text and holds, in a row, the spans of all that is written in it. -/
theorem spans_nest (fs : FileSet) (path raw : Bytes) (flags : FileFlags) (h : (dropByteOrderMark raw).1 ≠ []) :
    (fs.addNormalized path raw flags).2.parse.program.spanFault? (fs.addNormalized path raw flags).2 = none ∧
      ∀ fr ∈ (fs.addNormalized path raw flags).2.parse.program.frames,
        fr.Sound (fs.addNormalized path raw flags).2 := by
  have hframed := (fs.addNormalized path raw flags).2.parse_framed
  have hsize : 0 < (fs.addNormalized path raw flags).2.size := List.length_pos_iff.mpr (normalizeLineEnds_ne_nil h)
  exact ⟨Program.spanFault?_eq_none rfl hsize hframed, hframed.sound⟩

/-- A source with a declaration that lacks a value, an `else` without a branch, and an open parenthesis. -/
def faulty : Bytes := "tag a.b\nfun f(x: int)\n  var y: int = 1 +\n  if x\n      go(y += 2)\nelse\nz = (2\n"

theorem spans_nest_faulty : (dropByteOrderMark faulty).1 ≠ [] ∧
    (({} : FileSet).addNormalized "main.craft" faulty {}).2.parse.program.spanFault?
      (({} : FileSet).addNormalized "main.craft" faulty {}).2 = none ∧
    (∀ fr ∈ (({} : FileSet).addNormalized "main.craft" faulty {}).2.parse.program.frames,
      fr.Sound (({} : FileSet).addNormalized "main.craft" faulty {}).2) ∧
    (({} : FileSet).addNormalized "main.craft" faulty {}).2.parse.program.frames.length = 17 := by
  obtain ⟨hnone, hsound⟩ := spans_nest {} "main.craft" faulty {} (by decide)
  exact ⟨by decide, hnone, hsound, by decide +kernel⟩

/-- A source that is a byte order mark and nothing else is not empty, but there is no text for its program
to span. -/
theorem byteOrderMark_faulty : ¬ ∀ (fs : FileSet) (path raw : Bytes) (flags : FileFlags), raw ≠ [] →
    (fs.addNormalized path raw flags).2.parse.program.spanFault? (fs.addNormalized path raw flags).2 = none ∧
      ∀ fr ∈ (fs.addNormalized path raw flags).2.parse.program.frames,
        fr.Sound (fs.addNormalized path raw flags).2 := by
  intro hall
  have hmark := (hall {} "main.craft" [0xEF, 0xBB, 0xBF] {} (by decide)).1
  rw [show (({} : FileSet).addNormalized "main.craft" [0xEF, 0xBB, 0xBF] {}).2.parse.program.spanFault?
    (({} : FileSet).addNormalized "main.craft" [0xEF, 0xBB, 0xBF] {}).2 = some (.emptyFile ⟨0, 0, 0⟩) by
      decide] at hmark
  cases hmark

end FileSet

end Craftlang
