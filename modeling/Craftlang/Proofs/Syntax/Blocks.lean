import Craftlang.Proofs.Syntax.ExprReading

/-!
# Recovery stays in its block

Whatever is wrong with a text, a statement takes tokens that open and close blocks in pairs, and it ends
where a line starts. So a block that is parsed ends with the token that closes it, and what follows a block
is never taken for a part of it.
-/

namespace Craftlang

/-- A run in balance within another. -/
theorem IsBalanced.insert {ks ls m : List Kind} (h : IsBalanced (ks ++ ls)) (hm : IsBalanced m) :
    IsBalanced (ks ++ (m ++ ls)) := by
  refine ⟨fun n => ?_, ?_⟩
  · have hbefore := h.closed_le (min n ks.length)
    have hafter := h.closed_le (ks.length + (n - ks.length - m.length))
    have hinside := hm.closed_le (n - ks.length)
    rw [List.take_append, List.take_append, List.count_append, List.count_append, List.count_append,
      List.count_append]
    rw [List.take_append, List.count_append, List.count_append] at hbefore hafter
    by_cases hn : n ≤ ks.length
    · rw [Nat.min_eq_left hn] at hbefore
      have hnone : n - ks.length = 0 := by omega
      rw [hnone] at hbefore ⊢
      rw [Nat.zero_sub]
      simp only [List.take_zero, List.count_nil] at hbefore ⊢
      omega
    · rw [List.take_of_length_le (Nat.le_add_right _ _), Nat.add_sub_cancel_left] at hafter
      rw [List.take_of_length_le (Nat.le_of_not_le hn)]
      omega
  · have htotal := h.total
    have hinside := hm.total
    simp only [List.count_append] at htotal ⊢
    omega

/-- A token within a line opens and closes no block. -/
theorem Kind.ne_of_isInline {k : Kind} (h : k.isInline = true) : k ≠ .indent ∧ k ≠ .dedent := by
  constructor <;>
  · rintro rfl
    cases h

namespace Parse

/-- From one state to another tokens are taken that open and close blocks in pairs. -/
def State.Balances (s t : State) : Prop := ∃ ts, s.kinds = ts ++ t.kinds ∧ IsBalanced ts

namespace State.Balances

variable {s t u : State}

theorem of_kinds (h : s.kinds = t.kinds) : s.Balances t := ⟨[], h, .nil⟩

theorem refl (s : State) : s.Balances s := of_kinds rfl

theorem trans (h : s.Balances t) (h' : t.Balances u) : s.Balances u := by
  obtain ⟨ts, hts, hb⟩ := h
  obtain ⟨us, hus, hb'⟩ := h'
  exact ⟨ts ++ us, by rw [hts, hus, List.append_assoc], hb.append hb'⟩

/-- A token that is no block's start or end. -/
theorem step (step : Step s) (hk : step.token.kind ≠ .indent ∧ step.token.kind ≠ .dedent) :
    s.Balances step.state :=
  ⟨[step.token.kind], by rw [kinds, step.cons]; rfl,
    .of_forall fun k hmem => by rwa [List.mem_singleton.mp hmem]⟩

/-- As many blocks are open as before. -/
theorem nested (h : s.Balances t) {q : LinePlace} {d : Nat} (hs : Nested q d s.kinds) :
    ∃ q', Nested q' d t.kinds := by
  obtain ⟨ts, hts, hb⟩ := h
  exact Nested.of_balanced (hts ▸ hs) hb

end State.Balances

@[simp] theorem State.kinds_reportExpected (s : State) (what : Expectation) :
    (s.reportExpected what).kinds = s.kinds := by
  rw [reportExpected]
  split <;> rfl

/-- The parser takes tokens in balance. -/
def Parsed.Stays {s : State} {α : Type} (p : Parsed s α) : Prop := s.Balances p.state

namespace Parsed.Stays

variable {s : State} {α β : Type} {p : Parsed s α}

theorem ok {a : α} : Parsed.Stays (Attempt.ok s a) := .refl s

theorem build [IsNode α] {span : Span} {make : Node → α} : (Parsed.build s span make).Stays := .of_kinds rfl

theorem expected {what : Expectation} : Parsed.Stays (Attempt.expected s what : Attempt s α) :=
  .of_kinds (s.kinds_reportExpected what).symm

theorem andThen {next : α → (t : State) → t.rest.length ≤ s.rest.length → Parsed t β} (hp : p.Stays)
    (hn : ∀ a t h, (next a t h).Stays) : (p.andThen next).Stays :=
  hp.trans (hn p.value p.state p.within.length_le)

theorem bind {p : Attempt s α} {next : α → (t : State) → t.rest.length ≤ s.rest.length → Attempt t β}
    (hp : Parsed.Stays p) (hn : ∀ a t h, Parsed.Stays (next a t h)) : Parsed.Stays (p.bind next) := by
  rw [Attempt.Reads.bind_eq]
  refine andThen hp fun v t h => ?_
  cases v with
  | none => exact .refl t
  | some a => exact hn a t h

/-- Goes on after a token of a line. -/
theorem since {step : Step s} (hk : step.token.kind.isInline = true) {p : Parsed step.state α}
    (hp : p.Stays) : (p.since step.suffix).Stays :=
  (State.Balances.step step (Kind.ne_of_isInline hk)).trans hp

theorem sinceTake {k : Kind} {step : Step s} (ht : s.take? k = some step) (hk : k.isInline = true)
    {p : Parsed step.state α} (hp : p.Stays) : (p.since step.suffix).Stays := by
  obtain ⟨-, rfl⟩ := State.take?_eq_some ht
  exact since hk hp

end Parsed.Stays

theorem expect_stays {k : Kind} (s : State) (hk : k.isInline = true) : Parsed.Stays (expect s k) := by
  rw [expect]
  split
  · exact .sinceTake ‹_› hk .ok
  · exact .expected

theorem identifier_stays (s : State) : Parsed.Stays (identifier s) := by
  rw [identifier]
  split
  · exact .sinceTake ‹_› rfl .ok
  · exact .expected

theorem typeName_stays (s : State) : Parsed.Stays (typeName s) := by
  rw [typeName]
  split
  · exact .sinceTake ‹_› rfl .ok
  · exact .expected

theorem AreInline.balanced {ts : List Token} (h : AreInline ts) : IsBalanced (ts.map (·.kind)) :=
  .of_forall (List.forall_mem_map.mpr fun t ht => Kind.ne_of_isInline (h t ht))

/-- An expression takes tokens of its line, also when it fails. -/
theorem expression_stays (s : State) : Parsed.Stays (expression s) := by
  obtain ⟨e, ts, -, hrun⟩ | ⟨-, ts, hfails⟩ := expression_cases s
  · exact ⟨_, hrun.moves.kinds, hrun.inline.balanced⟩
  · obtain ⟨w, hmoves, hstops⟩ := hfails.moves
    refine ⟨_, ?_, hfails.inline.balanced⟩
    rw [hmoves.kinds, State.kinds, State.kinds, hstops.rest]

theorem typeMark_stays (s : State) : Parsed.Stays (typeMark s) := by
  rw [typeMark]
  split
  · exact .ok
  · exact .sinceTake ‹_› rfl (.bind (typeName_stays _) fun _ _ _ => .ok)

/-- Skipping a block whose start is taken ends right behind the token that closes it; `depth` blocks
inside it were opened before. -/
theorem skipBlock_closes {q : LinePlace} {d : Nat} (depth : Nat) (last : Span) (ts : List Token)
    (h : Nested q (depth + 1 + d) (ts.map (·.kind))) : ∃ inside,
      ts.map (·.kind) = inside ++ .dedent :: (skipBlock depth last ts).2.map (·.kind) ∧
      IsBalanced (List.replicate depth .indent ++ inside) ∧
      Nested .lineStart d ((skipBlock depth last ts).2.map (·.kind)) := by
  induction ts generalizing q depth last with
  | nil =>
    have hd : depth + 1 + d = 0 := h.2
    omega
  | cons t ts ih =>
    rw [List.map_cons] at h ⊢
    -- a token that opens and closes nothing goes to the inside
    have hpass : ∀ q', Nested q' (depth + 1 + d) (ts.map (·.kind)) →
        t.kind ≠ .indent ∧ t.kind ≠ .dedent →
        skipBlock depth last (t :: ts) = skipBlock depth (State.spanAfter last t) ts →
        ∃ inside, t.kind :: ts.map (·.kind)
            = inside ++ .dedent :: (skipBlock depth last (t :: ts)).2.map (·.kind) ∧
          IsBalanced (List.replicate depth .indent ++ inside) ∧
          Nested .lineStart d ((skipBlock depth last (t :: ts)).2.map (·.kind)) := by
      intro q' hrest hk hskip
      obtain ⟨inside, heq, hb, hn⟩ := ih depth (State.spanAfter last t) hrest
      rw [hskip]
      refine ⟨t.kind :: inside, by rw [heq]; rfl, ?_, hn⟩
      exact hb.insert (m := [t.kind]) (.of_forall fun k hmem => by rwa [List.mem_singleton.mp hmem])
    cases hk : t.kind with
    | eof =>
      rw [hk] at h
      exact absurd rfl h.1
    | indent =>
      rw [hk] at h
      have hrest : Nested .indented ((depth + 1) + 1 + d) (ts.map (·.kind)) := by
        have := h.2
        rwa [show depth + 1 + d + 1 = depth + 1 + 1 + d by omega] at this
      obtain ⟨inside, heq, hb, hn⟩ := ih (depth + 1) (State.spanAfter last t) hrest
      have hskip : skipBlock depth last (t :: ts) = skipBlock (depth + 1) (State.spanAfter last t) ts := by
        simp only [skipBlock, hk]
      rw [hskip]
      refine ⟨.indent :: inside, by rw [heq]; rfl, ?_, hn⟩
      rwa [List.replicate_succ', List.append_assoc] at hb
    | dedent =>
      rw [hk] at h
      cases depth with
      | zero =>
        have hskip : skipBlock 0 last (t :: ts) = (State.spanAfter last t, ts) := by
          simp only [skipBlock, hk]
        rw [hskip]
        refine ⟨[], rfl, .nil, ?_⟩
        have := h.2.2
        rwa [show 0 + 1 + d - 1 = d by omega] at this
      | succ depth =>
        have hrest : Nested .lineStart (depth + 1 + d) (ts.map (·.kind)) := by
          have := h.2.2
          rwa [show depth + 1 + 1 + d - 1 = depth + 1 + d by omega] at this
        obtain ⟨inside, heq, hb, hn⟩ := ih depth (State.spanAfter last t) hrest
        have hskip : skipBlock (depth + 1) last (t :: ts) = skipBlock depth (State.spanAfter last t) ts := by
          simp only [skipBlock, hk]
        rw [hskip]
        refine ⟨.dedent :: inside, by rw [heq]; rfl, ?_, hn⟩
        rw [List.replicate_succ', List.append_assoc]
        exact hb.insert (IsBalanced.block .nil)
    | _ =>
      rw [hk] at h hpass
      exact hpass _ h.2 (by decide) (by simp only [skipBlock, hk])

/-- Skipping a line, and the block below it, ends where a line starts in the same block. -/
theorem skipLine_balances {q : LinePlace} {d : Nat} (last : Span) (ts : List Token)
    (h : Nested q d (ts.map (·.kind))) : (∃ us, ts.map (·.kind) = us ++ (skipLine last ts).2.map (·.kind) ∧
      IsBalanced us) ∧ Nested .lineStart d ((skipLine last ts).2.map (·.kind)) := by
  have hblock : ∀ (last : Span) (below : List Token), Nested .indented (d + 1) (below.map (·.kind)) →
      (∃ us, .indent :: below.map (·.kind) = us ++ (skipBlock 0 last below).2.map (·.kind) ∧
        IsBalanced us) ∧ Nested .lineStart d ((skipBlock 0 last below).2.map (·.kind)) := by
    intro last below hbelow
    obtain ⟨inside, heq, hb, hn⟩ := skipBlock_closes (d := d) 0 last below
      (by rwa [show 0 + 1 + d = d + 1 by omega])
    exact ⟨⟨_, by rw [heq, List.append_assoc]; rfl, IsBalanced.block hb⟩, hn⟩
  fun_induction skipLine last ts generalizing q with
  | case1 => exact ⟨⟨[], rfl, .nil⟩, rfl, h.2⟩
  | case2 last t rest hk =>
    rw [List.map_cons, hk] at h
    exact absurd rfl h.1
  | case3 last t rest hk =>
    refine ⟨⟨[], rfl, .nil⟩, ?_⟩
    rw [List.map_cons, hk] at h ⊢
    exact ⟨rfl, h.2⟩
  | case4 last t hk u below hu =>
    rw [List.map_cons, List.map_cons, hk, hu] at h ⊢
    obtain ⟨⟨us, heq, hb⟩, hn⟩ := hblock last below h.2.2
    refine ⟨⟨.newline :: us, by rw [heq]; rfl, ?_⟩, hn⟩
    exact (show IsBalanced [.newline] from .of_forall (by decide)).append hb
  | case5 last t hk u below hu =>
    rw [List.map_cons, hk] at h ⊢
    exact ⟨⟨[.newline], rfl, .of_forall (by decide)⟩, h.2⟩
  | case6 last t hk =>
    rw [List.map_cons, hk] at h ⊢
    exact ⟨⟨[.newline], rfl, .of_forall (by decide)⟩, h.2⟩
  | case7 last t rest hk ih =>
    rw [List.map_cons, hk] at h ⊢
    obtain ⟨⟨us, heq, hb⟩, hn⟩ := hblock last rest h.2
    obtain ⟨⟨us', heq', hb'⟩, hn'⟩ := ih hn
    exact ⟨⟨us ++ us', by rw [heq, heq', List.append_assoc], hb.append hb'⟩, hn'⟩
  | case8 last t rest heof hdedent hnewline hindent ih =>
    have hb : IsBalanced [t.kind] := .of_forall fun k hk => by
      rw [List.mem_singleton.mp hk]
      exact ⟨hindent, hdedent⟩
    rw [List.map_cons] at h ⊢
    obtain ⟨q', hrest⟩ := @Nested.of_balanced _ _ [t.kind] _ h hb
    obtain ⟨⟨us, heq, hb'⟩, hn⟩ := ih hrest
    exact ⟨⟨t.kind :: us, by rw [heq]; rfl, hb.append hb'⟩, hn⟩

/-- The parser takes tokens in balance and ends where a line starts. -/
def Parsed.EndsLine {s : State} {α : Type} (p : Parsed s α) : Prop :=
  ∀ q d, Nested q d s.kinds → s.Balances p.state ∧ Nested .lineStart d p.state.kinds

/-- The same for a parser that is called where a line starts. -/
def Parsed.KeepsLine {s : State} {α : Type} (p : Parsed s α) : Prop :=
  ∀ d, Nested .lineStart d s.kinds → s.Balances p.state ∧ Nested .lineStart d p.state.kinds

namespace Parsed

variable {s : State} {α β : Type} {p : Parsed s α}
  {next : α → (t : State) → t.rest.length ≤ s.rest.length → Parsed t β}

theorem EndsLine.keepsLine (h : p.EndsLine) : p.KeepsLine := fun d hs => h .lineStart d hs

/-- A parser within a line, and one that ends it. -/
theorem EndsLine.behind (hp : p.Stays) (hn : ∀ a t h, (next a t h).EndsLine) :
    (p.andThen next).EndsLine := by
  intro q d hs
  obtain ⟨q', hmid⟩ := hp.nested hs
  obtain ⟨hb, hend⟩ := hn p.value p.state p.within.length_le q' d hmid
  exact ⟨hp.trans hb, hend⟩

theorem EndsLine.andThen (hp : p.EndsLine) (hn : ∀ a t h, (next a t h).KeepsLine) :
    (p.andThen next).EndsLine := by
  intro q d hs
  obtain ⟨hb, hmid⟩ := hp q d hs
  obtain ⟨hb', hend⟩ := hn p.value p.state p.within.length_le d hmid
  exact ⟨hb.trans hb', hend⟩

theorem KeepsLine.andThen (hp : p.KeepsLine) (hn : ∀ a t h, (next a t h).KeepsLine) :
    (p.andThen next).KeepsLine := by
  intro d hs
  obtain ⟨hb, hmid⟩ := hp d hs
  obtain ⟨hb', hend⟩ := hn p.value p.state p.within.length_le d hmid
  exact ⟨hb.trans hb', hend⟩

theorem KeepsLine.of_kinds (h : s.kinds = p.state.kinds) : p.KeepsLine := fun _ hs =>
  ⟨.of_kinds h, h ▸ hs⟩

theorem KeepsLine.pure {a : α} : (Parsed.pure s a).KeepsLine := .of_kinds rfl

theorem KeepsLine.build [IsNode α] {span : Span} {make : Node → α} : (Parsed.build s span make).KeepsLine :=
  .of_kinds rfl

/-- Goes on after a token of a line. -/
theorem EndsLine.since {step : Step s} (hk : step.token.kind ≠ .indent ∧ step.token.kind ≠ .dedent)
    {p : Parsed step.state α} (hp : p.EndsLine) : (p.since step.suffix).EndsLine := by
  intro q d hn
  have htoken := State.Balances.step step hk
  obtain ⟨q', hmid⟩ := htoken.nested hn
  obtain ⟨hb, hend⟩ := hp q' d hmid
  exact ⟨htoken.trans hb, hend⟩

theorem EndsLine.sinceTake {k : Kind} {step : Step s} (ht : s.take? k = some step)
    (hk : k ≠ .indent ∧ k ≠ .dedent) {p : Parsed step.state α} (hp : p.EndsLine) :
    (p.since step.suffix).EndsLine := by
  obtain ⟨-, rfl⟩ := State.take?_eq_some ht
  exact since hk hp

end Parsed

theorem recovered_endsLine (s : State) : (recovered s).EndsLine := fun _ _ hs =>
  skipLine_balances s.lastSpan s.rest hs

theorem lineEnd_endsLine (s : State) : (lineEnd s).EndsLine := by
  intro q d hs
  rw [lineEnd]
  split
  · rename_i hnone
    have hnil := State.step?_eq_none hnone
    rw [hnil] at hs
    refine ⟨.refl s, ?_⟩
    change Nested .lineStart d s.kinds
    rw [hnil]
    exact ⟨rfl, hs.2⟩
  · rename_i step hstep
    have hkinds := (State.step?_eq_some hstep).1
    split
    · rename_i hk
      refine ⟨.step step (by rw [hk]; decide), ?_⟩
      rw [hkinds, hk] at hs
      exact hs.2
    · rename_i hk
      refine ⟨.refl s, ?_⟩
      change Nested .lineStart d s.kinds
      rw [hkinds, hk] at hs ⊢
      exact ⟨rfl, hs.2⟩
    · rename_i hk
      rw [hkinds, hk] at hs
      exact absurd rfl hs.1
    · have hnested : Nested q d (s.reportExpected .lineEnd).kinds := by
        rwa [State.kinds_reportExpected]
      obtain ⟨hb, hend⟩ := recovered_endsLine (s.reportExpected .lineEnd) q d hnested
      exact ⟨(State.Balances.of_kinds (s.kinds_reportExpected _).symm).trans hb, hend⟩

theorem simple_endsLine (s : State) (span : Span) (make : Node → Stmt) : (simple s span make).EndsLine :=
  .behind .build fun _ t _ => .andThen (lineEnd_endsLine t) fun _ _ _ => by
    split
    · exact .pure
    · exact .build

theorem failed_endsLine (s : State) (start : Span) : (failed s start).EndsLine :=
  .andThen (recovered_endsLine s) fun _ _ _ => .build

theorem declaration_endsLine (start : Span) (s : State) : (declaration start s).EndsLine := by
  rw [declaration]
  refine .behind (.bind (identifier_stays s) fun _ t _ => .bind (typeMark_stays t) fun _ _ _ => .ok)
    fun header t _ => ?_
  split
  · exact failed_endsLine t start
  · split
    · exact simple_endsLine _ _ _
    · refine .sinceTake ‹_› (by decide) (.behind (expression_stays _) fun value u _ => ?_)
      split
      · exact simple_endsLine _ _ _
      · exact .behind .build fun _ v _ => .andThen (recovered_endsLine v) fun _ _ _ => .build

theorem returned_endsLine (start : Span) (s : State) : (returned start s).EndsLine := by
  rw [returned]
  split
  iterate 3 exact simple_endsLine _ _ _
  refine .behind (expression_stays s) fun value t _ => ?_
  split
  · exact failed_endsLine t start
  · exact simple_endsLine _ _ _

theorem condition_endsLine (s : State) : Parsed.EndsLine (condition s) := by
  rw [condition]
  refine .behind (expression_stays s) fun cond t _ => ?_
  split
  · exact .andThen (recovered_endsLine t) fun _ _ _ => .pure
  · exact .andThen (lineEnd_endsLine t) fun _ _ _ => .pure

/-- Skipping a block behind its start leads out of it. -/
theorem skipped_closes {s : State} {d : Nat} (h : Nested .indented (d + 1) s.kinds) :
    ∃ inside, s.kinds = inside ++ .dedent :: (skipped s).state.kinds ∧ IsBalanced inside ∧
      Nested .lineStart d (skipped s).state.kinds :=
  skipBlock_closes 0 s.lastSpan s.rest (by rwa [show 0 + 1 + d = d + 1 by omega])

mutual

/-- A block that is parsed is its start, tokens in balance, and the token that closes it. -/
theorem block_closes {q : LinePlace} {d : Nat} {s : State} (h : Nested q d s.kinds)
    (hb : (block s).value.isSome) : ∃ inside, s.kinds = .indent :: inside ++ .dedent :: (block s).state.kinds ∧
      IsBalanced inside ∧ Nested .lineStart d (block s).state.kinds := by
  rw [block] at hb ⊢
  split at hb
  · cases hb
  · rename_i opening hopening
    have hlen := opening.length_lt
    obtain ⟨-, hk⟩ := State.take?_eq_some hopening
    have hkinds : s.kinds = .indent :: opening.state.kinds := by
      rw [State.kinds, opening.cons, ← hk]
      rfl
    rw [hkinds] at h ⊢
    obtain ⟨inside, heq, hbal, hend⟩ := statements_closes (s := opening.state) (by decide) h.2
    exact ⟨inside, by rw [heq]; rfl, hbal, hend⟩
termination_by s.rest.length * 5 + 1
decreasing_by all_goals omega

/-- The statements of a block end right behind the token that closes it. -/
theorem statements_closes {q : LinePlace} {d : Nat} {s : State} (hq : q ≠ .inLine)
    (h : Nested q (d + 1) s.kinds) : ∃ inside, s.kinds = inside ++ .dedent :: (statements s).state.kinds ∧
      IsBalanced inside ∧ Nested .lineStart d (statements s).state.kinds := by
  rw [statements]
  split
  · rename_i hnone
    rw [State.step?_eq_none hnone] at h
    exact absurd h.2 (Nat.succ_ne_zero d)
  · rename_i step hs
    have hlen := step.length_lt
    have hkinds := (State.step?_eq_some hs).1
    rw [hkinds] at h
    split
    · rename_i hk
      rw [hk] at h
      exact absurd rfl h.1
    split
    · rename_i hk
      rw [hk] at h
      exact ⟨[], by rw [hkinds, hk]; rfl, .nil, h.2.2⟩
    split
    · rename_i hk
      rw [hk] at h
      exact absurd h.1 hq
    · rename_i heof hdedent _
      rw [← hkinds] at h
      obtain ⟨⟨us, hus, hbal⟩, hmid⟩ := statement_endsLine s step heof hdedent q (d + 1) h
      have hshort := (statement s step heof hdedent).within.length_le
      obtain ⟨inside, heq, hbal', hend⟩ :=
        statements_closes (s := (statement s step heof hdedent).state) (by decide) hmid
      refine ⟨us ++ inside, ?_, hbal.append hbal', hend⟩
      rw [hus, List.append_assoc]
      exact congrArg (us ++ ·) heq
termination_by s.rest.length * 5
decreasing_by all_goals omega

/-- A statement takes tokens in balance, and the next line of its block starts behind it. -/
theorem statement_endsLine (s : State) (step : Step s) (heof : step.token.kind ≠ .eof)
    (hdedent : step.token.kind ≠ .dedent) :
    ((statement s step heof hdedent).since step.suffix).EndsLine := by
  have hlen := step.length_lt
  rw [statement]
  split
  · rename_i hk
    exact .since (by rw [hk]; decide) (declaration_endsLine _ _)
  · rename_i hk
    exact .since (by rw [hk]; decide) (branch_endsLine _ _)
  · rename_i hk
    refine .since (by rw [hk]; decide) (.andThen (condition_endsLine _) fun cond t _ => ?_)
    split
    · exact .build
    · refine .andThen (block_keepsLine t) fun body u _ => ?_
      split <;> exact .build
  · rename_i hk
    refine .since (by rw [hk]; decide) (.andThen (lineEnd_endsLine _) fun ended t _ => ?_)
    split
    · exact .build
    · refine .andThen (block_keepsLine t) fun body u _ => ?_
      split
      · exact .build
      · refine Parsed.EndsLine.keepsLine (.behind (.bind (expect_stays u rfl) fun _ v _ => expression_stays v)
          fun cond v _ => ?_)
        split
        · exact failed_endsLine _ _
        · exact simple_endsLine _ _ _
  iterate 2
    rename_i hk
    exact .since (by rw [hk]; decide) (simple_endsLine _ _ _)
  · rename_i hk
    exact .since (by rw [hk]; decide) (returned_endsLine _ _)
  · rename_i hk
    exact .since (by rw [hk]; decide) (simple_endsLine _ _ _)
  · -- an indentation where none belongs: the whole block is skipped
    rename_i hk
    intro q d h
    have hkinds : s.kinds = .indent :: step.state.kinds := by
      rw [State.kinds, step.cons, ← hk]
      rfl
    rw [hkinds] at h
    obtain ⟨inside, heq, hbal, hend⟩ := skipped_closes
      (s := step.state.withFindings (s.report .unexpectedIndent step.token.span)) h.2
    refine ⟨⟨.indent :: inside ++ [.dedent], ?_, hbal.block⟩, hend⟩
    rw [hkinds, List.append_assoc]
    exact congrArg (Kind.indent :: ·) heq
  iterate 5
    · rename_i hk
      exact .since (by rw [hk]; decide) (failed_endsLine (step.state.withFindings _) step.token.span)
  · split
    · rename_i e _
      exact Parsed.EndsLine.behind (expression_stays s) fun _ t _ => simple_endsLine t e.span (.expr · e)
    · exact Parsed.EndsLine.behind (expression_stays s) fun _ t _ => failed_endsLine t step.token.span
termination_by s.rest.length * 5 - 1
decreasing_by all_goals omega

theorem branch_endsLine (start : Span) (s : State) : (branch start s).EndsLine := by
  rw [branch]
  refine .andThen (condition_endsLine s) fun cond t _ => ?_
  split
  · exact .build
  · refine .andThen (block_keepsLine t) fun body u _ => ?_
    split
    · exact .build
    · split
      · exact .build
      · rename_i other hother
        have hlen := other.length_lt
        refine Parsed.EndsLine.keepsLine ?_
        split
        · rename_i again hagain
          have hlen' := again.length_lt
          exact .sinceTake hother (by decide) (.sinceTake hagain (by decide)
            (.andThen (branch_endsLine _ _) fun _ _ _ => .build))
        · refine .sinceTake hother (by decide) (.andThen (lineEnd_endsLine _) fun ended v _ => ?_)
          split
          · exact .build
          · refine .andThen (block_keepsLine v) fun rest w _ => ?_
            split <;> exact .build
termination_by s.rest.length * 5 + 3
decreasing_by all_goals omega

theorem block_keepsLine (s : State) : Parsed.KeepsLine (block s) := by
  intro d h
  cases hb : (block s).value with
  | some b =>
    obtain ⟨inside, heq, hbal, hend⟩ := block_closes h (by rw [hb]; rfl)
    exact ⟨⟨_, by rw [heq, ← List.append_cons], hbal.block⟩, hend⟩
  | none =>
    rw [block] at hb ⊢
    split at hb
    · exact ⟨.of_kinds (s.kinds_reportExpected _).symm, (s.kinds_reportExpected .block).symm ▸ h⟩
    · cases hb
termination_by s.rest.length * 5 + 2
decreasing_by all_goals omega

end

end Parse

end Craftlang
