import Craftlang.Proofs.Syntax.OnDemand
import Craftlang.Proofs.Syntax.Precedence
import Craftlang.Proofs.Syntax.Recovery

/-!
# The parser makes progress

The parser goes through its tokens in two loops, over the items of a program and over the statements of a block, and
after a problem in two more. A round of a loop takes the token it looks at, so the rounds take the tokens in pieces,
one behind the other, and no token is taken twice or left out.
-/

namespace Craftlang

namespace Parse

/-- From one state to another these tokens are taken. -/
def State.Consumes (s : State) (ts : List Token) (t : State) : Prop := s.rest = ts ++ t.rest

theorem State.Consumes.trans {s t u : State} {ts us : List Token} (h : s.Consumes ts t) (h' : t.Consumes us u) :
    s.Consumes (ts ++ us) u := by
  rw [Consumes, h, h', List.append_assoc]

theorem Parsed.consumes {s : State} {α : Type} (p : Parsed s α) : ∃ ts, s.Consumes ts p.state := by
  obtain ⟨ts, hts⟩ := p.within
  exact ⟨ts, hts.symm⟩

/-- What goes on behind a token takes that token first. -/
theorem Step.consumes {s : State} {α : Type} (step : Step s) (p : Parsed step.state α) :
    ∃ more, s.Consumes (step.token :: more) p.state := by
  obtain ⟨more, hmore⟩ := p.consumes
  exact ⟨more, by rw [State.Consumes, step.cons, hmore, List.cons_append]⟩

/-- A loop of the parser: the kinds of tokens it stops at, those it drops, and the state that is left by the call
that any other token starts. -/
structure Loop where
  stops : Kind → Prop
  drops : Kind → Prop
  after (s : State) (step : Step s) : step.token.kind ≠ .eof → step.token.kind ≠ .dedent → State

/-- The loop over the items of a program. -/
def itemLoop : Loop where
  stops k := k = .eof
  drops k := k = .dedent ∨ k = .newline
  after s step heof hdedent := (item s step heof hdedent).state

/-- The loop over the statements of a block. -/
def statementLoop : Loop where
  stops k := k = .eof ∨ k = .dedent
  drops k := k = .newline
  after s step heof hdedent := (statement s step heof hdedent).state

/-- A run of a loop, with the tokens that each round takes: the one it drops, or that a call starts with and those
behind it that the call takes. -/
inductive Loop.Run (l : Loop) : State → List (List Token) → State → Prop
  | stop {s : State} : l.stops s.kind → Run l s [] s
  | drop {s t : State} {step : Step s} {pieces : List (List Token)} : s.step? = some step →
      ¬ l.stops step.token.kind → l.drops step.token.kind → Run l step.state pieces t →
      Run l s ([step.token] :: pieces) t
  | call {s t : State} {step : Step s} {pieces : List (List Token)} {more : List Token} {heof : step.token.kind ≠ .eof}
      {hdedent : step.token.kind ≠ .dedent} : s.step? = some step → ¬ l.stops step.token.kind →
      ¬ l.drops step.token.kind → s.Consumes (step.token :: more) (l.after s step heof hdedent) →
      Run l (l.after s step heof hdedent) pieces t → Run l s ((step.token :: more) :: pieces) t

namespace Loop.Run

variable {l : Loop} {s t : State} {pieces : List (List Token)}

theorem stops (h : l.Run s pieces t) : l.stops t.kind := by
  induction h with
  | stop hstops => exact hstops
  | drop _ _ _ _ ih => exact ih
  | call _ _ _ _ _ ih => exact ih

/-- The rounds take the tokens one behind the other. -/
theorem consumes (h : l.Run s pieces t) : s.Consumes pieces.flatten t := by
  induction h with
  | stop => rfl
  | @drop s _ step _ _ _ _ _ ih =>
    have hstep : s.Consumes [step.token] step.state := step.cons
    exact hstep.trans ih
  | call _ _ _ hcall _ ih => exact hcall.trans ih

/-- There are no more rounds than tokens. -/
theorem length_le (h : l.Run s pieces t) : pieces.length ≤ s.rest.length := by
  induction h with
  | stop => exact Nat.zero_le _
  | @drop s _ step _ _ _ _ _ ih => exact Nat.lt_of_le_of_lt ih step.length_lt
  | call _ _ _ hcall _ ih =>
    rw [hcall, List.length_append, List.length_cons, List.length_cons]
    omega

/-- A loop runs in one way. -/
theorem unique (h : l.Run s pieces t) {pieces' : List (List Token)} {t' : State} (h' : l.Run s pieces' t') :
    pieces' = pieces ∧ t' = t := by
  induction h generalizing pieces' with
  | stop hstops =>
    cases h' with
    | stop => exact ⟨rfl, rfl⟩
    | drop hstep hgoes => exact absurd (State.kind_eq_of_step hstep ▸ hstops) hgoes
    | call hstep hgoes => exact absurd (State.kind_eq_of_step hstep ▸ hstops) hgoes
  | drop hstep hgoes hdrops _ ih =>
    cases h' with
    | stop hstops => exact absurd (State.kind_eq_of_step hstep ▸ hstops) hgoes
    | drop hstep' _ _ hrun =>
      obtain rfl := Option.some.inj (hstep.symm.trans hstep')
      obtain ⟨hpieces, ht⟩ := ih hrun
      exact ⟨by rw [hpieces], ht⟩
    | call hstep' _ hkeeps =>
      obtain rfl := Option.some.inj (hstep.symm.trans hstep')
      exact absurd hdrops hkeeps
  | call hstep hgoes hkeeps hcall _ ih =>
    cases h' with
    | stop hstops => exact absurd (State.kind_eq_of_step hstep ▸ hstops) hgoes
    | drop hstep' _ hdrops =>
      obtain rfl := Option.some.inj (hstep.symm.trans hstep')
      exact absurd hdrops hkeeps
    | call hstep' _ _ hcall' hrun =>
      obtain rfl := Option.some.inj (hstep.symm.trans hstep')
      obtain ⟨hpieces, ht⟩ := ih hrun
      exact ⟨by rw [hpieces, List.append_cancel_right (hcall'.symm.trans hcall)], ht⟩

end Loop.Run

/-- The loop over the items runs to the end of the file. -/
theorem items_run (s : State) : ∃ pieces, itemLoop.Run s pieces (items s).state := by
  rw [items]
  split
  · next hnone => exact ⟨[], .stop (State.kind_eq_eof hnone)⟩
  · next step hstep =>
    have hlen := step.length_lt
    split
    · next heof => exact ⟨[], .stop ((State.kind_eq_of_step hstep).trans heof)⟩
    · next heof =>
      split
      · next hdedent =>
        obtain ⟨pieces, hrun⟩ := items_run step.state
        exact ⟨_, .drop hstep heof (.inl hdedent) hrun⟩
      · next hdedent =>
        split
        · next hnewline =>
          obtain ⟨pieces, hrun⟩ := items_run step.state
          exact ⟨_, .drop hstep heof (.inr hnewline) hrun⟩
        · next hnewline =>
          have hshort := (item s step heof hdedent).within.length_le
          obtain ⟨more, hmore⟩ := step.consumes (item s step heof hdedent)
          obtain ⟨pieces, hrun⟩ := items_run (item s step heof hdedent).state
          exact ⟨_, .call hstep heof (not_or.mpr ⟨hdedent, hnewline⟩) hmore hrun⟩
termination_by s.rest.length
decreasing_by all_goals omega

/-- The loop over the statements of a block runs to the token that closes it, which is taken too, or to the end of the
file. -/
theorem statements_run (s : State) : ∃ pieces t, statementLoop.Run s pieces t ∧
    (t.kind = .eof ∧ (statements s).state = t ∨ ∃ step, t.take? .dedent = some step ∧ (statements s).state = step.state) := by
  rw [statements]
  split
  · next hnone => exact ⟨[], s, .stop (.inl (State.kind_eq_eof hnone)), .inl ⟨State.kind_eq_eof hnone, rfl⟩⟩
  · next step hstep =>
    have hlen := step.length_lt
    have hkind := State.kind_eq_of_step hstep
    split
    · next heof => exact ⟨[], s, .stop (.inl (hkind.trans heof)), .inl ⟨hkind.trans heof, rfl⟩⟩
    · next heof =>
      split
      · next hdedent =>
        refine ⟨[], s, .stop (.inr (hkind.trans hdedent)), .inr ⟨step, ?_, rfl⟩⟩
        rw [State.take?, hstep]
        exact if_pos hdedent
      · next hdedent =>
        have hgoes : ¬ statementLoop.stops step.token.kind := not_or.mpr ⟨heof, hdedent⟩
        split
        · next hnewline =>
          obtain ⟨pieces, t, hrun, hend⟩ := statements_run step.state
          exact ⟨_, t, .drop hstep hgoes hnewline hrun, hend⟩
        · next hnewline =>
          have hshort := (statement s step heof hdedent).within.length_le
          obtain ⟨more, hmore⟩ := step.consumes (statement s step heof hdedent)
          obtain ⟨pieces, t, hrun, hend⟩ := statements_run (statement s step heof hdedent).state
          exact ⟨_, t, .call hstep hgoes hnewline hmore hrun, hend⟩
termination_by s.rest.length
decreasing_by all_goals omega

/-- The last of some tokens is of such a kind. -/
def LastIs (p : Kind → Prop) (ts : List Token) : Prop := ∃ before t, ts = before ++ [t] ∧ p t.kind

theorem LastIs.cons {p : Kind → Prop} {ts : List Token} (h : LastIs p ts) (t : Token) : LastIs p (t :: ts) := by
  obtain ⟨before, last, rfl, hlast⟩ := h
  exact ⟨t :: before, last, rfl, hlast⟩

theorem LastIs.append {p : Kind → Prop} {ts : List Token} (h : LastIs p ts) (us : List Token) : LastIs p (us ++ ts) := by
  obtain ⟨before, last, rfl, hlast⟩ := h
  exact ⟨us ++ before, last, (List.append_assoc ..).symm, hlast⟩

theorem LastIs.mono {p q : Kind → Prop} {ts : List Token} (h : LastIs p ts) (hpq : ∀ k, p k → q k) : LastIs q ts := by
  obtain ⟨before, last, hts, hlast⟩ := h
  exact ⟨before, last, hts, hpq _ hlast⟩

/-- What is skipped of a block ends with the token that closes it, or at the end of the file. -/
theorem skipBlock_stops (depth : Nat) (last : Span) (ts : List Token) (heof : ∀ t ∈ ts, t.kind ≠ .eof) :
    ∃ taken, ts = taken ++ (skipBlock depth last ts).2 ∧ ((skipBlock depth last ts).2 = [] ∨
      LastIs (· = .dedent) taken ∧
        (taken.map (·.kind)).count .dedent = (taken.map (·.kind)).count .indent + depth + 1) := by
  fun_induction skipBlock depth last ts with
  | case1 => exact ⟨[], rfl, .inl rfl⟩
  | case2 _ _ t _ _ hk => exact absurd hk (heof t List.mem_cons_self)
  | case3 last t rest _ d hk ih =>
    obtain ⟨taken, htaken, hend⟩ := ih fun v hv => heof v (List.mem_cons_of_mem t hv)
    refine ⟨t :: taken, by rw [List.cons_append, ← htaken], hend.imp_right fun ⟨hlast, hcount⟩ => ⟨hlast.cons t, ?_⟩⟩
    rw [List.map_cons, hk, List.count_cons_self, List.count_cons_of_ne (by decide), hcount]
    omega
  | case4 last t rest _ hk =>
    refine ⟨[t], rfl, .inr ⟨⟨[], t, rfl, hk⟩, ?_⟩⟩
    rw [List.map_singleton, hk]
    rfl
  | case5 last t rest _ d hk ih =>
    obtain ⟨taken, htaken, hend⟩ := ih fun v hv => heof v (List.mem_cons_of_mem t hv)
    refine ⟨t :: taken, by rw [List.cons_append, ← htaken], hend.imp_right fun ⟨hlast, hcount⟩ => ⟨hlast.cons t, ?_⟩⟩
    rw [List.map_cons, hk, List.count_cons_self, List.count_cons_of_ne (by decide), hcount]
    omega
  | case6 last t rest _ d _ hindent houter hinner ih =>
    obtain ⟨taken, htaken, hend⟩ := ih fun v hv => heof v (List.mem_cons_of_mem t hv)
    refine ⟨t :: taken, by rw [List.cons_append, ← htaken], hend.imp_right fun ⟨hlast, hcount⟩ => ⟨hlast.cons t, ?_⟩⟩
    have hdedent : t.kind ≠ .dedent := by
      intro hk
      cases d with
      | zero => exact houter hk rfl
      | succ d => exact hinner d hk rfl
    rw [List.map_cons, List.count_cons_of_ne hdedent, List.count_cons_of_ne hindent, hcount]

/-- What is skipped of a line ends with its end or with that of a block below it; the end of the block that the line is
in stays, and so does the end of the file. -/
theorem skipLine_stops (last : Span) (ts : List Token) (heof : ∀ t ∈ ts, t.kind ≠ .eof) :
    ∃ taken, ts = taken ++ (skipLine last ts).2 ∧ ((skipLine last ts).2 = [] ∨
      (∃ t rest, (skipLine last ts).2 = t :: rest ∧ t.kind = .dedent) ∨
      LastIs (fun k => k = .newline ∨ k = .dedent) taken) := by
  fun_induction skipLine last ts with
  | case1 => exact ⟨[], rfl, .inl rfl⟩
  | case2 last t rest hk => exact absurd hk (heof t List.mem_cons_self)
  | case3 last t rest hk => exact ⟨[], rfl, .inr (.inl ⟨t, rest, rfl, hk⟩)⟩
  | case4 last t hk u below hindent =>
    obtain ⟨taken, htaken, hend⟩ := skipBlock_stops 0 last below fun v hv => heof v (by simp [hv])
    refine ⟨t :: u :: taken, by rw [List.cons_append, List.cons_append, ← htaken], hend.imp_right fun h => .inr ?_⟩
    exact ((h.1.cons u).cons t).mono fun _ => .inr
  | case5 last t hk u below => exact ⟨[t], rfl, .inr (.inr ⟨[], t, rfl, .inl hk⟩)⟩
  | case6 last t hk => exact ⟨[t], rfl, .inl rfl⟩
  | case7 last t rest hk ih =>
    obtain ⟨block, hblock, -⟩ := skipBlock_stops 0 last rest fun v hv => heof v (List.mem_cons_of_mem t hv)
    obtain ⟨taken, htaken, hend⟩ := ih fun v hv => heof v (List.mem_cons_of_mem t (hblock ▸ List.mem_append_right _ hv))
    refine ⟨t :: (block ++ taken), ?_, hend.imp_right (.imp_right fun h => (h.append block).cons t)⟩
    rw [List.cons_append, List.append_assoc, ← htaken, ← hblock]
  | case8 last t rest _ _ _ _ ih =>
    obtain ⟨taken, htaken, hend⟩ := ih fun v hv => heof v (List.mem_cons_of_mem t hv)
    exact ⟨t :: taken, by rw [List.cons_append, ← htaken], hend.imp_right (.imp_right fun h => h.cons t)⟩

/-- The parser makes progress on the tokens of a program, the items of which begin at `start`; `last` is the state it
leaves. -/
structure MakesProgress (tokens : List Token) (start last : State) : Prop where
  /-- A call that reads an item takes the token it starts with, at least. -/
  item_takes : ∀ (s : State) (step : Step s) (heof : step.token.kind ≠ .eof) (hdedent : step.token.kind ≠ .dedent),
    ∃ more, s.Consumes (step.token :: more) (item s step heof hdedent).state
  /-- So does a call that reads a statement. -/
  statement_takes : ∀ (s : State) (step : Step s) (heof : step.token.kind ≠ .eof)
    (hdedent : step.token.kind ≠ .dedent), ∃ more, s.Consumes (step.token :: more) (statement s step heof hdedent).state
  /-- The loop over the statements of a block has one run, which is no longer than the tokens that remain. -/
  statements_end : ∀ s : State, ∃ pieces t, statementLoop.Run s pieces t ∧
    (∀ pieces' t', statementLoop.Run s pieces' t' → pieces' = pieces ∧ t' = t) ∧ pieces.length ≤ s.rest.length ∧
    (t.kind = .eof ∧ (statements s).state = t ∨
      ∃ step, t.take? .dedent = some step ∧ (statements s).state = step.state)
  /-- Skipping a block ends behind the token that closes it, if not at the end of the file. -/
  block_skipped : ∀ (depth : Nat) (place : Span) (ts : List Token), ts <:+ tokens → ∃ taken,
    ts = taken ++ (skipBlock depth place ts).2 ∧ ((skipBlock depth place ts).2 = [] ∨
      LastIs (· = .dedent) taken ∧
        (taken.map (·.kind)).count .dedent = (taken.map (·.kind)).count .indent + depth + 1)
  /-- Skipping a line ends behind it or behind a block below it, or before the end of the block it is in. -/
  line_skipped : ∀ (place : Span) (ts : List Token), ts <:+ tokens → ∃ taken,
    ts = taken ++ (skipLine place ts).2 ∧ ((skipLine place ts).2 = [] ∨
      (∃ t rest, (skipLine place ts).2 = t :: rest ∧ t.kind = .dedent) ∨
      LastIs (fun k => k = .newline ∨ k = .dedent) taken)
  /-- The loop over the items has one run, and together with the tokens before it that takes each token once. -/
  items_end : ∃ first pieces, itemLoop.Run start pieces last ∧
    (∀ pieces' t, itemLoop.Run start pieces' t → pieces' = pieces ∧ t = last) ∧
    tokens = first ++ start.rest ∧ start.rest = pieces.flatten ∧ last.rest = []

end Parse

open Parse

/-- A lexer that was asked for so many tokens shows the one behind them. -/
theorem Lexer.peek_called_next (f : File) (n : Nat) : (called f (List.replicate n .next)).peek.1
    = f.tokenize[n]?.getD (.endOfFile f.id f.size) := by
  have htaken : ∀ k, (List.replicate n Call.next).foldl place k = k + n := by
    induction n with
    | zero => exact fun k => rfl
    | succ n ih => exact fun k => (ih (k + 1)).trans (by omega)
  have h := ((hasTaken_start f).run (List.replicate n .next)).peek.1
  rwa [htaken, Nat.zero_add] at h

namespace File

theorem eof_notMem_suffix {f : File} {ts : List Token} (h : ts <:+ f.tokenize.dropLast) : ∀ t ∈ ts, t.kind ≠ .eof := by
  intro t ht hk
  obtain ⟨q, d, hn⟩ := nested_of_suffix h
  exact hn.eof_notMem (List.mem_map.mpr ⟨t, ht, hk⟩)

/-- Whatever a file holds, the parser makes progress on its tokens until all are taken and the lexer is at the end of
the file. -/
theorem parse_progresses (f : File) :
    MakesProgress f.tokenize.dropLast f.itemsStart (fileParts f f.tokenize.dropLast).state ∧
      (Lexer.called f (List.replicate f.tokenize.dropLast.length .next)).peek.1.kind = .eof := by
  refine ⟨⟨?item, ?statement, ?statements, ?block, ?line, ?items⟩, ?lexer⟩
  case item => exact fun s step heof hdedent => step.consumes (item s step heof hdedent)
  case statement => exact fun s step heof hdedent => step.consumes (statement s step heof hdedent)
  case statements =>
    intro s
    obtain ⟨pieces, t, hrun, hend⟩ := statements_run s
    exact ⟨pieces, t, hrun, fun _ _ => hrun.unique, hrun.length_le, hend⟩
  case block => exact fun depth place ts hts => skipBlock_stops depth place ts (eof_notMem_suffix hts)
  case line => exact fun place ts hts => skipLine_stops place ts (eof_notMem_suffix hts)
  case items =>
    obtain ⟨first, hfirst⟩ := (header (fileStart f f.tokenize.dropLast)).consumes
    obtain ⟨pieces, hrun⟩ := items_run f.itemsStart
    have hrest : (items f.itemsStart).state.rest = [] := by
      have hsuffix := (items f.itemsStart).within.trans (header (fileStart f f.tokenize.dropLast)).within
      have hend : (items f.itemsStart).state.kind = .eof := hrun.stops
      rw [State.kind] at hend
      cases hlast : (items f.itemsStart).state.rest with
      | nil => rfl
      | cons t rest =>
        rw [hlast] at hsuffix hend
        exact absurd hend (eof_notMem_suffix hsuffix t List.mem_cons_self)
    exact ⟨first, pieces, hrun, fun _ _ => hrun.unique, hfirst, by rw [hrun.consumes, hrest, List.append_nil], hrest⟩
  case lexer =>
    obtain ⟨ks, hks, -⟩ := f.tokenize_nested
    obtain ⟨ts, ends, heq, -, hends⟩ := List.map_eq_append_iff.mp hks
    obtain ⟨eof, rfl, heof⟩ := List.map_eq_singleton_iff.mp hends
    rw [Lexer.peek_called_next, heq, List.dropLast_concat, List.getElem?_concat_length]
    exact heof

end File

end Craftlang
