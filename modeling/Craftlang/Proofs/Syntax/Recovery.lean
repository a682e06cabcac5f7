import Craftlang.Proofs.Syntax.Blocks

/-!
# Recovery never leaves its block

The parser has loops that would stop at the end of the file: over the statements of a block, over the items
of a program, and the one that skips a block. What an item or a statement takes is in balance, so the number
of open blocks is the same each time a loop looks for its next token. Hence within a block the end of the
file is never reached, and between the items of a program there is no layout to be skipped.
-/

namespace Craftlang

namespace Parse

theorem dottedName_stays (s : State) : Parsed.Stays (dottedName s) := by
  rw [dottedName]
  refine .bind (identifier_stays s) fun name t _ => ?_
  split
  · exact .ok
  · rename_i dot hdot
    have hlen := dot.length_lt
    exact .sinceTake hdot rfl (.bind (dottedName_stays dot.state) fun _ _ _ => .ok)
termination_by s.rest.length
decreasing_by all_goals omega

theorem parameter_stays (s : State) : Parsed.Stays (parameter s) :=
  .bind (identifier_stays s) fun _ t _ => .bind (expect_stays t rfl) fun _ u _ =>
    .bind (typeName_stays u) fun _ _ _ => .ok

theorem parameterList_stays (s : State) : Parsed.Stays (parameterList s) := by
  rw [parameterList]
  refine .bind (parameter_stays s) fun param t _ => ?_
  split
  · rename_i comma hcomma
    have hlen := comma.length_lt
    exact .sinceTake hcomma rfl (.bind (parameterList_stays comma.state) fun _ _ _ => .ok)
  · split
    · exact .sinceTake ‹_› rfl .ok
    · exact .expected
termination_by s.rest.length
decreasing_by all_goals omega

theorem parameters_stays (s : State) : Parsed.Stays (parameters s) := by
  rw [parameters]
  split
  · exact .sinceTake ‹_› rfl .ok
  · exact parameterList_stays s

theorem signature_stays (s : State) : Parsed.Stays (signature s) :=
  .bind (identifier_stays s) fun _ t _ => .bind (expect_stays t rfl) fun _ u _ =>
    .bind (parameters_stays u) fun _ v _ => .bind (typeMark_stays v) fun _ _ _ => .ok

theorem failedItem_endsLine (s : State) (start : Span) : (failedItem s start).EndsLine :=
  .andThen (recovered_endsLine s) fun _ _ _ => .build

theorem function_endsLine (start : Span) (tags : List DottedName) (s : State) :
    (function start tags s).EndsLine := by
  rw [function]
  refine .behind (signature_stays s) fun sig t _ => ?_
  split
  · exact failedItem_endsLine t start
  · refine .andThen (lineEnd_endsLine t) fun ended u _ => ?_
    split
    · exact .build
    · refine .andThen (block_keepsLine u) fun body v _ => ?_
      split <;> exact .build

theorem taggedFunction_endsLine (start : Span) (tags : List DottedName) (s : State) :
    (taggedFunction start tags s).EndsLine := by
  rw [taggedFunction]
  refine .behind (dottedName_stays s) fun name t hle => ?_
  split
  · exact failedItem_endsLine t start
  · refine .andThen (lineEnd_endsLine t) fun ended u _ => ?_
    split
    · exact .build
    · split
      · rename_i step htag
        have hlen := step.length_lt
        exact Parsed.EndsLine.keepsLine (.sinceTake htag (by decide) (taggedFunction_endsLine _ _ _))
      · split
        · exact Parsed.EndsLine.keepsLine (.sinceTake ‹_› (by decide) (function_endsLine _ _ _))
        · exact .andThen (.of_kinds (u.kinds_reportExpected _).symm) fun _ _ _ => .build
termination_by s.rest.length
decreasing_by all_goals omega

theorem typeAlias_endsLine (start : Span) (s : State) : (typeAlias start s).EndsLine := by
  rw [typeAlias]
  refine .behind (.bind (identifier_stays s) fun _ t _ => .bind (expect_stays t rfl) fun _ u _ =>
    .bind (typeName_stays u) fun _ _ _ => .ok) fun parts t _ => ?_
  split
  · exact failedItem_endsLine t start
  · exact .andThen (lineEnd_endsLine t) fun _ _ _ => .build

/-- An item takes tokens in balance, and the next line starts behind it. -/
theorem item_endsLine (s : State) (step : Step s) (heof : step.token.kind ≠ .eof)
    (hdedent : step.token.kind ≠ .dedent) : ((item s step heof hdedent).since step.suffix).EndsLine := by
  rw [item]
  split
  · rename_i hk
    exact .since (by rw [hk]; decide) (taggedFunction_endsLine _ _ _)
  · rename_i hk
    exact .since (by rw [hk]; decide) (function_endsLine _ _ _)
  · rename_i hk
    exact .since (by rw [hk]; decide) (typeAlias_endsLine _ _)
  · rename_i hk
    exact .since (by rw [hk]; decide) (failedItem_endsLine (step.state.withFindings _) step.token.span)
  · exact Parsed.EndsLine.andThen (statement_endsLine s step heof hdedent) fun stmt t _ =>
      Parsed.KeepsLine.of_kinds (p := .build t stmt.span fun node => Item.stmt node stmt) rfl

theorem header_keepsLine (s : State) : (header s).KeepsLine := by
  rw [header]
  split
  · exact .pure
  · refine Parsed.EndsLine.keepsLine (.sinceTake ‹_› (by decide)
      (.behind (dottedName_stays _) fun name t _ => ?_))
    split
    · exact .andThen (recovered_endsLine t) fun _ _ _ => .pure
    · exact .andThen (lineEnd_endsLine t) fun _ _ _ => .pure

/-- The states in which the loop over the statements of a block, begun at `s`, looks at the next token. -/
inductive AtStatement (s : State) : State → Prop
  | first : AtStatement s s
  | blank {t : State} {step : Step t} : AtStatement s t → t.take? .newline = some step →
      AtStatement s step.state
  | next {t : State} {step : Step t} (heof : step.token.kind ≠ .eof) (hdedent : step.token.kind ≠ .dedent) :
      AtStatement s t → t.step? = some step → step.token.kind ≠ .newline →
      AtStatement s (statement t step heof hdedent).state

/-- The states in which the loop over the items of a program, begun at `s`, looks at the next token. -/
inductive AtItem (s : State) : State → Prop
  | first : AtItem s s
  | blank {t : State} {step : Step t} : AtItem s t → t.step? = some step →
      step.token.kind = .dedent ∨ step.token.kind = .newline → AtItem s step.state
  | next {t : State} {step : Step t} (heof : step.token.kind ≠ .eof) (hdedent : step.token.kind ≠ .dedent) :
      AtItem s t → t.step? = some step → step.token.kind ≠ .newline →
      AtItem s (item t step heof hdedent).state

/-- The tokens that remain, with the number of blocks opened meanwhile, each time the loop that skips a
block looks at the next token; it was begun at `ts`. -/
inductive AtSkipped (ts : List Token) : Nat → List Token → Prop
  | first : AtSkipped ts 0 ts
  | opened {n : Nat} {t : Token} {us : List Token} : AtSkipped ts n (t :: us) → t.kind = .indent →
      AtSkipped ts (n + 1) us
  | closed {n : Nat} {t : Token} {us : List Token} : AtSkipped ts (n + 1) (t :: us) → t.kind = .dedent →
      AtSkipped ts n us
  | passed {n : Nat} {t : Token} {us : List Token} : AtSkipped ts n (t :: us) →
      t.kind ≠ .indent ∧ t.kind ≠ .dedent ∧ t.kind ≠ .eof → AtSkipped ts n us

namespace AtStatement

variable {q : LinePlace} {d : Nat} {s t : State}

/-- The loop is always at a start of a line of the block it began in. -/
theorem nested (h : AtStatement s t) (hq : q ≠ .inLine) (hs : Nested q (d + 1) s.kinds) :
    ∃ q', q' ≠ .inLine ∧ Nested q' (d + 1) t.kinds := by
  induction h with
  | first => exact ⟨q, hq, hs⟩
  | blank _ htake ih =>
    obtain ⟨q', hq', hn⟩ := ih
    obtain ⟨hstep, hk⟩ := State.take?_eq_some htake
    rw [(State.step?_eq_some hstep).1, hk] at hn
    exact absurd hn.1 hq'
  | next heof hdedent _ hstep _ ih =>
    obtain ⟨q', -, hn⟩ := ih
    exact ⟨.lineStart, by decide, (statement_endsLine _ _ heof hdedent q' _ hn).2⟩

/-- So there is a next token, which is neither an empty line nor the end of the file. -/
theorem exists_step (h : AtStatement s t) (hq : q ≠ .inLine) (hs : Nested q (d + 1) s.kinds) :
    ∃ step, t.step? = some step ∧ step.token.kind ≠ .eof ∧ step.token.kind ≠ .newline := by
  obtain ⟨q', hq', hn⟩ := h.nested hq hs
  cases hstep : t.step? with
  | none =>
    rw [State.step?_eq_none hstep] at hn
    exact absurd hn.2 (Nat.succ_ne_zero d)
  | some step =>
    rw [(State.step?_eq_some hstep).1] at hn
    refine ⟨step, rfl, fun hk => ?_, fun hk => ?_⟩
    · rw [hk] at hn
      exact hn.1 rfl
    · rw [hk] at hn
      exact hq' hn.1

/-- The loop stops at the end of the block. -/
theorem ends {t : State} (h : AtStatement s t) (hq : q ≠ .inLine) (hs : Nested q (d + 1) s.kinds) :
    ∃ u step, AtStatement s u ∧ u.take? .dedent = some step ∧ (statements t).state = step.state := by
  obtain ⟨step, hstep, heof, hnewline⟩ := h.exists_step hq hs
  have hlen := step.length_lt
  rw [statements, hstep]
  dsimp only
  rw [dif_neg heof]
  split
  · rename_i hk
    exact ⟨t, step, h, by rw [State.take?, hstep]; exact if_pos hk, rfl⟩
  · rename_i hdedent
    have hshort := (statement t step heof hdedent).within.length_le
    exact (h.next heof hdedent hstep hnewline).ends hq hs
termination_by t.rest.length
decreasing_by all_goals omega

end AtStatement

namespace AtItem

variable {s t : State}

/-- Between items no block is open. -/
theorem nested (h : AtItem s t) (hs : Nested .lineStart 0 s.kinds) : Nested .lineStart 0 t.kinds := by
  induction h with
  | first => exact hs
  | blank _ hstep hk ih =>
    rw [(State.step?_eq_some hstep).1] at ih
    rcases hk with hk | hk
    · rw [hk] at ih
      exact absurd ih.2.1 (Nat.lt_irrefl 0)
    · rw [hk] at ih
      cases ih.1
  | next heof hdedent _ hstep _ ih => exact (item_endsLine _ _ heof hdedent _ _ ih).2

/-- So no layout that could end a line or a block comes next, and no end of the file among the tokens. -/
theorem starts (h : AtItem s t) (hs : Nested .lineStart 0 s.kinds) {step : Step t}
    (hstep : t.step? = some step) :
    step.token.kind ≠ .newline ∧ step.token.kind ≠ .dedent ∧ step.token.kind ≠ .eof := by
  have hn := h.nested hs
  rw [(State.step?_eq_some hstep).1] at hn
  refine ⟨fun hk => ?_, fun hk => ?_, fun hk => ?_⟩
  · rw [hk] at hn
    cases hn.1
  · rw [hk] at hn
    exact Nat.lt_irrefl 0 hn.2.1
  · rw [hk] at hn
    exact hn.1 rfl

/-- The loop stops when all tokens are taken. -/
theorem ends {t : State} (h : AtItem s t) (hs : Nested .lineStart 0 s.kinds) :
    AtItem s (items t).state ∧ (items t).state.rest = [] := by
  rw [items]
  split
  · rename_i hnone
    exact ⟨h, List.map_eq_nil_iff.mp (State.step?_eq_none hnone)⟩
  · rename_i step hstep
    obtain ⟨hnewline, hdedent, heof⟩ := h.starts hs hstep
    have hlen := step.length_lt
    have hshort := (item t step heof hdedent).within.length_le
    rw [dif_neg heof, dif_neg hdedent, if_neg hnewline]
    exact (h.next heof hdedent hstep hnewline).ends hs
termination_by t.rest.length
decreasing_by all_goals omega

end AtItem

namespace AtSkipped

variable {q : LinePlace} {d n : Nat} {ts us : List Token}

theorem nested (h : AtSkipped ts n us) (hs : Nested q (d + 1) (ts.map (·.kind))) :
    ∃ q', Nested q' (n + d + 1) (us.map (·.kind)) := by
  induction h with
  | first => exact ⟨q, by rwa [Nat.zero_add]⟩
  | @opened n _ _ _ hk ih =>
    obtain ⟨q', hn⟩ := ih
    rw [List.map_cons, hk] at hn
    exact ⟨.indented, by rw [show n + 1 + d + 1 = n + d + 1 + 1 by omega]; exact hn.2⟩
  | @closed n _ _ _ hk ih =>
    obtain ⟨q', hn⟩ := ih
    rw [List.map_cons, hk] at hn
    exact ⟨.lineStart, by rw [show n + d + 1 = n + 1 + d + 1 - 1 by omega]; exact hn.2.2⟩
  | passed _ hk ih =>
    obtain ⟨q', hn⟩ := ih
    exact @Nested.of_balanced _ _ [_] _ hn
      (.of_forall fun k hmem => by rw [List.mem_singleton.mp hmem]; exact ⟨hk.1, hk.2.1⟩)

/-- While a block is skipped there is a next token, which is not the end of the file. -/
theorem exists_cons (h : AtSkipped ts n us) (hs : Nested q (d + 1) (ts.map (·.kind))) :
    ∃ t rest, us = t :: rest ∧ t.kind ≠ .eof := by
  obtain ⟨q', hn⟩ := h.nested hs
  cases us with
  | nil => exact absurd hn.2 (Nat.succ_ne_zero _)
  | cons t rest =>
    refine ⟨t, rest, rfl, fun hk => ?_⟩
    rw [List.map_cons, hk] at hn
    exact hn.1 rfl

end AtSkipped

/-- The parser keeps to the blocks of the tokens of a program, the items of which begin at `start`. -/
structure KeepsToBlocks (tokens : List Token) (start : State) : Prop where
  /-- A statement opens and closes blocks in pairs. -/
  statement_balances : ∀ s : State, s.rest <:+ tokens → ∀ (step : Step s) (heof : step.token.kind ≠ .eof)
    (hdedent : step.token.kind ≠ .dedent), s.Balances (statement s step heof hdedent).state
  /-- A block is what stands between its start and the token that closes it. -/
  block_whole : ∀ s : State, s.rest <:+ tokens → (block s).value.isSome → ∃ inside,
    s.kinds = .indent :: inside ++ .dedent :: (block s).state.kinds ∧ IsBalanced inside
  /-- The loop over the statements of a block never sees the end of the file. -/
  block_goes_on : ∀ (s t : State) (opening : Step s), s.rest <:+ tokens → s.take? .indent = some opening →
    AtStatement opening.state t → ∃ step, t.step? = some step ∧ step.token.kind ≠ .eof
  /-- It stops at the end of the block. -/
  block_ends : ∀ (s : State) (opening : Step s), s.rest <:+ tokens → s.take? .indent = some opening →
    ∃ t step, AtStatement opening.state t ∧ t.take? .dedent = some step ∧
      (statements opening.state).state = step.state
  /-- Skipping a block never sees the end of the file. -/
  skip_goes_on : ∀ (s : State) (opening : Step s) (n : Nat) (us : List Token), s.rest <:+ tokens →
    s.take? .indent = some opening → AtSkipped opening.state.rest n us → ∃ t rest, us = t :: rest ∧ t.kind ≠ .eof
  /-- It stops right behind the end of the block. -/
  skip_ends : ∀ (s : State) (opening : Step s) (last : Span), s.rest <:+ tokens →
    s.take? .indent = some opening → ∃ inside, opening.state.kinds =
      inside ++ .dedent :: (skipBlock 0 last opening.state.rest).2.map (·.kind) ∧ IsBalanced inside
  /-- The loop over the items finds nothing to skip. -/
  items_start : ∀ (t : State) (step : Step t), AtItem start t → t.step? = some step →
    step.token.kind ≠ .newline ∧ step.token.kind ≠ .dedent ∧ step.token.kind ≠ .eof
  /-- It stops when all tokens are taken. -/
  items_end : AtItem start (items start).state ∧ (items start).state.rest = []

end Parse

open Parse

namespace File

/-- Where the items of a file begin, behind its namespace line. -/
def itemsStart (f : File) : State := (header (fileStart f f.tokenize.dropLast)).state

/-- What remains of the tokens of a file at any time, but for its end, nests. -/
theorem nested_of_suffix {f : File} {ts : List Token} (h : ts <:+ f.tokenize.dropLast) :
    ∃ q d, Nested q d (ts.map (·.kind)) := by
  obtain ⟨before, heq⟩ := h
  obtain ⟨ks, hks, hn⟩ := f.tokenize_nested
  have hdrop : f.tokenize.dropLast.map (·.kind) = ks := by rw [List.map_dropLast, hks, List.dropLast_concat]
  rw [← hdrop, ← heq, List.map_append] at hn
  obtain ⟨q, d, hn, -⟩ := hn.of_append
  exact ⟨q, d, hn⟩

/-- Behind the start of a block that block is open. -/
theorem nested_of_opening {f : File} {s : State} {opening : Step s} (h : s.rest <:+ f.tokenize.dropLast)
    (hopening : s.take? .indent = some opening) : ∃ d, Nested .indented (d + 1) opening.state.kinds := by
  obtain ⟨q, d, hn⟩ := nested_of_suffix h
  obtain ⟨-, hk⟩ := State.take?_eq_some hopening
  rw [opening.cons, List.map_cons, hk] at hn
  exact ⟨d, hn.2⟩

/-- However faulty a file is, recovery from a problem never leaves the block it happens in. -/
theorem parse_keepsToBlocks (f : File) : KeepsToBlocks f.tokenize.dropLast f.itemsStart := by
  have hstart : Nested .lineStart 0 f.itemsStart.kinds := by
    obtain ⟨ks, hks, hn⟩ := f.tokenize_nested
    refine (header_keepsLine _ 0 ?_).2
    rw [State.kinds, fileStart, List.map_dropLast, hks, List.dropLast_concat]
    exact hn
  constructor
  case statement_balances =>
    intro s hs step heof hdedent
    obtain ⟨q, d, hn⟩ := nested_of_suffix hs
    exact (statement_endsLine s step heof hdedent q d hn).1
  case block_whole =>
    intro s hs hb
    obtain ⟨q, d, hn⟩ := nested_of_suffix hs
    obtain ⟨inside, heq, hbal, -⟩ := block_closes hn hb
    exact ⟨inside, heq, hbal⟩
  case block_goes_on =>
    intro s t opening hs hopening ht
    obtain ⟨d, hn⟩ := nested_of_opening hs hopening
    obtain ⟨step, hstep, heof, -⟩ := ht.exists_step (by decide) hn
    exact ⟨step, hstep, heof⟩
  case block_ends =>
    intro s opening hs hopening
    obtain ⟨d, hn⟩ := nested_of_opening hs hopening
    exact AtStatement.first.ends (by decide) hn
  case skip_goes_on =>
    intro s opening n us hs hopening h
    obtain ⟨d, hn⟩ := nested_of_opening hs hopening
    exact h.exists_cons hn
  case skip_ends =>
    intro s opening last hs hopening
    obtain ⟨d, hn⟩ := nested_of_opening hs hopening
    obtain ⟨inside, heq, hbal, -⟩ := skipBlock_closes (d := d) 0 last opening.state.rest
      (by rwa [show 0 + 1 + d = d + 1 by omega])
    exact ⟨inside, heq, hbal⟩
  case items_start => exact fun t step ht hstep => ht.starts hstart hstep
  case items_end => exact AtItem.first.ends hstart

/-- A file in which a faulty statement has a block below it, within a block. -/
def misplaced : File := ⟨0, "misplaced.craft", "do\n  var\n    go\n  leave\nwhile no\n", {}⟩

/-- The faulty statement takes the block below it, and the statement after it is still in the outer block. -/
theorem misplaced_recovers : ∃ (s : State) (step : Step s) (heof : step.token.kind ≠ .eof)
    (hdedent : step.token.kind ≠ .dedent), s.rest <:+ misplaced.tokenize.dropLast ∧
      step.token.kind = .kwVar ∧ s.Balances (statement s step heof hdedent).state ∧
      (statement s step heof hdedent).state.kinds = [.ident, .newline, .dedent, .kwWhile, .ident, .newline] := by
  have hsuffix : misplaced.tokenize.dropLast.drop 3 <:+ misplaced.tokenize.dropLast := List.drop_suffix ..
  exact ⟨⟨misplaced.tokenize.dropLast.drop 3, .point 0 0, 1, [], []⟩, Option.get (State.step? _) (by decide +kernel),
    by decide +kernel, by decide +kernel, hsuffix, by decide +kernel,
    misplaced.parse_keepsToBlocks.statement_balances _ hsuffix _ _ _, by decide +kernel⟩

end File

end Craftlang
