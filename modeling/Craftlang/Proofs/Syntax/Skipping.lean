import Craftlang.Proofs.Syntax.Headers
import Craftlang.Proofs.Syntax.Acceptance

/-!
# What is skipped with a faulty header

A header with a name too much at its end is given up together with its block, for one report. The loops
over statements and items go on behind the block; what they meet there of the same construct they do not
know, and for each piece of it there is one more report.
-/

namespace Craftlang

/-- The tokens of a block. -/
theorem Phrase.block_eq {b : List Kind} (h : Phrase .block b) :
    ∃ ss, b = Kind.indent :: ss ++ [Kind.dedent] ∧ IsEnclosed ss := by
  cases h with
  | @indented ss hss => exact ⟨ss, rfl, hss.isEnclosed rfl⟩

namespace Parse

open Parsed (Takes)

/-- Skipping a block in which `depth` blocks are open ends behind the token that closes it. -/
theorem skipBlock_kinds {depth : Nat} {last : Span} {ts : List Token} {body ks : List Kind}
    (h : ts.map (·.kind) = body ++ Kind.dedent :: ks) (heof : .eof ∉ body)
    (hclosed : ∀ n, (body.take n).count .dedent ≤ depth + (body.take n).count .indent)
    (htotal : body.count .dedent = depth + body.count .indent) :
    (skipBlock depth last ts).2.map (·.kind) = ks := by
  induction body generalizing depth last ts with
  | nil =>
    obtain ⟨t, rest, rfl, hk, hrest⟩ := List.map_eq_cons_iff.mp h
    obtain rfl : depth = 0 := by simpa using htotal.symm
    simp only [skipBlock, hk]
    exact hrest
  | cons k body ih =>
    obtain ⟨t, rest, rfl, hk, hrest⟩ := List.map_eq_cons_iff.mp h
    have heof' : .eof ∉ body := fun hmem => heof (List.mem_cons_of_mem k hmem)
    have hshift := fun n => hclosed (n + 1)
    simp only [List.take_succ_cons, List.count_cons] at hshift
    rw [List.count_cons, List.count_cons] at htotal
    cases k with
    | eof => exact absurd List.mem_cons_self heof
    | indent =>
      simp only [skipBlock, hk]
      refine ih hrest heof' (fun n => ?_) ?_
      · have := hshift n
        simp at this
        omega
      · simp at htotal
        omega
    | dedent =>
      have hopen := hshift 0
      simp at hopen htotal
      obtain ⟨d, rfl⟩ : ∃ d, depth = d + 1 := ⟨depth - 1, by omega⟩
      simp only [skipBlock, hk]
      refine ih hrest heof' (fun n => ?_) ?_
      · have := hshift n
        simp at this
        omega
      · omega
    | _ =>
      simp only [skipBlock, hk]
      exact ih hrest heof' (fun n => by simpa using hshift n) (by simpa using htotal)

/-- Skipping the rest of a line takes the block below it. -/
theorem skipLine_kinds {last : Span} {ts : List Token} {line b ks : List Kind}
    (h : ts.map (·.kind) = line ++ Kind.newline :: (b ++ ks)) (hline : line.all Kind.isPlain = true)
    (hb : Phrase .block b) : (skipLine last ts).2.map (·.kind) = ks := by
  induction line generalizing last ts with
  | nil =>
    obtain ⟨ss, rfl, hss⟩ := hb.block_eq
    obtain ⟨t, rest, rfl, hk, hrest⟩ := List.map_eq_cons_iff.mp h
    rw [List.append_assoc] at hrest
    obtain ⟨u, below, rfl, hu, hbelow⟩ := List.map_eq_cons_iff.mp hrest
    rw [skipLine]
    simp only [hk, hu, if_true]
    refine skipBlock_kinds hbelow hss.noEnd (fun n => ?_) ?_
    · rw [Nat.zero_add]
      exact hss.balanced.closed_le n
    · rw [Nat.zero_add]
      exact hss.balanced.total
  | cons k line ih =>
    obtain ⟨t, rest, rfl, hk, hrest⟩ := List.map_eq_cons_iff.mp h
    rw [List.all_cons, Bool.and_eq_true] at hline
    have hgo : skipLine last (t :: rest) = skipLine t.span rest := by
      rw [skipLine.eq_def]
      cases k <;> first | exact absurd hline.1 (by decide) | simp only [hk]
    rw [hgo]
    exact ih hrest hline.2

/-- The parser takes these tokens with so many reports, and its answer is as it should be. -/
def Parsed.Spends {s : State} {α : Type} (p : Parsed s α) (ts : List Kind) (n : Nat) (good : α → Prop) :
    Prop :=
  good p.value ∧ p.state.findings.length = s.findings.length + n ∧ s.kinds = ts ++ p.state.kinds

theorem Parsed.Takes.spends {s : State} {α : Type} {p : Parsed s α} {ts : List Kind} {good : α → Prop}
    (h : p.Takes ts good) : p.Spends ts 0 good :=
  ⟨h.1, congrArg List.length h.2.1, h.2.2⟩

namespace Parsed.Spends

variable {s : State} {α β : Type} {p : Parsed s α} {ts us ks : List Kind} {n : Nat} {good : α → Prop}
  {okay : β → Prop} {next : α → (t : State) → t.rest.length ≤ s.rest.length → Parsed t β}

/-- What comes after tokens that are taken without a report. -/
theorem afterTakes (hs : s.kinds = ts ++ (us ++ ks)) (hp : p.Takes ts good)
    (hn : ∀ a t h, good a → t.kinds = us ++ ks → (next a t h).Spends us n okay) :
    (p.andThen next).Spends (ts ++ us) n okay := by
  obtain ⟨hv, hf, hk⟩ := hn p.value p.state p.within.length_le hp.1 (hp.kinds_eq hs)
  refine ⟨hv, ?_, ?_⟩
  · rw [← hp.2.1]
    exact hf
  · rw [hp.2.2, hk, List.append_assoc]
    rfl

/-- What remains is what followed. -/
theorem kinds_eq (h : p.Spends ts n good) (hs : s.kinds = ts ++ ks) : p.state.kinds = ks :=
  List.append_cancel_left (h.2.2.symm.trans hs)

/-- What is taken after it without a report. -/
theorem thenTakes (hs : s.kinds = ts ++ (us ++ ks)) (hp : p.Spends ts n good)
    (hn : ∀ a t h, good a → t.kinds = us ++ ks → (next a t h).Takes us okay) :
    (p.andThen next).Spends (ts ++ us) n okay := by
  obtain ⟨hv, hf, hk⟩ := hn p.value p.state p.within.length_le hp.1 (hp.kinds_eq hs)
  refine ⟨hv, ?_, ?_⟩
  · rw [← hp.2.1]
    exact congrArg List.length hf
  · rw [hp.2.2, hk, List.append_assoc]
    rfl

/-- Nothing more is taken or reported. -/
theorem andThen_nil (hp : p.Spends ts n good)
    (hn : ∀ a t h, good a → (next a t h).Takes [] okay) : (p.andThen next).Spends ts n okay := by
  have hs : s.kinds = ts ++ ([] ++ p.state.kinds) := hp.2.2
  have h := thenTakes hs hp fun a t ht ha _ => hn a t ht ha
  rwa [List.append_nil] at h

theorem since {step : Step s} (hs : s.step? = some step) {p : Parsed step.state α}
    (h : p.Spends ts n good) : (p.since step.suffix).Spends (step.token.kind :: ts) n good := by
  obtain ⟨hk, hf, -⟩ := State.step?_eq_some hs
  refine ⟨h.1, ?_, ?_⟩
  · rw [← hf]
    exact h.2.1
  · rw [hk, h.2.2]
    rfl

end Parsed.Spends

/-- Of every state that starts with the tokens and goes on with what may follow, the parser takes the
tokens with so many reports. -/
def Spent {α : Type} (parser : (s : State) → Parsed s α) (follow : List Kind → Prop) (ts : List Kind)
    (n : Nat) (good : α → Prop) : Prop :=
  ∀ s ks, s.kinds = ts ++ ks → follow ks → (parser s).Spends ts n good

theorem State.length_reportExpected {s : State} {what : Expectation} (h : s.kind ≠ .invalid) :
    (s.reportExpected what).findings.length = s.findings.length + 1 := by
  rw [reportExpected, if_neg (by simpa using h)]
  rfl

theorem State.kinds_recover {s : State} {line b ks : List Kind}
    (hs : s.kinds = line ++ Kind.newline :: (b ++ ks)) (hline : line.all Kind.isPlain = true)
    (hb : Phrase .block b) : s.recover.kinds = ks :=
  skipLine_kinds hs hline hb

/-- What is skipped of a construct that is given up, from within its header: the rest of the line and the
block below it. -/
theorem recovered_taken {line b : List Kind} (hline : line.all Kind.isPlain = true)
    (hb : Phrase .block b) :
    Taken recovered (fun _ => True) (line ++ Kind.newline :: b) fun _ => True := by
  intro s ks hs _
  rw [List.append_assoc] at hs
  have hks : (recovered s).state.kinds = ks := State.kinds_recover hs hline hb
  refine ⟨trivial, rfl, ?_⟩
  rw [hks, hs, List.append_assoc, List.cons_append]

/-- A name where the line should end. -/
theorem lineEnd_spent {b : List Kind} (hb : Phrase .block b) :
    Spent lineEnd (fun _ => True) (.ident :: .newline :: b) 1 (· = false) := by
  intro s ks hs _
  obtain ⟨step, hstep, hk, -⟩ := State.exists_step hs
  have hkind : s.kind ≠ .invalid := by
    rw [State.kind_eq, hs]
    exact Kind.noConfusion
  have hrest : (s.reportExpected .lineEnd).recover.kinds = ks := by
    have hreported : (s.reportExpected .lineEnd).kinds = [Kind.ident] ++ Kind.newline :: (b ++ ks) := by
      rw [State.kinds_reportExpected]
      exact hs
    exact State.kinds_recover hreported rfl hb
  have hreported : (s.reportExpected .lineEnd).recover.findings.length = s.findings.length + 1 :=
    State.length_reportExpected hkind
  rw [lineEnd]
  simp only [hstep]
  rw [hk]
  refine ⟨rfl, hreported, ?_⟩
  rw [hs]
  exact congrArg (Kind.ident :: .newline :: b ++ ·) hrest.symm

theorem condition_spent {e b : List Kind} (he : TakenSome expression EndsExpr e fun _ => True)
    (hb : Phrase .block b) :
    Spent condition (fun _ => True) (e ++ Kind.ident :: .newline :: b) 1 (· = none) := by
  intro s ks hs _
  rw [List.append_assoc] at hs
  rw [condition]
  refine .afterTakes hs (he s _ hs (.inr (.inr (.inr rfl)))) ?_
  rintro value t ht ⟨v, rfl, -⟩ htk
  refine (lineEnd_spent hb t ks htk trivial).andThen_nil ?_
  rintro ended u hu rfl
  exact .pure rfl

/-- No block starts here, and no piece of text that is no token. -/
def NoBlock (ks : List Kind) : Prop := ks.head? ≠ some .indent ∧ ks.head? ≠ some .invalid

/-- Can a line start with a kind of token that the loops over statements and items take for a statement? -/
def startsPiece (k : Kind) : Bool := startsStmt k || k == .kwElse

/-- The parser of statements takes the tokens for one statement, with so many reports. -/
def StmtSpent (follow : List Kind → Prop) (ts : List Kind) (n : Nat) : Prop :=
  ∃ k rest, ts = k :: rest ∧ startsPiece k = true ∧
    ∀ (s : State) (step : Step s) (heof : step.token.kind ≠ .eof)
      (hdedent : step.token.kind ≠ .dedent) (ks : List Kind), s.step? = some step →
      s.kinds = ts ++ ks → follow ks → (statement s step heof hdedent).Spends rest n fun _ => True

/-- A statement that its first token decides. -/
theorem StmtSpent.of_first {follow : List Kind → Prop} {k : Kind} {rest : List Kind} {n : Nat}
    (hk : startsPiece k = true)
    (h : ∀ (s : State) (step : Step s) (heof : step.token.kind ≠ .eof)
      (hdedent : step.token.kind ≠ .dedent) (ks : List Kind), step.token.kind = k →
      s.kinds = k :: (rest ++ ks) → step.state.kinds = rest ++ ks → s.step? = some step → follow ks →
      (statement s step heof hdedent).Spends rest n fun _ => True) : StmtSpent follow (k :: rest) n := by
  refine ⟨k, rest, rfl, hk, fun s step heof hdedent ks hstep hs hf => ?_⟩
  have hkinds := (State.step?_eq_some hstep).1
  rw [hs] at hkinds
  injection hkinds with hkind hkinds
  exact h s step heof hdedent ks hkind.symm hs hkinds.symm hstep hf

theorem StmtSpent.of_taken {ts : List Kind} (h : StmtTaken ts) : StmtSpent NoElse ts 0 := by
  obtain ⟨k, rest, rfl, hk, hstmt⟩ := h
  refine ⟨k, rest, rfl, by rw [startsPiece, hk]; rfl, fun s step heof hdedent ks hstep hs hno => ?_⟩
  exact (hstmt s step heof hdedent ks hstep hs hno).spends

theorem head?_getD_ne {ks : List Kind} (h : ks.head? ≠ some .invalid) : ks.head?.getD .eof ≠ .invalid := by
  cases ks with
  | nil => exact Kind.noConfusion
  | cons k ks => exact fun hk => h (congrArg some hk)

/-- The header of a loop with its block. -/
theorem stmt_spent_while {e b : List Kind} (he : TakenSome expression EndsExpr e fun _ => True)
    (hb : Phrase .block b) :
    StmtSpent (fun _ => True) (Kind.kwWhile :: (e ++ Kind.ident :: .newline :: b)) 1 := by
  refine .of_first rfl fun s step heof hdedent ks hkind _ hks _ _ => ?_
  rw [statement]
  simp only [hkind]
  refine (condition_spent he hb step.state ks hks trivial).andThen_nil ?_
  rintro cond t ht rfl
  exact .build fun _ => trivial

/-- The `do` of a loop with its block. -/
theorem stmt_spent_do {b : List Kind} (hb : Phrase .block b) :
    StmtSpent (fun _ => True) (.kwDo :: .ident :: .newline :: b) 1 := by
  refine .of_first rfl fun s step heof hdedent ks hkind _ hks _ _ => ?_
  rw [statement]
  simp only [hkind]
  refine (lineEnd_spent hb step.state ks hks trivial).andThen_nil ?_
  rintro ended t ht rfl
  exact .build fun _ => trivial

/-- The condition that is left of a `do` loop: it is taken for a loop without a block. -/
theorem stmt_spent_left_condition {e : List Kind} (he : TakenSome expression EndsExpr e fun _ => True) :
    StmtSpent NoBlock (Kind.kwWhile :: (e ++ [Kind.newline])) 1 := by
  refine .of_first rfl fun s step heof hdedent ks hkind _ hks _ hno => ?_
  rw [statement]
  simp only [hkind]
  have hks' : step.state.kinds = (e ++ [Kind.newline]) ++ ([] ++ ks) := hks
  rw [← List.append_nil (e ++ [Kind.newline])]
  refine .afterTakes hks' (condition_taken he step.state ks hks trivial) ?_
  rintro cond t ht ⟨c, rfl, -⟩ htk
  rw [List.nil_append] at htk
  have hblock : Parsed.Spends (block t) [] 1 (· = none) := by
    have hkind : t.kind ≠ .invalid := by
      rw [State.kind_eq, htk]
      exact head?_getD_ne hno.2
    rw [block, State.take?_eq_none_of (by rw [htk]; exact hno.1)]
    exact ⟨rfl, State.length_reportExpected hkind, (State.kinds_reportExpected t _).symm⟩
  refine hblock.andThen_nil ?_
  rintro body u hu rfl
  exact .build fun _ => trivial

/-- A report that comes before a parser takes something. -/
theorem Parsed.Spends.noted {s r : State} {α : Type} {ts : List Kind} {good : α → Prop}
    {p : Parsed (s.withFindings r) α} (hr : r.findings.length = s.findings.length + 1)
    (hp : p.Takes ts good) : Parsed.Spends (p.since (s := s) List.suffix_rfl) ts 1 good :=
  ⟨hp.1, (congrArg List.length hp.2.1).trans hr, hp.2.2⟩

theorem failed_taken {line b : List Kind} (start : Span) (hline : line.all Kind.isPlain = true)
    (hb : Phrase .block b) :
    Taken (failed · start) (fun _ => True) (line ++ Kind.newline :: b) fun _ => True := by
  intro s ks hs _
  exact Parsed.takes_andThen_nil (recovered_taken hline hb s ks hs trivial) fun _ _ _ _ =>
    .build fun _ => trivial

/-- A part that is left of a branch. -/
theorem stmt_spent_elsePart {p : List Kind} (h : ElsePart p) : StmtSpent (fun _ => True) p 1 := by
  have hpiece : ∀ (line : List Kind) {b : List Kind}, line.all Kind.isPlain = true → Phrase .block b →
      StmtSpent (fun _ => True) (Kind.kwElse :: (line ++ Kind.newline :: b)) 1 := by
    intro line b hline hb
    refine .of_first rfl fun s step heof hdedent ks hkind hs hks hstep _ => ?_
    have hreport : s.kind ≠ .invalid := by
      rw [State.kind_eq, hs]
      exact Kind.noConfusion
    have hnoted : (s.reportExpected .statement).findings.length = step.state.findings.length + 1 := by
      rw [State.length_reportExpected hreport, (State.step?_eq_some hstep).2.1]
    rw [statement]
    simp only [hkind]
    exact .noted hnoted (failed_taken _ hline hb _ ks hks trivial)
  cases h with
  | last hb => exact hpiece [] rfl hb
  | chained he hb =>
    refine hpiece (.kwIf :: _) ?_ hb
    rw [List.all_cons, he.all_plain rfl]
    rfl

/-- A loop goes on behind the tokens as if it had begun there, with so many reports more. -/
def Advances {α : Type} (loop : (s : State) → Parsed s α) (follow : List Kind → Prop) (ts : List Kind)
    (n : Nat) : Prop :=
  ∀ s ks, s.kinds = ts ++ ks → follow ks → ∃ t : State, t.kinds = ks ∧
    t.findings.length = s.findings.length + n ∧ (loop s).state = (loop t).state

namespace Advances

variable {α : Type} {loop : (s : State) → Parsed s α} {follow follow' : List Kind → Prop}
  {ts us : List Kind} {m n : Nat}

theorem nil : Advances loop follow [] 0 := fun s _ hs _ => ⟨s, hs, rfl, rfl⟩

theorem append (h : Advances loop follow ts m) (h' : Advances loop follow' us n)
    (hf : ∀ ks, follow' ks → follow (us ++ ks)) : Advances loop follow' (ts ++ us) (m + n) := by
  intro s ks hs hks
  rw [List.append_assoc] at hs
  obtain ⟨t, ht, hlength, hstate⟩ := h s (us ++ ks) hs (hf ks hks)
  obtain ⟨u, hu, hlength', hstate'⟩ := h' t ks ht hks
  exact ⟨u, hu, by omega, hstate.trans hstate'⟩

theorem mono (h : Advances loop follow ts n) (hf : ∀ ks, follow' ks → follow ks) :
    Advances loop follow' ts n := fun s ks hs hks => h s ks hs (hf ks hks)

/-- What the loop makes of what follows. -/
theorem spent {good : α → Prop} (h : Advances loop follow ts m) (h' : Spent loop follow' us n good)
    (hf : ∀ ks, follow' ks → follow (us ++ ks)) :
    Spent loop follow' (ts ++ us) (m + n) fun _ => True := by
  intro s ks hs hks
  rw [List.append_assoc] at hs
  obtain ⟨t, ht, hlength, hstate⟩ := h s (us ++ ks) hs (hf ks hks)
  have hspent := h' t ks ht hks
  have hrest : (loop s).state.kinds = ks := by
    rw [hstate]
    exact hspent.kinds_eq ht
  refine ⟨trivial, ?_, ?_⟩
  · rw [hstate, hspent.2.1]
    omega
  · rw [hs, hrest, List.append_assoc]

/-- The parts that are left of a branch are met one by one. -/
theorem flatten {parts : List (List Kind)}
    (h : ∀ p ∈ parts, Advances loop (fun _ => True) p 1) :
    Advances loop (fun _ => True) parts.flatten parts.length := by
  induction parts with
  | nil => exact .nil
  | cons p parts ih =>
    have hp := h p List.mem_cons_self
    have hparts := ih fun q hq => h q (List.mem_cons_of_mem p hq)
    rw [List.flatten_cons, List.length_cons, Nat.add_comm]
    exact hp.append hparts fun _ _ => trivial

end Advances

theorem not_layout_of_startsPiece {k : Kind} (h : startsPiece k = true) :
    k ≠ .eof ∧ k ≠ .dedent ∧ k ≠ .newline := by
  refine ⟨?_, ?_, ?_⟩ <;>
  · rintro rfl
    cases h

theorem not_layout_of_startsItem {k : Kind} (h : startsItem k = true) :
    k ≠ .eof ∧ k ≠ .dedent ∧ k ≠ .newline := by
  refine ⟨?_, ?_, ?_⟩ <;>
  · rintro rfl
    cases h

/-- The loop over items goes on behind what it takes for an item. -/
theorem advances_item {follow : List Kind → Prop} {k : Kind} {rest : List Kind} {n : Nat}
    (hk : k ≠ .eof ∧ k ≠ .dedent ∧ k ≠ .newline)
    (h : ∀ (s : State) (step : Step s) (heof : step.token.kind ≠ .eof)
      (hdedent : step.token.kind ≠ .dedent) (ks : List Kind), s.step? = some step →
      s.kinds = k :: (rest ++ ks) → step.token.kind = k → step.state.kinds = rest ++ ks → follow ks →
      (item s step heof hdedent).Spends rest n fun _ => True) :
    Advances items follow (k :: rest) n := by
  intro s ks hs hf
  obtain ⟨step, hstep, hkind, hks⟩ := State.exists_step hs
  rw [← hkind] at hk
  have hspent := h s step hk.1 hk.2.1 ks hstep hs hkind hks hf
  refine ⟨(item s step hk.1 hk.2.1).state, hspent.kinds_eq hks, ?_, ?_⟩
  · rw [hspent.2.1, (State.step?_eq_some hstep).2.1]
  · rw [items]
    simp only [hstep]
    rw [dif_neg hk.1, dif_neg hk.2.1, if_neg hk.2.2]
    rfl

namespace StmtSpent

variable {follow : List Kind → Prop} {ts : List Kind} {n : Nat}

theorem statements (h : StmtSpent follow ts n) : Advances statements follow ts n := by
  obtain ⟨k, rest, rfl, hk, hstmt⟩ := h
  intro s ks hs hf
  obtain ⟨step, hstep, hkind, hks⟩ := State.exists_step hs
  obtain ⟨heof, hdedent, hnewline⟩ := not_layout_of_startsPiece (hkind ▸ hk)
  have hspent := hstmt s step heof hdedent ks hstep hs hf
  refine ⟨(statement s step heof hdedent).state, hspent.kinds_eq hks, ?_, ?_⟩
  · rw [hspent.2.1, (State.step?_eq_some hstep).2.1]
  · rw [Parse.statements]
    simp only [hstep]
    rw [dif_neg heof, dif_neg hdedent, if_neg hnewline]
    rfl

theorem items (h : StmtSpent follow ts n) : Advances items follow ts n := by
  obtain ⟨k, rest, rfl, hk, hstmt⟩ := h
  refine advances_item (not_layout_of_startsPiece hk) fun s step heof hdedent ks hstep hs hkind hks hf => ?_
  rw [item]
  split
  case h_5 => exact (hstmt s step heof hdedent ks hstep hs hf).andThen_nil fun _ _ _ _ => .build fun _ => trivial
  all_goals
    rename_i hcase
    rw [← hkind, hcase] at hk
    cases hk

end StmtSpent

/-- An item that is taken whole. -/
theorem ItemTaken.advances {ts : List Kind} (h : ItemTaken ts) : Advances items NoElse ts 0 := by
  obtain ⟨k, rest, rfl, hk, hitem⟩ := h
  refine advances_item (not_layout_of_startsItem hk) fun s step heof hdedent ks hstep hs hkind hks hf => ?_
  exact (hitem s step heof hdedent ks hstep hs hf).spends

theorem block_spent {ss : List Kind} {n : Nat}
    (h : Spent statements (fun _ => True) (ss ++ [Kind.dedent]) n fun _ => True) :
    Spent block (fun _ => True) (Kind.indent :: ss ++ [Kind.dedent]) n fun v => ∃ b, v = some b := by
  intro s ks hs _
  have hs' : s.kinds = Kind.indent :: ((ss ++ [Kind.dedent]) ++ ks) := by simpa using hs
  obtain ⟨opening, hopen, hstep, hk, hks⟩ := State.exists_take hs'
  rw [block]
  simp only [hopen]
  rw [List.cons_append, ← hk]
  exact .since hstep ((h opening.state ks hks trivial).andThen_nil fun _ _ _ _ => ⟨⟨_, rfl⟩, rfl, rfl⟩)

/-- A loop whose block has reports. -/
theorem stmt_spent_while_body {e b : List Kind} {n : Nat}
    (he : TakenSome expression EndsExpr e fun _ => True)
    (hb : Spent block (fun _ => True) b n fun v => ∃ b, v = some b) :
    StmtSpent (fun _ => True) (Kind.kwWhile :: ((e ++ [Kind.newline]) ++ b)) n := by
  refine .of_first rfl fun s step heof hdedent ks hkind _ hks _ _ => ?_
  rw [statement]
  simp only [hkind]
  rw [List.append_assoc] at hks
  refine .afterTakes hks (condition_taken he step.state _ hks trivial) ?_
  rintro cond t ht ⟨c, rfl, -⟩ htk
  refine (hb t ks htk trivial).andThen_nil ?_
  rintro body u hu ⟨body', rfl⟩
  exact .build fun _ => trivial

/-- A loop with its condition behind a block that has reports. -/
theorem stmt_spent_do_body {b e : List Kind} {n : Nat}
    (hb : Spent block (fun _ => True) b n fun v => ∃ b, v = some b)
    (he : TakenSome expression EndsExpr e fun _ => True) :
    StmtSpent (fun _ => True) (Kind.kwDo :: ([Kind.newline] ++ (b ++ ((Kind.kwWhile :: e) ++ [Kind.newline])))) n := by
  refine .of_first rfl fun s step heof hdedent ks hkind _ hks _ _ => ?_
  rw [statement]
  simp only [hkind]
  rw [List.append_assoc] at hks
  refine .afterTakes hks (lineEnd_taken step.state _ hks trivial) ?_
  rintro ended t ht rfl htk
  rw [if_neg (by simp)]
  rw [List.append_assoc] at htk
  refine .thenTakes htk (hb t _ htk trivial) ?_
  rintro body u hu ⟨body', rfl⟩ huk
  rw [List.append_assoc] at huk
  refine Takes.andThen huk (whileCondition_taken he u _ huk (.inl rfl)) ?_
  rintro cond v hv ⟨c, rfl, -⟩ hvk
  exact simple_taken _ _ v ks hvk trivial

/-- A branch with reports: it may be given up with its header and first block, and then the parts that are
left of it are each a piece of their own. -/
def BranchSpent (ts : List Kind) (n : Nat) : Prop :=
  ∃ taken parts m, ts = Kind.kwIf :: taken ++ parts.flatten ∧ (∀ p ∈ parts, ElsePart p) ∧
    n = m + parts.length ∧
    ∀ start, Spent (branch start) (fun ks => parts = [] → NoElse ks) taken m fun _ => True

theorem BranchSpent.stmt {ts : List Kind} {n : Nat} (h : BranchSpent ts n) :
    Advances statements NoElse ts n ∧ Advances items NoElse ts n := by
  obtain ⟨taken, parts, m, rfl, hparts, rfl, htaken⟩ := h
  have hfirst : StmtSpent (fun ks => parts = [] → NoElse ks) (.kwIf :: taken) m := by
    refine .of_first rfl fun s step heof hdedent ks hkind _ hks _ hno => ?_
    rw [statement]
    simp only [hkind]
    exact htaken _ step.state ks hks hno
  have hfollow : ∀ ks, NoElse ks → (parts = [] → NoElse (parts.flatten ++ ks)) := by
    rintro ks hno rfl
    exact hno
  constructor
  · refine hfirst.statements.append ?_ hfollow
    exact (Advances.flatten fun p hp => (stmt_spent_elsePart (hparts p hp)).statements).mono fun _ _ => trivial
  · refine hfirst.items.append ?_ hfollow
    exact (Advances.flatten fun p hp => (stmt_spent_elsePart (hparts p hp)).items).mono fun _ _ => trivial

/-- The header of a branch. -/
theorem branch_spent_header {e b : List Kind} {parts : List (List Kind)}
    (he : TakenSome expression EndsExpr e fun _ => True) (hb : Phrase .block b)
    (hparts : ∀ p ∈ parts, ElsePart p) :
    BranchSpent (Kind.kwIf :: (e ++ Kind.ident :: .newline :: b) ++ parts.flatten) (1 + parts.length) := by
  refine ⟨_, parts, 1, rfl, hparts, rfl, fun start s ks hs _ => ?_⟩
  rw [branch]
  refine (condition_spent he hb s ks hs trivial).andThen_nil ?_
  rintro cond t ht rfl
  exact .build fun _ => trivial

/-- What may stand after a block of a branch, with reports. -/
inductive OtherwiseSpent : List Kind → Nat → Prop
  | header {b} : Phrase .block b → OtherwiseSpent (.kwElse :: .ident :: .newline :: b) 1
  | block {b n} : Spent block (fun _ => True) b n (fun v => ∃ b, v = some b) →
    OtherwiseSpent (.kwElse :: .newline :: b) n
  | chain {ts n} : BranchSpent ts n → OtherwiseSpent (.kwElse :: ts) n

/-- A branch whose first block has reports. -/
theorem branch_spent_body {e b o : List Kind} {n : Nat}
    (he : TakenSome expression EndsExpr e fun _ => True)
    (hb : Spent block (fun _ => True) b n fun v => ∃ b, v = some b) (ho : OtherwiseTaken o) :
    BranchSpent (Kind.kwIf :: (e ++ [Kind.newline] ++ (b ++ o))) n := by
  refine ⟨e ++ [Kind.newline] ++ (b ++ o), [], n, by simp, by simp, rfl, fun start s ks hs hno => ?_⟩
  rw [List.append_assoc] at hs
  rw [branch_eq]
  refine .afterTakes hs (condition_taken he s _ hs trivial) ?_
  rintro cond t ht ⟨c, rfl, -⟩ htk
  rw [List.append_assoc] at htk
  refine .thenTakes htk (hb t _ htk trivial) ?_
  rintro body u hu ⟨body', rfl⟩ huk
  exact branchTail_taken ho start c body' u ks huk (hno rfl)

/-- What a branch with reports makes of what stands behind its first block. -/
theorem branchTail_spent {o : List Kind} {n : Nat} (h : OtherwiseSpent o n) :
    ∃ taken parts m, o = taken ++ parts.flatten ∧ (∀ p ∈ parts, ElsePart p) ∧ n = m + parts.length ∧
      ∀ start cond body,
        Spent (branchTail start cond body) (fun ks => parts = [] → NoElse ks) taken m fun _ => True := by
  cases h with
  | @header b hb =>
    refine ⟨_, [], 1, (List.append_nil _).symm, by simp, rfl, fun start cond body s ks hs _ => ?_⟩
    obtain ⟨other, hother, hstep, hk, hks⟩ := State.exists_take hs
    rw [branchTail]
    simp only [hother, elseTail]
    rw [State.take?_eq_none_of (by rw [hks]; simp), ← hk]
    refine .since hstep ((lineEnd_spent hb other.state ks hks trivial).andThen_nil ?_)
    rintro ended t ht rfl
    exact .build fun _ => trivial
  | @block b n hb =>
    refine ⟨_, [], n, (List.append_nil _).symm, by simp, rfl, fun start cond body s ks hs _ => ?_⟩
    obtain ⟨other, hother, hstep, hk, hks⟩ := State.exists_take hs
    have hks' : other.state.kinds = [Kind.newline] ++ (b ++ ks) := hks
    rw [branchTail]
    simp only [hother, elseTail]
    rw [State.take?_eq_none_of (by rw [hks']; simp), ← hk]
    refine .since hstep ?_
    change Parsed.Spends _ ([Kind.newline] ++ b) n _
    refine .afterTakes hks' (lineEnd_taken other.state _ hks' trivial) ?_
    rintro ended t ht rfl htk
    rw [if_neg (by simp)]
    refine (hb t ks htk trivial).andThen_nil ?_
    rintro rest u hu ⟨r, rfl⟩
    exact .build fun _ => trivial
  | chain hbranch =>
    obtain ⟨taken, parts, m, rfl, hparts, rfl, htaken⟩ := hbranch
    refine ⟨.kwElse :: .kwIf :: taken, parts, m, rfl, hparts, rfl, fun start cond body s ks hs hno => ?_⟩
    obtain ⟨other, hother, hstep, hk, hks⟩ := State.exists_take hs
    obtain ⟨again, hagain, hstep', hk', hks'⟩ := State.exists_take hks
    rw [branchTail]
    simp only [hother, elseTail, hagain]
    rw [← hk, ← hk']
    exact .since hstep (.since hstep' ((htaken again.token.span again.state ks hks' hno).andThen_nil
      fun _ _ _ _ => .build fun _ => trivial))

/-- A branch with reports behind its first block. -/
theorem branch_spent_otherwise {e b o : List Kind} {n : Nat}
    (he : TakenSome expression EndsExpr e fun _ => True)
    (hb : TakenSome block (fun _ => True) b fun _ => True) (ho : OtherwiseSpent o n) :
    BranchSpent (Kind.kwIf :: (e ++ [Kind.newline] ++ (b ++ o))) n := by
  obtain ⟨taken, parts, m, rfl, hparts, rfl, htaken⟩ := branchTail_spent ho
  refine ⟨e ++ [Kind.newline] ++ (b ++ taken), parts, m, by simp, hparts, rfl, fun start s ks hs hno => ?_⟩
  rw [List.append_assoc] at hs
  rw [branch_eq]
  refine .afterTakes hs (condition_taken he s _ hs trivial) ?_
  rintro cond t ht ⟨c, rfl, -⟩ htk
  rw [List.append_assoc] at htk
  refine .afterTakes htk (hb t _ htk trivial) ?_
  rintro body u hu ⟨body', rfl, -⟩ huk
  exact htaken start c body' u ks huk hno

/-- A function with its tags, with reports. -/
inductive FunctionSpent : List Kind → Nat → Prop
  | bare {rest n} : (∀ start tags, Spent (function start tags) (fun _ => True) rest n fun _ => True) →
    FunctionSpent (.kwFun :: rest) n
  | tagged {rest n} :
    (∀ start tags, Spent (taggedFunction start tags) (fun _ => True) rest n fun _ => True) →
    FunctionSpent (.kwTag :: rest) n

theorem function_spent_header {ps r b : List Kind}
    (hp : TakenSome parameters (fun _ => True) (ps ++ [Kind.rParen]) fun _ => True)
    (hr : TakenSome typeMark (·.head? ≠ some .colon) r fun _ => True) (hb : Phrase .block b) :
    FunctionSpent (Kind.kwFun :: ((Kind.ident :: .lParen :: ps ++ Kind.rParen :: r) ++ Kind.ident :: .newline :: b)) 1 := by
  refine .bare fun start tags s ks hs _ => ?_
  rw [List.append_assoc] at hs
  rw [function]
  refine .afterTakes hs (signature_taken hp hr s _ hs (by simp)) ?_
  rintro sig t ht ⟨⟨name, params, result⟩, rfl, -⟩ htk
  refine (lineEnd_spent hb t ks htk trivial).andThen_nil ?_
  rintro ended u hu rfl
  exact .build fun _ => trivial

theorem function_spent_body {ps r b : List Kind} {n : Nat}
    (hp : TakenSome parameters (fun _ => True) (ps ++ [Kind.rParen]) fun _ => True)
    (hr : TakenSome typeMark (·.head? ≠ some .colon) r fun _ => True)
    (hb : Spent block (fun _ => True) b n fun v => ∃ b, v = some b) :
    FunctionSpent (Kind.kwFun :: ((Kind.ident :: .lParen :: ps ++ Kind.rParen :: r) ++ ([Kind.newline] ++ b))) n := by
  refine .bare fun start tags s ks hs _ => ?_
  rw [List.append_assoc] at hs
  rw [function]
  refine .afterTakes hs (signature_taken hp hr s _ hs (by simp)) ?_
  rintro sig t ht ⟨⟨name, params, result⟩, rfl, -⟩ htk
  rw [List.append_assoc] at htk
  refine .afterTakes htk (lineEnd_taken t _ htk trivial) ?_
  rintro ended u hu rfl huk
  rw [if_neg (by simp)]
  refine (hb u ks huk trivial).andThen_nil ?_
  rintro body v hv ⟨body', rfl⟩
  exact .build fun _ => trivial

theorem taggedFunction_spent {q f : List Kind} {n : Nat}
    (hq : TakenSome dottedName (·.head? ≠ some .dot) q fun _ => True) (hf : FunctionSpent f n) :
    FunctionSpent (Kind.kwTag :: (q ++ ([Kind.newline] ++ f))) n := by
  refine .tagged fun start tags s ks hs _ => ?_
  rw [List.append_assoc] at hs
  rw [taggedFunction]
  refine .afterTakes hs (hq s _ hs (by simp)) ?_
  rintro name t ht ⟨name', rfl, -⟩ htk
  rw [List.append_assoc] at htk
  refine .afterTakes htk (lineEnd_taken t _ htk trivial) ?_
  rintro ended u hu rfl huk
  rw [if_neg (by simp)]
  cases hf with
  | bare hb =>
    obtain ⟨step, ht', hstep, hk, hks⟩ := State.exists_take huk
    rw [State.take?_eq_none_of (by rw [huk]; simp)]
    simp only [ht']
    rw [← hk]
    exact .since hstep (hb start _ step.state ks hks trivial)
  | tagged hb =>
    obtain ⟨step, ht', hstep, hk, hks⟩ := State.exists_take huk
    simp only [ht']
    rw [← hk]
    exact .since hstep (hb start _ step.state ks hks trivial)

/-- A function with reports is an item. -/
theorem FunctionSpent.items {f : List Kind} {n : Nat} (h : FunctionSpent f n) :
    Advances items (fun _ => True) f n := by
  cases h with
  | @bare rest n hf =>
    refine advances_item (by decide) fun s step heof hdedent ks hstep hs hkind hks _ => ?_
    rw [item]
    simp only [hkind]
    exact hf _ _ step.state ks hks trivial
  | @tagged rest n hf =>
    refine advances_item (by decide) fun s step heof hdedent ks hstep hs hkind hks _ => ?_
    rw [item]
    simp only [hkind]
    exact hf _ _ step.state ks hks trivial

/-- A program with reports in its items. -/
theorem program_spent {h is : List Kind} {n : Nat} {file : File} {tokens : List Token}
    (hs : tokens.map (·.kind) = h ++ is) (hi : Spent items (· = []) is n fun _ => True)
    (hh : ∀ s : State, s.kinds = h ++ is → (header s).Takes h fun _ => True) :
    (program file tokens).2.length = n := by
  have hstart : (fileStart file tokens).kinds = h ++ (is ++ []) := by
    rw [List.append_nil]
    exact hs
  have hp : (fileParts file tokens).Spends (h ++ is) n fun _ => True := by
    refine .afterTakes hstart (hh _ (by rwa [List.append_nil] at hstart)) ?_
    intro name t ht _ htk
    exact (hi t [] htk rfl).andThen_nil fun _ _ _ _ => .pure trivial
  have hlength : (fileParts file tokens).state.findings.length = 0 + n := hp.2.1
  rw [program, List.length_reverse, hlength, Nat.zero_add]

end Parse

end Craftlang
