import Craftlang.Parse.Program
import Craftlang.Proofs.Syntax.ExprTaking

/-!
# Phrases of statements and items are taken

A statement is taken whole if no `else` follows it, which nothing but a branch could go on with.
-/

namespace Craftlang.Parse

open Parsed (Takes)

/-- No other branch goes on here. -/
def NoElse (ks : List Kind) : Prop := ks.head? ≠ some .kwElse

/-- The tokens start with one of which something holds. -/
def Starts (first : Kind → Bool) (ts : List Kind) : Prop :=
  ∃ k rest, ts = k :: rest ∧ first k = true

/-- Can a statement start with a kind of token? -/
def startsStmt : Kind → Bool
  | .kwVar | .kwIf | .kwWhile | .kwDo | .kwBreak | .kwContinue | .kwReturn | .command => true
  | k => startsExpr k

/-- Can an item start with a kind of token? -/
def startsItem : Kind → Bool
  | .kwFun | .kwTag | .kwType => true
  | k => startsStmt k

theorem Starts.append {first : Kind → Bool} {ts : List Kind} (h : Starts first ts)
    (us : List Kind) : Starts first (ts ++ us) := by
  obtain ⟨k, rest, rfl, hk⟩ := h
  exact ⟨k, rest ++ us, rfl, hk⟩

theorem Starts.mono {first second : Kind → Bool} {ts : List Kind} (h : Starts first ts)
    (hk : ∀ k, first k = true → second k = true) : Starts second ts := by
  obtain ⟨k, rest, rfl, hf⟩ := h
  exact ⟨k, rest, rfl, hk k hf⟩

theorem startsStmt_of_startsExpr (k : Kind) (h : startsExpr k = true) : startsStmt k = true := by
  cases k <;> first | rfl | cases h

theorem startsItem_of_startsStmt (k : Kind) (h : startsStmt k = true) : startsItem k = true := by
  cases k <;> first | rfl | cases h

theorem startsExpr_of_startsOperand (k : Kind) (h : startsOperand k = true) :
    startsExpr k = true := by
  rw [startsExpr, h]
  rfl

/-- A last step that takes nothing. -/
theorem Parsed.takes_andThen_nil {s : State} {α β : Type} {p : Parsed s α} {ts : List Kind}
    {good : α → Prop} {okay : β → Prop}
    {next : α → (t : State) → t.rest.length ≤ s.rest.length → Parsed t β} (hp : p.Takes ts good)
    (hn : ∀ a t h, good a → (next a t h).Takes [] okay) : (p.andThen next).Takes ts okay := by
  have hs : s.kinds = ts ++ ([] ++ p.state.kinds) := hp.2.2
  have h := Takes.andThen hs hp fun a t ht ha _ => hn a t ht ha
  rwa [List.append_nil] at h

theorem lineEnd_taken : Taken lineEnd (fun _ => True) [.newline] (· = true) := by
  intro s ks hs _
  obtain ⟨step, hstep, hk, -⟩ := State.exists_step hs
  rw [lineEnd]
  simp only [hstep]
  rw [hk]
  simp only
  rw [← hk]
  exact .since hstep (.pure rfl)

theorem simple_taken (span : Span) (make : Node → Stmt) :
    Taken (simple · span make) (fun _ => True) [.newline] fun _ => True := by
  intro s ks hs _
  refine Parsed.takes_buildThen fun _ t _ ht => ?_
  refine Parsed.takes_andThen_nil (lineEnd_taken t ks (ht.trans hs) trivial) fun _ _ _ hended => ?_
  rw [if_pos hended]
  exact .pure trivial

theorem typeMark_taken_nil : TakenSome typeMark (·.head? ≠ some .colon) [] fun _ => True := by
  intro s ks hs hno
  rw [typeMark, State.take?_eq_none_of (by rw [hs]; exact hno)]
  exact .pure ⟨none, rfl, trivial⟩

theorem typeMark_taken_some :
    TakenSome typeMark (·.head? ≠ some .colon) [.colon, .ident] fun _ => True := by
  intro s ks hs _
  obtain ⟨colon, ht, hstep, hk, hks⟩ := State.exists_take hs
  rw [typeMark]
  simp only [ht]
  rw [← hk]
  exact .since hstep (Attempt.takes_bind_nil (typeName_taken colon.state ks hks trivial)
    fun type t ht _ => .pure ⟨_, rfl, trivial⟩)

/-- The name and the type of a declaration. -/
theorem declaration_header {m ks : List Kind} {s : State}
    (hm : TakenSome typeMark (·.head? ≠ some .colon) m fun _ => True)
    (hs : s.kinds = (Kind.ident :: m) ++ ks) (hk : ks.head? ≠ some .colon) :
    Takes ((identifier s).bind fun name t _ =>
      (typeMark t).bind fun type u _ => Attempt.ok u (name, type)) (.ident :: m)
      fun v => ∃ a, v = some a ∧ True := by
  have hs' : s.kinds = [Kind.ident] ++ (m ++ ks) := hs
  change Takes _ ([Kind.ident] ++ m) _
  refine Attempt.takes_bind hs' (identifier_taken s _ hs' trivial) ?_
  intro name t ht _ htk
  exact Attempt.takes_bind_nil (hm t ks htk hk) fun type u hu _ => .pure ⟨_, rfl, trivial⟩

theorem declaration_taken {m : List Kind} (start : Span)
    (hm : TakenSome typeMark (·.head? ≠ some .colon) m fun _ => True) :
    Taken (declaration start) (fun _ => True) (Kind.ident :: m ++ [Kind.newline]) fun _ => True := by
  intro s ks hs _
  rw [List.append_assoc] at hs
  rw [declaration]
  refine Takes.andThen hs (declaration_header hm hs (by simp)) ?_
  rintro header t ht ⟨⟨name, type⟩, rfl, -⟩ htk
  simp only
  rw [State.take?_eq_none_of (by rw [htk]; simp)]
  exact simple_taken _ _ t ks htk trivial

theorem declaration_taken_value {m e : List Kind} (start : Span)
    (hm : TakenSome typeMark (·.head? ≠ some .colon) m fun _ => True)
    (he : TakenSome expression EndsExpr e fun _ => True) :
    Taken (declaration start) (fun _ => True) (Kind.ident :: m ++ (Kind.assign :: e ++ [Kind.newline]))
      fun _ => True := by
  intro s ks hs _
  rw [List.append_assoc] at hs
  rw [declaration]
  refine Takes.andThen hs (declaration_header hm hs (by simp)) ?_
  rintro header t ht ⟨⟨name, type⟩, rfl, -⟩ htk
  have htk' : t.kinds = Kind.assign :: (e ++ ([Kind.newline] ++ ks)) := by simpa using htk
  obtain ⟨sign, hsign, hstep, hk, hks⟩ := State.exists_take htk'
  simp only [hsign]
  rw [List.cons_append, ← hk]
  refine .since hstep (Takes.andThen hks (he sign.state _ hks (.inl rfl)) ?_)
  rintro value u hu ⟨v, rfl, -⟩ huk
  exact simple_taken _ _ u ks huk trivial

theorem returned_taken_nil (start : Span) :
    Taken (returned start) (fun _ => True) [.newline] fun _ => True := by
  intro s ks hs _
  have hk : s.kind = .newline := by
    rw [State.kind_eq, hs]
    rfl
  rw [returned, hk]
  exact simple_taken _ _ s ks hs trivial

theorem returned_taken_value {e : List Kind} (start : Span)
    (he : TakenSome expression EndsExpr e fun _ => True) (hh : Starts startsExpr e) :
    Taken (returned start) (fun _ => True) (e ++ [Kind.newline]) fun _ => True := by
  intro s ks hs _
  rw [List.append_assoc] at hs
  have hk : startsExpr s.kind = true := by
    obtain ⟨k, rest, rfl, hk⟩ := hh
    rw [State.kind_eq, hs]
    exact hk
  rw [returned]
  split
  · rename_i h
    rw [h] at hk
    cases hk
  · rename_i h
    rw [h] at hk
    cases hk
  · rename_i h
    rw [h] at hk
    cases hk
  · refine Takes.andThen hs (he s _ hs (.inl rfl)) ?_
    rintro value u hu ⟨v, rfl, -⟩ huk
    exact simple_taken _ _ u ks huk trivial

theorem condition_taken {e : List Kind} (he : TakenSome expression EndsExpr e fun _ => True) :
    TakenSome condition (fun _ => True) (e ++ [Kind.newline]) fun _ => True := by
  intro s ks hs _
  rw [List.append_assoc] at hs
  rw [condition]
  refine Takes.andThen hs (he s _ hs (.inl rfl)) ?_
  rintro value u hu ⟨v, rfl, -⟩ huk
  refine Parsed.takes_andThen_nil (lineEnd_taken u ks huk trivial) ?_
  rintro ended t ht rfl
  exact .pure ⟨v, rfl, trivial⟩

/-- The parser of statements takes the statement, whose first token is known. -/
def StmtTaken (ts : List Kind) : Prop :=
  ∃ k rest, ts = k :: rest ∧ startsStmt k = true ∧
    ∀ (s : State) (step : Step s) (heof : step.token.kind ≠ .eof)
      (hdedent : step.token.kind ≠ .dedent) (ks : List Kind), s.step? = some step →
      s.kinds = ts ++ ks → NoElse ks → (statement s step heof hdedent).Takes rest fun _ => True

/-- A statement that its first token decides. -/
theorem StmtTaken.of_first {k : Kind} {rest : List Kind} (hk : startsStmt k = true)
    (h : ∀ (s : State) (step : Step s) (heof : step.token.kind ≠ .eof)
      (hdedent : step.token.kind ≠ .dedent) (ks : List Kind), step.token.kind = k →
      step.state.kinds = rest ++ ks → NoElse ks →
      (statement s step heof hdedent).Takes rest fun _ => True) : StmtTaken (k :: rest) := by
  refine ⟨k, rest, rfl, hk, fun s step heof hdedent ks hstep hs hno => ?_⟩
  have hkinds := (State.step?_eq_some hstep).1
  rw [hs] at hkinds
  injection hkinds with hkind hkinds
  exact h s step heof hdedent ks hkind.symm hkinds.symm hno

theorem stmt_taken_simple {k : Kind} (make : Token → Node → Stmt) (hk : startsStmt k = true)
    (h : ∀ (s : State) (step : Step s) heof hdedent, step.token.kind = k →
      statement s step heof hdedent = simple step.state step.token.span (make step.token)) :
    StmtTaken [k, .newline] := by
  refine StmtTaken.of_first hk fun s step heof hdedent ks hkind hks _ => ?_
  rw [h s step heof hdedent hkind]
  exact simple_taken _ _ step.state ks hks trivial

theorem stmt_taken_break : StmtTaken [.kwBreak, .newline] :=
  stmt_taken_simple (fun _ => .leave) rfl fun s step heof hdedent hk => by
    rw [statement]
    simp only [hk]

theorem stmt_taken_continue : StmtTaken [.kwContinue, .newline] :=
  stmt_taken_simple (fun _ => .again) rfl fun s step heof hdedent hk => by
    rw [statement]
    simp only [hk]

theorem stmt_taken_command : StmtTaken [.command, .newline] :=
  stmt_taken_simple (fun t node => .command node t.text.tail) rfl fun s step heof hdedent hk => by
    rw [statement]
    simp only [hk]

theorem stmt_taken_declaration {rest : List Kind}
    (h : ∀ start, Taken (declaration start) (fun _ => True) rest fun _ => True) :
    StmtTaken (.kwVar :: rest) := by
  refine StmtTaken.of_first rfl fun s step heof hdedent ks hkind hks _ => ?_
  rw [statement]
  simp only [hkind]
  exact h _ step.state ks hks trivial

theorem stmt_taken_returned {rest : List Kind}
    (h : ∀ start, Taken (returned start) (fun _ => True) rest fun _ => True) :
    StmtTaken (.kwReturn :: rest) := by
  refine StmtTaken.of_first rfl fun s step heof hdedent ks hkind hks _ => ?_
  rw [statement]
  simp only [hkind]
  exact h _ step.state ks hks trivial

theorem stmt_taken_branch {rest : List Kind}
    (h : ∀ start, Taken (branch start) NoElse rest fun _ => True) : StmtTaken (.kwIf :: rest) := by
  refine StmtTaken.of_first rfl fun s step heof hdedent ks hkind hks hno => ?_
  rw [statement]
  simp only [hkind]
  exact h _ step.state ks hks hno

theorem stmt_taken_while {e b : List Kind} (he : TakenSome expression EndsExpr e fun _ => True)
    (hb : TakenSome block (fun _ => True) b fun _ => True) :
    StmtTaken (Kind.kwWhile :: e ++ Kind.newline :: b) := by
  have hts : Kind.kwWhile :: e ++ Kind.newline :: b = Kind.kwWhile :: ((e ++ [Kind.newline]) ++ b) := by simp
  rw [hts]
  refine StmtTaken.of_first rfl fun s step heof hdedent ks hkind hks _ => ?_
  rw [statement]
  simp only [hkind]
  rw [List.append_assoc] at hks
  refine Takes.andThen hks (condition_taken he step.state _ hks trivial) ?_
  rintro cond t ht ⟨c, rfl, -⟩ htk
  refine Parsed.takes_andThen_nil (hb t ks htk trivial) ?_
  rintro body u hu ⟨body', rfl, -⟩
  exact .build fun _ => trivial

/-- The condition behind the block of a `do` loop. -/
theorem whileCondition_taken {e : List Kind} (he : TakenSome expression EndsExpr e fun _ => True) :
    TakenSome (fun s => (expect s .kwWhile).bind fun _ t _ => expression t) EndsExpr (.kwWhile :: e)
      fun _ => True := by
  intro s ks hs hend
  have hs' : s.kinds = [Kind.kwWhile] ++ (e ++ ks) := hs
  change Takes _ ([Kind.kwWhile] ++ e) _
  refine Attempt.takes_bind hs' (expect_taken .kwWhile s _ hs' trivial) ?_
  intro _ t ht _ htk
  exact he t _ htk hend

theorem stmt_taken_do {b e : List Kind} (hb : TakenSome block (fun _ => True) b fun _ => True)
    (he : TakenSome expression EndsExpr e fun _ => True) :
    StmtTaken (Kind.kwDo :: .newline :: b ++ Kind.kwWhile :: e ++ [Kind.newline]) := by
  have hts : Kind.kwDo :: .newline :: b ++ Kind.kwWhile :: e ++ [Kind.newline]
      = Kind.kwDo :: ([Kind.newline] ++ (b ++ ((Kind.kwWhile :: e) ++ [Kind.newline]))) := by simp
  rw [hts]
  refine StmtTaken.of_first rfl fun s step heof hdedent ks hkind hks _ => ?_
  rw [statement]
  simp only [hkind]
  rw [List.append_assoc] at hks
  refine Takes.andThen hks (lineEnd_taken step.state _ hks trivial) ?_
  rintro ended t ht rfl htk
  rw [if_neg (by simp)]
  rw [List.append_assoc] at htk
  refine Takes.andThen htk (hb t _ htk trivial) ?_
  rintro body u hu ⟨body', rfl, -⟩ huk
  rw [List.append_assoc] at huk
  refine Takes.andThen huk (whileCondition_taken he u _ huk (.inl rfl)) ?_
  rintro cond v hv ⟨c, rfl, -⟩ hvk
  exact simple_taken _ _ v ks hvk trivial

theorem stmt_taken_expr {e : List Kind} (he : TakenSome expression EndsExpr e fun _ => True)
    (hh : Starts startsExpr e) : StmtTaken (e ++ [Kind.newline]) := by
  obtain ⟨k, rest, rfl, hk⟩ := hh
  refine ⟨k, rest ++ [Kind.newline], rfl, startsStmt_of_startsExpr k hk, ?_⟩
  intro s step heof hdedent ks hstep hs _
  rw [List.append_assoc] at hs
  obtain ⟨hkinds, hf, -⟩ := State.step?_eq_some hstep
  have hkind : step.token.kind = k := by
    rw [hs] at hkinds
    injection hkinds with h _
    exact h.symm
  obtain ⟨⟨v, hv, -⟩, hfe, hke⟩ := he s _ hs (.inl rfl)
  have hsimple := simple_taken v.span (fun node => .expr node v) (expression s).state ks
    (List.append_cancel_left (hke.symm.trans hs)) trivial
  have hgo : ∀ hw, Takes ((simple (expression s).state v.span fun node => .expr node v).since hw :
      Parsed step.state Stmt) (rest ++ [Kind.newline]) fun _ => True := by
    intro hw
    refine ⟨trivial, (hsimple.2.1.trans hfe).trans hf.symm, ?_⟩
    have h := hke.trans (congrArg ((k :: rest) ++ ·) hsimple.2.2)
    rw [hkinds, List.cons_append] at h
    injection h with _ h
    rw [h, List.append_assoc]
    rfl
  rw [statement]
  dsimp only
  split
  case h_15 =>
    split
    · rename_i e' he'
      rw [hv] at he'
      cases he'
      exact hgo _
    · rename_i hn
      rw [hv] at hn
      cases hn
  all_goals
    rename_i hcase
    rw [hkind] at hcase
    rw [hcase] at hk
    cases hk

theorem noElse_of_starts {first : Kind → Bool} {us ks : List Kind} (h : Starts first us)
    (hf : first .kwElse = false) : NoElse (us ++ ks) := by
  obtain ⟨k, rest, rfl, hk⟩ := h
  rintro ⟨⟩
  rw [hf] at hk
  cases hk

theorem statements_taken_nil : Taken statements (fun _ => True) [.dedent] fun _ => True := by
  intro s ks hs _
  obtain ⟨step, hstep, hkind, -⟩ := State.exists_step hs
  rw [statements]
  simp only [hstep]
  rw [dif_neg (by rw [hkind]; decide), dif_pos hkind, ← hkind]
  exact .since hstep (.pure trivial)

/-- Statements go on with a statement. -/
theorem statements_taken_cons {first : Kind → Bool} {ts us : List Kind} (h : StmtTaken ts)
    (hh : Starts first us) (hf : first .kwElse = false)
    (hu : Taken statements (fun _ => True) us fun _ => True) :
    Taken statements (fun _ => True) (ts ++ us) fun _ => True := by
  obtain ⟨k, rest, rfl, hk, hstmt⟩ := h
  intro s ks hs _
  rw [List.append_assoc] at hs
  obtain ⟨step, hstep, hkind, hks⟩ := State.exists_step hs
  have hk' : startsStmt step.token.kind = true := hkind ▸ hk
  have heof : step.token.kind ≠ .eof := fun h => by rw [h] at hk'; cases hk'
  have hdedent : step.token.kind ≠ .dedent := fun h => by rw [h] at hk'; cases hk'
  have hnewline : step.token.kind ≠ .newline := fun h => by rw [h] at hk'; cases hk'
  rw [statements]
  simp only [hstep]
  rw [dif_neg heof, dif_neg hdedent, if_neg hnewline, List.cons_append, ← hkind]
  refine .since hstep (Takes.andThen hks (hstmt s step heof hdedent _ hstep hs
    (noElse_of_starts hh hf)) ?_)
  intro stmt t ht _ htk
  exact Parsed.takes_andThen_nil (hu t ks htk trivial) fun _ _ _ _ => .pure trivial

theorem block_taken {ss : List Kind}
    (h : Taken statements (fun _ => True) (ss ++ [Kind.dedent]) fun _ => True) :
    TakenSome block (fun _ => True) (Kind.indent :: ss ++ [Kind.dedent]) fun _ => True := by
  intro s ks hs _
  have hs' : s.kinds = Kind.indent :: ((ss ++ [Kind.dedent]) ++ ks) := by simpa using hs
  obtain ⟨opening, hopen, hstep, hk, hks⟩ := State.exists_take hs'
  rw [block]
  simp only [hopen]
  rw [List.cons_append, ← hk]
  exact .since hstep (Parsed.takes_andThen_nil (h opening.state ks hks trivial)
    fun _ _ _ _ => Attempt.takes_build fun _ => trivial)

/-- What may stand after a block of a branch, as the parser sees it. -/
inductive OtherwiseTaken : List Kind → Prop
  | none : OtherwiseTaken []
  | block {b} : TakenSome block (fun _ => True) b (fun _ => True) →
    OtherwiseTaken (.kwElse :: .newline :: b)
  | chain {rest} : (∀ start, Taken (branch start) NoElse rest fun _ => True) →
    OtherwiseTaken (.kwElse :: .kwIf :: rest)

/-- What a branch makes of what stands behind an `else`. -/
def elseTail (start : Span) (cond : Expr) (body : Block) (other : Span) (s : State) : Parsed s Stmt :=
  match s.take? .kwIf with
  | some again =>
    ((branch again.token.span again.state).andThen fun chained t _ =>
      .build t (start.cover t.lastSpan) fun node =>
        Stmt.branch node cond body (.chain chained)).since again.suffix
  | none =>
    (lineEnd s).andThen fun ended t _ =>
      if !ended then .build t other .error
      else (block t).andThen fun rest u _ =>
        match rest with
        | none => .build u other .error
        | some rest =>
          .build u (start.cover u.lastSpan) fun node =>
            Stmt.branch node cond body (.block rest)

/-- What a branch makes of its condition and its first block: it looks for other branches. -/
def branchTail (start : Span) (cond : Expr) (body : Block) (s : State) : Parsed s Stmt :=
  match s.take? .kwElse with
  | none => .build s (start.cover s.lastSpan) fun node => .branch node cond body .none
  | some other => (elseTail start cond body other.token.span other.state).since other.suffix

theorem branch_eq (start : Span) (s : State) : branch start s =
    (condition s).andThen fun cond t _ =>
      match cond with
      | none => abandoned t start
      | some cond =>
        (block t).andThen fun body u _ =>
          match body with
          | none => abandoned u start
          | some body => branchTail start cond body u := by
  rw [branch]
  congr 1
  funext cond t _
  cases cond with
  | none => rfl
  | some cond =>
    dsimp only
    congr 1
    funext body u _
    cases body with
    | none => rfl
    | some body =>
      dsimp only
      rw [branchTail]
      cases u.take? .kwElse with
      | none => rfl
      | some other =>
        dsimp only
        rw [elseTail]
        cases other.state.take? .kwIf <;> rfl

theorem branchTail_taken {o : List Kind} (ho : OtherwiseTaken o) (start : Span) (cond : Expr)
    (body : Block) : Taken (branchTail start cond body) NoElse o fun _ => True := by
  intro s ks hs hno
  rw [branchTail]
  cases ho with
  | none =>
    rw [State.take?_eq_none_of (by rw [hs]; exact hno)]
    exact .build fun _ => trivial
  | chain hc =>
    obtain ⟨other, hother, hstep, hk, hks⟩ := State.exists_take hs
    obtain ⟨again, hagain, hstep', hk', hks'⟩ := State.exists_take hks
    simp only [hother, elseTail, hagain]
    rw [← hk, ← hk']
    exact .since hstep (.since hstep' (Parsed.takes_andThen_nil
      (hc again.token.span again.state ks hks' hno) fun _ _ _ _ => .build fun _ => trivial))
  | @block b hb =>
    obtain ⟨other, hother, hstep, hk, hks⟩ := State.exists_take hs
    have hks' : other.state.kinds = [Kind.newline] ++ (b ++ ks) := hks
    simp only [hother, elseTail]
    rw [State.take?_eq_none_of (by rw [hks']; simp), ← hk]
    refine .since hstep ?_
    change Takes _ ([Kind.newline] ++ b) _
    refine Takes.andThen hks' (lineEnd_taken other.state _ hks' trivial) ?_
    rintro ended v hv rfl hvk
    rw [if_neg (by simp)]
    refine Parsed.takes_andThen_nil (hb v ks hvk trivial) ?_
    rintro rest w hw ⟨r, rfl, -⟩
    exact .build fun _ => trivial

theorem branch_taken {e b o : List Kind} (he : TakenSome expression EndsExpr e fun _ => True)
    (hb : TakenSome block (fun _ => True) b fun _ => True) (ho : OtherwiseTaken o) (start : Span) :
    Taken (branch start) NoElse (e ++ Kind.newline :: b ++ o) fun _ => True := by
  intro s ks hs hno
  have hts : e ++ Kind.newline :: b ++ o = (e ++ [Kind.newline]) ++ (b ++ o) := by simp
  rw [hts] at hs ⊢
  rw [List.append_assoc] at hs
  rw [branch_eq]
  refine Takes.andThen hs (condition_taken he s _ hs trivial) ?_
  rintro cond t ht ⟨c, rfl, -⟩ htk
  rw [List.append_assoc] at htk
  refine Takes.andThen htk (hb t _ htk trivial) ?_
  rintro body u hu ⟨body', rfl, -⟩ huk
  exact branchTail_taken ho start c body' u ks huk hno

end Craftlang.Parse
