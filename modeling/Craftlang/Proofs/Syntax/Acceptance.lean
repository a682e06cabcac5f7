import Craftlang.Proofs.Syntax.ItemReading
import Craftlang.Proofs.Syntax.StmtTaking

/-!
# What the parser accepts

Items, and by induction on how a phrase comes about: what the grammar derives the parser takes.
-/

namespace Craftlang.Parse

open Parsed (Takes)

theorem dottedName_taken_one : TakenSome dottedName (·.head? ≠ some .dot) [.ident] fun _ => True := by
  intro s ks hs hno
  rw [dottedName]
  have hs' : s.kinds = [Kind.ident] ++ ([] ++ ks) := hs
  rw [← List.append_nil [Kind.ident]]
  refine Attempt.takes_bind hs' (identifier_taken s ks hs trivial) ?_
  intro name t ht _ htk
  rw [State.take?_eq_none_of (by rw [htk]; exact hno)]
  exact .pure ⟨_, rfl, trivial⟩

theorem dottedName_taken_more {q : List Kind}
    (hq : TakenSome dottedName (·.head? ≠ some .dot) q fun _ => True) :
    TakenSome dottedName (·.head? ≠ some .dot) (.ident :: .dot :: q) fun _ => True := by
  intro s ks hs hno
  rw [dottedName]
  have hs' : s.kinds = [Kind.ident] ++ ((Kind.dot :: q) ++ ks) := hs
  change Takes _ ([Kind.ident] ++ (Kind.dot :: q)) _
  refine Attempt.takes_bind hs' (identifier_taken s _ hs' trivial) ?_
  intro name t ht _ htk
  obtain ⟨dot, hdot, hstep, hk, hks⟩ := State.exists_take htk
  simp only [hdot]
  rw [← hk]
  exact .since hstep (Attempt.takes_bind_nil (hq dot.state ks hks hno) fun _ _ _ _ =>
    .pure ⟨_, rfl, trivial⟩)

theorem parameter_taken :
    TakenSome parameter (fun _ => True) [.ident, .colon, .ident] fun _ => True := by
  intro s ks hs _
  rw [parameter]
  have hs' : s.kinds = [Kind.ident] ++ ([Kind.colon, .ident] ++ ks) := hs
  change Takes _ ([Kind.ident] ++ [Kind.colon, .ident]) _
  refine Attempt.takes_bind hs' (identifier_taken s _ hs' trivial) ?_
  intro name t ht _ htk
  have htk' : t.kinds = [Kind.colon] ++ ([Kind.ident] ++ ks) := htk
  change Takes _ ([Kind.colon] ++ [Kind.ident]) _
  refine Attempt.takes_bind htk' (expect_taken .colon t _ htk' trivial) ?_
  intro colon u hu _ huk
  exact Attempt.takes_bind_nil (typeName_taken u ks huk trivial) fun _ _ _ _ =>
    .pure ⟨_, rfl, trivial⟩

theorem parameterList_taken_last {p : List Kind}
    (hp : TakenSome parameter (fun _ => True) p fun _ => True) :
    TakenSome parameterList (fun _ => True) (p ++ [Kind.rParen]) fun _ => True := by
  intro s ks hs _
  rw [List.append_assoc] at hs
  rw [parameterList]
  refine Attempt.takes_bind hs (hp s _ hs trivial) ?_
  intro param t ht _ htk
  obtain ⟨close, hclose, hstep, hk, -⟩ := State.exists_take htk
  rw [State.take?_eq_none_of (by rw [htk]; simp)]
  simp only [hclose]
  rw [← hk]
  exact .since hstep (.pure ⟨_, rfl, trivial⟩)

theorem parameterList_taken_more {p ps : List Kind}
    (hp : TakenSome parameter (fun _ => True) p fun _ => True)
    (hps : TakenSome parameterList (fun _ => True) (ps ++ [Kind.rParen]) fun _ => True) :
    TakenSome parameterList (fun _ => True) ((p ++ Kind.comma :: ps) ++ [Kind.rParen]) fun _ => True := by
  intro s ks hs _
  have hs' : s.kinds = p ++ ((Kind.comma :: (ps ++ [Kind.rParen])) ++ ks) := by simpa using hs
  rw [parameterList, List.append_assoc]
  refine Attempt.takes_bind hs' (hp s _ hs' trivial) ?_
  intro param t ht _ htk
  obtain ⟨comma, hcomma, hstep, hk, hks⟩ := State.exists_take htk
  simp only [hcomma]
  rw [List.cons_append, ← hk]
  exact .since hstep (Attempt.takes_bind_nil (hps comma.state ks hks trivial) fun _ _ _ _ =>
    .pure ⟨_, rfl, trivial⟩)

theorem parameters_taken_nil :
    TakenSome parameters (fun _ => True) ([] ++ [Kind.rParen]) fun _ => True := by
  intro s ks hs _
  obtain ⟨close, hclose, hstep, hk, -⟩ := State.exists_take hs
  rw [parameters]
  simp only [hclose]
  rw [List.nil_append, ← hk]
  exact .since hstep (.pure ⟨_, rfl, trivial⟩)

theorem parameters_taken_some {ps : List Kind}
    (h : TakenSome parameterList (fun _ => True) (ps ++ [Kind.rParen]) fun _ => True)
    (hh : Starts (· == .ident) ps) :
    TakenSome parameters (fun _ => True) (ps ++ [Kind.rParen]) fun _ => True := by
  obtain ⟨k, rest, rfl, hk⟩ := hh
  intro s ks hs _
  rw [parameters, State.take?_eq_none_of ?_]
  · exact h s ks hs trivial
  · rw [hs]
    rintro ⟨⟩
    cases hk

theorem signature_taken {ps r : List Kind}
    (hp : TakenSome parameters (fun _ => True) (ps ++ [Kind.rParen]) fun _ => True)
    (hr : TakenSome typeMark (·.head? ≠ some .colon) r fun _ => True) :
    TakenSome signature (·.head? ≠ some .colon) (Kind.ident :: .lParen :: ps ++ Kind.rParen :: r)
      fun _ => True := by
  intro s ks hs hno
  have hts : Kind.ident :: .lParen :: ps ++ Kind.rParen :: r
      = [Kind.ident] ++ ([Kind.lParen] ++ ((ps ++ [Kind.rParen]) ++ r)) := by simp
  rw [hts] at hs ⊢
  rw [List.append_assoc] at hs
  rw [signature]
  refine Attempt.takes_bind hs (identifier_taken s _ hs trivial) ?_
  intro name t ht _ htk
  rw [List.append_assoc] at htk
  refine Attempt.takes_bind htk (expect_taken .lParen t _ htk trivial) ?_
  intro opening u hu _ huk
  rw [List.append_assoc] at huk
  refine Attempt.takes_bind huk (hp u _ huk trivial) ?_
  intro params v hv _ hvk
  exact Attempt.takes_bind_nil (hr v ks hvk hno) fun _ _ _ _ => .pure ⟨_, rfl, trivial⟩

theorem function_taken {ps r b : List Kind}
    (hp : TakenSome parameters (fun _ => True) (ps ++ [Kind.rParen]) fun _ => True)
    (hr : TakenSome typeMark (·.head? ≠ some .colon) r fun _ => True)
    (hb : TakenSome block (fun _ => True) b fun _ => True) (start : Span) (tags : List DottedName) :
    Taken (function start tags) (fun _ => True)
      (Kind.ident :: .lParen :: ps ++ Kind.rParen :: r ++ Kind.newline :: b) fun _ => True := by
  intro s ks hs _
  rw [List.append_assoc] at hs
  rw [function]
  refine Takes.andThen hs (signature_taken hp hr s _ hs (by simp)) ?_
  rintro sig t ht ⟨⟨name, params, result⟩, rfl, -⟩ htk
  have htk' : t.kinds = [Kind.newline] ++ (b ++ ks) := htk
  change Takes _ ([Kind.newline] ++ b) _
  refine Takes.andThen htk' (lineEnd_taken t _ htk' trivial) ?_
  rintro ended u hu rfl huk
  rw [if_neg (by simp)]
  refine Parsed.takes_andThen_nil (hb u ks huk trivial) ?_
  rintro body v hv ⟨body', rfl, -⟩
  exact .build fun _ => trivial

/-- A function with its tags, as the parser sees it. -/
inductive FunctionTaken : List Kind → Prop
  | bare {rest} : (∀ start tags, Taken (function start tags) (fun _ => True) rest fun _ => True) →
    FunctionTaken (.kwFun :: rest)
  | tagged {rest} :
    (∀ start tags, Taken (taggedFunction start tags) (fun _ => True) rest fun _ => True) →
    FunctionTaken (.kwTag :: rest)

theorem taggedFunction_taken {q f : List Kind}
    (hq : TakenSome dottedName (·.head? ≠ some .dot) q fun _ => True) (hf : FunctionTaken f)
    (start : Span) (tags : List DottedName) :
    Taken (taggedFunction start tags) (fun _ => True) (q ++ Kind.newline :: f) fun _ => True := by
  intro s ks hs _
  rw [List.append_assoc] at hs
  rw [taggedFunction]
  refine Takes.andThen hs (hq s _ hs (by simp)) ?_
  rintro name t ht ⟨name', rfl, -⟩ htk
  have htk' : t.kinds = [Kind.newline] ++ (f ++ ks) := htk
  change Takes _ ([Kind.newline] ++ f) _
  refine Takes.andThen htk' (lineEnd_taken t _ htk' trivial) ?_
  rintro ended u hu rfl huk
  rw [if_neg (by simp)]
  cases hf with
  | bare hb =>
    obtain ⟨step, ht', hstep, hk, hks⟩ := State.exists_take huk
    rw [State.take?_eq_none_of (by rw [huk]; simp)]
    simp only [ht']
    rw [← hk]
    exact .since hstep (hb start _ step.state ks hks trivial)
  | tagged hb =>
    obtain ⟨step, ht', hstep, hk, hks⟩ := State.exists_take huk
    simp only [ht']
    rw [← hk]
    exact .since hstep (hb start _ step.state ks hks trivial)

/-- The parser of items takes the item, whose first token is known. -/
def ItemTaken (ts : List Kind) : Prop :=
  ∃ k rest, ts = k :: rest ∧ startsItem k = true ∧
    ∀ (s : State) (step : Step s) (heof : step.token.kind ≠ .eof)
      (hdedent : step.token.kind ≠ .dedent) (ks : List Kind), s.step? = some step →
      s.kinds = ts ++ ks → NoElse ks → (item s step heof hdedent).Takes rest fun _ => True

theorem item_taken_stmt {ts : List Kind} (h : StmtTaken ts) : ItemTaken ts := by
  obtain ⟨k, rest, rfl, hk, hstmt⟩ := h
  refine ⟨k, rest, rfl, startsItem_of_startsStmt k hk, ?_⟩
  intro s step heof hdedent ks hstep hs hno
  have hkind : step.token.kind = k := by
    have hkinds := (State.step?_eq_some hstep).1
    rw [hs] at hkinds
    injection hkinds with h _
    exact h.symm
  rw [item]
  dsimp only
  split
  case h_5 =>
    exact Parsed.takes_andThen_nil (hstmt s step heof hdedent ks hstep hs hno) fun _ _ _ _ =>
      .build fun _ => trivial
  all_goals
    rename_i hcase
    rw [hkind] at hcase
    rw [hcase] at hk
    cases hk

theorem item_taken_function {f : List Kind} (h : FunctionTaken f) : ItemTaken f := by
  cases h with
  | @bare rest hb =>
    refine ⟨.kwFun, rest, rfl, rfl, fun s step heof hdedent ks hstep hs _ => ?_⟩
    have hkinds := (State.step?_eq_some hstep).1
    rw [hs] at hkinds
    injection hkinds with hk hks
    rw [item]
    simp only [← hk]
    exact hb _ _ step.state ks hks.symm trivial
  | @tagged rest hb =>
    refine ⟨.kwTag, rest, rfl, rfl, fun s step heof hdedent ks hstep hs _ => ?_⟩
    have hkinds := (State.step?_eq_some hstep).1
    rw [hs] at hkinds
    injection hkinds with hk hks
    rw [item]
    simp only [← hk]
    exact hb _ _ step.state ks hks.symm trivial

theorem item_taken_alias : ItemTaken [.kwType, .ident, .assign, .ident, .newline] := by
  refine ⟨.kwType, _, rfl, rfl, fun s step heof hdedent ks hstep hs _ => ?_⟩
  have hkinds := (State.step?_eq_some hstep).1
  rw [hs] at hkinds
  injection hkinds with hk hks
  rw [item]
  simp only [← hk]
  rw [typeAlias]
  have hs₁ : step.state.kinds = [Kind.ident] ++ ([Kind.assign, .ident] ++ (Kind.newline :: ks)) := hks.symm
  have hparts : Takes ((identifier step.state).bind fun name t _ =>
      (expect t .assign).bind fun _ u _ =>
        (typeName u).bind fun target v _ => Attempt.ok v (name, target)) [.ident, .assign, .ident]
      fun v => ∃ a, v = some a ∧ True := by
    change Takes _ ([Kind.ident] ++ [Kind.assign, .ident]) _
    refine Attempt.takes_bind hs₁ (identifier_taken _ _ hs₁ trivial) ?_
    intro name t ht _ htk
    have htk' : t.kinds = [Kind.assign] ++ ([Kind.ident] ++ (Kind.newline :: ks)) := htk
    change Takes _ ([Kind.assign] ++ [Kind.ident]) _
    refine Attempt.takes_bind htk' (expect_taken .assign t _ htk' trivial) ?_
    intro sign u hu _ huk
    exact Attempt.takes_bind_nil (typeName_taken u _ huk trivial) fun _ _ _ _ =>
      .pure ⟨_, rfl, trivial⟩
  have hs₂ : step.state.kinds = [Kind.ident, .assign, .ident] ++ ([Kind.newline] ++ ks) := hks.symm
  change Takes _ ([Kind.ident, .assign, .ident] ++ [Kind.newline]) _
  refine Takes.andThen hs₂ hparts ?_
  rintro parts t ht ⟨⟨name, target⟩, rfl, -⟩ htk
  exact Parsed.takes_andThen_nil (lineEnd_taken t ks htk trivial) fun _ _ _ _ =>
    .build fun _ => trivial

/-- Items are taken up to the end. -/
def ItemsTaken (ts : List Kind) : Prop :=
  (ts = [] ∨ Starts startsItem ts) ∧ Taken items (· = []) ts fun _ => True

theorem items_taken_nil : ItemsTaken [] := by
  refine ⟨.inl rfl, fun s ks hs hnil => ?_⟩
  subst hnil
  rw [items]
  cases hstep : s.step? with
  | none => exact .pure trivial
  | some step =>
    have hk := (State.step?_eq_some hstep).1
    rw [hs] at hk
    cases hk

theorem items_taken_cons {ts us : List Kind} (h : ItemTaken ts) (hu : ItemsTaken us) :
    ItemsTaken (ts ++ us) := by
  obtain ⟨k, rest, rfl, hk, hitem⟩ := h
  obtain ⟨hstart, hus⟩ := hu
  refine ⟨.inr ⟨k, rest ++ us, rfl, hk⟩, fun s ks hs hnil => ?_⟩
  rw [List.append_assoc] at hs
  have hno : NoElse (us ++ ks) := by
    rcases hstart with rfl | hstart
    · rw [hnil]
      simp [NoElse]
    · exact noElse_of_starts hstart rfl
  obtain ⟨step, hstep, hkind, hks⟩ := State.exists_step hs
  have hk' : startsItem step.token.kind = true := hkind ▸ hk
  have heof : step.token.kind ≠ .eof := fun h => by rw [h] at hk'; cases hk'
  have hdedent : step.token.kind ≠ .dedent := fun h => by rw [h] at hk'; cases hk'
  have hnewline : step.token.kind ≠ .newline := fun h => by rw [h] at hk'; cases hk'
  rw [items]
  simp only [hstep]
  rw [dif_neg heof, dif_neg hdedent, if_neg hnewline, List.cons_append, ← hkind]
  refine .since hstep (Takes.andThen hks (hitem s step heof hdedent _ hstep hs hno) ?_)
  intro item t ht _ htk
  exact Parsed.takes_andThen_nil (hus t ks htk hnil) fun _ _ _ _ => .pure trivial

theorem header_taken_nil {us : List Kind} (h : us = [] ∨ Starts startsItem us) {s : State}
    (hs : s.kinds = us) : (header s).Takes [] fun _ => True := by
  rw [header, State.take?_eq_none_of ?_]
  · exact .pure trivial
  · rw [hs]
    rcases h with rfl | ⟨k, rest, rfl, hk⟩
    · simp
    · rintro ⟨⟩
      cases hk

theorem header_taken_some {q us : List Kind}
    (hq : TakenSome dottedName (·.head? ≠ some .dot) q fun _ => True) {s : State}
    (hs : s.kinds = Kind.kwNamespace :: q ++ Kind.newline :: us) :
    (header s).Takes (Kind.kwNamespace :: q ++ [Kind.newline]) fun _ => True := by
  obtain ⟨step, ht, hstep, hk, hks⟩ := State.exists_take hs
  have hks' : step.state.kinds = q ++ ([Kind.newline] ++ us) := hks
  rw [header]
  simp only [ht]
  rw [List.cons_append, ← hk]
  refine .since hstep (Takes.andThen hks' (hq step.state _ hks' (by simp)) ?_)
  rintro name t htk ⟨name', rfl, -⟩ htk
  exact Parsed.takes_andThen_nil (lineEnd_taken t us htk trivial) fun _ _ _ _ => .pure trivial

/-- A program is taken when its header and its items are. -/
theorem program_taken {h is : List Kind} {file : File} {tokens : List Token}
    (hs : tokens.map (·.kind) = h ++ is) (hi : ItemsTaken is)
    (hh : ∀ s : State, s.kinds = h ++ is → (header s).Takes h fun _ => True) :
    (program file tokens).2 = [] := by
  have hstart : (fileStart file tokens).kinds = h ++ (is ++ []) := by
    rw [List.append_nil]
    exact hs
  have hp : (fileParts file tokens).Takes (h ++ is) fun _ => True := by
    refine Takes.andThen hstart (hh _ (by rwa [List.append_nil] at hstart)) ?_
    intro name t ht _ htk
    exact Parsed.takes_andThen_nil (hi.2 t [] htk rfl) fun _ _ _ _ => .pure trivial
  rw [program, List.reverse_eq_nil_iff]
  exact hp.2.1

/-- What the parser does with a phrase of each kind. -/
def Parsable : PhraseKind → List Kind → Prop
  | .file, ts => ∀ file tokens, tokens.map (·.kind) = ts → (program file tokens).2 = []
  | .items, ts => ItemsTaken ts
  | .item, ts => ItemTaken ts
  | .function, ts => FunctionTaken ts
  | .params, ts => TakenSome parameters (fun _ => True) (ts ++ [Kind.rParen]) fun _ => True
  | .paramList, ts => TakenSome parameterList (fun _ => True) (ts ++ [Kind.rParen]) (fun _ => True) ∧
    Starts (· == .ident) ts
  | .param, ts => TakenSome parameter (fun _ => True) ts (fun _ => True) ∧ Starts (· == .ident) ts
  | .typeMark, ts => TakenSome typeMark (·.head? ≠ some .colon) ts fun _ => True
  | .block, ts => TakenSome block (fun _ => True) ts fun _ => True
  | .stmts, ts => Taken statements (fun _ => True) (ts ++ [Kind.dedent]) (fun _ => True) ∧
    Starts startsStmt ts
  | .stmt, ts => StmtTaken ts
  | .branch, ts => ∃ rest, ts = .kwIf :: rest ∧
    ∀ start, Taken (branch start) NoElse rest fun _ => True
  | .otherwise, ts => OtherwiseTaken ts
  | .dotted, ts => TakenSome dottedName (·.head? ≠ some .dot) ts fun _ => True
  | .expr, ts => TakenSome expression EndsExpr ts (fun _ => True) ∧ Starts startsExpr ts
  | .level n, ts => LevelTaken n ts ∧ Starts startsExpr ts
  | .unary, ts => TakenSome unary NoCall ts (fun _ => True) ∧ Starts startsExpr ts
  | .call, ts => TakenSome postfixed NoCall ts (fun _ => True) ∧ Starts startsOperand ts
  | .calls, ts => ∀ e, TakenSome (calls e) NoCall ts fun _ => True
  | .args, ts => TakenSome arguments (fun _ => True) (ts ++ [Kind.rParen]) fun _ => True
  | .argList, ts => TakenSome argumentList (fun _ => True) (ts ++ [Kind.rParen]) (fun _ => True) ∧
    Starts startsExpr ts
  | .primary, ts => TakenSome primary (fun _ => True) ts (fun _ => True) ∧ Starts startsOperand ts

theorem TakenSome.weaken {α : Type} {parser : (s : State) → Attempt s α}
    {follow : List Kind → Prop} {ts : List Kind} {good : α → Prop}
    (h : TakenSome parser follow ts good) : TakenSome parser follow ts fun _ => True := by
  intro s ks hs hf
  obtain ⟨⟨a, ha, -⟩, hr⟩ := h s ks hs hf
  exact ⟨⟨a, ha, trivial⟩, hr⟩

theorem StmtTaken.starts {ts : List Kind} (h : StmtTaken ts) : Starts startsStmt ts := by
  obtain ⟨k, rest, rfl, hk, -⟩ := h
  exact ⟨k, rest, rfl, hk⟩

/-- What the grammar derives the parser takes. -/
theorem parsable_of_phrase {c : PhraseKind} {ts : List Kind} (h : Phrase c ts) : Parsable c ts := by
  induction h with
  | @headed q is hq his ihq ihi =>
    intro file tokens hk
    refine program_taken (h := Kind.kwNamespace :: q ++ [Kind.newline]) (by simpa using hk) ihi ?_
    intro s hs
    exact header_taken_some ihq (by simpa using hs)
  | headless hi ihi =>
    intro file tokens hk
    exact program_taken (h := []) hk ihi fun s hs => header_taken_nil ihi.1 hs
  | noItem => exact items_taken_nil
  | someItem _ _ ih ihs => exact items_taken_cons ih ihs
  | functionItem _ ih => exact item_taken_function ih
  | typeItem => exact item_taken_alias
  | stmtItem _ ih => exact item_taken_stmt ih
  | tagged _ _ ihq ihf => exact .tagged fun start tags => taggedFunction_taken ihq ihf start tags
  | bare _ _ _ ihp ihr ihb => exact .bare fun start tags => function_taken ihp ihr ihb start tags
  | noParam => exact parameters_taken_nil
  | someParams _ ih => exact parameters_taken_some ih.1 ih.2
  | lastParam _ ih => exact ⟨parameterList_taken_last ih.1, ih.2⟩
  | moreParams _ _ ih ihs => exact ⟨parameterList_taken_more ih.1 ihs.1, ih.2.append _⟩
  | typedParam => exact ⟨parameter_taken, _, _, rfl, rfl⟩
  | untyped => exact typeMark_taken_nil
  | typed => exact typeMark_taken_some
  | indented _ ih => exact block_taken ih.1
  | lastStmt _ ih =>
    have hend : Starts (· == .dedent) [.dedent] := ⟨.dedent, [], rfl, rfl⟩
    exact ⟨statements_taken_cons ih hend rfl statements_taken_nil, ih.starts⟩
  | moreStmts _ _ ih ihs =>
    refine ⟨?_, ih.starts.append _⟩
    rw [List.append_assoc]
    exact statements_taken_cons ih (ihs.2.append _) rfl ihs.1
  | declared _ ih => exact stmt_taken_declaration fun start => declaration_taken start ih
  | @initialized t e _ _ iht ihe =>
    have hts : Kind.kwVar :: .ident :: t ++ Kind.assign :: e ++ [Kind.newline]
        = Kind.kwVar :: (Kind.ident :: t ++ (Kind.assign :: e ++ [Kind.newline])) := by simp
    rw [hts]
    exact stmt_taken_declaration fun start => declaration_taken_value start iht ihe.1
  | branchStmt _ ih =>
    obtain ⟨rest, rfl, hb⟩ := ih
    exact stmt_taken_branch hb
  | whileStmt _ _ ihe ihb => exact stmt_taken_while ihe.1 ihb
  | doStmt _ _ ihb ihe => exact stmt_taken_do ihb ihe.1
  | breakStmt => exact stmt_taken_break
  | continueStmt => exact stmt_taken_continue
  | bareReturn => exact stmt_taken_returned returned_taken_nil
  | valueReturn _ ih => exact stmt_taken_returned fun start => returned_taken_value start ih.1 ih.2
  | commandStmt => exact stmt_taken_command
  | exprStmt _ ih => exact stmt_taken_expr ih.1 ih.2
  | ifStmt _ _ _ ihe ihb iho => exact ⟨_, rfl, fun start => branch_taken ihe.1 ihb iho start⟩
  | noElse => exact .none
  | elseBlock _ ih => exact .block ih
  | elseIf _ ih =>
    obtain ⟨rest, rfl, hb⟩ := ih
    exact .chain hb
  | oneName => exact dottedName_taken_one
  | moreNames _ ih => exact dottedName_taken_more ih
  | assignment hop _ ih => exact ⟨expression_taken_assignment hop ih.1, _, _, rfl, rfl⟩
  | operation _ ih => exact ⟨expression_taken_operation ih.1, ih.2⟩
  | @binary k op a b hop _ _ iha ihb =>
    obtain ⟨⟨u, c, rfl, hu, hc⟩, hs⟩ := iha
    have hlt := Phrase.precedence_lt op
    refine ⟨⟨u, c ++ k :: b, by simp, hu, ?_⟩, hs.append _⟩
    exact hc.append hop rfl (by omega) (ihb.1.operand (by omega))
  | inner _ ih =>
    obtain ⟨⟨u, c, rfl, hu, hc⟩, hs⟩ := ih
    exact ⟨⟨u, c, rfl, hu, hc.mono (by omega) (by omega)⟩, hs⟩
  | @operand a _ ih => exact ⟨⟨a, [], by simp, ih.1, .nil⟩, ih.2⟩
  | @prefixed k op a hop _ ih =>
    refine ⟨unary_taken_prefixed hop ih.1, k, a, rfl, ?_⟩
    rw [startsExpr, hop]
    simp
  | plain _ ih => exact ⟨unary_taken_plain ih.1 ih.2, ih.2.mono startsExpr_of_startsOperand⟩
  | applied _ _ ih ihc => exact ⟨postfixed_taken ih.1 ihc, ih.2.append _⟩
  | noCall => exact fun e => (calls_taken_nil e).weaken
  | someCall _ _ iha ihc => exact fun e => calls_taken_cons iha ihc e
  | noArg => exact arguments_taken_nil
  | someArgs _ ih => exact arguments_taken_some ih.1 ih.2
  | lastArg _ ih => exact ⟨argumentList_taken_last ih.1, ih.2⟩
  | moreArgs _ _ ih iha => exact ⟨argumentList_taken_more ih.1 iha.1, ih.2.append _⟩
  | name => exact ⟨primary_taken_name.weaken, _, _, rfl, rfl⟩
  | @literal k hk =>
    refine ⟨primary_taken_literal hk, k, [], rfl, ?_⟩
    rw [startsOperand, hk]
    simp
  | grouped _ ih => exact ⟨primary_taken_group ih.1, _, _, rfl, rfl⟩

end Craftlang.Parse

/-!
## The sources that are accepted

Of the texts about which nothing is reported, exactly those are parsed without a diagnostic whose
tokens the grammar derives, and what is read from them is whole.
-/

namespace Craftlang

theorem Parse.lexicalFindings_eq_nil (place : Nat) {batches : List Batch}
    (h : ∀ b ∈ batches, b.diagnostics = []) : lexicalFindings place batches = [] := by
  induction batches generalizing place with
  | nil => rfl
  | cons b rest ih =>
    have hb := h b List.mem_cons_self
    have hrest := ih (place + b.tokens.length) fun b' hb' => h b' (List.mem_cons_of_mem b hb')
    rw [lexicalFindings, hb, hrest]
    rfl

namespace File

/-- The kinds of the tokens of a file without its end. -/
def kinds (file : File) : List Kind := file.tokenize.dropLast.map (·.kind)

theorem kinds_laid {file : File} (h : file.lexicalDiagnostics = []) :
    Laid .lineStart 0 file.kinds := by
  obtain ⟨ks, hks, hl⟩ := tokenize_laid h
  rw [kinds, List.map_dropLast, hks, List.dropLast_concat]
  exact hl

/-- Where nothing is wrong with the text, what is reported was found by the parser. -/
theorem parse_diagnostics {file : File} (h : file.lexicalDiagnostics = []) :
    file.parse.diagnostics
      = (Parse.program file file.tokenize.dropLast).2.map (·.diagnostic) := by
  have hb : ∀ b ∈ file.scan, b.diagnostics = [] := List.flatMap_eq_nil_iff.mp h
  simp only [parse_interleaves, Parse.lexicalFindings_eq_nil 0 hb, Parse.interleave]

/-- Parsing reports nothing if nothing is wrong with the text and the parser finds nothing. -/
theorem parse_silent {file : File} (hlexical : file.lexicalDiagnostics = [])
    (hfound : (Parse.program file file.tokenize.dropLast).2 = []) : file.parse.diagnostics = [] := by
  rw [parse_diagnostics hlexical, hfound, List.map_nil]

/-- Where parsing reports nothing, nothing is wrong with the text and the parser has found nothing. -/
theorem nothing_found {file : File} (h : file.parse.diagnostics = []) :
    file.lexicalDiagnostics = [] ∧ (Parse.program file file.tokenize.dropLast).2 = [] := by
  have hlexical : file.lexicalDiagnostics = [] := by
    refine List.eq_nil_iff_forall_not_mem.mpr fun d hd => ?_
    obtain ⟨b, hb, hd⟩ := List.mem_flatMap.mp hd
    have hmem : d ∈ file.parse.diagnostics :=
      Parse.mem_interleave.mpr (.inl (Parse.mem_lexicalFindings.mpr ⟨b, hb, hd⟩))
    rw [h] at hmem
    cases hmem
  rw [parse_diagnostics hlexical, List.map_eq_nil_iff] at h
  exact ⟨hlexical, h⟩

/-- A text about which nothing is reported is parsed without a diagnostic exactly if the grammar
derives its tokens, and then nothing in the program stands for a piece that could not be read. -/
theorem parse_accepts_iff_phrase {file : File} (h : file.lexicalDiagnostics = []) :
    (file.parse.diagnostics = [] ↔ Phrase .file file.kinds) ∧
      (file.parse.diagnostics = [] → file.parse.program.isWhole = true) := by
  have hd : file.parse.diagnostics = [] ↔ (Parse.program file file.tokenize.dropLast).2 = [] := by
    rw [parse_diagnostics h, List.map_eq_nil_iff]
  have hread := fun hf => Parse.program_reads (kinds_laid h) (hd.mp hf)
  refine ⟨⟨fun hf => (hread hf).1, fun hp => ?_⟩, fun hf => (hread hf).2⟩
  exact hd.mpr (Parse.parsable_of_phrase hp file _ rfl)

end File

/-- A function that counts a number down in a loop. -/
def File.countdown : File :=
  ⟨0, "down.craft", "fun down(n: int)\n    while n > 0\n        n -= 1\n", {}⟩

/-- Nothing is reported about the text or the order of this file, so it is derivable and whole. -/
theorem File.phrase_countdown : countdown.lexicalDiagnostics = [] ∧
    Phrase .file countdown.kinds ∧ countdown.parse.program.isWhole = true := by
  obtain ⟨hl, hf⟩ : countdown.lexicalDiagnostics = [] ∧
      (Parse.program countdown countdown.tokenize.dropLast).2 = [] := by decide +kernel
  have hp := parse_silent hl hf
  have h := parse_accepts_iff_phrase hl
  exact ⟨hl, h.1.mp hp, h.2 hp⟩

end Craftlang
