import Craftlang.Proofs.Syntax.Acceptance
import Craftlang.Proofs.Syntax.Skipping
import Mathlib.Data.List.Basic

/-!
# One fault in a header

In an accepted source a name too much at the end of a header makes the parser give up the header with its
block, for one report. Where the construct ends with that block this is all. The other branches of an `if`
and the condition of a `do` loop stay behind, and each of these pieces is reported once more.
-/

namespace Craftlang

namespace Parse

/-- The header of a line that ends here, with a name too much, and what follows it. -/
def faulty (rest : List Kind) : List Kind := .ident :: .newline :: .indent :: rest

/-- What the parser makes of a phrase with a fault in it, with so many reports. -/
def SpentAs : PhraseKind → List Kind → Nat → Prop
  | .file, ts, n => ∀ file tokens, tokens.map (·.kind) = ts → (program file tokens).2.length = n
  | .items, ts, n => Starts startsItem ts ∧ Spent items (· = []) ts n fun _ => True
  | .item, ts, n => Starts startsItem ts ∧ Advances items (fun ks => NoElse ks ∧ NoBlock ks) ts n
  | .function, ts, n => FunctionSpent ts n
  | .block, ts, n => Spent block (fun _ => True) ts n fun v => ∃ b, v = some b
  | .stmts, ts, n => Starts startsStmt ts ∧
    Spent statements (fun _ => True) (ts ++ [Kind.dedent]) n fun _ => True
  | .stmt, ts, n => Starts startsStmt ts ∧ Advances statements (fun ks => NoElse ks ∧ NoBlock ks) ts n ∧
    Advances items (fun ks => NoElse ks ∧ NoBlock ks) ts n
  | .branch, ts, n => BranchSpent ts n
  | .otherwise, ts, n => OtherwiseSpent ts n
  | _, _, _ => False

/-- A phrase with a header: the block below it, what is left of the construct behind the block, and what
comes after that; and one report for the header and one for each piece that is left. -/
def SpoiledAt (c : PhraseKind) (before rest : List Kind) : Prop :=
  before ≠ [] ∧ ∃ b left after, Kind.indent :: rest = b ++ (left.flatten ++ after) ∧ Phrase .block b ∧
    LeftBehind before.getLast? left after ∧ (c = .block → after ≠ []) ∧
    SpentAs c (before ++ faulty rest) (1 + left.length)

namespace SpoiledAt

variable {c c' : PhraseKind} {before rest as us : List Kind}

/-- A phrase with a header within another phrase. -/
theorem within (h : SpoiledAt c before rest) (hus : NoElse us ∨ c = .block)
    (hblock : c' = .block → us ≠ [])
    (hspent : ∀ ts n, SpentAs c ts n → SpentAs c' (as ++ (ts ++ us)) n) :
    SpoiledAt c' (as ++ before) (rest ++ us) := by
  obtain ⟨hne, b, left, after, heq, hb, hleft, hafter, hs⟩ := h
  have hlast : (as ++ before).getLast? = before.getLast? := List.getLast?_append_of_ne_nil as hne
  refine ⟨by simp [hne], b, left, after ++ us, ?_, hb, ?_, ?_, ?_⟩
  · rw [← List.cons_append, heq, List.append_assoc, List.append_assoc]
  · rw [hlast]
    cases hleft with
    | condition hdo he => exact .condition hdo he
    | elseParts hdo hparts hno =>
      refine .elseParts hdo hparts ?_
      cases after with
      | cons k after => exact hno
      | nil =>
        rcases hus with hus | rfl
        · exact hus
        · exact absurd rfl (hafter rfl)
  · intro hc
    have := hblock hc
    simp [this]
  · have h := hspent _ _ hs
    simpa [faulty] using h

/-- The last piece of a phrase. -/
theorem behind (h : SpoiledAt c before rest) (hc' : c' ≠ .block)
    (hspent : ∀ ts n, SpentAs c ts n → SpentAs c' (as ++ ts) n) : SpoiledAt c' (as ++ before) rest := by
  have h' : SpoiledAt c' (as ++ before) (rest ++ []) :=
    h.within (.inl (by simp [NoElse])) (fun h => absurd h hc') fun ts n hts => by simpa using hspent ts n hts
  rwa [List.append_nil] at h'

/-- The first piece of a phrase. -/
theorem ahead (h : SpoiledAt c before rest) (hus : NoElse us ∨ c = .block) (hc' : c' ≠ .block)
    (hspent : ∀ ts n, SpentAs c ts n → SpentAs c' (ts ++ us) n) : SpoiledAt c' before (rest ++ us) :=
  show SpoiledAt c' ([] ++ before) (rest ++ us) from h.within hus (fun h => absurd h hc') hspent

/-- All of a phrase. -/
theorem whole (h : SpoiledAt c before rest) (hc' : c' ≠ .block)
    (hspent : ∀ ts n, SpentAs c ts n → SpentAs c' ts n) : SpoiledAt c' before rest :=
  show SpoiledAt c' ([] ++ before) rest from h.behind hc' hspent

/-- A header with what is left behind its block. -/
theorem of_header {header b : List Kind} {left : List (List Kind)} (hne : header ≠ [])
    (heq : b ++ left.flatten = Kind.indent :: rest) (hb : Phrase .block b)
    (hleft : LeftBehind header.getLast? left []) (hc : c ≠ .block)
    (hspent : SpentAs c (header ++ Kind.ident :: .newline :: (b ++ left.flatten)) (1 + left.length)) :
    SpoiledAt c header rest := by
  refine ⟨hne, b, left, [], ?_, hb, hleft, fun h => absurd h hc, ?_⟩
  · rw [List.append_nil, heq]
  · rwa [heq] at hspent

/-- A header of whose construct nothing is left. -/
theorem of_last_header {header b : List Kind} (hne : header ≠ []) (heq : b = .indent :: rest)
    (hb : Phrase .block b) (hdo : .kwDo ∉ header) (hc : c ≠ .block)
    (hspent : SpentAs c (header ++ Kind.ident :: .newline :: b) 1) : SpoiledAt c header rest := by
  have hleft : b ++ ([] : List (List Kind)).flatten = Kind.indent :: rest := (List.append_nil b).trans heq
  refine of_header hne hleft hb ?_ hc (by simpa using hspent)
  exact .elseParts (fun h => hdo (List.mem_of_getLast? h)) (by simp) (by simp)

end SpoiledAt

theorem noElse_of_startsItem {us : List Kind} (h : us = [] ∨ Starts startsItem us) : NoElse us := by
  rcases h with rfl | h
  · simp [NoElse]
  · have hmore : NoElse (us ++ []) := noElse_of_starts h rfl
    rwa [List.append_nil] at hmore

/-- Nothing goes on, and no block starts, where a statement, an item, or the end of a block comes. -/
theorem settled_of_starts {first : Kind → Bool} {us : List Kind} (h : Starts first us)
    (helse : first .kwElse = false) (hindent : first .indent = false) (hinvalid : first .invalid = false)
    (ks : List Kind) : NoElse (us ++ ks) ∧ NoBlock (us ++ ks) := by
  obtain ⟨k, rest, rfl, hk⟩ := h
  refine ⟨?_, ?_, ?_⟩ <;>
  · rintro ⟨⟩
    simp_all

/-- Wherever a phrase has a header, a name too much is found and what is left is reported. -/
def Spoilable (c : PhraseKind) (ts : List Kind) : Prop :=
  ∀ before rest, ts = before ++ Kind.newline :: .indent :: rest → SpoiledAt c before rest

namespace Spoilable

variable {q is i f ps r b s ss e o : List Kind}

theorem headed (hq : Phrase .dotted q) (his : Phrase .items is) (ih : Spoilable .items is) :
    Spoilable .file (Kind.kwNamespace :: q ++ Kind.newline :: is) := by
  intro before rest hs
  have hline : .newline ∉ Kind.kwNamespace :: q := by simp [hq.newline_notMem rfl]
  rcases split_first_line hline hs with ⟨-, rfl⟩ | ⟨before', rfl, hbelow⟩
  · rcases (parsable_of_phrase his).1 with hnil | ⟨k, rest, hk, hfirst⟩
    · cases hnil
    · cases hk
      cases hfirst
  · refine (ih _ _ hbelow).behind (by decide) ?_
    rintro ts n ⟨-, hspent⟩ file tokens hk
    refine program_spent hk hspent fun s hks => ?_
    exact header_taken_some (parsable_of_phrase hq) (by simpa using hks)

theorem headless (ih : Spoilable .items is) : Spoilable .file is := by
  intro before rest hs
  refine (ih _ _ hs).whole (by decide) ?_
  rintro ts n ⟨hstart, hspent⟩ file tokens hk
  exact program_spent (h := []) hk hspent fun s hks => header_taken_nil (.inr hstart) hks

theorem someItem (hi : Phrase .item i) (his : Phrase .items is) (ih : Spoilable .item i)
    (ihs : Spoilable .items is) : Spoilable .items (i ++ is) := by
  intro before rest hs
  obtain ⟨hstart, htaken⟩ := parsable_of_phrase his
  have hitem : ItemTaken i := parsable_of_phrase hi
  have hsettled : ∀ ks, ks = [] → NoElse (is ++ ks) ∧ NoBlock (is ++ ks) := by
    rintro ks rfl
    rcases hstart with rfl | hstart
    · simp [NoElse, NoBlock]
    · exact settled_of_starts hstart rfl rfl rfl []
  have hhead : is.head? ≠ some .indent := by simpa using (hsettled [] rfl).2.1
  rcases split_append hhead hs with ⟨rest', hfirst, rfl⟩ | ⟨before', rfl, hmore⟩
  · refine (ih _ _ hfirst).ahead (.inl (noElse_of_startsItem hstart)) (by decide) ?_
    rintro ts n ⟨hts, hspent⟩
    exact ⟨hts.append is, hspent.spent (fun s ks hs hks => (htaken s ks hs hks).spends) hsettled⟩
  · refine (ihs _ _ hmore).behind (by decide) ?_
    rintro ts n ⟨hts, hspent⟩
    obtain ⟨k, rest, rfl, hk, -⟩ := id hitem
    refine ⟨⟨k, rest ++ ts, rfl, hk⟩, ?_⟩
    have h := hitem.advances.spent hspent fun ks _ => noElse_of_starts hts rfl
    rwa [Nat.zero_add] at h

theorem functionItem (ih : Spoilable .function f) : Spoilable .item f := by
  intro before rest hs
  refine (ih _ _ hs).whole (by decide) fun ts n hspent => ?_
  have hstart : Starts startsItem ts := by
    cases hspent with
    | bare => exact ⟨_, _, rfl, rfl⟩
    | tagged => exact ⟨_, _, rfl, rfl⟩
  exact ⟨hstart, (FunctionSpent.items hspent).mono fun _ _ => trivial⟩

theorem stmtItem (ih : Spoilable .stmt s) : Spoilable .item s := by
  intro before rest hs
  refine (ih _ _ hs).whole (by decide) ?_
  rintro ts n ⟨hstart, -, hitems⟩
  exact ⟨hstart.mono startsItem_of_startsStmt, hitems⟩

theorem tagged (hq : Phrase .dotted q) (hf : Phrase .function f) (ih : Spoilable .function f) :
    Spoilable .function (Kind.kwTag :: q ++ Kind.newline :: f) := by
  intro before rest hs
  have hline : .newline ∉ Kind.kwTag :: q := by simp [hq.newline_notMem rfl]
  rcases split_first_line hline hs with ⟨-, rfl⟩ | ⟨before', rfl, hbelow⟩
  · have hfunction : FunctionTaken (.indent :: rest) := parsable_of_phrase hf
    cases hfunction
  · refine (ih _ _ hbelow).behind (by decide) fun ts n hspent => ?_
    have h := taggedFunction_spent (parsable_of_phrase hq) hspent
    simpa [SpentAs] using h

theorem bare (hps : Phrase .params ps) (hr : Phrase .typeMark r) (hb : Phrase .block b)
    (ih : Spoilable .block b) :
    Spoilable .function (Kind.kwFun :: .ident :: .lParen :: ps ++ Kind.rParen :: r ++ Kind.newline :: b) := by
  intro before rest hs
  have hline : .newline ∉ Kind.kwFun :: .ident :: .lParen :: ps ++ Kind.rParen :: r := by
    simp [hps.newline_notMem rfl, hr.newline_notMem rfl]
  have hdo : .kwDo ∉ Kind.kwFun :: .ident :: .lParen :: ps ++ Kind.rParen :: r := by
    simp [hps.do_notMem rfl, hr.do_notMem rfl]
  rcases split_first_line hline hs with ⟨rfl, heq⟩ | ⟨before', rfl, hbelow⟩
  · refine .of_last_header (by simp) heq hb hdo (by decide) ?_
    exact function_spent_header (parsable_of_phrase hps) (parsable_of_phrase hr) hb
  · refine (ih _ _ hbelow).behind (by decide) fun ts n hspent => ?_
    have h := function_spent_body (parsable_of_phrase hps) (parsable_of_phrase hr) hspent
    simpa [SpentAs] using h

theorem indented (ih : Spoilable .stmts ss) : Spoilable .block (Kind.indent :: ss ++ [Kind.dedent]) := by
  intro before rest hs
  rcases split_append (by simp) hs with ⟨rest', hinside, rfl⟩ | ⟨before', -, hend⟩
  · cases before with
    | nil => cases hinside
    | cons k before =>
      injection hinside with hk hinside
      subst hk
      change SpoiledAt .block ([Kind.indent] ++ before) _
      refine (ih _ _ hinside).within (.inl (by simp [NoElse])) (by simp) ?_
      rintro ts n ⟨-, hspent⟩
      exact block_spent hspent
  · have hlength := congrArg List.length hend
    simp at hlength
    omega

theorem lastStmt (ih : Spoilable .stmt s) : Spoilable .stmts s := by
  intro before rest hs
  refine (ih _ _ hs).whole (by decide) ?_
  rintro ts n ⟨hstart, hstmts, -⟩
  refine ⟨hstart, ?_⟩
  exact hstmts.spent (fun s ks hs hks => (statements_taken_nil s ks hs hks).spends)
    fun ks _ => by simp [NoElse, NoBlock]

theorem moreStmts (hs : Phrase .stmt s) (hss : Phrase .stmts ss) (ih : Spoilable .stmt s)
    (ihs : Spoilable .stmts ss) : Spoilable .stmts (s ++ ss) := by
  intro before rest heq
  obtain ⟨htaken, hstart⟩ := parsable_of_phrase hss
  have hstmt : StmtTaken s := parsable_of_phrase hs
  have hsettled := fun ks => settled_of_starts hstart rfl rfl rfl ks
  have hhead : ss.head? ≠ some .indent := by simpa using (hsettled []).2.1
  rcases split_append hhead heq with ⟨rest', hfirst, rfl⟩ | ⟨before', rfl, hmore⟩
  · refine (ih _ _ hfirst).ahead (.inl (by simpa using (hsettled []).1)) (by decide) ?_
    rintro ts n ⟨hts, hstmts, -⟩
    refine ⟨hts.append ss, ?_⟩
    rw [List.append_assoc]
    refine hstmts.spent (fun s ks hs hks => (htaken s ks hs hks).spends) fun ks _ => ?_
    rw [List.append_assoc]
    exact hsettled _
  · refine (ihs _ _ hmore).behind (by decide) ?_
    rintro ts n ⟨hts, hspent⟩
    refine ⟨hstmt.starts.append ts, ?_⟩
    rw [List.append_assoc]
    have h := (StmtSpent.of_taken hstmt).statements.spent hspent fun ks _ => by
      rw [List.append_assoc]
      exact noElse_of_starts hts rfl
    rwa [Nat.zero_add] at h

theorem branchStmt (ih : Spoilable .branch s) : Spoilable .stmt s := by
  intro before rest hs
  refine (ih _ _ hs).whole (by decide) fun ts n hspent => ?_
  obtain ⟨hstmts, hitems⟩ := BranchSpent.stmt hspent
  obtain ⟨taken, parts, m, rfl, -⟩ := hspent
  exact ⟨⟨_, _, rfl, rfl⟩, hstmts.mono fun _ h => h.1, hitems.mono fun _ h => h.1⟩

theorem whileStmt (he : Phrase .expr e) (hb : Phrase .block b) (ih : Spoilable .block b) :
    Spoilable .stmt (Kind.kwWhile :: e ++ Kind.newline :: b) := by
  intro before rest hs
  have hline : .newline ∉ Kind.kwWhile :: e := by simp [he.newline_notMem rfl]
  rcases split_first_line hline hs with ⟨rfl, heq⟩ | ⟨before', rfl, hbelow⟩
  · refine .of_last_header (by simp) heq hb (by simp [he.do_notMem rfl]) (by decide) ?_
    have h := stmt_spent_while (parsable_of_phrase he).1 hb
    exact ⟨⟨_, _, rfl, rfl⟩, h.statements.mono fun _ _ => trivial, h.items.mono fun _ _ => trivial⟩
  · refine (ih _ _ hbelow).behind (by decide) fun ts n hspent => ?_
    have h := stmt_spent_while_body (parsable_of_phrase he).1 hspent
    exact ⟨⟨_, _, rfl, rfl⟩, h.statements.mono fun _ _ => trivial, h.items.mono fun _ _ => trivial⟩

theorem doStmt (hb : Phrase .block b) (he : Phrase .expr e) (ih : Spoilable .block b) :
    Spoilable .stmt (Kind.kwDo :: .newline :: b ++ Kind.kwWhile :: e ++ [Kind.newline]) := by
  intro before rest hs
  have hs' : [Kind.kwDo] ++ Kind.newline :: (b ++ (Kind.kwWhile :: e ++ [Kind.newline]))
      = before ++ Kind.newline :: .indent :: rest := by simpa using hs
  have hcond := (parsable_of_phrase he).1
  rcases split_first_line (by simp) hs' with ⟨rfl, heq⟩ | ⟨before', rfl, hbelow⟩
  · have hleft : LeftBehind [Kind.kwDo].getLast? [Kind.kwWhile :: e ++ [Kind.newline]] [] := .condition rfl he
    refine .of_header (by simp) (by simpa using heq) hb hleft (by decide) ?_
    have hdo := stmt_spent_do hb
    have hleft := stmt_spent_left_condition hcond
    refine ⟨⟨_, _, rfl, rfl⟩, ?_, ?_⟩
    · have h := hdo.statements.append hleft.statements fun _ _ => trivial
      exact (by simpa using h : Advances statements NoBlock _ _).mono fun _ h => h.2
    · have h := hdo.items.append hleft.items fun _ _ => trivial
      exact (by simpa using h : Advances items NoBlock _ _).mono fun _ h => h.2
  · rcases split_append (by simp) hbelow with ⟨rest', hblock, rfl⟩ | ⟨before'', -, hend⟩
    · refine (ih _ _ hblock).within (.inr rfl) (by simp) fun ts n hspent => ?_
      have h := stmt_spent_do_body hspent hcond
      have heq : Kind.kwDo :: ([Kind.newline] ++ (ts ++ ((Kind.kwWhile :: e) ++ [Kind.newline])))
          = [Kind.kwDo] ++ [Kind.newline] ++ (ts ++ (Kind.kwWhile :: e ++ [Kind.newline])) := rfl
      rw [heq] at h
      exact ⟨⟨_, _, rfl, rfl⟩, h.statements.mono fun _ _ => trivial, h.items.mono fun _ _ => trivial⟩
    · exact (split_last_line (by simp [he.newline_notMem rfl]) hend).elim

theorem ifStmt (he : Phrase .expr e) (hb : Phrase .block b) (ho : Phrase .otherwise o)
    (ih : Spoilable .block b) (iho : Spoilable .otherwise o) :
    Spoilable .branch (Kind.kwIf :: e ++ Kind.newline :: b ++ o) := by
  intro before rest hs
  have hline : .newline ∉ Kind.kwIf :: e := by simp [he.newline_notMem rfl]
  have hs' : (Kind.kwIf :: e) ++ Kind.newline :: (b ++ o) = before ++ Kind.newline :: .indent :: rest := by
    simpa using hs
  have hcond := (parsable_of_phrase he).1
  have hblock := parsable_of_phrase hb
  rcases split_first_line hline hs' with ⟨rfl, heq⟩ | ⟨before', rfl, hbelow⟩
  · obtain ⟨parts, rfl, hparts⟩ := ho.elseParts
    have hdo : .kwDo ∉ Kind.kwIf :: e := by simp [he.do_notMem rfl]
    refine .of_header (by simp) heq hb ?_ (by decide) ?_
    · exact .elseParts (fun h => hdo (List.mem_of_getLast? h)) hparts (by simp)
    · have h := branch_spent_header hcond hb hparts
      simpa [SpentAs] using h
  · have hotherwise : OtherwiseTaken o := parsable_of_phrase ho
    have hhead : o.head? ≠ some .indent := by cases hotherwise <;> simp
    rcases split_append hhead hbelow with ⟨rest', hinside, rfl⟩ | ⟨before'', rfl, hmore⟩
    · refine (ih _ _ hinside).within (.inr rfl) (by simp) fun ts n hspent => ?_
      have h := branch_spent_body hcond hspent hotherwise
      simpa [SpentAs] using h
    · have h : SpoiledAt .branch ((Kind.kwIf :: e ++ [Kind.newline] ++ b) ++ before'') rest :=
        (iho _ _ hmore).behind (by decide) fun ts n hspent => by
          have h := branch_spent_otherwise hcond hblock hspent
          simpa [SpentAs] using h
      rwa [List.append_assoc] at h

theorem elseBlock (hb : Phrase .block b) (ih : Spoilable .block b) :
    Spoilable .otherwise (.kwElse :: .newline :: b) := by
  intro before rest hs
  have hline : .newline ∉ [Kind.kwElse] := by simp
  rcases split_first_line hline hs with ⟨rfl, heq⟩ | ⟨before', rfl, hbelow⟩
  · exact .of_last_header (by simp) heq hb (by simp) (by decide) (OtherwiseSpent.header hb)
  · exact (ih _ _ hbelow).behind (by decide) fun ts n hspent => OtherwiseSpent.block hspent

theorem elseIf (ih : Spoilable .branch s) : Spoilable .otherwise (.kwElse :: s) := by
  intro before rest hs
  have hline : .newline ∉ [Kind.kwElse] := by simp
  obtain ⟨before', rfl, hbelow⟩ := split_behind_line hline hs
  exact (ih _ _ hbelow).behind (by decide) fun ts n hspent => OtherwiseSpent.chain hspent

/-- A line that is no header. -/
theorem of_line {c : PhraseKind} (line : List Kind) (hline : .newline ∉ line) :
    Spoilable c (line ++ [Kind.newline]) := fun _ _ hs => (split_last_line hline hs).elim

end Spoilable

/-- Every header of a phrase can be spoiled. -/
theorem spoilable_of_phrase {c : PhraseKind} {ts : List Kind} (h : Phrase c ts)
    (hc : c.isInline = false) : Spoilable c ts := by
  induction h with
  | headed hq his _ ih => exact .headed hq his (ih rfl)
  | headless _ ih => exact .headless (ih rfl)
  | noItem | noElse =>
    intro before rest hs
    simp at hs
  | someItem hi his ih ihs => exact .someItem hi his (ih rfl) (ihs rfl)
  | functionItem _ ih => exact .functionItem (ih rfl)
  | typeItem => exact .of_line [.kwType, .ident, .assign, .ident] (by decide)
  | stmtItem _ ih => exact .stmtItem (ih rfl)
  | tagged hq hf _ ih => exact .tagged hq hf (ih rfl)
  | bare hps hr hb _ _ ih => exact .bare hps hr hb (ih rfl)
  | indented _ ih => exact .indented (ih rfl)
  | lastStmt _ ih => exact .lastStmt (ih rfl)
  | moreStmts hs hss ih ihs => exact .moreStmts hs hss (ih rfl) (ihs rfl)
  | declared ht => exact .of_line _ (by simp [ht.newline_notMem rfl])
  | initialized ht he => exact .of_line _ (by simp [ht.newline_notMem rfl, he.newline_notMem rfl])
  | branchStmt _ ih => exact .branchStmt (ih rfl)
  | whileStmt he hb _ ih => exact .whileStmt he hb (ih rfl)
  | doStmt hb he ih => exact .doStmt hb he (ih rfl)
  | breakStmt => exact .of_line [.kwBreak] (by decide)
  | continueStmt => exact .of_line [.kwContinue] (by decide)
  | bareReturn => exact .of_line [.kwReturn] (by decide)
  | commandStmt => exact .of_line [.command] (by decide)
  | valueReturn he => exact .of_line _ (by simp [he.newline_notMem rfl])
  | exprStmt he => exact .of_line _ (he.newline_notMem rfl)
  | ifStmt he hb ho _ ih iho => exact .ifStmt he hb ho (ih rfl) (iho rfl)
  | elseBlock hb ih => exact .elseBlock hb (ih rfl)
  | elseIf _ ih => exact .elseIf (ih rfl)
  | _ => cases hc

end Parse

namespace File

/-- In a source about which nothing is reported, a name too much at the end of a header gives one report
for the header, and one more for each part of the construct that stands behind the block of the header.
So it is reported once exactly if the construct ends with this block. -/
theorem findings_of_spoiled_header {file : File} (h : file.parse.diagnostics = []) {before rest : List Kind}
    (hk : file.kinds = before ++ .newline :: .indent :: rest) :
    ∃ b left after, .indent :: rest = b ++ (left.flatten ++ after) ∧ Phrase .block b ∧
      LeftBehind before.getLast? left after ∧
      ∀ tokens : List Token, tokens.map (·.kind) = before ++ .ident :: .newline :: .indent :: rest →
        (Parse.program file tokens).2.length = 1 + left.length := by
  obtain ⟨hlexical, hfound⟩ := nothing_found h
  have hphrase : Phrase .file file.kinds := (Parse.program_reads (kinds_laid hlexical) hfound).1
  obtain ⟨-, b, left, after, heq, hb, hleft, -, hspent⟩ :=
    Parse.spoilable_of_phrase hphrase rfl before rest hk
  exact ⟨b, left, after, heq, hb, hleft, hspent file⟩

/-- A choice with two branches. -/
def choice : File := ⟨0, "choice.craft", "if true\n    x = 1\nelse\n    x = 2\n", {}⟩

/-- The choice with a name too much in its first header. -/
def spoiledChoice : File := ⟨0, "choice.craft", "if true y\n    x = 1\nelse\n    x = 2\n", {}⟩

/-- The kinds of the tokens of the choice behind the start of its first block. -/
def choiceRest : List Kind :=
  [.ident, .assign, .intLit, .newline, .dedent, .kwElse, .newline, .indent, .ident, .assign, .intLit, .newline,
    .dedent]

/-- One part is left behind the first block of the choice, so that the fault is reported twice. -/
theorem findings_spoiledChoice : choice.parse.diagnostics = [] ∧
    choice.kinds = [.kwIf, .kwTrue] ++ .newline :: .indent :: choiceRest ∧
    spoiledChoice.kinds = [.kwIf, .kwTrue] ++ .ident :: .newline :: .indent :: choiceRest ∧
    ∃ b left after, .indent :: choiceRest = b ++ (left.flatten ++ after) ∧ Phrase .block b ∧
      LeftBehind (some .kwTrue) left after ∧ left.length = 1 ∧
      (Parse.program choice spoiledChoice.tokenize.dropLast).2.length = 2 := by
  obtain ⟨hl, hf, hk⟩ : choice.lexicalDiagnostics = [] ∧ (Parse.program choice choice.tokenize.dropLast).2 = [] ∧
      choice.kinds = [.kwIf, .kwTrue] ++ .newline :: .indent :: choiceRest := by decide +kernel
  have hp := parse_silent hl hf
  obtain ⟨hspoiled, htwo⟩ :
      spoiledChoice.kinds = [.kwIf, .kwTrue] ++ .ident :: .newline :: .indent :: choiceRest ∧
      (Parse.program choice spoiledChoice.tokenize.dropLast).2.length = 2 := by decide +kernel
  obtain ⟨b, left, after, heq, hb, hleft, hcount⟩ := findings_of_spoiled_header hp hk
  have hone : left.length = 1 := by
    have := hcount _ hspoiled
    omega
  exact ⟨hp, hk, hspoiled, b, left, after, heq, hb, hleft, hone, htwo⟩

end File

end Craftlang
