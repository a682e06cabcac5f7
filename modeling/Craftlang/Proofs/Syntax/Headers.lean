import Craftlang.Proofs.Syntax.ExprReading
import Craftlang.Proofs.Syntax.Blocks

/-!
# Header lines

A line of an accepted source is a header if a block is indented below it. What the grammar has of the
construct behind that block, its other branches or the condition of a loop, is what a parser that gives
up the header with its block leaves behind.
-/

namespace Craftlang

/-- Is a token of this kind one that a line can have, but no `do`? -/
def Kind.isPlain (k : Kind) : Bool := k.isInline && k != .kwDo

/-- The kinds of phrases that stand within a line. -/
def PhraseKind.isInline : PhraseKind → Bool
  | params | paramList | param | typeMark | dotted | expr | level _ | unary | call | calls | args
  | argList | primary => true
  | file | items | item | function | block | stmts | stmt | branch | otherwise => false

theorem isPlain_of_binary {k : Kind} {op : BinaryOp} (h : BinaryOp.ofKind? k = some op) :
    k.isPlain = true := by
  cases k <;> first | rfl | cases h

theorem isPlain_of_unary {k : Kind} {op : UnaryOp} (h : UnaryOp.ofKind? k = some op) :
    k.isPlain = true := by
  cases k <;> first | rfl | cases h

theorem isPlain_of_assign {k : Kind} {op : AssignOp} (h : AssignOp.ofKind? k = some op) :
    k.isPlain = true := by
  cases k <;> first | rfl | cases h

theorem isPlain_of_isLiteral {k : Kind} (h : k.isLiteral = true) : k.isPlain = true := by
  cases k <;> first | rfl | cases h

/-- Tokens that a block can enclose: what they open they close, and the end of the file is not one of
them. -/
structure IsEnclosed (ts : List Kind) : Prop where
  balanced : IsBalanced ts
  noEnd : .eof ∉ ts

namespace IsEnclosed

variable {ts us : List Kind}

theorem nil : IsEnclosed [] := ⟨.nil, List.not_mem_nil⟩

theorem append (ht : IsEnclosed ts) (hu : IsEnclosed us) : IsEnclosed (ts ++ us) := by
  refine ⟨ht.balanced.append hu.balanced, fun hmem => ?_⟩
  rcases List.mem_append.mp hmem with h | h
  · exact ht.noEnd h
  · exact hu.noEnd h

theorem block (ht : IsEnclosed ts) : IsEnclosed (.indent :: ts ++ [.dedent]) := by
  refine ⟨ht.balanced.block, ?_⟩
  simp [ht.noEnd]

theorem single {k : Kind} (hk : k ≠ .indent ∧ k ≠ .dedent ∧ k ≠ .eof) : IsEnclosed [k] := by
  refine ⟨.of_forall fun l hl => ?_, ?_⟩
  · rw [List.mem_singleton.mp hl]
    exact ⟨hk.1, hk.2.1⟩
  · simpa using hk.2.2.symm

theorem cons {k : Kind} (hk : k ≠ .indent ∧ k ≠ .dedent ∧ k ≠ .eof) (ht : IsEnclosed ts) :
    IsEnclosed (k :: ts) :=
  (single hk).append ht

theorem of_plain (h : ts.all Kind.isPlain = true) : IsEnclosed ts := by
  induction ts with
  | nil => exact .nil
  | cons k ts ih =>
    rw [List.all_cons, Bool.and_eq_true] at h
    refine .cons ?_ (ih h.2)
    cases k <;> first | exact absurd h.1 (by decide) | decide

end IsEnclosed

namespace Phrase

/-- The phrases within a line have neither layout nor `do`. -/
theorem all_plain {c : PhraseKind} {ts : List Kind} (h : Phrase c ts) (hc : c.isInline = true) :
    ts.all Kind.isPlain = true := by
  have hmarks : [Kind.ident, .colon, .comma, .dot, .lParen, .rParen].all Kind.isPlain = true := rfl
  simp only [List.all_cons, List.all_nil, Bool.and_eq_true, Bool.and_true] at hmarks
  induction h with
  | assignment hop _ ih => simp [hmarks, isPlain_of_assign hop, ih rfl]
  | binary hop _ _ iha ihb => simp [isPlain_of_binary hop, iha rfl, ihb rfl]
  | prefixed hop _ ih => simp [isPlain_of_unary hop, ih rfl]
  | literal hk => simp [isPlain_of_isLiteral hk]
  | _ => first | exact absurd hc (by decide) | simp_all [PhraseKind.isInline, PhraseKind.innermost]

theorem isEnclosed_inline {c : PhraseKind} {ts : List Kind} (h : Phrase c ts)
    (hc : c.isInline = true) : IsEnclosed ts :=
  .of_plain (h.all_plain hc)

/-- The phrases of lines could stand within a block. -/
theorem isEnclosed {c : PhraseKind} {ts : List Kind} (h : Phrase c ts) (hc : c.isInline = false) :
    IsEnclosed ts := by
  induction h with
  | indented _ ih => exact (ih rfl).block
  | headless _ ih | functionItem _ ih | stmtItem _ ih | lastStmt _ ih | branchStmt _ ih => exact ih rfl
  | noItem | noElse => exact .nil
  | someItem _ _ ih ihs | moreStmts _ _ ih ihs => exact (ih rfl).append (ihs rfl)
  | headed hq _ _ ih | tagged hq _ _ ih =>
    exact ((hq.isEnclosed_inline rfl).cons (by decide)).append ((ih rfl).cons (by decide))
  | @bare ps r b hps hr _ _ _ ih =>
    have hname : IsEnclosed (.kwFun :: .ident :: .lParen :: ps) :=
      (((hps.isEnclosed_inline rfl).cons (by decide)).cons (by decide)).cons (by decide)
    have htype : IsEnclosed (.rParen :: r) := (hr.isEnclosed_inline rfl).cons (by decide)
    exact (hname.append htype).append ((ih rfl).cons (by decide))
  | typeItem | breakStmt | continueStmt | bareReturn | commandStmt =>
    refine ⟨.of_forall (by decide), by decide⟩
  | declared ht =>
    exact (((ht.isEnclosed_inline rfl).cons (by decide)).cons (by decide)).append (.single (by decide))
  | @initialized t e ht he =>
    have hname : IsEnclosed (.kwVar :: .ident :: t) :=
      ((ht.isEnclosed_inline rfl).cons (by decide)).cons (by decide)
    exact (hname.append ((he.isEnclosed_inline rfl).cons (by decide))).append (.single (by decide))
  | valueReturn he => exact ((he.isEnclosed_inline rfl).cons (by decide)).append (.single (by decide))
  | exprStmt he => exact (he.isEnclosed_inline rfl).append (.single (by decide))
  | whileStmt he _ _ ih =>
    exact ((he.isEnclosed_inline rfl).cons (by decide)).append ((ih rfl).cons (by decide))
  | @doStmt b e _ he ih =>
    have hblock : IsEnclosed (.kwDo :: .newline :: b) := ((ih rfl).cons (by decide)).cons (by decide)
    exact (hblock.append ((he.isEnclosed_inline rfl).cons (by decide))).append (.single (by decide))
  | @ifStmt e b o he _ _ _ ih iho =>
    have hheader : IsEnclosed (.kwIf :: e) := (he.isEnclosed_inline rfl).cons (by decide)
    exact (hheader.append ((ih rfl).cons (by decide))).append (iho rfl)
  | elseBlock _ ih => exact ((ih rfl).cons (by decide)).cons (by decide)
  | elseIf _ ih => exact (ih rfl).cons (by decide)
  | _ => cases hc

end Phrase

/-- What an accepted source can have of a branch behind its first block: an `else` with its block, or one
more condition with its block. -/
inductive ElsePart : List Kind → Prop
  | last {b} : Phrase .block b → ElsePart (.kwElse :: .newline :: b)
  | chained {e b} : Phrase .expr e → Phrase .block b → ElsePart (.kwElse :: .kwIf :: e ++ .newline :: b)

/-- The parts of a construct behind the block of a header that ends in `last`: the condition of a `do`
loop, or the else parts up to where none follows. -/
inductive LeftBehind (last : Option Kind) : List (List Kind) → List Kind → Prop
  | condition {e after} : last = some .kwDo → Phrase .expr e →
    LeftBehind last [.kwWhile :: e ++ [.newline]] after
  | elseParts {parts after} : last ≠ some .kwDo → (∀ p ∈ parts, ElsePart p) →
    after.head? ≠ some .kwElse → LeftBehind last parts after

/-- What stands behind a block of a branch are else parts. -/
theorem Phrase.elseParts {o : List Kind} (h : Phrase .otherwise o) :
    ∃ parts : List (List Kind), o = parts.flatten ∧ ∀ p ∈ parts, ElsePart p := by
  have hparts : ∀ {c ts}, Phrase c ts → match c with
      | .otherwise => ∃ parts : List (List Kind), ts = parts.flatten ∧ ∀ p ∈ parts, ElsePart p
      | .branch => ∃ parts : List (List Kind), .kwElse :: ts = parts.flatten ∧ ∀ p ∈ parts, ElsePart p
      | _ => True := by
    intro c ts h
    induction h with
    | noElse => exact ⟨[], rfl, by simp⟩
    | @elseBlock b hb => exact ⟨[.kwElse :: .newline :: b], by simp, by simpa using .last hb⟩
    | elseIf _ ih => exact ih
    | @ifStmt e b o he hb _ _ _ ih =>
      obtain ⟨parts, rfl, hparts⟩ := ih
      refine ⟨(.kwElse :: .kwIf :: e ++ .newline :: b) :: parts, by simp, fun p hp => ?_⟩
      rcases List.mem_cons.mp hp with rfl | hp
      · exact .chained he hb
      · exact hparts p hp
    | _ => trivial
  exact hparts h

theorem Phrase.newline_notMem {c : PhraseKind} {ts : List Kind} (h : Phrase c ts)
    (hc : c.isInline = true) : .newline ∉ ts := fun hmem =>
  absurd (List.all_eq_true.mp (h.all_plain hc) _ hmem) (by decide)

theorem Phrase.do_notMem {c : PhraseKind} {ts : List Kind} (h : Phrase c ts)
    (hc : c.isInline = true) : .kwDo ∉ ts := fun hmem =>
  absurd (List.all_eq_true.mp (h.all_plain hc) _ hmem) (by decide)

section Splitting

variable {as bs before rest : List Kind}

/-- What comes before the end of a line includes the whole beginning of the line. -/
theorem split_behind_line (has : .newline ∉ as) (h : as ++ bs = before ++ .newline :: rest) :
    ∃ before', before = as ++ before' ∧ bs = before' ++ .newline :: rest := by
  rcases List.append_eq_append_iff.mp h with ⟨more, hbefore, hbs⟩ | ⟨more, has', hrest⟩
  · exact ⟨more, hbefore, hbs⟩
  · cases more with
    | nil => exact ⟨[], by rw [has', List.append_nil, List.append_nil], hrest.symm⟩
    | cons k more =>
      injection hrest with hk _
      rw [has', ← hk] at has
      simp at has

/-- The first line of a run is its header, or the header lies behind it. -/
theorem split_first_line (has : .newline ∉ as)
    (h : as ++ .newline :: bs = before ++ .newline :: .indent :: rest) :
    before = as ∧ bs = .indent :: rest ∨
      ∃ before', before = as ++ [.newline] ++ before' ∧ bs = before' ++ .newline :: .indent :: rest := by
  obtain ⟨before', rfl, hbs⟩ := split_behind_line has h
  cases before' with
  | nil =>
    injection hbs with _ hbs
    exact .inl ⟨List.append_nil as, hbs⟩
  | cons k before' =>
    injection hbs with hk hbs
    exact .inr ⟨before', by rw [← hk]; simp, hbs⟩

/-- The end of a header and the block below it are not torn apart where no block starts. -/
theorem split_append (hbs : bs.head? ≠ some .indent)
    (h : as ++ bs = before ++ .newline :: .indent :: rest) :
    (∃ rest', as = before ++ .newline :: .indent :: rest' ∧ rest = rest' ++ bs) ∨
      ∃ before', before = as ++ before' ∧ bs = before' ++ .newline :: .indent :: rest := by
  rcases List.append_eq_append_iff.mp h with ⟨more, hbefore, hmore⟩ | ⟨more, has, hrest⟩
  · exact .inr ⟨more, hbefore, hmore⟩
  · match more, hrest with
    | [], hrest => exact .inr ⟨[], by rw [has, List.append_nil, List.append_nil], hrest.symm⟩
    | [k], hrest =>
      injection hrest with _ hrest
      rw [show bs = .indent :: rest from hrest.symm] at hbs
      exact absurd rfl hbs
    | k :: l :: more, hrest =>
      injection hrest with hk hrest
      injection hrest with hl hrest
      exact .inl ⟨more, by rw [has, ← hk, ← hl], hrest⟩

/-- Below a line that nothing follows there is no block. -/
theorem split_last_line (has : .newline ∉ as)
    (h : as ++ [.newline] = before ++ .newline :: .indent :: rest) : False := by
  rcases split_first_line has h with ⟨-, hend⟩ | ⟨before', -, hend⟩
  · cases hend
  · simp at hend

end Splitting

end Craftlang
