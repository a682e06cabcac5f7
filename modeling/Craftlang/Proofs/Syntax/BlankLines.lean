import Craftlang.Proofs.Syntax.Rewording

/-!
# Lines without tokens

What is read before the end of a line does not depend on the lines behind it. A line of blanks, with or
without a comment, only moves on what comes behind it: the levels, the open parentheses and whether a line
has a token stay as they were. So with or without such a line the same tokens are read and the same is
reported.
-/

namespace Craftlang

/-! ## Lexemes before a blank or the end of a line -/

/-- Taking from the front stops at a byte that does not belong to it. -/
theorem takeWhile_append_stop {p : UInt8 → Bool} {x : UInt8} (hx : p x = false) (u r : Bytes) :
    (u ++ x :: r).takeWhile p = u.takeWhile p := by
  induction u with
  | nil => rw [List.nil_append, List.takeWhile_cons_of_neg (by simp [hx]), List.takeWhile_nil]
  | cons c u ih => rw [List.cons_append, List.takeWhile_cons, List.takeWhile_cons, ih]

namespace Lexeme

/-- Blanks and line feeds go on with no word, number or operator. -/
def isBreak (x : UInt8) : Bool := Piece.isBlank x || x == lineFeed

section

variable {x : UInt8} (hx : isBreak x = true)

include hx

theorem not_isContinuation_break : Utf8.isContinuation x = false := by
  have hall : ∀ b, isBreak b = true → Utf8.isContinuation b = false := forall_byte (by decide +kernel)
  exact hall x hx

theorem not_continuesWord_break (r : Bytes) : continuesWord (Utf8.decodeCons x r) = false := by
  have hall : ∀ b, isBreak b = true → b < 0x80 ∧ (b.toNat == 0x5F || CodePoint.isLetter b.toNat
      || CodePoint.isDecimalDigit b.toNat) = false := forall_byte (by decide +kernel)
  rw [Utf8.decodeCons.eq_def, if_pos (hall x hx).1]
  exact (hall x hx).2

theorem wordLength_break (r : Bytes) : wordLength (x :: r) = 0 := by
  rw [wordLength, if_neg (by rw [not_continuesWord_break hx]; exact Bool.false_ne_true)]

theorem wordLength_append_break (u r : Bytes) : wordLength (u ++ x :: r) = wordLength u := by
  have hcontinuation := not_isContinuation_break hx
  fun_induction wordLength u with
  | case1 => exact wordLength_break hx r
  | case2 c u rune hword ih =>
    have hsame : Utf8.decodeCons c (u ++ x :: r) = rune := Utf8.decodeCons_append c u hcontinuation r
    rw [List.cons_append, wordLength, hsame, if_pos hword, drop_append_of_le _ (Utf8.size_decodeCons_le c u), ih]
  | case3 c u rune hword =>
    have hsame : Utf8.decodeCons c (u ++ x :: r) = rune := Utf8.decodeCons_append c u hcontinuation r
    rw [List.cons_append, wordLength, hsame, if_neg hword]

theorem word_append_break (c : UInt8) (u r : Bytes) : word c (u ++ x :: r) = word c u := by
  have hsize := Utf8.size_decodeCons_le c u
  have hle := wordLength_le ((c :: u).drop (Utf8.decodeCons c u).size)
  rw [List.length_drop, List.length_cons] at hle
  unfold word
  dsimp only
  rw [Utf8.decodeCons_append c u (not_isContinuation_break hx), drop_append_of_le _ hsize,
    wordLength_append_break hx, take_append_of_le _ (by omega)]

theorem numeral_append_break (c : UInt8) (u r : Bytes) : numeral c (u ++ x :: r) = numeral c u := by
  cases u with
  | nil =>
    have hall : ∀ b, isBreak b = true → b ≠ byte 'x' ∧ b ≠ byte 'X' ∧ b ≠ byte 'b' ∧ b ≠ byte 'B' :=
      forall_byte (by decide +kernel)
    obtain ⟨h₁, h₂, h₃, h₄⟩ := hall x hx
    rw [List.nil_append, numeral, numeral]
    simp [h₁, h₂, h₃, h₄]
  | cons d u => rfl

omit hx in
/-- The digits of a number are among those of all bases. -/
theorem isHexDigit_of_numeral (c : UInt8) (u : Bytes) {d : UInt8} (h : (numeral c u).1 d = true) :
    Bytes.isHexDigit d = true := by
  have hdec : ∀ b, Bytes.isDigit b = true → Bytes.isHexDigit b = true := forall_byte (by decide +kernel)
  have hbin : ∀ b, (b == byte '0' || b == byte '1') = true → Bytes.isHexDigit b = true :=
    forall_byte (by decide +kernel)
  unfold numeral at h
  split at h
  · split at h
    · exact hdec d h
    · split at h
      · exact h
      · split at h
        · exact hbin d h
        · exact hdec d h
  · exact hdec d h

theorem number_append_break (c : UInt8) (u r : Bytes) : number c (u ++ x :: r) = number c u := by
  have hstop : ((numeral c u).1 x || x == byte '_') = false := by
    have hall : ∀ b, isBreak b = true → Bytes.isHexDigit b = false ∧ (b == byte '_') = false :=
      forall_byte (by decide +kernel)
    obtain ⟨hhex, hunderscore⟩ := hall x hx
    rw [hunderscore, Bool.or_false, Bool.eq_false_iff]
    intro hdigit
    rw [isHexDigit_of_numeral c u hdigit] at hhex
    cases hhex
  have hmark := numeral_mark_le c u
  have hbody := (((c :: u).drop (numeral c u).2).takeWhile_sublist
    fun d => (numeral c u).1 d || d == byte '_').length_le
  have hglued := wordLength_le ((c :: u).drop ((numeral c u).2
    + (((c :: u).drop (numeral c u).2).takeWhile fun d => (numeral c u).1 d || d == byte '_').length))
  rw [List.length_drop, List.length_cons] at hbody hglued
  unfold number
  rw [numeral_append_break hx]
  dsimp only
  rw [drop_append_of_le _ hmark, takeWhile_append_stop hstop, drop_append_of_le _ (by omega),
    wordLength_append_break hx, take_append_of_le _ (by omega)]

theorem operatorPair_break (c : UInt8) : operatorPair? c x = none := by
  rw [operatorPair?, List.find?_eq_none]
  intro k hk
  have hpairs : ∀ k ∈ [Kind.dotDot, .eqEq, .bangEq, .ltEq, .gtEq, .plusAssign, .minusAssign, .starAssign,
      .slashAssign, .percentAssign, .ampAssign, .caretAssign, .pipeAssign],
      ((k.spelling?.map Bytes.ofString).bind (·.getLast?)).all (fun b => !isBreak b) = true := by
    decide
  have hpair := hpairs k hk
  rw [beq_iff_eq]
  intro heq
  rw [heq] at hpair
  have hnot : isBreak x = false := by simpa using hpair
  rw [hx] at hnot
  cases hnot

theorem operator_append_break (c : UInt8) (u r : Bytes) : operator c (u ++ x :: r) = operator c u := by
  have hpair : (u ++ x :: r).head?.bind (operatorPair? c) = u.head?.bind (operatorPair? c) := by
    cases u with
    | nil => exact operatorPair_break hx c
    | cons d u => rfl
  have htwo : ∀ k, u.head?.bind (operatorPair? c) = some k → 2 ≤ u.length + 1 := by
    intro k hk
    cases u with
    | nil => cases hk
    | cons d u => exact Nat.le_add_left 2 u.length
  have hsize := Utf8.size_decodeCons_le c u
  unfold operator
  rw [hpair]
  split
  · rename_i k hk
    rw [take_append_of_le _ (htwo k hk)]
  · rw [Utf8.decodeCons_append c u (not_isContinuation_break hx)]
    split
    · rfl
    · dsimp only
      rw [take_append_of_le _ hsize]

end

/-! ## Lexemes before the end of a line -/

theorem stringBody_lineFeed (offset : Nat) (u r : Bytes) :
    stringBody offset (u ++ lineFeed :: r) = stringBody offset u := by
  have hend : ∀ offset, stringBody offset (lineFeed :: r) = ⟨offset, false, []⟩ := fun offset => by
    rw [stringBody.eq_def]
    rfl
  fun_induction stringBody offset u with
  | case1 offset => exact hend offset
  | case2 offset u =>
    rw [List.cons_append, stringBody.eq_def]
    rfl
  | case3 offset u hfeed =>
    rw [List.cons_append, stringBody.eq_def]
    simp [hfeed]
  | case4 offset c u hfeed hquote hslash ih =>
    rw [List.cons_append, stringBody.eq_def]
    simpa [hfeed, hquote, hslash] using ih
  | case5 offset c hfeed hquote hslash =>
    have hescape : isEscape lineFeed = false := rfl
    rw [List.cons_append, List.nil_append, stringBody.eq_def, stringBody.eq_def (offset + 1) []]
    simp only [hfeed, hquote, hslash, hescape, if_false, Bool.false_eq_true]
    exact hend (offset + 1)
  | case6 offset c hfeed hquote hslash d u hescape ih =>
    rw [List.cons_append, List.cons_append, stringBody.eq_def]
    simpa [hfeed, hquote, hslash, hescape] using ih
  | case7 offset c hfeed hquote hslash d u hescape hend ih =>
    rw [List.cons_append, List.cons_append, stringBody.eq_def]
    simp only [hfeed, hquote, hslash, hescape, hend, if_false, if_true]
    exact ih
  | case8 offset c hfeed hquote hslash d u hescape hend size body ih =>
    have hsame : Utf8.decodeCons d (u ++ lineFeed :: r) = Utf8.decodeCons d u := Utf8.decodeCons_append d u rfl r
    have hdrop := drop_append_of_le (c := d) (lineFeed :: r) (Utf8.size_decodeCons_le d u)
    rw [List.cons_append, List.cons_append, stringBody.eq_def]
    simp only [hfeed, hquote, hslash, hescape, hend, if_false, Bool.false_eq_true, hsame, hdrop]
    rw [ih]

theorem string_lineFeed (c : UInt8) (u r : Bytes) : string c (u ++ lineFeed :: r) = string c u := by
  have hsize := (size_stringBody 1 u).2
  unfold string
  rw [stringBody_lineFeed]
  dsimp only
  rw [take_append_of_le _ (by omega)]

theorem command_lineFeed (c : UInt8) (u r : Bytes) : command c (u ++ lineFeed :: r) = command c u := by
  unfold command
  rw [takeWhile_append_stop rfl]

theorem read_lineFeed (atLineStart : Bool) (c : UInt8) (u r : Bytes) :
    read atLineStart c (u ++ lineFeed :: r) = read atLineStart c u := by
  unfold read
  rw [command_lineFeed, number_append_break rfl, string_lineFeed, word_append_break rfl, operator_append_break rfl,
    Utf8.decodeCons_append c u rfl]

end Lexeme

/-- Nothing that is read before the end of a line depends on what comes behind it. -/
theorem Piece.read_lineFeed (atLineStart : Bool) (c : UInt8) (u r : Bytes) :
    read atLineStart c (u ++ lineFeed :: r) = read atLineStart c u := by
  unfold read
  rw [takeWhile_append_stop rfl, takeWhile_append_stop rfl, Lexeme.read_lineFeed]

/-- A line without tokens: blanks, perhaps a comment, and the line feed. -/
structure Bytes.IsBlankLine (line : Bytes) : Prop where
  parts : ∃ blanks comment, line = blanks ++ comment ++ [lineFeed] ∧ (∀ c ∈ blanks, Piece.isBlank c = true) ∧
    (comment = [] ∨ ∃ text, comment = byte '#' :: text ∧ lineFeed ∉ text)

/-! ## Reading on -/

/-- Kind and text of a token. -/
def Token.wording (t : Token) : Kind × Bytes := (t.kind, t.text)

/-- A diagnostic without its place. -/
def Diagnostic.wording (d : Diagnostic) : Severity × Code × Bytes := (d.severity, d.code, d.message)

/-- What batches say, apart from places and trivia. -/
def Batch.wordings (bs : List Batch) : List (Kind × Bytes) × List (Severity × Code × Bytes) :=
  (bs.flatMap fun b => b.tokens.map Token.wording, bs.flatMap fun b => b.diagnostics.map Diagnostic.wording)

/-- Batches that say the same, with the same said behind them. -/
theorem Batch.wordings_cons {b b' : Batch} {bs bs' : List Batch}
    (ht : b'.tokens.map Token.wording = b.tokens.map Token.wording)
    (hd : b'.diagnostics.map Diagnostic.wording = b.diagnostics.map Diagnostic.wording)
    (h : wordings bs' = wordings bs) : wordings (b' :: bs') = wordings (b :: bs) := by
  obtain ⟨htokens, hdiagnostics⟩ := Prod.mk.inj h
  simp only [wordings, List.flatMap_cons, ht, hd, htokens, hdiagnostics]

/-- A batch that says nothing. -/
theorem Batch.wordings_cons_nil {b : Batch} (bs : List Batch) (ht : b.tokens = []) (hd : b.diagnostics = []) :
    wordings (b :: bs) = wordings bs := by
  simp only [wordings, List.flatMap_cons, ht, hd, List.map_nil, List.nil_append]

namespace Scan

theorem batches_nil {s : Scan} (h : s.rest = []) : s.batches = [s.finish] := by
  rw [batches]
  split
  · rfl
  · rename_i hcons
    rw [h] at hcons
    cases hcons

theorem batches_cons {s : Scan} {b : UInt8} {rest : Bytes} (h : s.rest = b :: rest) :
    s.batches = (s.step b rest).2 :: (s.step b rest).1.batches := by
  rw [batches]
  split
  · rename_i hnil
    rw [h] at hnil
    cases hnil
  · rename_i b' rest' hcons
    rw [h] at hcons
    cases hcons
    rfl

/-- Two states that differ in the place and in the trivia that wait at most. -/
structure Alike (s s' : Scan) : Prop where
  rest : s'.rest = s.rest
  margin : s'.margin = s.margin
  levels : s'.levels = s.levels
  inLine : s'.inLine = s.inLine
  depth : s'.depth = s.depth

namespace Alike

variable {s s' : Scan} (h : Alike s s')

include h

theorem atLineStart : s'.atLineStart = s.atLineStart := by
  rw [Scan.atLineStart, Scan.atLineStart, h.inLine, h.depth]

theorem hold (k : TriviaKind) (n : Nat) : Alike (s.hold k n) (s'.hold k n) :=
  ⟨h.rest, h.margin, h.levels, h.inLine, h.depth⟩

theorem skip (n : Nat) : Alike (s.skip n) (s'.skip n) :=
  ⟨congrArg (List.drop n) h.rest, h.margin, h.levels, h.inLine, h.depth⟩

omit h in
theorem dedents (s s' : Scan) (n : Nat) :
    (s'.dedents n).map Token.wording = (s.dedents n).map Token.wording := by
  rw [Scan.dedents, Scan.dedents, List.map_replicate, List.map_replicate]
  rfl

theorem settle : Alike s.settle.1 s'.settle.1 ∧
    s'.settle.2.tokens.map Token.wording = s.settle.2.tokens.map Token.wording ∧
    s'.settle.2.diagnostics.map Diagnostic.wording = s.settle.2.diagnostics.map Diagnostic.wording := by
  rw [Scan.settle, Scan.settle, h.levels, h.margin]
  refine ⟨⟨h.rest, rfl, rfl, h.inLine, h.depth⟩, ?_⟩
  dsimp only
  split
  · exact ⟨rfl, rfl⟩
  · exact ⟨rfl, rfl⟩
  · exact ⟨dedents s s' _, rfl⟩
  · exact ⟨dedents s s' _, rfl⟩
  · exact ⟨rfl, rfl⟩

theorem emit (l : Lexeme) : Alike (s.emit l).1 (s'.emit l).1 ∧
    (s'.emit l).2.tokens.map Token.wording = (s.emit l).2.tokens.map Token.wording ∧
    (s'.emit l).2.diagnostics.map Diagnostic.wording = (s.emit l).2.diagnostics.map Diagnostic.wording := by
  refine ⟨⟨h.rest, h.margin, h.levels, rfl, congrArg (depthAfter · l.kind) h.depth⟩, rfl, ?_⟩
  change (l.flaws.map _).map _ = (l.flaws.map _).map _
  rw [List.map_map, List.map_map]
  rfl

theorem take (p : Piece) : Alike (s.take p).1 (s'.take p).1 ∧
    (s'.take p).2.tokens.map Token.wording = (s.take p).2.tokens.map Token.wording ∧
    (s'.take p).2.diagnostics.map Diagnostic.wording = (s.take p).2.diagnostics.map Diagnostic.wording := by
  cases p with
  | blank n =>
    rw [Scan.take, Scan.take, h.atLineStart]
    split
    · exact ⟨⟨h.rest, by rw [h.margin, h.rest], h.levels, h.inLine, h.depth⟩, rfl, rfl⟩
    · exact ⟨h.hold .space n, rfl, rfl⟩
  | comment n => exact ⟨h.hold .comment n, rfl, rfl⟩
  | lineEnd =>
    rw [Scan.take, Scan.take, h.inLine, h.depth]
    split
    · exact ⟨⟨h.rest, rfl, h.levels, rfl, rfl⟩, rfl, rfl⟩
    · exact ⟨⟨h.rest, rfl, h.levels, h.inLine, h.depth⟩, rfl, rfl⟩
  | lexeme l =>
    rw [Scan.take, Scan.take, h.atLineStart]
    cases s.atLineStart with
    | false => exact h.emit l
    | true =>
      obtain ⟨hsettled, htokens, hdiagnostics⟩ := h.settle
      obtain ⟨hemitted, htokens', hdiagnostics'⟩ := hsettled.emit l
      refine ⟨hemitted, ?_, ?_⟩
      · simp only [if_true, List.map_append, htokens, htokens']
      · simp only [if_true, List.map_append, hdiagnostics, hdiagnostics']

theorem step (b : UInt8) (rest : Bytes) : Alike (s.step b rest).1 (s'.step b rest).1 ∧
    (s'.step b rest).2.tokens.map Token.wording = (s.step b rest).2.tokens.map Token.wording ∧
    (s'.step b rest).2.diagnostics.map Diagnostic.wording = (s.step b rest).2.diagnostics.map Diagnostic.wording := by
  rw [Scan.step, Scan.step, h.atLineStart]
  exact ⟨(h.take _).1.skip _, (h.take _).2⟩

theorem finish : s'.finish.tokens.map Token.wording = s.finish.tokens.map Token.wording := by
  rw [Scan.finish, Scan.finish, h.inLine, h.levels]
  simp only [List.map_append, dedents s s']
  cases s.inLine <;> rfl

omit h in
/-- From such states on the same is said. -/
theorem wordings (s s' : Scan) (h : Alike s s') : Batch.wordings s'.batches = Batch.wordings s.batches := by
  cases hs : s.rest with
  | nil =>
    rw [batches_nil hs, batches_nil (h.rest.trans hs)]
    exact Batch.wordings_cons h.finish rfl rfl
  | cons b rest =>
    obtain ⟨hnext, htokens, hdiagnostics⟩ := h.step b rest
    rw [batches_cons hs, batches_cons (h.rest.trans hs)]
    exact Batch.wordings_cons htokens hdiagnostics (wordings _ _ hnext)
termination_by s.rest.length
decreasing_by exact step_rest_lt s b rest hs

end Alike

/-- A state at the start of a line, or of the text: nothing of the line is read, and a line feed would end
no line that has a token. -/
structure AtBreak (s : Scan) : Prop where
  margin : s.margin = []
  idle : (s.inLine && s.depth == 0) = false

/-- Behind a line feed a line starts. -/
theorem atBreak_lineFeed (s : Scan) (rest : Bytes) : (s.step lineFeed rest).1.AtBreak := by
  change ((s.take .lineEnd).1.skip 1).AtBreak
  rw [take]
  cases hidle : s.inLine && s.depth == 0 with
  | true => exact ⟨rfl, rfl⟩
  | false => exact ⟨rfl, hidle⟩

/-- From a state on, another one is reached before anything is said, and only the place, the margin and the
trivia that wait have changed. -/
structure Passes (s : Scan) (rest : Bytes) (s' : Scan) : Prop where
  rest : s'.rest = rest
  levels : s'.levels = s.levels
  inLine : s'.inLine = s.inLine
  depth : s'.depth = s.depth
  said : Batch.wordings s.batches = Batch.wordings s'.batches

theorem Passes.trans {s s' s'' : Scan} {rest rest' : Bytes} (h : s.Passes rest s') (h' : s'.Passes rest' s'') :
    s.Passes rest' s'' :=
  ⟨h'.rest, h'.levels.trans h.levels, h'.inLine.trans h.inLine, h'.depth.trans h.depth, h.said.trans h'.said⟩

/-- Blanks are passed over. -/
theorem exists_passes_blanks {s : Scan} {blanks rest : Bytes} {x : UInt8} (hs : s.rest = blanks ++ x :: rest)
    (hblanks : ∀ c ∈ blanks, Piece.isBlank c = true) (hx : Piece.isBlank x = false) :
    ∃ s', s.Passes (x :: rest) s' := by
  cases blanks with
  | nil => exact ⟨s, hs, rfl, rfl, rfl, rfl⟩
  | cons c blanks =>
    have hrun : (blanks ++ x :: rest).takeWhile Piece.isBlank = blanks := by
      rw [takeWhile_append_stop hx, List.takeWhile_eq_self_iff]
      exact fun d hd => hblanks d (List.mem_cons_of_mem _ hd)
    have hread : Piece.read s.atLineStart c (blanks ++ x :: rest) = .blank (1 + blanks.length) := by
      rw [Piece.read, if_pos (hblanks c List.mem_cons_self), hrun]
    have hdrop : s.rest.drop (1 + blanks.length) = x :: rest := by
      rw [hs, Nat.add_comm, List.cons_append, List.drop_succ_cons, List.drop_left]
    refine ⟨(s.step c (blanks ++ x :: rest)).1, ?_⟩
    have hsaid : s.batches = (s.step c (blanks ++ x :: rest)).2 :: (s.step c (blanks ++ x :: rest)).1.batches :=
      batches_cons hs
    rw [step, hread] at hsaid ⊢
    rw [take] at hsaid ⊢
    cases hstart : s.atLineStart with
    | true =>
      rw [hstart] at hsaid
      exact ⟨hdrop, rfl, rfl, rfl, by rw [hsaid]; exact Batch.wordings_cons_nil _ rfl rfl⟩
    | false =>
      rw [hstart] at hsaid
      exact ⟨hdrop, rfl, rfl, rfl, by rw [hsaid]; exact Batch.wordings_cons_nil _ rfl rfl⟩

/-- So is a comment. -/
theorem passes_comment {s : Scan} {text rest : Bytes} (hs : s.rest = byte '#' :: (text ++ lineFeed :: rest))
    (htext : lineFeed ∉ text) : ∃ s', s.Passes (lineFeed :: rest) s' := by
  have hrun : (text ++ lineFeed :: rest).takeWhile (· != lineFeed) = text := by
    rw [takeWhile_append_stop rfl, List.takeWhile_eq_self_iff]
    exact fun d hd => bne_iff_ne.mpr fun heq => htext (heq ▸ hd)
  have hread : Piece.read s.atLineStart (byte '#') (text ++ lineFeed :: rest) = .comment (1 + text.length) := by
    rw [Piece.read, if_neg (by decide), if_pos rfl, hrun]
  refine ⟨(s.step (byte '#') (text ++ lineFeed :: rest)).1, ?_⟩
  have hsaid := batches_cons hs
  rw [step, hread] at hsaid ⊢
  refine ⟨?_, rfl, rfl, rfl, by rw [hsaid]; exact Batch.wordings_cons_nil _ rfl rfl⟩
  change s.rest.drop (1 + text.length) = _
  rw [hs, Nat.add_comm, List.drop_succ_cons, List.drop_left]

/-- A line without tokens leads from the start of a line to the start of the next. -/
theorem AtBreak.exists_passes {s : Scan} (h : s.AtBreak) {line rest : Bytes} (hs : s.rest = line ++ rest)
    (hline : line.IsBlankLine) : ∃ s', s.Passes rest s' ∧ s'.margin = [] := by
  obtain ⟨blanks, comment, rfl, hblanks, hcomment⟩ := hline.parts
  rw [List.append_assoc, List.append_assoc, List.singleton_append] at hs
  have hfeed : ∃ s', s.Passes (lineFeed :: rest) s' := by
    obtain rfl | ⟨text, rfl, htext⟩ := hcomment
    · exact exists_passes_blanks hs hblanks rfl
    · obtain ⟨t, ht⟩ := exists_passes_blanks hs hblanks rfl
      obtain ⟨u, hu⟩ := passes_comment ht.rest htext
      exact ⟨u, ht.trans hu⟩
  obtain ⟨t, ht⟩ := hfeed
  have hidle : (t.inLine && t.depth == 0) = false := by rw [ht.inLine, ht.depth, h.idle]
  have hread : Piece.read t.atLineStart lineFeed rest = .lineEnd := rfl
  have hsaid := batches_cons ht.rest
  refine ⟨(t.step lineFeed rest).1, ht.trans ?_, (t.atBreak_lineFeed rest).margin⟩
  rw [step, hread, take, hidle] at hsaid ⊢
  refine ⟨?_, rfl, rfl, rfl, by rw [hsaid]; exact Batch.wordings_cons_nil _ rfl rfl⟩
  change t.rest.drop 1 = rest
  rw [ht.rest, List.drop_one, List.tail_cons]

/-- At the start of a line, a line without tokens changes nothing that is said. -/
theorem AtBreak.wordings_blankLine {s : Scan} (h : s.AtBreak) {line rest : Bytes} (hline : line.IsBlankLine)
    (hs : s.rest = rest) : Batch.wordings ({ s with rest := line ++ rest } : Scan).batches
      = Batch.wordings s.batches := by
  have hbreak : ({ s with rest := line ++ rest } : Scan).AtBreak := ⟨h.margin, h.idle⟩
  obtain ⟨t, ht, hmargin⟩ := hbreak.exists_passes rfl hline
  rw [ht.said]
  exact Alike.wordings s t ⟨ht.rest.trans hs.symm, hmargin.trans h.margin.symm, ht.levels, ht.inLine, ht.depth⟩

/-- Nor does it between lines that come later. -/
theorem wordings_blankLine {line b : Bytes} (hline : line.IsBlankLine) (a : Bytes) (s : Scan)
    (hs : s.rest = a ++ lineFeed :: b) :
    Batch.wordings ({ s with rest := a ++ lineFeed :: (line ++ b) } : Scan).batches
      = Batch.wordings s.batches := by
  have hstart (rest : Bytes) : ({ s with rest } : Scan).atLineStart = s.atLineStart := rfl
  match a, hs with
  | [], hs =>
    have hstep : ({ s with rest := lineFeed :: (line ++ b) } : Scan).step lineFeed (line ++ b)
        = ({ (s.step lineFeed b).1 with rest := line ++ b }, (s.step lineFeed b).2) := by
      have htake : (lineFeed :: (line ++ b)).take (Piece.lineEnd).size = s.rest.take (Piece.lineEnd).size := by
        rw [hs]
        rfl
      have hread (rest : Bytes) : Piece.read s.atLineStart lineFeed rest = .lineEnd := rfl
      rw [step, step, hstart, hread, hread, take_congr s htake]
      rfl
    have hrest : (s.step lineFeed b).1.rest = b := by
      rw [rest_step, hs]
      rfl
    rw [List.nil_append, batches_cons (show _ = lineFeed :: (line ++ b) from rfl), hstep, batches_cons hs]
    exact Batch.wordings_cons rfl rfl ((s.atBreak_lineFeed b).wordings_blankLine hline hrest)
  | c :: u, hs =>
    have hread := Piece.read_lineFeed s.atLineStart c u
    have hsize := Piece.size_read_le s.atLineStart c u
    have hpos := Piece.size_read_pos s.atLineStart c u
    have hstep : ({ s with rest := c :: (u ++ lineFeed :: (line ++ b)) } : Scan).step c (u ++ lineFeed :: (line ++ b))
        = ({ (s.step c (u ++ lineFeed :: b)).1 with
            rest := (c :: u).drop (Piece.read s.atLineStart c u).size ++ lineFeed :: (line ++ b) },
          (s.step c (u ++ lineFeed :: b)).2) := by
      have htake : (c :: (u ++ lineFeed :: (line ++ b))).take (Piece.read s.atLineStart c u).size
          = s.rest.take (Piece.read s.atLineStart c u).size := by
        rw [hs, List.cons_append, Lexeme.take_append_of_le _ hsize, Lexeme.take_append_of_le _ hsize]
      rw [step, step, hstart, hread, hread, take_congr s htake, ← Lexeme.drop_append_of_le _ hsize]
      rfl
    have hrest : (s.step c (u ++ lineFeed :: b)).1.rest
        = (c :: u).drop (Piece.read s.atLineStart c u).size ++ lineFeed :: b := by
      rw [rest_step, hread, hs, List.cons_append, Lexeme.drop_append_of_le _ hsize]
    rw [List.cons_append, batches_cons (show _ = c :: (u ++ lineFeed :: (line ++ b)) from rfl), hstep,
      batches_cons hs]
    exact Batch.wordings_cons rfl rfl (wordings_blankLine hline _ _ hrest)
termination_by a.length
decreasing_by rw [List.length_drop, List.length_cons]; omega

end Scan

namespace File

variable {f f' : File}

theorem wordings_scan (f : File) : Batch.wordings f.scan
    = (f.tokenize.map Token.wording, f.lexicalDiagnostics.map Diagnostic.wording) := by
  rw [Batch.wordings, tokenize, lexicalDiagnostics, List.map_flatMap, List.map_flatMap]

/-- A line without tokens between the lines of a text, before them or behind them changes neither what the
tokens are nor what is reported: not inside parentheses, and not behind a bad indentation either. -/
theorem tokenize_blankLine {a line b : Bytes} (ha : a = [] ∨ a.getLast? = some lineFeed) (hline : line.IsBlankLine)
    (hf : f.content = a ++ b) (hf' : f'.content = a ++ line ++ b) :
    f'.tokenize.map (fun t => (t.kind, t.text)) = f.tokenize.map (fun t => (t.kind, t.text)) ∧
      f'.lexicalDiagnostics.map (fun d => (d.severity, d.code, d.message))
        = f.lexicalDiagnostics.map (fun d => (d.severity, d.code, d.message)) := by
  have hmoved : Batch.wordings f'.scan
      = Batch.wordings ({ Scan.start f with rest := a ++ line ++ b } : Scan).batches := by
    refine Scan.Alike.wordings _ _ ⟨hf', rfl, rfl, rfl, rfl⟩
  have hscan : Batch.wordings f'.scan = Batch.wordings f.scan := by
    rw [hmoved]
    obtain rfl | hlast := ha
    · exact Scan.AtBreak.wordings_blankLine ⟨rfl, rfl⟩ hline hf
    · obtain ⟨u, rfl⟩ := List.getLast?_eq_some_iff.mp hlast
      rw [List.append_assoc, List.append_assoc, List.singleton_append]
      refine Scan.wordings_blankLine hline u (.start f) ?_
      rw [Scan.start, hf, List.append_assoc, List.singleton_append]
  rw [wordings_scan, wordings_scan] at hscan
  exact Prod.mk.inj hscan

/-- A text with an unindent that fits no level, and a text with a comment line behind that. -/
def crooked : File := ⟨0, "crooked.craft", "if a\n    b\n  c(\n1)\n", {}⟩

def crookedWithComment : File := ⟨0, "crooked.craft", "if a\n    b\n  c(\n \t# one\n1)\n", {}⟩

theorem tokenize_crooked : crookedWithComment.tokenize.map (fun t => (t.kind, t.text))
      = crooked.tokenize.map (fun t => (t.kind, t.text)) ∧
    crookedWithComment.lexicalDiagnostics.map (fun d => (d.severity, d.code, d.message))
      = crooked.lexicalDiagnostics.map (fun d => (d.severity, d.code, d.message)) ∧
    crooked.lexicalDiagnostics.map (·.code) = [.badIndentation] := by
  have hline : Bytes.IsBlankLine " \t# one\n" :=
    ⟨" \t", "# one", by decide +kernel, by decide +kernel, .inr ⟨" one", by decide +kernel, by decide +kernel⟩⟩
  have hcontent : crooked.content = "if a\n    b\n  c(\n" ++ ("1)\n" : Bytes) := by decide +kernel
  have hcontent' : crookedWithComment.content = "if a\n    b\n  c(\n" ++ " \t# one\n" ++ "1)\n" := by
    decide +kernel
  obtain ⟨htokens, hdiagnostics⟩ := tokenize_blankLine (.inr (by decide +kernel)) hline hcontent hcontent'
  exact ⟨htokens, hdiagnostics, by decide +kernel⟩

end File

end Craftlang
