import Craftlang.Token.Lexer
import Mathlib.Data.List.TakeWhile

/-!
# What lexemes take

A lexeme is text from the front of what remains, and blanks behind it. It is invalid exactly if something
is wrong that spoils the whole of it, and then that is reported once and for all of its text.
-/

namespace Craftlang

namespace Kind

/-- Can a token of this kind stand in a line? -/
def isInline (k : Kind) : Bool := !k.isLayout && k != .eof && k != .invalid

theorem isInline_of_keyword {word : Bytes} {k : Kind} (h : keyword? word = some k) :
    k.isInline = true := by
  have hk : ∀ k ∈ keywords, k.isInline = true := by decide
  exact hk k (List.mem_of_find?_eq_some h)

end Kind

/-- Is this a report about text that is no token? -/
def Diagnostic.isUnread (d : Diagnostic) : Bool :=
  [Code.unknownCharacter, .unterminatedString, .malformedNumber].contains d.code

/-- Does the problem leave no token behind? -/
def LexicalProblem.spoils : LexicalProblem → Bool
  | unknownCharacter _ | unterminatedString | malformedNumber => true
  | unknownEscape | unmatchedUnindent | mixedIndentation => false

theorem LexicalProblem.isUnread_report (p : LexicalProblem) (span : Span) :
    (p.report span).isUnread = p.spoils := by
  cases p <;> rfl

namespace Lexeme

/-- The places in a lexeme that are reported as no token. -/
def spoilt (l : Lexeme) : List (Nat × Nat) :=
  (l.flaws.filter (·.problem.spoils)).map fun f => (f.start, f.stop)

/-- The lexeme at the front of a text: its text, blanks that are dropped, and what remains. -/
structure Fits (l : Lexeme) (s : Bytes) : Prop where
  kind : l.kind.isInline = true ∨ l.kind = .invalid
  text : l.text ≠ []
  split : ∃ blanks rest, s = l.text ++ blanks ++ rest ∧ l.size = (l.text ++ blanks).length ∧
    ∀ c ∈ blanks, Piece.isBlank c = true
  spoilt : l.spoilt = if l.kind = .invalid then [(0, l.text.length)] else []

/-- A lexeme that is a number of bytes from the front. -/
theorem fits_take {k : Kind} {s : Bytes} {size : Nat} {flaws : List Flaw} (hpos : 0 < size)
    (hle : size ≤ s.length) (hk : k.isInline = true ∨ k = .invalid)
    (hf : (flaws.filter (·.problem.spoils)).map (fun f => (f.start, f.stop))
      = if k = .invalid then [(0, size)] else []) :
    Fits ⟨k, s.take size, size, flaws⟩ s := by
  have hlength : (s.take size).length = size := List.length_take_of_le hle
  refine ⟨hk, List.ne_nil_of_length_pos (hlength.symm ▸ hpos), ⟨[], s.drop size, ?_, ?_, nofun⟩, ?_⟩
  · rw [List.append_nil, List.take_append_drop]
  · rw [List.append_nil, hlength]
  · rw [hlength]
    exact hf

theorem wordLength_le (s : Bytes) : wordLength s ≤ s.length := by
  fun_induction wordLength s with
  | case1 => exact Nat.le_refl _
  | case2 b rest rune hrune ih =>
    have hsize : rune.size ≤ rest.length + 1 := Utf8.size_decodeCons_le b rest
    rw [List.length_drop] at ih
    rw [List.length_cons] at ih ⊢
    omega
  | case3 => exact Nat.zero_le _

theorem word_fits (b : UInt8) (rest : Bytes) : (word b rest).Fits (b :: rest) := by
  have hfirst := Utf8.size_decodeCons_pos b rest
  have hsize := Utf8.size_decodeCons_le b rest
  have hrest := wordLength_le ((b :: rest).drop (Utf8.decodeCons b rest).size)
  have hinline : (word b rest).kind.isInline = true := by
    unfold word
    dsimp only
    generalize (b :: rest).take _ = text
    cases h : Kind.keyword? text with
    | none => rfl
    | some k => exact Kind.isInline_of_keyword h
  rw [List.length_drop, List.length_cons] at hrest
  refine fits_take (by omega) (by rw [List.length_cons]; omega) (.inl hinline) ?_
  rw [if_neg]
  · rfl
  · intro hinvalid
    change (word b rest).kind = .invalid at hinvalid
    rw [hinvalid] at hinline
    cases hinline

theorem numeral_mark_le (b : UInt8) (rest : Bytes) : (numeral b rest).2 ≤ rest.length + 1 := by
  unfold numeral
  split
  · rw [List.length_cons]
    repeat' split
    all_goals dsimp only; omega
  · exact Nat.zero_le _

theorem number_fits (b : UInt8) (rest : Bytes) : (number b rest).Fits (b :: rest) := by
  have hmark := numeral_mark_le b rest
  have hbody := (((b :: rest).drop (numeral b rest).2).takeWhile_sublist
    fun d => (numeral b rest).1 d || d == byte '_').length_le
  have hglued := wordLength_le ((b :: rest).drop ((numeral b rest).2
    + (((b :: rest).drop (numeral b rest).2).takeWhile
      fun d => (numeral b rest).1 d || d == byte '_').length))
  rw [List.length_drop, List.length_cons] at hbody hglued
  unfold number
  dsimp only
  split
  · refine fits_take (by omega) (by rw [List.length_cons]; omega) (.inl rfl) ?_
    rfl
  · refine fits_take (by omega) (by rw [List.length_cons]; omega) (.inr rfl) ?_
    rfl

/-- The inside of a string ends where it starts or later, and in the text. -/
theorem size_stringBody (offset : Nat) (s : Bytes) :
    offset ≤ (stringBody offset s).size ∧ (stringBody offset s).size ≤ offset + s.length := by
  fun_induction stringBody offset s with
  | case1 => simp
  | case2 => simp
  | case3 => simp
  | case4 offset b rest _ _ _ ih => simp only [List.length_cons]; omega
  | case5 offset b _ _ _ ih => simp only [List.length_cons]; omega
  | case6 offset b _ _ _ c more _ ih => simp only [List.length_cons]; omega
  | case7 offset b _ _ _ c more _ _ ih => simp only [List.length_cons] at ih ⊢; omega
  | case8 offset b _ _ _ c more _ _ size body ih =>
    have hsize : size ≤ more.length + 1 := Utf8.size_decodeCons_le c more
    change offset ≤ body.size ∧ body.size ≤ _
    change _ ≤ body.size ∧ body.size ≤ _ at ih
    rw [List.length_drop] at ih
    simp only [List.length_cons] at ih ⊢
    omega

/-- Nothing inside a string spoils it. -/
theorem flaws_stringBody (offset : Nat) (s : Bytes) :
    (stringBody offset s).flaws.filter (·.problem.spoils) = [] := by
  fun_induction stringBody offset s with
  | case1 => rfl
  | case2 => rfl
  | case3 => rfl
  | case4 _ _ _ _ _ _ ih => exact ih
  | case5 _ _ _ _ _ ih => exact ih
  | case6 _ _ _ _ _ _ _ _ ih => exact ih
  | case7 _ _ _ _ _ _ _ _ _ ih => exact ih
  | case8 _ _ _ _ _ _ _ _ _ size body ih =>
    rw [List.filter_cons_of_neg Bool.false_ne_true]
    exact ih

theorem string_fits (b : UInt8) (rest : Bytes) : (string b rest).Fits (b :: rest) := by
  have hsize := size_stringBody 1 rest
  have hflaws := flaws_stringBody 1 rest
  unfold string
  dsimp only
  split
  · refine fits_take (by omega) (by rw [List.length_cons]; omega) (.inl rfl) ?_
    rw [hflaws]
    rfl
  · refine fits_take (by omega) (by rw [List.length_cons]; omega) (.inr rfl) ?_
    rw [List.filter_append, hflaws]
    rfl

theorem command_fits (b : UInt8) (rest : Bytes) : (command b rest).Fits (b :: rest) := by
  unfold command
  dsimp only
  generalize hline : rest.takeWhile (· != lineFeed) = line
  refine ⟨.inl rfl, List.cons_ne_nil _ _, ⟨(line.reverse.takeWhile Piece.isBlank).reverse,
    rest.dropWhile (· != lineFeed), ?_, ?_, fun c hc => ?_⟩, rfl⟩
  · have hcut : (line.reverse.dropWhile Piece.isBlank).reverse
        ++ (line.reverse.takeWhile Piece.isBlank).reverse = line := by
      rw [← List.reverse_append, List.takeWhile_append_dropWhile, List.reverse_reverse]
    rw [List.cons_append, List.cons_append]
    congr 1
    refine (List.takeWhile_append_dropWhile (p := (· != lineFeed))).symm.trans ?_
    rw [hline]
    exact congrArg (· ++ _) hcut.symm
  · have hcut := congrArg List.length (List.takeWhile_append_dropWhile (p := Piece.isBlank) (l := line.reverse))
    rw [List.length_append, List.length_reverse] at hcut
    rw [List.cons_append, List.length_cons, List.length_append, List.length_reverse, List.length_reverse]
    change 1 + line.length = (line.reverse.dropWhile Piece.isBlank).length + _ + 1
    omega
  · exact List.mem_takeWhile_imp (List.mem_reverse.mp hc)

theorem isInline_operatorPair {a b : UInt8} {k : Kind} (h : operatorPair? a b = some k) :
    k.isInline = true := by
  have hk : ∀ k ∈ [Kind.dotDot, .eqEq, .bangEq, .ltEq, .gtEq, .plusAssign, .minusAssign,
      .starAssign, .slashAssign, .percentAssign, .ampAssign, .caretAssign, .pipeAssign],
      k.isInline = true := by decide
  exact hk k (List.mem_of_find?_eq_some h)

theorem isInline_operatorByte {b : UInt8} {k : Kind} (h : operatorByte? b = some k) :
    k.isInline = true := by
  have hk : ∀ k ∈ [Kind.plus, .minus, .star, .slash, .percent, .bang, .amp, .pipe, .caret, .assign,
      .lt, .gt, .lParen, .rParen, .comma, .colon, .dot], k.isInline = true := by decide
  exact hk k (List.mem_of_find?_eq_some h)

theorem operator_fits (b : UInt8) (rest : Bytes) : (operator b rest).Fits (b :: rest) := by
  have hvalid : ∀ {k : Kind} {n : Nat}, k.isInline = true →
      (([] : List Flaw).filter (·.problem.spoils)).map (fun f => (f.start, f.stop))
        = if k = .invalid then [(0, n)] else [] := by
    intro k n hk
    rw [if_neg]
    · rfl
    · rintro rfl
      cases hk
  unfold operator
  split
  · rename_i k hk
    obtain ⟨c, hc, hpair⟩ := Option.bind_eq_some_iff.mp hk
    have hinline := isInline_operatorPair hpair
    have hrest : 0 < rest.length := List.length_pos_of_mem (List.mem_of_head? hc)
    exact fits_take (by decide) (by rw [List.length_cons]; omega) (.inl hinline) (hvalid hinline)
  · split
    · rename_i k hk
      have hinline := isInline_operatorByte hk
      have hlength : 1 ≤ (b :: rest).length := by rw [List.length_cons]; omega
      exact fits_take Nat.one_pos hlength (.inl hinline) (hvalid hinline)
    · refine fits_take (Utf8.size_decodeCons_pos b rest) (Utf8.size_decodeCons_le b rest) (.inr rfl) ?_
      rfl

/-- What is read at the front of a text is a lexeme of it. -/
theorem read_fits (atLineStart : Bool) (b : UInt8) (rest : Bytes) :
    (read atLineStart b rest).Fits (b :: rest) := by
  unfold read
  split
  · exact command_fits b rest
  split
  · exact number_fits b rest
  split
  · exact string_fits b rest
  split
  · exact word_fits b rest
  · exact operator_fits b rest

end Lexeme

/-- What a batch says about text that is no token: the spans it reports, and those of its tokens. -/
def Batch.IsFrank (b : Batch) : Prop :=
  (b.diagnostics.filter (·.isUnread)).map (·.span) = (b.tokens.filter (·.kind == .invalid)).map (·.span)

namespace Scan

/-- The piece at the front is a lexeme only if it was read as one. -/
theorem eq_read_of_lexeme {atLineStart : Bool} {b : UInt8} {rest : Bytes} {l : Lexeme}
    (h : Piece.read atLineStart b rest = .lexeme l) : l = Lexeme.read atLineStart b rest := by
  rw [Piece.read] at h
  split at h
  · cases h
  split at h
  · cases h
  split at h
  · cases h
  · cases h
    rfl

theorem filter_invalid_dedents (s : Scan) (n : Nat) :
    (s.dedents n).filter (·.kind == .invalid) = [] := by
  rw [dedents, List.filter_replicate]
  rfl

theorem settle_isFrank (s : Scan) : s.settle.2.IsFrank := by
  rw [Batch.IsFrank, settle]
  dsimp only
  split
  · rfl
  · rfl
  · rw [filter_invalid_dedents]
    rfl
  · rw [filter_invalid_dedents]
    rfl
  · rfl

theorem emit_isFrank {s : Scan} {l : Lexeme} {text : Bytes} (h : l.Fits text) :
    (s.emit l).2.IsFrank := by
  have hspoilt := congrArg (List.map fun p : Nat × Nat => (⟨s.file, s.offset + p.1, s.offset + p.2⟩ : Span))
    h.spoilt
  rw [Lexeme.spoilt, List.map_map] at hspoilt
  rw [Batch.IsFrank, emit]
  dsimp only
  rw [List.filter_map, List.map_map]
  have hsame : ((fun d : Diagnostic => d.isUnread) ∘ fun f : Flaw =>
      f.problem.report ⟨s.file, s.offset + f.start, s.offset + f.stop⟩) = fun f => f.problem.spoils := by
    funext f
    exact LexicalProblem.isUnread_report _ _
  rw [hsame]
  refine hspoilt.trans ?_
  by_cases hk : l.kind = .invalid
  · rw [if_pos hk, List.filter_cons_of_pos (by simpa using hk)]
    rfl
  · rw [if_neg hk, List.filter_cons_of_neg (by simpa using hk)]
    rfl

theorem step_isFrank (s : Scan) (b : UInt8) (rest : Bytes) : (s.step b rest).2.IsFrank := by
  change (s.take (Piece.read s.atLineStart b rest)).2.IsFrank
  cases hp : Piece.read s.atLineStart b rest with
  | blank size =>
    rw [take]
    split <;> rfl
  | comment size => rfl
  | lineEnd =>
    rw [take]
    split <;> rfl
  | lexeme l =>
    have hfits := eq_read_of_lexeme hp ▸ Lexeme.read_fits s.atLineStart b rest
    rw [take, Batch.IsFrank, List.filter_append, List.filter_append, List.map_append, List.map_append]
    refine congr (congrArg _ ?_) (emit_isFrank hfits)
    split
    · exact s.settle_isFrank
    · rfl

theorem finish_isFrank (s : Scan) : s.finish.IsFrank := by
  rw [Batch.IsFrank, finish, List.filter_append, List.filter_append, filter_invalid_dedents]
  split <;> rfl

theorem batches_isFrank (s : Scan) : ∀ b ∈ s.batches, b.IsFrank := by
  rw [batches]
  split
  · intro b hb
    rw [List.mem_singleton.mp hb]
    exact s.finish_isFrank
  · rename_i b rest _
    intro batch hbatch
    rcases List.mem_cons.mp hbatch with rfl | hbatch
    · exact s.step_isFrank b rest
    · exact batches_isFrank (s.step b rest).1 batch hbatch
termination_by s.rest.length
decreasing_by exact step_rest_lt s _ _ ‹_›

end Scan

/-- Text that is no token is reported with the spans of the invalid tokens, in their order. -/
theorem File.spans_unread (file : File) : (file.lexicalDiagnostics.filter (·.isUnread)).map (·.span)
    = (file.tokenize.filter (·.kind == .invalid)).map (·.span) := by
  have hall : ∀ bs : List Batch, (∀ b ∈ bs, b.IsFrank) →
      ((bs.flatMap (·.diagnostics)).filter (·.isUnread)).map (·.span)
        = ((bs.flatMap (·.tokens)).filter (·.kind == .invalid)).map (·.span) := by
    intro bs hbs
    induction bs with
    | nil => rfl
    | cons b bs ih =>
      rw [List.flatMap_cons, List.flatMap_cons, List.filter_append, List.filter_append, List.map_append,
        List.map_append, hbs b List.mem_cons_self, ih fun c hc => hbs c (List.mem_cons_of_mem _ hc)]
  exact hall _ (Scan.batches_isFrank _)

end Craftlang
