import Craftlang.Proofs.Syntax.Spelling

/-!
# Words in a text

What is read before a word and does not reach into it does not depend on which word it is; and a text that is one
identifier is read as one word wherever no word goes on behind it.
-/

namespace Craftlang

namespace Utf8

theorem isContinuation_of_isSecond {lead b : UInt8} (h : isSecond lead b = true) : isContinuation b = true := by
  unfold isSecond at h
  simp only [isContinuation, Bool.and_eq_true, decide_eq_true_eq] at h ⊢
  split at h
  · simp only [Bool.and_eq_true, decide_eq_true_eq] at h
    exact ⟨Nat.le_trans (by decide) h.1, h.2⟩
  split at h
  · simp only [Bool.and_eq_true, decide_eq_true_eq] at h
    exact ⟨h.1, Nat.le_trans h.2 (by decide)⟩
  split at h
  · simp only [Bool.and_eq_true, decide_eq_true_eq] at h
    exact ⟨Nat.le_trans (by decide) h.1, h.2⟩
  split at h
  · simp only [Bool.and_eq_true, decide_eq_true_eq] at h
    exact ⟨h.1, Nat.le_trans h.2 (by decide)⟩
  · simpa [isContinuation] using h

/-- No rune goes on into a text that does not start with a continuation byte. -/
theorem decodeCons_append (b : UInt8) (u : Bytes) {x : UInt8} (hx : isContinuation x = false) (r : Bytes) :
    decodeCons b (u ++ x :: r) = decodeCons b u := by
  have hsecond : isSecond b x = false := by
    by_contra h
    rw [isContinuation_of_isSecond (by simpa using h)] at hx
    cases hx
  unfold decodeCons
  rcases u with _ | ⟨c, _ | ⟨d, _ | ⟨e, u⟩⟩⟩
  · rcases r with _ | ⟨y, _ | ⟨z, r⟩⟩
    all_goals simp [hx, hsecond]
  · rcases r with _ | ⟨y, r⟩
    all_goals simp [hx]
  · simp [hx]
  · rfl

/-- A code point that is read is read whatever comes behind. -/
theorem decodeCons_append_of_point {b : UInt8} {u : Bytes} {code size : Nat}
    (h : decodeCons b u = .point code size) (r : Bytes) : decodeCons b (u ++ r) = .point code size := by
  unfold decodeCons at h ⊢
  rcases u with _ | ⟨c, _ | ⟨d, _ | ⟨e, u⟩⟩⟩
  all_goals
    simp only [List.nil_append, List.cons_append] at h ⊢
    grind

end Utf8

/-- Taking from the front stops inside a text, whatever comes behind. -/
theorem takeWhile_append_of_lt {p : UInt8 → Bool} {u r : Bytes} (h : ((u ++ r).takeWhile p).length < u.length)
    (r' : Bytes) : (u ++ r').takeWhile p = (u ++ r).takeWhile p := by
  induction u with
  | nil => cases h
  | cons c u ih =>
    rw [List.cons_append, List.takeWhile_cons] at h ⊢
    rw [List.cons_append, List.takeWhile_cons]
    split
    · rename_i hc
      rw [if_pos hc, List.length_cons, List.length_cons] at h
      rw [ih (by omega)]
    · rfl

/-- Or at its end, if what comes behind starts alike. -/
theorem takeWhile_append_of_le {p : UInt8 → Bool} {u r r' : Bytes} {x x' : UInt8}
    (h : ((u ++ x :: r).takeWhile p).length ≤ u.length) (hp : p x' = p x) :
    (u ++ x' :: r').takeWhile p = (u ++ x :: r).takeWhile p := by
  induction u with
  | nil =>
    rw [List.nil_append, List.takeWhile_cons] at h ⊢
    rw [List.nil_append, List.takeWhile_cons, hp]
    split
    · rename_i hx
      rw [if_pos hx] at h
      cases h
    · rfl
  | cons c u ih =>
    rw [List.cons_append, List.takeWhile_cons] at h ⊢
    rw [List.cons_append, List.takeWhile_cons]
    split
    · rename_i hc
      rw [if_pos hc, List.length_cons, List.length_cons] at h
      rw [ih (by omega)]
    · rfl

namespace Lexeme

/-- A byte that starts something else than a word. -/
def isMark (b : UInt8) : Bool :=
  Piece.isBlank b || b == lineFeed || b == 0 || b == byte '#' || b == byte '/' || Bytes.isDigit b ||
    b == byte '"' || b == byte '.' || b == byte '='

/-- A text starts with a word. -/
structure StartsWord (x : UInt8) (r : Bytes) : Prop where
  starts : startsWord (Utf8.decodeCons x r) = true

namespace StartsWord

variable {x : UInt8} {r : Bytes}

theorem isMark (h : StartsWord x r) : Lexeme.isMark x = false := by
  have hmark : ∀ b : UInt8, Lexeme.isMark b = true →
      b < 0x80 ∧ (b.toNat == 0x5F || CodePoint.isLetter b.toNat) = false := forall_byte (by decide +kernel)
  by_contra hx
  obtain ⟨hlt, hletter⟩ := hmark x (by simpa using hx)
  have hstart := h.starts
  rw [Utf8.decodeCons.eq_def, if_pos hlt, startsWord, hletter] at hstart
  cases hstart

theorem notBlank (h : StartsWord x r) : Piece.isBlank x = false := by
  have hmark := h.isMark
  simp only [Lexeme.isMark, Bool.or_eq_false_iff] at hmark
  exact hmark.1.1.1.1.1.1.1.1

theorem ne_lineFeed (h : StartsWord x r) : (x == lineFeed) = false := by
  have hmark := h.isMark
  simp only [Lexeme.isMark, Bool.or_eq_false_iff] at hmark
  exact hmark.1.1.1.1.1.1.1.2

theorem operatorPair_eq_none (h : StartsWord x r) (c : UInt8) : operatorPair? c x = none := by
  have hmark := h.isMark
  simp only [Lexeme.isMark, Bool.or_eq_false_iff, beq_eq_false_iff_ne] at hmark
  rw [operatorPair?, List.find?_eq_none]
  intro k hk
  have hpairs : ∀ k ∈ [Kind.dotDot, .eqEq, .bangEq, .ltEq, .gtEq, .plusAssign, .minusAssign, .starAssign,
      .slashAssign, .percentAssign, .ampAssign, .caretAssign, .pipeAssign],
      ((k.spelling?.map Bytes.ofString).bind (·.getLast?)).any (fun b => b == byte '.' || b == byte '=') = true := by
    decide
  have hpair := hpairs k hk
  rw [beq_iff_eq]
  intro heq
  rw [heq] at hpair
  have hx : x = byte '.' ∨ x = byte '=' := by simpa using hpair
  exact hx.elim hmark.1.2 hmark.2

theorem isContinuation (h : StartsWord x r) : Utf8.isContinuation x = false := by
  have hrange : ∀ b : UInt8, Utf8.isContinuation b = true → ¬ b < 0x80 ∧ b < 0xC2 := forall_byte (by decide +kernel)
  by_contra hx
  obtain ⟨hge, hlt⟩ := hrange x (by simpa using hx)
  have hstart := h.starts
  rw [Utf8.decodeCons.eq_def, if_neg hge, if_pos hlt] at hstart
  cases hstart

theorem wordLength_pos (h : StartsWord x r) : 0 < wordLength (x :: r) := by
  have hsize := Utf8.size_decodeCons_pos x r
  rw [wordLength, if_pos (continuesWord_of_startsWord h.starts)]
  omega

end StartsWord

/-!
## Lexemes before a word

What is read before a word and does not reach into it does not depend on which word it is.
-/

section

variable {x x' : UInt8} {r r' : Bytes}

theorem take_append_of_le {c : UInt8} {u : Bytes} {n : Nat} (t : Bytes) (h : n ≤ u.length + 1) :
    (c :: (u ++ t)).take n = (c :: u).take n := by
  rw [← List.cons_append]
  exact List.take_append_of_le_length h

theorem drop_append_of_le {c : UInt8} {u : Bytes} {n : Nat} (t : Bytes) (h : n ≤ u.length + 1) :
    (c :: (u ++ t)).drop n = (c :: u).drop n ++ t := by
  rw [← List.cons_append]
  exact List.drop_append_of_le_length h

theorem wordLength_cons_append (hx : StartsWord x r) (c : UInt8) (u : Bytes) :
    wordLength (c :: (u ++ x :: r)) = if continuesWord (Utf8.decodeCons c u) then
      (Utf8.decodeCons c u).size + wordLength ((c :: u).drop (Utf8.decodeCons c u).size ++ x :: r) else 0 := by
  rw [wordLength, Utf8.decodeCons_append c u hx.isContinuation, drop_append_of_le _ (Utf8.size_decodeCons_le c u)]

theorem wordLength_append (hx : StartsWord x r) (hx' : StartsWord x' r') : ∀ u : Bytes,
    wordLength (u ++ x :: r) ≤ u.length → wordLength (u ++ x' :: r') = wordLength (u ++ x :: r)
  | [], h => absurd h (Nat.not_le.mpr hx.wordLength_pos)
  | c :: u, h => by
    have hpos := Utf8.size_decodeCons_pos c u
    have hlength : ((c :: u).drop (Utf8.decodeCons c u).size).length
        = u.length + 1 - (Utf8.decodeCons c u).size := List.length_drop
    rw [List.cons_append, wordLength_cons_append hx, List.length_cons] at h
    rw [List.cons_append, List.cons_append, wordLength_cons_append hx, wordLength_cons_append hx']
    split
    · rename_i hword
      rw [if_pos hword] at h
      rw [wordLength_append hx hx' ((c :: u).drop (Utf8.decodeCons c u).size) (by omega)]
    · rfl
termination_by u => u.length
decreasing_by rw [List.length_drop, List.length_cons]; omega

theorem lt_size_stringBody (offset : Nat) (s : Bytes) (h : (stringBody offset s).isClosed = true) :
    offset < (stringBody offset s).size := by
  fun_induction stringBody offset s with
  | case1 | case2 => cases h
  | case3 => exact Nat.lt_succ_self _
  | case4 _ _ _ _ _ _ ih | case5 _ _ _ _ _ ih | case6 _ _ _ _ _ _ _ _ ih | case7 _ _ _ _ _ _ _ _ _ ih =>
    have := ih h
    omega
  | case8 _ _ _ _ _ _ _ _ _ size body ih =>
    exact Nat.lt_trans (by omega) (ih h)

theorem exists_cons_of_take {c : UInt8} {s t : Bytes} {n : Nat} (h : t.take (n + 1) = (c :: s).take (n + 1)) :
    ∃ t', t = c :: t' ∧ t'.take n = s.take n := by
  cases t with
  | nil => cases h
  | cons d t =>
    rw [List.take_succ_cons, List.take_succ_cons, List.cons.injEq] at h
    obtain ⟨rfl, h⟩ := h
    exact ⟨t, rfl, h⟩

/-- A string that closes somewhere closes there whatever comes behind. -/
theorem stringBody_congr (offset : Nat) (s : Bytes) (hclosed : (stringBody offset s).isClosed = true)
    (hflaws : (stringBody offset s).flaws = []) {n : Nat} (hsize : (stringBody offset s).size ≤ offset + n)
    {t : Bytes} (ht : t.take n = s.take n) : stringBody offset t = stringBody offset s := by
  have hlt := lt_size_stringBody offset s hclosed
  obtain ⟨m, rfl⟩ : ∃ m, n = m + 1 := ⟨n - 1, by omega⟩
  fun_induction stringBody offset s generalizing t m with
  | case1 | case2 => cases hclosed
  | case3 offset rest hfeed =>
    obtain ⟨t, rfl, -⟩ := exists_cons_of_take ht
    rw [stringBody.eq_def]
    simp [hfeed]
  | case4 offset b rest hfeed hquote hslash ih =>
    obtain ⟨t, rfl, htail⟩ := exists_cons_of_take ht
    have hnext := lt_size_stringBody _ _ hclosed
    obtain ⟨m, rfl⟩ : ∃ k, m = k + 1 := ⟨m - 1, by omega⟩
    rw [stringBody.eq_def]
    simp only [hfeed, hquote, hslash, if_false, ne_eq, not_false_eq_true, if_true]
    exact ih hclosed hflaws hnext m (by omega) htail
  | case5 => simp [stringBody] at hclosed
  | case6 offset b hfeed hquote hslash c more hescape ih =>
    have hnext := lt_size_stringBody _ _ hclosed
    obtain ⟨m, rfl⟩ : ∃ k, m = k + 2 := ⟨m - 2, by omega⟩
    obtain ⟨t, rfl, htail⟩ := exists_cons_of_take ht
    obtain ⟨t, rfl, hrest⟩ := exists_cons_of_take htail
    rw [stringBody.eq_def]
    simp only [hfeed, hquote, hslash, hescape, if_false, if_true]
    exact ih hclosed hflaws hnext m (by omega) hrest
  | case7 offset b hfeed hquote hslash c more hescape hend ih =>
    have hnext := lt_size_stringBody _ _ hclosed
    obtain ⟨m, rfl⟩ : ∃ k, m = k + 1 := ⟨m - 1, by omega⟩
    obtain ⟨t, rfl, htail⟩ := exists_cons_of_take ht
    obtain ⟨t, rfl, -⟩ := exists_cons_of_take htail
    rw [stringBody.eq_def]
    simp only [hfeed, hquote, hslash, hescape, hend, if_false, if_true]
    exact ih hclosed hflaws hnext m (by omega) htail
  | case8 => cases hflaws

variable (hx : StartsWord x r) (hx' : StartsWord x' r') {c : UInt8} {u : Bytes}

include hx hx'

theorem word_append (h : (word c (u ++ x :: r)).size ≤ u.length + 1) :
    word c (u ++ x' :: r') = word c (u ++ x :: r) := by
  unfold word at h ⊢
  dsimp only at h ⊢
  rw [Utf8.decodeCons_append c u hx.isContinuation, drop_append_of_le _ (Utf8.size_decodeCons_le c u)] at h ⊢
  rw [Utf8.decodeCons_append c u hx'.isContinuation, drop_append_of_le _ (Utf8.size_decodeCons_le c u)]
  have hsize := Utf8.size_decodeCons_le c u
  have hlength : ((c :: u).drop (Utf8.decodeCons c u).size).length
      = u.length + 1 - (Utf8.decodeCons c u).size := List.length_drop
  rw [wordLength_append hx hx' ((c :: u).drop (Utf8.decodeCons c u).size) (by omega), take_append_of_le _ h,
    take_append_of_le _ h]

theorem number_append (h : (number c (u ++ x :: r)).size ≤ u.length + 1)
    (hflaws : (number c (u ++ x :: r)).flaws = []) : number c (u ++ x' :: r') = number c (u ++ x :: r) := by
  obtain ⟨isDigit, mark, hnumeral⟩ : ∃ isDigit mark, numeral c (u ++ x :: r) = (isDigit, mark) := ⟨_, _, rfl⟩
  have hmark : u ≠ [] → mark ≤ u.length + 1 ∧ numeral c (u ++ x' :: r') = (isDigit, mark) := by
    intro hu
    cases u with
    | nil => exact absurd rfl hu
    | cons d u =>
      refine ⟨?_, hnumeral⟩
      have hle := numeral_mark_le c (d :: u)
      change (numeral c (d :: u ++ x :: r)).2 ≤ _ at hle
      rwa [hnumeral] at hle
  unfold number at h hflaws ⊢
  dsimp only at h hflaws ⊢
  rw [hnumeral] at h hflaws ⊢
  dsimp only at h hflaws ⊢
  generalize hbody : ((c :: (u ++ x :: r)).drop mark).takeWhile (fun d => isDigit d || d == byte '_') = body
    at h hflaws ⊢
  split at hflaws
  · rename_i hdigits
    rw [if_pos hdigits] at h ⊢
    rw [Bool.and_eq_true, beq_iff_eq] at hdigits
    obtain ⟨hdigits, hglued⟩ := hdigits
    rw [hglued] at h ⊢
    dsimp only at h
    have hpos : 0 < body.length := by
      cases body with
      | nil => cases hdigits
      | cons => exact Nat.succ_pos _
    -- If the number went on to the word, the word would be glued to it.
    have hlt : mark + body.length < u.length + 1 := by
      rcases Nat.lt_or_ge (mark + body.length) (u.length + 1) with hlt | hge
      · exact hlt
      · have heq : mark + body.length = (c :: u).length := by rw [List.length_cons]; omega
        rw [heq, ← List.cons_append, List.drop_left] at hglued
        exact absurd hglued (Nat.ne_of_gt hx.wordLength_pos)
    obtain ⟨hle, hnumeral'⟩ := hmark (by
      rintro rfl
      rw [List.length_nil] at hlt
      omega)
    rw [hnumeral']
    dsimp only
    rw [drop_append_of_le _ hle] at hbody ⊢
    rw [takeWhile_append_of_lt (by rw [hbody, List.length_drop, List.length_cons]; omega) (x' :: r'), hbody]
    rw [drop_append_of_le _ (Nat.le_of_lt hlt)] at hglued ⊢
    rw [wordLength_append hx hx' _ (by rw [hglued]; exact Nat.zero_le _), hglued, if_pos (by rw [hdigits]; rfl)]
    rw [take_append_of_le _ h, take_append_of_le _ h]
  · cases hflaws

omit hx hx' in
theorem string_append (h : (string c (u ++ x :: r)).size ≤ u.length + 1)
    (hflaws : (string c (u ++ x :: r)).flaws = []) : string c (u ++ x' :: r') = string c (u ++ x :: r) := by
  unfold string at h hflaws ⊢
  dsimp only at h hflaws ⊢
  split at hflaws
  · rename_i hclosed
    rw [if_pos hclosed] at h ⊢
    dsimp only at h
    rw [stringBody_congr 1 (u ++ x :: r) hclosed hflaws (n := u.length) (by omega) (t := u ++ x' :: r')
      (by rw [List.take_left, List.take_left]), if_pos hclosed]
    rw [take_append_of_le _ h, take_append_of_le _ h]
  · simp at hflaws

theorem command_append (h : (command c (u ++ x :: r)).size ≤ u.length + 1) :
    command c (u ++ x' :: r') = command c (u ++ x :: r) := by
  have hline : ((u ++ x' :: r').takeWhile (· != lineFeed)) = ((u ++ x :: r).takeWhile (· != lineFeed)) := by
    refine takeWhile_append_of_le (by change 1 + _ ≤ _ at h; omega) ?_
    rw [bne, bne, hx.ne_lineFeed, hx'.ne_lineFeed]
  unfold command
  dsimp only
  rw [hline]

theorem operator_append (hflaws : (operator c (u ++ x :: r)).flaws = []) :
    operator c (u ++ x' :: r') = operator c (u ++ x :: r) := by
  have hpair : (u ++ x' :: r').head?.bind (operatorPair? c) = (u ++ x :: r).head?.bind (operatorPair? c) := by
    cases u with
    | nil => exact (hx'.operatorPair_eq_none c).trans (hx.operatorPair_eq_none c).symm
    | cons d u => rfl
  unfold operator at hflaws ⊢
  rw [hpair]
  split
  · rename_i k hk
    cases u with
    | nil =>
      change operatorPair? c x = some k at hk
      rw [hx.operatorPair_eq_none] at hk
      cases hk
    | cons d u => rfl
  rename_i hk
  rw [hk] at hflaws
  dsimp only at hflaws
  split
  · rfl
  · rename_i hbyte
    rw [hbyte] at hflaws
    cases hflaws

/-- A lexeme that ends before a word is the same before any word. -/
theorem read_append {atLineStart : Bool} (h : (read atLineStart c (u ++ x :: r)).size ≤ u.length + 1)
    (hflaws : (read atLineStart c (u ++ x :: r)).flaws = []) :
    read atLineStart c (u ++ x' :: r') = read atLineStart c (u ++ x :: r) := by
  unfold read at h hflaws ⊢
  rw [Utf8.decodeCons_append c u hx.isContinuation] at h hflaws ⊢
  rw [Utf8.decodeCons_append c u hx'.isContinuation]
  split
  · rename_i hcommand
    rw [if_pos hcommand] at h
    exact command_append hx hx' h
  rename_i hcommand
  rw [if_neg hcommand] at h hflaws
  split
  · rename_i hnumber
    rw [if_pos hnumber] at h hflaws
    exact number_append hx hx' h hflaws
  rename_i hnumber
  rw [if_neg hnumber] at h hflaws
  split
  · rename_i hstring
    rw [if_pos hstring] at h hflaws
    exact string_append h hflaws
  rename_i hstring
  rw [if_neg hstring] at h hflaws
  split
  · rename_i hword
    rw [if_pos hword] at h
    exact word_append hx hx' h
  · rename_i hword
    rw [if_neg hword] at hflaws
    exact operator_append hx hx' hflaws

end

end Lexeme

/-- The same for all that is read. -/
theorem Piece.read_append {x x' : UInt8} {r r' : Bytes} (hx : Lexeme.StartsWord x r) (hx' : Lexeme.StartsWord x' r')
    {atLineStart : Bool} {c : UInt8} {u : Bytes} (h : (read atLineStart c (u ++ x :: r)).size ≤ u.length + 1)
    (hflaws : ∀ l, read atLineStart c (u ++ x :: r) = .lexeme l → l.flaws = []) :
    read atLineStart c (u ++ x' :: r') = read atLineStart c (u ++ x :: r) := by
  unfold read at h hflaws ⊢
  split
  · rename_i hblank
    rw [if_pos hblank] at h
    change 1 + _ ≤ _ at h
    rw [takeWhile_append_of_le (r := r) (x := x) (by omega) (hx'.notBlank.trans hx.notBlank.symm)]
  rename_i hblank
  rw [if_neg hblank] at h hflaws
  split
  · rename_i hcomment
    rw [if_pos hcomment] at h
    change 1 + _ ≤ _ at h
    rw [takeWhile_append_of_le (r := r) (x := x) (by omega) (by rw [bne, bne, hx.ne_lineFeed, hx'.ne_lineFeed])]
  rename_i hcomment
  rw [if_neg hcomment] at h hflaws
  split
  · rfl
  · rename_i hfeed
    rw [if_neg hfeed] at h hflaws
    rw [Lexeme.read_append hx hx' h (hflaws _ rfl)]

/-! ## Words -/

namespace Lexeme

theorem StartsWord.read_eq {x : UInt8} {r : Bytes} (h : StartsWord x r) (atLineStart : Bool) :
    Piece.read atLineStart x r = .lexeme (word x r) := by
  have hmark := h.isMark
  simp only [Lexeme.isMark, Bool.or_eq_false_iff, beq_eq_false_iff_ne] at hmark
  obtain ⟨⟨⟨⟨⟨⟨⟨⟨hblank, hfeed⟩, -⟩, hcomment⟩, hslash⟩, hdigit⟩, hquote⟩, -⟩, -⟩ := hmark
  rw [Piece.read, if_neg (by rw [hblank]; exact Bool.false_ne_true), if_neg hcomment, if_neg hfeed, Lexeme.read]
  rw [if_neg (by simp [hslash]), if_neg (by rw [hdigit]; exact Bool.false_ne_true), if_neg hquote, if_pos h.starts]

/-- Only a word is an identifier. -/
theorem startsWord_of_ident {atLineStart : Bool} {b : UInt8} {rest : Bytes}
    (h : (read atLineStart b rest).kind = .ident) : StartsWord b rest := by
  unfold read at h
  split at h
  · cases h
  split at h
  · unfold number at h
    dsimp only at h
    split at h <;> cases h
  split at h
  · unfold string at h
    dsimp only at h
    split at h <;> cases h
  split at h
  · exact ⟨‹_›⟩
  · exact absurd h (operator_kind_ne_ident b rest)

/-- The kinds that only numbers, strings and commands have. -/
def valued : List Kind := [.intLit, .stringLit, .command]

theorem word_kind_notMem (b : UInt8) (rest : Bytes) : (word b rest).kind ∉ valued := by
  have hall : ∀ k ∈ Kind.keywords, k ∉ valued := by decide
  unfold word
  dsimp only
  generalize (b :: rest).take _ = text
  cases h : Kind.keyword? text with
  | none => decide
  | some k => exact hall k (List.mem_of_find?_eq_some h)

theorem operator_kind_notMem (b : UInt8) (rest : Bytes) : (operator b rest).kind ∉ valued := by
  have hpair : ∀ k ∈ [Kind.dotDot, .eqEq, .bangEq, .ltEq, .gtEq, .plusAssign, .minusAssign, .starAssign,
      .slashAssign, .percentAssign, .ampAssign, .caretAssign, .pipeAssign], k ∉ valued := by decide
  have hbyte : ∀ k ∈ [Kind.plus, .minus, .star, .slash, .percent, .bang, .amp, .pipe, .caret, .assign, .lt, .gt,
      .lParen, .rParen, .comma, .colon, .dot], k ∉ valued := by decide
  have hinvalid : Kind.invalid ∉ valued := by decide
  rw [operator]
  split
  · rename_i k hk
    obtain ⟨c, -, hc⟩ := Option.bind_eq_some_iff.mp hk
    exact hpair k (List.mem_of_find?_eq_some hc)
  · split
    · rename_i k hk
      exact hbyte k (List.mem_of_find?_eq_some hk)
    · exact hinvalid

/-- What a lexeme starts with decides how it is read. -/
theorem read_cases (atLineStart : Bool) (b : UInt8) (rest : Bytes) :
    (b = byte '/' ∧ read atLineStart b rest = command b rest) ∨
    (Bytes.isDigit b = true ∧ read atLineStart b rest = number b rest) ∨
    (b = byte '"' ∧ read atLineStart b rest = string b rest) ∨
    (read atLineStart b rest).kind ∉ valued := by
  unfold read
  split
  · rename_i hcommand
    simp only [Bool.and_eq_true, decide_eq_true_eq] at hcommand
    exact .inl ⟨hcommand.1, rfl⟩
  split
  · exact .inr (.inl ⟨‹_›, rfl⟩)
  split
  · exact .inr (.inr (.inl ⟨‹_›, rfl⟩))
  split
  · exact .inr (.inr (.inr (word_kind_notMem b rest)))
  · exact .inr (.inr (.inr (operator_kind_notMem b rest)))

theorem number_kind (b : UInt8) (rest : Bytes) :
    (number b rest).kind = .intLit ∨ (number b rest).kind = .invalid := by
  unfold number
  dsimp only
  split
  · exact .inl rfl
  · exact .inr rfl

theorem string_kind (b : UInt8) (rest : Bytes) :
    (string b rest).kind = .stringLit ∨ (string b rest).kind = .invalid := by
  unfold string
  dsimp only
  split
  · exact .inl rfl
  · exact .inr rfl

theorem word_size {b : UInt8} {rest : Bytes} (h : StartsWord b rest) :
    (word b rest).size = wordLength (b :: rest) := by
  rw [wordLength, if_pos (continuesWord_of_startsWord h.starts)]
  rfl

/-- Behind a word there is none. -/
theorem wordLength_drop (s : Bytes) : wordLength (s.drop (wordLength s)) = 0 := by
  fun_induction wordLength s with
  | case1 => rw [List.drop_nil, wordLength]
  | case2 b rest rune hrune ih => rwa [← List.drop_drop]
  | case3 b rest rune hrune => rw [List.drop_zero, wordLength, if_neg hrune]

/-- A word goes on with what follows. -/
theorem wordLength_append_of_eq (s t : Bytes) (h : wordLength s = s.length) :
    wordLength (s ++ t) = s.length + wordLength t := by
  fun_induction wordLength s with
  | case1 => rw [List.nil_append, List.length_nil, Nat.zero_add]
  | case2 b rest rune hrune ih =>
    obtain ⟨code, size, hpoint⟩ := exists_point hrune
    have hsize : rune.size ≤ rest.length + 1 := Utf8.size_decodeCons_le b rest
    have hsame : Utf8.decodeCons b (rest ++ t) = rune := (Utf8.decodeCons_append_of_point hpoint t).trans hpoint.symm
    have hlength : ((b :: rest).drop rune.size).length = rest.length + 1 - rune.size := List.length_drop
    rw [List.length_cons] at h ⊢
    rw [List.cons_append, wordLength, hsame, if_pos hrune, drop_append_of_le t hsize, ih (by omega)]
    omega
  | case3 => cases h

end Lexeme

/-- Text that is one identifier. -/
structure Bytes.IsIdentifier (text : Bytes) : Prop where
  starts : ∃ b rest, text = b :: rest ∧ Lexeme.StartsWord b rest
  isWord : Lexeme.wordLength text = text.length
  free : Kind.keyword? text = none

/-- Such a text is read as one word if no word goes on behind it. -/
theorem Bytes.IsIdentifier.read {text : Bytes} (h : text.IsIdentifier) {t : Bytes} (ht : Lexeme.wordLength t = 0) :
    ∃ x r, text ++ t = x :: r ∧ Lexeme.StartsWord x r ∧ Lexeme.word x r = ⟨.ident, text, text.length, []⟩ := by
  obtain ⟨x, rest, rfl, hx⟩ := h.starts
  obtain ⟨code, size, hpoint⟩ := Lexeme.exists_point (Lexeme.continuesWord_of_startsWord hx.starts)
  have hstarts : Lexeme.StartsWord x (rest ++ t) :=
    ⟨by rw [Utf8.decodeCons_append_of_point hpoint, ← hpoint]; exact hx.starts⟩
  refine ⟨x, rest ++ t, rfl, hstarts, ?_⟩
  have hsize : (Lexeme.word x (rest ++ t)).size = (x :: rest).length := by
    rw [Lexeme.word_size hstarts, ← List.cons_append, Lexeme.wordLength_append_of_eq _ _ h.isWord, ht,
      Nat.add_zero]
  have htext : (x :: (rest ++ t)).take (x :: rest).length = x :: rest := List.take_left
  unfold Lexeme.word at hsize ⊢
  dsimp only at hsize ⊢
  rw [hsize, htext, h.free]
  rfl

end Craftlang
