import Craftlang.Proofs.Syntax.BlankLines

/-!
# Reading what was printed

How identifiers, keywords, numbers, strings, operators and punctuation marks are written is said once more
here, without the functions that read them. A text of such tokens with one space between neighbours is read
as these tokens again, whichever stand side by side and however the parentheses among them match.
-/

namespace Craftlang

/-! ## How tokens are written -/

/-- What may stand between the quotes of a string: bytes as they are, and known escapes. -/
inductive Bytes.IsQuotable : Bytes → Prop
  | nil : IsQuotable []
  | plain {b : UInt8} {rest : Bytes} (hquote : b ≠ byte '"') (hslash : b ≠ byte '\\') (hfeed : b ≠ lineFeed)
      (h : IsQuotable rest) : IsQuotable (b :: rest)
  | escape {c : UInt8} {rest : Bytes} (hc : c ∈ [byte '"', byte '\\', byte 'n', byte 't'])
      (h : IsQuotable rest) : IsQuotable (byte '\\' :: c :: rest)

/-- Digits with underscores among them, before them or behind them. -/
structure Bytes.AreDigits (isDigit : UInt8 → Bool) (text : Bytes) : Prop where
  only : ∀ d ∈ text, isDigit d = true ∨ d = byte '_'
  some : ∃ d ∈ text, isDigit d = true

/-- How a token of a kind is written. -/
inductive Kind.IsWritten : Kind → Bytes → Prop
  | symbol {k : Kind} {s : String} (h : k.spelling? = some s) : IsWritten k s
  | ident {b : UInt8} {rest : Bytes} (hstart : Lexeme.startsWord (Utf8.decodeCons b rest) = true)
      (hword : Bytes.IsWord (b :: rest))
      (hfree : ∀ k ∈ Kind.keywords, k.spelling?.map Bytes.ofString ≠ some (b :: rest)) :
      IsWritten .ident (b :: rest)
  | decimal {b : UInt8} {rest : Bytes} (hb : Bytes.isDigit b = true)
      (hrest : ∀ d ∈ rest, Bytes.isDigit d = true ∨ d = byte '_') : IsWritten .intLit (b :: rest)
  | hexadecimal {x : UInt8} {digits : Bytes} (hx : x = byte 'x' ∨ x = byte 'X')
      (hdigits : digits.AreDigits Bytes.isHexDigit) : IsWritten .intLit (byte '0' :: x :: digits)
  | binary {x : UInt8} {digits : Bytes} (hx : x = byte 'b' ∨ x = byte 'B')
      (hdigits : digits.AreDigits fun d => d == byte '0' || d == byte '1') : IsWritten .intLit (byte '0' :: x :: digits)
  | string {inside : Bytes} (h : inside.IsQuotable) : IsWritten .stringLit (byte '"' :: (inside ++ [byte '"']))

/-! ## Reading one token -/

/-- A text that is over or goes on with a space. -/
def Bytes.Pauses (t : Bytes) : Prop := t = [] ∨ ∃ r, t = byte ' ' :: r

namespace Lexeme

theorem wordLength_pauses {t : Bytes} (ht : t.Pauses) : wordLength t = 0 := by
  obtain rfl | ⟨r, rfl⟩ := ht
  · rw [wordLength]
  · exact wordLength_break rfl r

/-- A word is read to its end. -/
theorem wordLength_of_isWord (text : Bytes) (h : text.IsWord) : wordLength text = text.length := by
  fun_induction wordLength text with
  | case1 => rfl
  | case2 b rest rune hrune ih =>
    have hsize : rune.size ≤ rest.length + 1 := Utf8.size_decodeCons_le b rest
    have hrest : Bytes.IsWord ((b :: rest).drop rune.size) := fun r hr =>
      h r (by rw [Utf8.runes]; exact List.mem_cons_of_mem _ hr)
    rw [ih hrest, List.length_drop, List.length_cons]
    omega
  | case3 b rest rune hrune =>
    exact absurd (h (rune, (b :: rest).take rune.size) (by rw [Utf8.runes]; exact List.mem_cons_self)) hrune

/-- What is no string is read the same whether the text ends behind it or a space follows. -/
theorem read_pauses {c : UInt8} (hquote : c ≠ byte '"') (u : Bytes) {t : Bytes} (ht : t.Pauses) :
    read false c (u ++ t) = read false c u := by
  obtain rfl | ⟨r, rfl⟩ := ht
  · rw [List.append_nil]
  · unfold read
    rw [number_append_break rfl, word_append_break rfl, operator_append_break rfl, Utf8.decodeCons_append c u rfl,
      if_neg hquote, if_neg hquote, Bool.and_false, if_neg Bool.false_ne_true, if_neg Bool.false_ne_true]

theorem number_of_areDigits {b : UInt8} {rest : Bytes} {isDigit : UInt8 → Bool} {mark : Nat}
    (hnumeral : numeral b rest = (isDigit, mark)) (h : Bytes.AreDigits isDigit ((b :: rest).drop mark)) :
    number b rest = ⟨.intLit, b :: rest, (b :: rest).length, []⟩ := by
  have hmark := numeral_mark_le b rest
  rw [hnumeral] at hmark
  have hbody : ((b :: rest).drop mark).takeWhile (fun d => isDigit d || d == byte '_') = (b :: rest).drop mark := by
    rw [List.takeWhile_eq_self_iff]
    intro d hd
    rw [Bool.or_eq_true, beq_iff_eq]
    exact h.only d hd
  have hlength : mark + ((b :: rest).drop mark).length = (b :: rest).length := by
    rw [List.length_drop, List.length_cons]
    omega
  have hpos : 1 ≤ (b :: rest).length := Nat.le_add_left 1 _
  have hany : ((b :: rest).drop mark).any isDigit = true := List.any_eq_true.mpr h.some
  have hglued : wordLength ((b :: rest).drop (b :: rest).length) = 0 := by rw [List.drop_length, wordLength]
  unfold number
  rw [hnumeral]
  dsimp only
  rw [hbody, hlength, hany, hglued, Nat.add_zero, Nat.max_eq_right hpos, List.take_length]
  rfl

theorem numeral_of_decimal {b : UInt8} {rest : Bytes}
    (h : ∀ d ∈ rest, Bytes.isDigit d = true ∨ d = byte '_') : numeral b rest = (Bytes.isDigit, 0) := by
  cases rest with
  | nil => rfl
  | cons x rest =>
    have hmarks : ∀ d, Bytes.isDigit d = true ∨ d = byte '_' → (d ≠ byte 'x' ∧ d ≠ byte 'X') ∧
        d ≠ byte 'b' ∧ d ≠ byte 'B' := forall_byte (by decide +kernel)
    obtain ⟨⟨hx, hX⟩, hb, hB⟩ := hmarks x (h x List.mem_cons_self)
    rw [numeral]
    simp only [hx, hX, hb, hB, decide_false, Bool.or_self, if_false, Bool.false_eq_true, ite_self]

/-- A string is read up to the first quote that no backslash escapes. -/
theorem stringBody_quotable {inside : Bytes} (h : inside.IsQuotable) (t : Bytes) (offset : Nat) :
    stringBody offset (inside ++ byte '"' :: t) = ⟨offset + inside.length + 1, true, []⟩ := by
  induction h generalizing offset with
  | nil =>
    rw [List.nil_append, stringBody.eq_def]
    rfl
  | @plain b rest hquote hslash hfeed _ ih =>
    rw [List.cons_append, stringBody.eq_def]
    simp only [hquote, hslash, hfeed, if_false, ne_eq, not_false_eq_true, if_true]
    rw [ih, List.length_cons]
    congr 1
    omega
  | @escape c rest hc _ ih =>
    have hescape : isEscape c = true := by
      simp only [List.mem_cons, List.not_mem_nil, or_false] at hc
      obtain rfl | rfl | rfl | rfl := hc <;> rfl
    rw [List.cons_append, List.cons_append, stringBody.eq_def]
    simp only [hescape, if_true]
    rw [if_neg (by decide), if_neg (by decide), if_neg (by decide), ih, List.length_cons, List.length_cons]
    congr 1
    omega

theorem string_quotable {inside : Bytes} (h : inside.IsQuotable) (t : Bytes) :
    string (byte '"') (inside ++ [byte '"'] ++ t) = ⟨.stringLit, byte '"' :: (inside ++ [byte '"']),
      (byte '"' :: (inside ++ [byte '"'])).length, []⟩ := by
  have hlength : (byte '"' :: (inside ++ [byte '"'])).length = 1 + inside.length + 1 := by
    rw [List.length_cons, List.length_append, List.length_singleton]
    omega
  have hbody : stringBody 1 (inside ++ [byte '"'] ++ t) = ⟨1 + inside.length + 1, true, []⟩ := by
    rw [List.append_assoc, List.singleton_append, stringBody_quotable h]
  have htake : (byte '"' :: (inside ++ [byte '"'] ++ t)).take (1 + inside.length + 1)
      = byte '"' :: (inside ++ [byte '"']) := by
    rw [← hlength]
    exact List.take_left
  unfold string
  rw [hbody]
  dsimp only
  rw [Nat.max_eq_right (Nat.le_add_left 1 _), htake, hlength]
  rfl

end Lexeme

/-- The front of a text is read as one token, whatever follows behind a space. A slash has to stand
within a line. -/
structure Kind.IsRead (k : Kind) (b : UInt8) (rest : Bytes) : Prop where
  notBlank : Piece.isBlank b = false
  slash : b = byte '/' → k = .slash ∨ k = .slashAssign
  read : ∀ (atLineStart : Bool) {t : Bytes}, (atLineStart = true → b ≠ byte '/') → t.Pauses →
    Piece.read atLineStart b (rest ++ t) = .lexeme ⟨k, b :: rest, (b :: rest).length, []⟩

namespace Kind

/-- A lexeme is read when no blank, comment or line end is. -/
theorem IsRead.of_lexeme {k : Kind} {b : UInt8} {rest : Bytes} (hblank : Piece.isBlank b = false)
    (hcomment : b ≠ byte '#') (hfeed : b ≠ lineFeed) (hslash : b = byte '/' → k = .slash ∨ k = .slashAssign)
    (h : ∀ {t : Bytes}, t.Pauses → Lexeme.read false b (rest ++ t) = ⟨k, b :: rest, (b :: rest).length, []⟩) :
    IsRead k b rest := by
  refine ⟨hblank, hslash, fun atLineStart t hstart ht => ?_⟩
  have hsame : Lexeme.read atLineStart b (rest ++ t) = Lexeme.read false b (rest ++ t) := by
    cases atLineStart with
    | false => rfl
    | true =>
      unfold Lexeme.read
      rw [Bool.and_true, Bool.and_false, if_neg (by simp [hstart rfl]), if_neg Bool.false_ne_true]
  rw [Piece.read, if_neg (by simp [hblank]), if_neg hcomment, if_neg hfeed, hsame, h ht]

/-- A number is read to its end. -/
theorem IsRead.of_number {b : UInt8} {rest : Bytes} (hb : Bytes.isDigit b = true)
    (h : Lexeme.number b rest = ⟨.intLit, b :: rest, (b :: rest).length, []⟩) : IsRead .intLit b rest := by
  have hbytes : ∀ d, Bytes.isDigit d = true → Piece.isBlank d = false ∧ d ≠ byte '#' ∧ d ≠ lineFeed ∧
      d ≠ byte '/' ∧ d ≠ byte '"' := forall_byte (by decide +kernel)
  obtain ⟨hblank, hcomment, hfeed, hslash, hquote⟩ := hbytes b hb
  refine .of_lexeme hblank hcomment hfeed (absurd · hslash) fun ht => ?_
  rw [Lexeme.read_pauses hquote rest ht, Lexeme.read, Bool.and_false, if_neg Bool.false_ne_true, if_pos hb, h]

/-- Keywords, operators and punctuation marks. -/
theorem isRead_symbol {k : Kind} {s : String} (h : k.spelling? = some s) :
    ∃ b rest, Bytes.ofString s = b :: rest ∧ IsRead k b rest := by
  have hall : ∀ k ∈ Kind.all, ∀ s ∈ k.spelling?, ∃ b ∈ (Bytes.ofString s).head?,
      Piece.isBlank b = false ∧ b ≠ byte '#' ∧ b ≠ lineFeed ∧ b ≠ byte '"' ∧
      (b = byte '/' → k = .slash ∨ k = .slashAssign) ∧
      (Lexeme.read false b (Bytes.ofString s).tail).kind = k ∧
      (Lexeme.read false b (Bytes.ofString s).tail).text = s ∧
      (Lexeme.read false b (Bytes.ofString s).tail).size = (Bytes.ofString s).length ∧
      (Lexeme.read false b (Bytes.ofString s).tail).flaws = [] := by
    decide +kernel
  have hmem : k ∈ Kind.all := by cases k <;> decide
  obtain ⟨b, hb, hblank, hcomment, hfeed, hquote, hslash, hkind, htext, hsize, hflaws⟩ := hall k hmem s h
  obtain ⟨rest, hs⟩ := List.head?_eq_some_iff.mp hb
  rw [hs, List.tail_cons] at hkind htext hsize hflaws
  refine ⟨b, rest, hs, .of_lexeme hblank hcomment hfeed hslash fun ht => ?_⟩
  rw [Lexeme.read_pauses hquote rest ht]
  calc Lexeme.read false b rest
      = ⟨(Lexeme.read false b rest).kind, (Lexeme.read false b rest).text, (Lexeme.read false b rest).size,
          (Lexeme.read false b rest).flaws⟩ := rfl
    _ = ⟨k, b :: rest, (b :: rest).length, []⟩ := by rw [hkind, htext, hsize, hflaws]

theorem isRead_ident {b : UInt8} {rest : Bytes} (hstart : Lexeme.startsWord (Utf8.decodeCons b rest) = true)
    (hword : Bytes.IsWord (b :: rest))
    (hfree : ∀ k ∈ Kind.keywords, k.spelling?.map Bytes.ofString ≠ some (b :: rest)) : IsRead .ident b rest := by
  have hident : Bytes.IsIdentifier (b :: rest) := by
    refine ⟨⟨b, rest, rfl, ⟨hstart⟩⟩, Lexeme.wordLength_of_isWord _ hword, ?_⟩
    rw [Kind.keyword?, List.find?_eq_none]
    exact fun k hk heq => hfree k hk (beq_iff_eq.mp heq)
  have hfirst : Lexeme.StartsWord b rest := ⟨hstart⟩
  have hslash : b ≠ byte '/' := by
    rintro rfl
    cases hfirst.isMark
  refine ⟨hfirst.notBlank, (absurd · hslash), fun atLineStart t _ ht => ?_⟩
  obtain ⟨x, r, heq, hx, hread⟩ := hident.read (Lexeme.wordLength_pauses ht)
  obtain ⟨rfl, rfl⟩ : b = x ∧ rest ++ t = r := List.cons.inj heq
  rw [hx.read_eq, hread]

theorem isRead_string {inside : Bytes} (h : inside.IsQuotable) :
    IsRead .stringLit (byte '"') (inside ++ [byte '"']) := by
  refine .of_lexeme (by decide) (by decide) (by decide) (fun heq => absurd heq (by decide)) fun _ => ?_
  rw [Lexeme.read, if_neg (by decide), if_neg (by decide), if_pos rfl, Lexeme.string_quotable h]

/-- What is written is read. -/
theorem IsWritten.exists_isRead {k : Kind} {text : Bytes} (h : k.IsWritten text) :
    ∃ b rest, text = b :: rest ∧ IsRead k b rest := by
  cases h with
  | symbol h => exact isRead_symbol h
  | ident hstart hword hfree => exact ⟨_, _, rfl, isRead_ident hstart hword hfree⟩
  | @decimal b rest hb hrest =>
    have hdigits : Bytes.AreDigits Bytes.isDigit (b :: rest) :=
      ⟨List.forall_mem_cons.mpr ⟨.inl hb, hrest⟩, b, List.mem_cons_self, hb⟩
    exact ⟨_, _, rfl, .of_number hb (Lexeme.number_of_areDigits (Lexeme.numeral_of_decimal hrest) hdigits)⟩
  | @hexadecimal x digits hx hdigits =>
    have hbehind : Bytes.AreDigits _ ((byte '0' :: x :: digits).drop 2) := hdigits
    refine ⟨_, _, rfl, .of_number rfl (Lexeme.number_of_areDigits ?_ hbehind)⟩
    obtain rfl | rfl := hx <;> rfl
  | @binary x digits hx hdigits =>
    have hbehind : Bytes.AreDigits _ ((byte '0' :: x :: digits).drop 2) := hdigits
    refine ⟨_, _, rfl, .of_number rfl (Lexeme.number_of_areDigits ?_ hbehind)⟩
    obtain rfl | rfl := hx <;> rfl
  | string h => exact ⟨_, _, rfl, isRead_string h⟩

end Kind

/-! ## Reading all of them -/

/-- Joined texts start with the first of them. -/
theorem Bytes.exists_join_cons (b : UInt8) (rest : Bytes) (texts : List Bytes) :
    ∃ r, Bytes.join " " ((b :: rest) :: texts) = b :: r := by
  cases texts with
  | nil => exact ⟨rest, rfl⟩
  | cons text texts => exact ⟨_, rfl⟩

namespace Scan

/-- A state in which no line was indented, and in which this line is not either if it has no token yet. -/
structure IsFlat (s : Scan) : Prop where
  levels : s.levels = []
  margin : s.atLineStart = true → s.margin = []

/-- A lexeme without flaws is one token, and only the text and the line move on. -/
theorem IsFlat.wordings_lexeme {s : Scan} (h : s.IsFlat) {b : UInt8} {rest : Bytes} (hs : s.rest = b :: rest)
    {k : Kind} {text : Bytes} (hread : Piece.read s.atLineStart b rest = .lexeme ⟨k, text, text.length, []⟩) :
    ∃ s' : Scan, s'.rest = s.rest.drop text.length ∧ s'.levels = [] ∧ s'.inLine = true ∧
      Batch.wordings s.batches = ((k, text) :: (Batch.wordings s'.batches).1, (Batch.wordings s'.batches).2) := by
  have hsaid := batches_cons hs
  refine ⟨(s.step b rest).1, ?_⟩
  rw [step, hread, take] at hsaid ⊢
  cases hstart : s.atLineStart with
  | false =>
    rw [hstart] at hsaid
    exact ⟨rfl, h.levels, rfl, by rw [hsaid]; rfl⟩
  | true =>
    have hsettle : s.settle = (s, {}) := by
      have hlevels := h.levels
      have hmargin := h.margin hstart
      obtain ⟨file, offset, text, held, margin, levels, inLine, depth⟩ := s
      cases hlevels
      cases hmargin
      rfl
    rw [hstart, if_pos rfl, hsettle] at hsaid
    rw [if_pos rfl, hsettle]
    exact ⟨rfl, h.levels, rfl, by rw [hsaid]; rfl⟩

/-- The tokens of one line, and the end of the line and of the text behind them. -/
theorem IsFlat.wordings_join {s : Scan} (h : s.IsFlat) (t : Kind × Bytes) (ts : List (Kind × Bytes))
    (hwritten : ∀ u ∈ t :: ts, u.1.IsWritten u.2)
    (hslash : s.atLineStart = true → t.1 ≠ .slash ∧ t.1 ≠ .slashAssign)
    (hs : s.rest = Bytes.join " " ((t :: ts).map (·.2))) :
    Batch.wordings s.batches = (t :: ts ++ [(.newline, []), (.eof, [])], []) := by
  obtain ⟨k, text⟩ := t
  obtain ⟨b, rest, rfl, hread⟩ := (hwritten _ List.mem_cons_self).exists_isRead
  have hfirst : s.atLineStart = true → b ≠ byte '/' := by
    intro hstart heq
    obtain rfl | rfl := hread.slash heq
    · exact (hslash hstart).1 rfl
    · exact (hslash hstart).2 rfl
  induction ts generalizing s k b rest with
  | nil =>
    have hs' : s.rest = b :: (rest ++ []) := by rw [hs, List.append_nil]; rfl
    obtain ⟨s', hrest, hlevels, hinLine, hsaid⟩ := h.wordings_lexeme hs' (hread.read _ hfirst (.inl rfl))
    have hend : s'.rest = [] := by rw [hrest, hs', List.append_nil, List.drop_length]
    have hfinish : Batch.wordings s'.batches = ([(.newline, []), (.eof, [])], []) := by
      rw [batches_nil hend, finish, hlevels, hinLine]
      rfl
    rw [hsaid, hfinish]
    rfl
  | cons u us ih =>
    obtain ⟨k', text'⟩ := u
    have hwritten' := List.forall_mem_of_forall_mem_cons hwritten
    obtain ⟨b', rest', rfl, hread'⟩ := (hwritten' _ List.mem_cons_self).exists_isRead
    have hs' : s.rest = b :: (rest ++ byte ' ' :: Bytes.join " " (((k', b' :: rest') :: us).map (·.2))) := by
      rw [hs]
      exact List.append_assoc (b :: rest) [byte ' '] _
    obtain ⟨s', hrest, hlevels, hinLine, hsaid⟩ := h.wordings_lexeme hs' (hread.read _ hfirst (.inr ⟨_, rfl⟩))
    obtain ⟨r, hr⟩ := Bytes.exists_join_cons b' rest' (us.map (·.2))
    have hspace : s'.rest = [byte ' '] ++ b' :: r := by
      rw [hrest, hs', ← List.cons_append, List.drop_left, ← hr]
      rfl
    obtain ⟨u, hu⟩ := exists_passes_blanks hspace (List.forall_mem_singleton.mpr rfl) hread'.notBlank
    have hstart : u.atLineStart = false := by rw [atLineStart, hu.inLine, hinLine]; rfl
    have hflat : u.IsFlat := ⟨hu.levels.trans hlevels, fun heq => absurd (hstart.symm.trans heq) Bool.false_ne_true⟩
    have hnext := ih hflat _ _ _ hwritten' (fun heq => absurd (hstart.symm.trans heq) Bool.false_ne_true)
      (hu.rest.trans hr.symm) hread' (fun heq => absurd (hstart.symm.trans heq) Bool.false_ne_true)
    rw [hsaid, hu.said, hnext]
    rfl

end Scan

namespace File

/-- The texts of tokens, with one space between neighbours, are read as these tokens without a complaint.
Only a slash at the front would begin a command. -/
theorem tokenize_join {f : File} {ts : List (Kind × Bytes)} (hne : ts ≠ [])
    (hwritten : ∀ t ∈ ts, t.1.IsWritten t.2)
    (hfirst : ∀ t ∈ ts.head?, t.1 ≠ .slash ∧ t.1 ≠ .slashAssign)
    (hf : f.content = Bytes.join " " (ts.map (·.2))) :
    f.lexicalDiagnostics = [] ∧
      f.tokenize.map (fun t => (t.kind, t.text)) = ts ++ [(.newline, []), (.eof, [])] := by
  obtain ⟨t, ts, rfl⟩ := List.exists_cons_of_ne_nil hne
  have hstart : (Scan.start f).IsFlat := ⟨rfl, fun _ => rfl⟩
  have hsaid := hstart.wordings_join t ts hwritten (fun _ => hfirst t rfl) hf
  have hscan := (wordings_scan f).symm.trans hsaid
  obtain ⟨htokens, hdiagnostics⟩ := Prod.mk.inj hscan
  exact ⟨List.map_eq_nil_iff.mp hdiagnostics, htokens⟩

/-- Tokens that no program has in this order. -/
def jumble : List (Kind × Bytes) :=
  [(.rParen, ")"), (.lParen, "("), (.ident, "д_1"), (.slashAssign, "/="), (.intLit, "0x_1F"), (.intLit, "1_0"),
    (.stringLit, "\"\\\"/\""), (.dotDot, ".."), (.dot, "."), (.kwWhile, "while"), (.slash, "/")]

def jumbled : File := ⟨0, "jumble.craft", ") ( д_1 /= 0x_1F 1_0 \"\\\"/\" .. . while /", {}⟩

theorem tokenize_jumbled : jumbled.lexicalDiagnostics = [] ∧
    jumbled.tokenize.map (fun t => (t.kind, t.text)) = jumble ++ [(.newline, []), (.eof, [])] := by
  have hident : Kind.IsWritten .ident [0xD0, 0xB4, byte '_', byte '1'] :=
    .ident (by decide +kernel) (by unfold Bytes.IsWord; decide +kernel) (by decide +kernel)
  have hinside : Bytes.IsQuotable [byte '\\', byte '"', byte '/'] :=
    .escape (by decide) (.plain (by decide) (by decide) (by decide) .nil)
  refine tokenize_join (by decide) ?_ (by decide +kernel) (by decide +kernel)
  simp only [jumble, List.forall_mem_cons, List.not_mem_nil, IsEmpty.forall_iff, implies_true, and_true]
  exact ⟨.symbol rfl, .symbol rfl, hident, .symbol rfl,
    .hexadecimal (.inl rfl) ⟨by decide +kernel, by decide +kernel⟩, .decimal (by decide) (by decide +kernel),
    .string hinside, .symbol rfl, .symbol rfl, .symbol rfl, .symbol rfl⟩

end File

end Craftlang
