import Craftlang.Proofs.Machine.Pasting
import Craftlang.Proofs.Syntax.Printing

/-!
# String literals

A literal is read from left to right, and a backslash takes the byte behind it along. So a byte string is
written as a literal that is read as one token with that value, and the text that a datapack holds for it has
quotes at its ends alone. An unknown escape is reported at its backslash, unless the byte behind that is NUL.
-/

namespace Craftlang

/-! ## From left to right -/

namespace Bytes

/-- A text in the order it is read, each part with its place: a backslash and the byte behind it are one
part, every other byte is one of its own. -/
def units (place : Nat) : Bytes → List (Nat × Bytes)
  | [] => []
  | [b] => [(place, [b])]
  | b :: c :: rest =>
    if b = byte '\\' then (place, [b, c]) :: units (place + 2) rest
    else (place, [b]) :: units (place + 1) (c :: rest)

/-- The places of the quotes that no backslash escapes. -/
def bareQuotes (text : Bytes) : List Nat := ((units 0 text).filter (·.2 == [byte '"'])).map (·.1)

/-- The bytes behind backslashes, each with the place of its backslash. -/
def pairs (place : Nat) (text : Bytes) : List (Nat × UInt8) :=
  (units place text).filterMap fun
    | (i, [_, c]) => some (i, c)
    | _ => none

theorem units_cons {b : UInt8} (h : b ≠ byte '\\') (place : Nat) (rest : Bytes) :
    units place (b :: rest) = (place, [b]) :: units (place + 1) rest := by
  cases rest with
  | nil => rfl
  | cons c rest => rw [units, if_neg h]

theorem units_escape (c : UInt8) (place : Nat) (rest : Bytes) :
    units place (byte '\\' :: c :: rest) = (place, [byte '\\', c]) :: units (place + 2) rest := by
  rw [units, if_pos rfl]

theorem IsQuotable.lineFeed_notMem {inside : Bytes} (h : inside.IsQuotable) : lineFeed ∉ inside := by
  induction h with
  | nil => exact List.not_mem_nil
  | plain _ _ hfeed _ ih => exact List.not_mem_cons_of_ne_of_not_mem (Ne.symm hfeed) ih
  | @escape c rest hc _ ih =>
    have hfeed : lineFeed ∉ [byte '"', byte '\\', byte 'n', byte 't'] := by decide
    refine List.not_mem_cons_of_ne_of_not_mem (by decide) (List.not_mem_cons_of_ne_of_not_mem ?_ ih)
    rintro rfl
    exact hfeed hc

/-- Between the ends of a quoted text every quote is escaped. -/
theorem IsQuotable.bareQuotes {inside : Bytes} (h : inside.IsQuotable) :
    bareQuotes (byte '"' :: (inside ++ [byte '"'])) = [0, inside.length + 1] := by
  have hclose : ∀ place, ((units place (inside ++ [byte '"'])).filter (·.2 == [byte '"'])).map (·.1)
      = [place + inside.length] := by
    induction h with
    | nil => exact fun place => rfl
    | @plain b rest hquote hslash _ _ ih =>
      intro place
      have hother : (([b] : Bytes) == [byte '"']) = false := by simpa using hquote
      rw [List.cons_append, units_cons hslash, List.filter_cons_of_neg (by simp [hother]), ih, List.length_cons]
      congr 1
      omega
    | @escape c rest _ _ ih =>
      intro place
      have hother : (([byte '\\', c] : Bytes) == [byte '"']) = false := rfl
      rw [List.cons_append, List.cons_append, units_escape, List.filter_cons_of_neg (by simp [hother]), ih,
        List.length_cons, List.length_cons]
      congr 1
      omega
  rw [Bytes.bareQuotes, units_cons (by decide), List.filter_cons_of_pos rfl, List.map_cons, hclose, Nat.add_comm]

end Bytes

/-! ## Writing a literal -/

namespace Literal

/-- How a byte is written in a literal. -/
def spellByte (b : UInt8) : Bytes :=
  if b = byte '"' then "\\\""
  else if b = byte '\\' then "\\\\"
  else if b = lineFeed then "\\n"
  else if b = byte '\t' then "\\t"
  else [b]

/-- A byte string written as a literal. -/
def spell (s : Bytes) : Bytes := [byte '"'] ++ s.flatMap spellByte ++ [byte '"']

/-- Stored data writes the same, but for carriage returns. -/
theorem escape_eq (b : UInt8) : Snbt.escape b = if b = byte '\r' then [] else spellByte b := by
  have hall : ∀ b : UInt8, Snbt.escape b = if b = byte '\r' then [] else spellByte b :=
    forall_byte (by decide +kernel)
  exact hall b

theorem isQuotable_spellByte (b : UInt8) {rest : Bytes} (h : rest.IsQuotable) : (spellByte b ++ rest).IsQuotable := by
  unfold spellByte
  split
  · exact .escape (by decide) h
  split
  · exact .escape (by decide) h
  split
  · exact .escape (by decide) h
  split
  · exact .escape (by decide) h
  · exact .plain ‹_› ‹_› ‹_› h

theorem isQuotable_spell (s : Bytes) : Bytes.IsQuotable (s.flatMap spellByte) := by
  induction s with
  | nil => exact .nil
  | cons b s ih => exact isQuotable_spellByte b ih

theorem isQuotable_escape (s : Bytes) : Bytes.IsQuotable (s.flatMap Snbt.escape) := by
  induction s with
  | nil => exact .nil
  | cons b s ih =>
    rw [List.flatMap_cons, escape_eq]
    split
    · exact ih
    · exact isQuotable_spellByte b ih

theorem unescape_spell (s : Bytes) : unescape (s.flatMap spellByte) = s := by
  induction s with
  | nil => rfl
  | cons b s ih =>
    rw [List.flatMap_cons]
    by_cases hb : b = byte '\r'
    · subst hb
      exact (unescape_cons (by decide) _).trans (congrArg _ ih)
    · have hsame := unescape_escape b (s.flatMap spellByte)
      rw [escape_eq, if_neg hb, if_neg hb] at hsame
      rw [hsame, ih]
      rfl

/-- A literal has the value it was written for. -/
theorem string_spell (s : Bytes) : string (spell s) = s := by
  have hinside : inside (spell s) = s.flatMap spellByte := by
    rw [spell, List.append_assoc, List.singleton_append, inside]
    simp
  rw [string, hinside, unescape_spell]

end Literal

/-- What a datapack holds for a string is on one line and has no tab. -/
theorem Snbt.notMem_quote (s : Bytes) :
    lineFeed ∉ quote s ∧ byte '\r' ∉ quote s ∧ byte '\t' ∉ quote s := by
  have hbyte : ∀ b : UInt8, (escape b).all fun d => d != lineFeed && d != byte '\r' && d != byte '\t' :=
    forall_byte (by decide +kernel)
  have hall : ∀ d ∈ quote s, d ≠ lineFeed ∧ d ≠ byte '\r' ∧ d ≠ byte '\t' := by
    intro d hd
    rw [quote, List.mem_append, List.mem_append, List.mem_flatMap] at hd
    rcases hd with (hd | ⟨b, -, hd⟩) | hd
    · rw [List.mem_singleton.mp hd]
      decide
    · simpa [and_assoc] using List.all_eq_true.mp (hbyte b) d hd
    · rw [List.mem_singleton.mp hd]
      decide
  exact ⟨fun h => (hall _ h).1 rfl, fun h => (hall _ h).2.1 rfl, fun h => (hall _ h).2.2 rfl⟩

/-- Text without line feeds has no line ends to normalise. -/
theorem normalizeLineEnds_of_notMem {s : Bytes} (h : lineFeed ∉ s) : normalizeLineEnds s = s := by
  fun_induction normalizeLineEnds s with
  | case1 rest ih => exact absurd (by simp [lineFeed]) h
  | case2 b rest _ ih => rw [ih fun hmem => h (List.mem_cons_of_mem _ hmem)]
  | case3 => rfl

/-- The tokens of a line that assigns a literal. -/
def assignment (literal : Bytes) : List (Kind × Bytes) := [(.ident, "x"), (.assign, "="), (.stringLit, literal)]

theorem File.assignment_read {f : File} {inside : Bytes} (h : inside.IsQuotable)
    (hf : f.content = "x = " ++ byte '"' :: (inside ++ [byte '"'])) : f.lexicalDiagnostics = [] ∧
      f.tokenize.map (fun t => (t.kind, t.text))
        = assignment (byte '"' :: (inside ++ [byte '"'])) ++ [(Kind.newline, []), (.eof, [])] := by
  have hident : Kind.IsWritten .ident [byte 'x'] :=
    .ident (by decide +kernel) (by unfold Bytes.IsWord; decide +kernel) (by decide +kernel)
  have hwritten : ∀ t ∈ assignment (byte '"' :: (inside ++ [byte '"'])), t.1.IsWritten t.2 := by
    simp only [assignment, List.forall_mem_cons, List.not_mem_nil, IsEmpty.forall_iff, implies_true, and_true]
    exact ⟨hident, .symbol rfl, .string h⟩
  have hstart : (Scan.start f).IsFlat := ⟨rfl, fun _ => rfl⟩
  have hsaid := hstart.wordings_join _ _ hwritten (fun _ => ⟨Kind.noConfusion, Kind.noConfusion⟩) hf
  obtain ⟨htokens, hdiagnostics⟩ := Prod.mk.inj ((wordings_scan f).symm.trans hsaid)
  exact ⟨List.map_eq_nil_iff.mp hdiagnostics, htokens⟩

/-- Every byte string goes into a datapack and comes out of it: written as a literal behind an assignment it is
read as one token without a complaint, with the string as its value, and what is stored for it is one line that
has quotes at its ends alone and reads back as the string without its carriage returns. -/
theorem FileSet.strings_kept (fs : FileSet) (path : Bytes) (flags : FileFlags) (s : Bytes) :
    let f := (fs.addNormalized path ("x = " ++ Literal.spell s) flags).2
    (f.lexicalDiagnostics = [] ∧ f.tokenize.map (fun t => (t.kind, t.text))
      = assignment (Literal.spell s) ++ [(Kind.newline, []), (.eof, [])]) ∧
    Literal.string (Literal.spell s) = s ∧
    (lineFeed ∉ Snbt.quote s ∧ byte '\r' ∉ Snbt.quote s ∧ byte '\t' ∉ Snbt.quote s) ∧
    (Snbt.quote s).bareQuotes = [0, (Snbt.quote s).length - 1] ∧
    Snbt.read? (Snbt.quote s) = some s.withoutReturns ∧ Literal.string (Snbt.quote s) = s.withoutReturns := by
  refine ⟨File.assignment_read (Literal.isQuotable_spell s) ?_, Literal.string_spell s, Snbt.notMem_quote s, ?_,
    Snbt.read?_quote s, Literal.string_quote s⟩
  · -- The text starts with a letter and holds no line feed.
    have hinside := (Literal.isQuotable_spell s).lineFeed_notMem
    have hfeed : lineFeed ∉ Bytes.ofString "x = " ++ Literal.spell s := by
      rw [Literal.spell, List.mem_append, List.mem_append, List.mem_append, not_or, not_or, not_or]
      exact ⟨by decide, ⟨by decide, hinside⟩, by decide⟩
    exact normalizeLineEnds_of_notMem hfeed
  · exact (Literal.isQuotable_escape s).bareQuotes.trans (by simp [Snbt.quote])

/-! ## Unknown escapes -/

/-- Behind its first byte a rune has only continuations. -/
theorem Utf8.isContinuation_of_mem_rune {b : UInt8} {rest : Bytes} :
    ∀ d ∈ rest.take ((decodeCons b rest).size - 1), isContinuation d = true := by
  have hsecond : ∀ c, isSecond b c = true → isContinuation c = true := fun c => isContinuation_of_isSecond
  unfold decodeCons
  rcases rest with _ | ⟨c, _ | ⟨d, _ | ⟨e, rest⟩⟩⟩
  all_goals
    repeat' split
    all_goals simp_all [Rune.size]

namespace Bytes

theorem pairs_cons {b : UInt8} (h : b ≠ byte '\\') (place : Nat) (rest : Bytes) :
    pairs place (b :: rest) = pairs (place + 1) rest := by
  rw [pairs, units_cons h, List.filterMap_cons_none rfl]
  rfl

theorem pairs_escape (c : UInt8) (place : Nat) (rest : Bytes) :
    pairs place (byte '\\' :: c :: rest) = (place, c) :: pairs (place + 2) rest := by
  rw [pairs, units_escape]
  rfl

/-- No backslash is a continuation. -/
theorem pairs_append_continuations {u : Bytes} (h : ∀ d ∈ u, Utf8.isContinuation d = true) (place : Nat)
    (rest : Bytes) : pairs place (u ++ rest) = pairs (place + u.length) rest := by
  induction u generalizing place with
  | nil => rfl
  | cons d u ih =>
    have hslash : d ≠ byte '\\' := by
      rintro rfl
      exact absurd (h _ List.mem_cons_self) (by decide)
    rw [List.cons_append, pairs_cons hslash, ih fun e he => h e (List.mem_cons_of_mem _ he), List.length_cons]
    congr 1
    omega

/-- The places count from where the text is said to start. -/
theorem pairs_add (place : Nat) (text : Bytes) (shift : Nat) :
    pairs (shift + place) text = (pairs place text).map fun p => (shift + p.1, p.2) := by
  fun_induction units place text with
  | case1 => rfl
  | case2 => rfl
  | case3 place c rest ih =>
    rw [pairs_escape, pairs_escape, List.map_cons, Nat.add_assoc, ih]
  | case4 place b c rest hb ih =>
    rw [pairs_cons hb, pairs_cons hb, Nat.add_assoc, ih]

/-- The pairs in a string that are reported. -/
def misspelt (place : Nat) (inside : Bytes) : List (Nat × UInt8) :=
  (pairs place inside).filter fun p => !Lexeme.isEscape p.2 && p.2 != 0

theorem misspelt_add (place : Nat) (inside : Bytes) (shift : Nat) :
    (misspelt (shift + place) inside).map (·.1) = ((misspelt place inside).map (·.1)).map (shift + ·) := by
  rw [misspelt, pairs_add, List.filter_map, List.map_map, List.map_map]
  rfl

end Bytes

namespace Lexeme

open Bytes (misspelt pairs_cons pairs_escape pairs_append_continuations)

/-- A closed string is reported at the backslashes of its unknown escapes. -/
theorem exists_inside_of_isClosed (offset : Nat) (s : Bytes) (h : (stringBody offset s).isClosed = true) :
    ∃ inside rest, s = inside ++ byte '"' :: rest ∧ (stringBody offset s).size = offset + inside.length + 1 ∧
      (stringBody offset s).flaws.map (·.start) = (misspelt offset inside).map (·.1) := by
  fun_induction stringBody offset s with
  | case1 => cases h
  | case2 => cases h
  | case3 offset rest => exact ⟨[], rest, rfl, rfl, rfl⟩
  | case4 offset b rest hfeed hquote hslash ih =>
    obtain ⟨inside, after, rfl, hsize, hflaws⟩ := ih h
    refine ⟨b :: inside, after, rfl, ?_, ?_⟩
    · rw [hsize, List.length_cons]
      omega
    · rw [hflaws, misspelt, misspelt, pairs_cons hslash]
  | case5 offset b _ _ _ ih =>
    rw [stringBody] at h
    cases h
  | case6 offset b _ _ hslash c more hescape ih =>
    obtain ⟨inside, after, rfl, hsize, hflaws⟩ := ih h
    obtain rfl : b = byte '\\' := by simpa using hslash
    refine ⟨byte '\\' :: c :: inside, after, rfl, ?_, ?_⟩
    · rw [hsize, List.length_cons, List.length_cons]
      omega
    · rw [hflaws, misspelt, misspelt, pairs_escape, List.filter_cons_of_neg (by simp [hescape])]
  | case7 offset b _ _ hslash c more hescape hstop ih =>
    obtain rfl : b = byte '\\' := by simpa using hslash
    obtain ⟨inside, after, hsplit, hsize, hflaws⟩ := ih h
    -- The line goes on behind the backslash, so what follows is the NUL.
    have hnul : c = 0 := by
      simp only [Bool.or_eq_true, decide_eq_true_eq] at hstop
      refine hstop.resolve_left ?_
      rintro rfl
      rw [stringBody.eq_def] at h
      cases h
    subst hnul
    cases inside with
    | nil => cases hsplit
    | cons d inside =>
      obtain ⟨rfl, rfl⟩ := List.cons.inj hsplit
      refine ⟨byte '\\' :: 0 :: inside, after, rfl, ?_, ?_⟩
      · rw [hsize]
        simp only [List.length_cons]
        omega
      · rw [hflaws, misspelt, misspelt, pairs_escape, pairs_cons (by decide), List.filter_cons_of_neg (by simp)]
  | case8 offset b _ _ hslash c more hescape hstop size body ih =>
    obtain rfl : b = byte '\\' := by simpa using hslash
    obtain ⟨inside, after, hsplit, hsize, hflaws⟩ := ih h
    have hpos : 0 < size := Utf8.size_decodeCons_pos c more
    have hle : size ≤ more.length + 1 := Utf8.size_decodeCons_le c more
    obtain ⟨k, hk⟩ : ∃ k, size = k + 1 := ⟨size - 1, by omega⟩
    have hrune : ∀ d ∈ more.take k, Utf8.isContinuation d = true := by
      have hall : ∀ d ∈ more.take (size - 1), Utf8.isContinuation d = true := Utf8.isContinuation_of_mem_rune
      rwa [hk] at hall
    have hlength : (more.take k).length = k := List.length_take_of_le (by omega)
    rw [hk, List.drop_succ_cons] at hsplit
    refine ⟨byte '\\' :: c :: (more.take k ++ inside), after, ?_, ?_, ?_⟩
    · rw [List.cons_append, List.cons_append, List.append_assoc, ← hsplit, List.take_append_drop]
    · change body.size = _
      change body.size = _ at hsize
      rw [hsize, hk, List.length_cons, List.length_cons, List.length_append, hlength]
      omega
    · have hkept : (!isEscape c && c != 0) = true := by
        simp only [Bool.or_eq_true, decide_eq_true_eq, not_or] at hstop
        simp [hescape, hstop.2]
      have hplace : offset + 2 + k = offset + 1 + size := by omega
      change offset :: body.flaws.map (·.start) = _
      change body.flaws.map (·.start) = _ at hflaws
      rw [hflaws, misspelt, misspelt, pairs_escape, pairs_append_continuations hrune, hlength, hplace,
        List.filter_cons_of_pos (by exact hkept), List.map_cons]

/-- Only the escapes in a string are reported inside of it. -/
theorem flaw_of_mem_stringBody (offset : Nat) (s : Bytes) : ∀ x ∈ (stringBody offset s).flaws,
    x.problem = .unknownEscape ∧ x.start < (stringBody offset s).size := by
  fun_induction stringBody offset s with
  | case1 => exact fun x hx => absurd hx List.not_mem_nil
  | case2 => exact fun x hx => absurd hx List.not_mem_nil
  | case3 => exact fun x hx => absurd hx List.not_mem_nil
  | case4 _ _ _ _ _ _ ih => exact ih
  | case5 _ _ _ _ _ ih => exact ih
  | case6 _ _ _ _ _ _ _ _ ih => exact ih
  | case7 _ _ _ _ _ _ _ _ _ ih => exact ih
  | case8 offset b _ _ _ c more _ _ size body ih =>
    intro x hx
    rcases List.mem_cons.mp hx with rfl | hx
    · have hsize := (size_stringBody (offset + 1 + size) ((c :: more).drop size)).1
      change offset + 1 + size ≤ body.size at hsize
      refine ⟨rfl, ?_⟩
      dsimp only
      omega
    · exact ih x hx

/-- Only what starts with a quote is a string literal. -/
theorem string_of_read {atLineStart : Bool} {b : UInt8} {rest : Bytes}
    (h : (read atLineStart b rest).kind = .stringLit) : read atLineStart b rest = string b rest := by
  rcases read_cases atLineStart b rest with ⟨-, hread⟩ | ⟨-, hread⟩ | ⟨-, hread⟩ | hkind
  · rw [hread] at h
    cases h
  · rw [hread] at h
    rcases number_kind b rest with hk | hk <;> cases hk.symm.trans h
  · exact hread
  · rw [h] at hkind
    exact absurd (by decide) hkind

/-- A string literal has its inside between its quotes, and its unknown escapes are reported. -/
theorem string_of_stringLit {atLineStart : Bool} {b : UInt8} {rest : Bytes}
    (h : (read atLineStart b rest).kind = .stringLit) : ∃ inside,
      (read atLineStart b rest).text = b :: (inside ++ [byte '"']) ∧
      (read atLineStart b rest).size = inside.length + 2 ∧
      (read atLineStart b rest).flaws.map (·.start) = (misspelt 1 inside).map (·.1) ∧
      ∀ x ∈ (read atLineStart b rest).flaws, x.problem = .unknownEscape := by
  have hread := string_of_read h
  rw [hread] at h ⊢
  have hclosed : (stringBody 1 rest).isClosed = true := by
    by_contra hopen
    unfold string at h
    dsimp only at h
    rw [if_neg hopen] at h
    cases h
  obtain ⟨inside, after, hrest, hsize, hflaws⟩ := exists_inside_of_isClosed 1 rest hclosed
  have hmax : max 1 (stringBody 1 rest).size = inside.length + 2 := by omega
  have htake : (b :: rest).take (inside.length + 2) = b :: (inside ++ [byte '"']) := by
    have hlength : (b :: (inside ++ [byte '"'])).length = inside.length + 2 := by simp
    have hsplit : b :: rest = b :: (inside ++ [byte '"']) ++ after := by simp [hrest]
    rw [hsplit, ← hlength, List.take_left]
  unfold string
  dsimp only
  rw [if_pos hclosed, hmax, htake]
  exact ⟨inside, rfl, rfl, hflaws, fun x hx => (flaw_of_mem_stringBody 1 rest x hx).1⟩

/-- What is wrong with a lexeme is wrong with some of its bytes. -/
theorem start_of_mem_flaws (atLineStart : Bool) (b : UInt8) (rest : Bytes) :
    ∀ x ∈ (read atLineStart b rest).flaws, x.start < (read atLineStart b rest).size := by
  have hpos := size_read_pos atLineStart b rest
  have hnumber : ∀ x ∈ (number b rest).flaws, x.start = 0 := by
    unfold number
    dsimp only
    split
    · exact fun x hx => absurd hx List.not_mem_nil
    · exact List.forall_mem_singleton.mpr rfl
  have hstring : ∀ x ∈ (string b rest).flaws, x.start = 0 ∨ x.start < (string b rest).size := by
    have hbody := flaw_of_mem_stringBody 1 rest
    unfold string
    dsimp only
    split
    · exact fun x hx => .inr (lt_max_of_lt_right (hbody x hx).2)
    · intro x hx
      rcases List.mem_append.mp hx with hx | hx
      · exact .inr (lt_max_of_lt_right (hbody x hx).2)
      · rw [List.mem_singleton.mp hx]
        exact .inl rfl
  have hoperator : ∀ x ∈ (operator b rest).flaws, x.start = 0 := by
    unfold operator
    split
    · exact fun x hx => absurd hx List.not_mem_nil
    · split
      · exact fun x hx => absurd hx List.not_mem_nil
      · exact List.forall_mem_singleton.mpr rfl
  have hread : ∀ x ∈ (read atLineStart b rest).flaws, x.start = 0 ∨ x.start < (read atLineStart b rest).size := by
    unfold read
    split
    · exact fun x hx => absurd hx List.not_mem_nil
    split
    · exact fun x hx => .inl (hnumber x hx)
    split
    · exact hstring
    split
    · exact fun x hx => absurd hx List.not_mem_nil
    · exact fun x hx => .inl (hoperator x hx)
  exact fun x hx => (hread x hx).elim (fun h => h ▸ hpos) id

end Lexeme

namespace Scan

theorem code_of_mem_settle {s : Scan} {d : Diagnostic} (h : d ∈ s.settle.2.diagnostics) : d.code ≠ .badEscape := by
  have hcode : Code.badIndentation ≠ .badEscape := by decide
  rw [settle] at h
  dsimp only at h
  split at h
  · cases h
  · cases h
  · cases h
  · rw [List.mem_singleton.mp h]
    exact hcode
  · rw [List.mem_singleton.mp h]
    exact hcode

/-- A lexeme is reported behind the layout before it. -/
theorem diagnostics_step {s : Scan} {b : UInt8} {rest : Bytes} {l : Lexeme}
    (hread : Piece.read s.atLineStart b rest = .lexeme l) : (s.step b rest).2.diagnostics =
      (if s.atLineStart then s.settle.2.diagnostics else [])
        ++ l.flaws.map fun x => x.problem.report ⟨s.file, s.offset + x.start, s.offset + x.stop⟩ := by
  change (s.take (Piece.read s.atLineStart b rest)).2.diagnostics = _
  rw [hread, take]
  cases s.atLineStart <;> rfl

theorem badEscapes_step {s : Scan} {b : UInt8} {rest : Bytes} {l : Lexeme}
    (hread : Piece.read s.atLineStart b rest = .lexeme l) (h : ∀ x ∈ l.flaws, x.problem = .unknownEscape) :
    (s.step b rest).2.diagnostics.filter (·.code == .badEscape)
      = l.flaws.map fun x => x.problem.report ⟨s.file, s.offset + x.start, s.offset + x.stop⟩ := by
  have hlayout : (if s.atLineStart then s.settle.2.diagnostics else []).filter (·.code == .badEscape) = [] := by
    rw [List.filter_eq_nil_iff]
    intro d hd hcode
    split at hd
    · exact code_of_mem_settle hd (beq_iff_eq.mp hcode)
    · cases hd
  rw [diagnostics_step hread, List.filter_append, hlayout, List.nil_append, List.filter_eq_self]
  intro d hd
  obtain ⟨x, hx, rfl⟩ := List.mem_map.mp hd
  rw [h x hx]
  rfl

/-- What a step reports about an escape stands in the bytes that it takes. -/
theorem start_of_mem_step {s : Scan} {b : UInt8} {rest : Bytes} {d : Diagnostic}
    (h : d ∈ (s.step b rest).2.diagnostics) (hd : d.code = .badEscape) :
    s.offset ≤ d.span.start ∧ d.span.start < (s.step b rest).1.offset := by
  rw [s.offset_step]
  cases hread : Piece.read s.atLineStart b rest with
  | blank size =>
    change d ∈ (s.take (Piece.read s.atLineStart b rest)).2.diagnostics at h
    rw [hread, take] at h
    split at h <;> cases h
  | comment size =>
    change d ∈ (s.take (Piece.read s.atLineStart b rest)).2.diagnostics at h
    rw [hread, take] at h
    cases h
  | lineEnd =>
    change d ∈ (s.take (Piece.read s.atLineStart b rest)).2.diagnostics at h
    rw [hread, take] at h
    split at h <;> cases h
  | lexeme l =>
    rw [diagnostics_step hread] at h
    have hflaw := (List.mem_append.mp h).resolve_left fun hsettle => by
      split at hsettle
      · exact code_of_mem_settle hsettle hd
      · cases hsettle
    obtain ⟨x, hx, rfl⟩ := List.mem_map.mp hflaw
    obtain rfl := eq_read_of_lexeme hread
    have hstart := Lexeme.start_of_mem_flaws s.atLineStart b rest x hx
    exact ⟨Nat.le_add_right _ _, Nat.add_lt_add_left hstart _⟩

/-- What is reported about escapes from a state on stands in what remains. -/
theorem le_of_mem_batches (s : Scan) : ∀ batch ∈ s.batches, ∀ d ∈ batch.diagnostics, d.code = .badEscape →
    s.offset ≤ d.span.start := by
  intro batch hbatch d hd hcode
  cases hs : s.rest with
  | nil =>
    rw [batches_nil hs, List.mem_singleton] at hbatch
    rw [hbatch] at hd
    cases hd
  | cons b rest =>
    rw [batches_cons hs] at hbatch
    rcases List.mem_cons.mp hbatch with rfl | hbatch
    · exact (start_of_mem_step hd hcode).1
    · have hnext := le_of_mem_batches (s.step b rest).1 batch hbatch d hd hcode
      rw [s.offset_step] at hnext
      omega
termination_by s.rest.length
decreasing_by exact step_rest_lt s b rest hs

end Scan

namespace File

/-- What was reported about escapes before a state stands before it. -/
theorem Reaches.lt_of_mem {f : File} {bs : List Batch} {s : Scan} (h : f.Reaches bs s) :
    ∀ batch ∈ bs, ∀ d ∈ batch.diagnostics, d.code = .badEscape → d.span.start < s.offset := by
  induction h with
  | start => exact fun batch hbatch => absurd hbatch List.not_mem_nil
  | @step bs s b rest _ _ ih =>
    intro batch hbatch d hd hcode
    rcases List.mem_append.mp hbatch with hbatch | hbatch
    · have hlt := ih batch hbatch d hd hcode
      rw [s.offset_step]
      omega
    · rw [List.mem_singleton.mp hbatch] at hd
      exact (Scan.start_of_mem_step hd hcode).2

/-- The reports about escapes that start in a token. -/
def badEscapes (f : File) (t : Token) : List Diagnostic :=
  f.lexicalDiagnostics.filter fun d =>
    d.code == .badEscape && decide (t.span.start ≤ d.span.start ∧ d.span.start < t.span.stop)

/-- What is reported about escapes in a token was reported when it was read. -/
theorem badEscapes_eq {f : File} {t : Token} {bs : List Batch} {s : Scan} {b : UInt8} {rest : Bytes}
    (hreach : f.Reaches bs s) (hs : s.rest = b :: rest) (hstart : t.span.start = s.offset)
    (hstop : t.span.stop = (s.step b rest).1.offset) :
    f.badEscapes t = (s.step b rest).2.diagnostics.filter (·.code == .badEscape) := by
  let isIn := fun d : Diagnostic =>
    d.code == .badEscape && decide (t.span.start ≤ d.span.start ∧ d.span.start < t.span.stop)
  have hscan : f.lexicalDiagnostics = bs.flatMap (·.diagnostics) ++ (s.step b rest).2.diagnostics
      ++ (s.step b rest).1.batches.flatMap (·.diagnostics) := by
    rw [lexicalDiagnostics, (hreach.step hs).scan_eq, List.flatMap_append, List.flatMap_append, List.flatMap_singleton]
  have hbefore : (bs.flatMap (·.diagnostics)).filter isIn = [] := by
    rw [List.filter_eq_nil_iff]
    intro d hd hin
    obtain ⟨batch, hbatch, hd⟩ := List.mem_flatMap.mp hd
    simp only [isIn, Bool.and_eq_true, beq_iff_eq, decide_eq_true_eq] at hin
    have hlt := hreach.lt_of_mem batch hbatch d hd hin.1
    omega
  have hbehind : ((s.step b rest).1.batches.flatMap (·.diagnostics)).filter isIn = [] := by
    rw [List.filter_eq_nil_iff]
    intro d hd hin
    obtain ⟨batch, hbatch, hd⟩ := List.mem_flatMap.mp hd
    simp only [isIn, Bool.and_eq_true, beq_iff_eq, decide_eq_true_eq] at hin
    have hle := Scan.le_of_mem_batches _ batch hbatch d hd hin.1
    omega
  have hhere : (s.step b rest).2.diagnostics.filter isIn
      = (s.step b rest).2.diagnostics.filter (·.code == .badEscape) := by
    refine List.filter_congr fun d hd => ?_
    by_cases hcode : d.code = .badEscape
    · have hplace := Scan.start_of_mem_step hd hcode
      simp only [isIn, hcode, beq_self_eq_true, Bool.true_and, decide_eq_true_eq]
      omega
    · simp [isIn, hcode]
  change f.lexicalDiagnostics.filter isIn = _
  rw [hscan, List.filter_append, List.filter_append, hbefore, hbehind, hhere, List.nil_append, List.append_nil]

/-- The pairs in a string that are none of the four escapes. -/
def strangePairs (t : Token) : List (Nat × UInt8) :=
  (Bytes.pairs (t.span.start + 1) t.text.tail.dropLast).filter fun p =>
    !([byte '"', byte '\\', byte 'n', byte 't'].contains p.2)

/-- In a string literal the backslashes in front of a byte that belongs to no known escape are reported one by
one, in their order, but for those in front of a NUL; so all of them are reported if and only if the literal
has no backslash in front of a NUL. -/
theorem escapes_reported {f : File} {t : Token} (ht : t ∈ f.tokenize) (hk : t.kind = .stringLit) :
    (f.badEscapes t).map (·.span.start) = ((strangePairs t).filter (·.2 != 0)).map (·.1) ∧
    ((f.badEscapes t).map (·.span.start) = (strangePairs t).map (·.1) ↔ ∀ p ∈ strangePairs t, p.2 ≠ 0) := by
  obtain ⟨bs, s, b, rest, l, hreach, hs, hread, htoken⟩ :=
    exists_reaches_lexeme ht (by rw [hk]; rfl) (by rw [hk]; exact Kind.noConfusion)
  have hl := Scan.eq_read_of_lexeme hread
  have hlit : (Lexeme.read s.atLineStart b rest).kind = .stringLit := by rw [← hl, ← hk, htoken]
  obtain ⟨inside, htext, hsize, hflaws, hproblem⟩ := Lexeme.string_of_stringLit hlit
  rw [← hl] at htext hsize hflaws hproblem
  have hstop : t.span.stop = (s.step b rest).1.offset := by
    have hlength : l.text.length = l.size := by rw [htext, hsize]; simp
    rw [s.offset_step, hread, htoken]
    exact congrArg (s.offset + ·) hlength
  have hinside : t.text.tail.dropLast = inside := by
    rw [htoken]
    dsimp only
    rw [htext, List.tail_cons, List.dropLast_concat]
  have hstart : t.span.start = s.offset := by rw [htoken]; rfl
  have hmisspelt : (strangePairs t).filter (·.2 != 0) = Bytes.misspelt (s.offset + 1) inside := by
    have hknown : ∀ c, [byte '"', byte '\\', byte 'n', byte 't'].contains c = Lexeme.isEscape c :=
      forall_byte (by decide +kernel)
    rw [strangePairs, hinside, hstart, List.filter_filter, Bytes.misspelt]
    simp only [hknown, Bool.and_comm]
  have hreported : (f.badEscapes t).map (·.span.start) = ((strangePairs t).filter (·.2 != 0)).map (·.1) := by
    rw [badEscapes_eq hreach hs hstart hstop, Scan.badEscapes_step hread hproblem, hmisspelt, Bytes.misspelt_add,
      ← hflaws, List.map_map, List.map_map]
    rfl
  refine ⟨hreported, hreported ▸ ⟨fun h p hp => ?_, fun h => ?_⟩⟩
  · have hlength := congrArg List.length h
    rw [List.length_map, List.length_map, List.length_filter_eq_length_iff] at hlength
    exact bne_iff_ne.mp (hlength p hp)
  · rw [List.filter_eq_self.mpr fun p hp => bne_iff_ne.mpr (h p hp)]

/-- A literal with two unknown escapes; behind the first backslash stands a NUL. -/
def silent : File := ⟨0, "silent.craft", Bytes.ofString "x = \"\\" ++ 0 :: Bytes.ofString "\\q\"", {}⟩

def silentLiteral : Token :=
  ⟨.stringLit, ⟨0, 4, 10⟩, Bytes.ofString "\"\\" ++ 0 :: Bytes.ofString "\\q\"", [⟨.space, ⟨0, 3, 4⟩, " "⟩]⟩

theorem escapes_silent : (silent.badEscapes silentLiteral).map (·.span.start) = [7] ∧
    (silent.badEscapes silentLiteral).map (·.span.start) ≠ (strangePairs silentLiteral).map (·.1) := by
  have hread : silentLiteral ∈ silent.tokenize := by decide +kernel
  obtain ⟨hreported, hall⟩ := escapes_reported hread rfl
  refine ⟨hreported.trans (by decide +kernel), fun h => ?_⟩
  have hnul := hall.mp h (5, 0) (by decide +kernel)
  exact hnul rfl

end File

end Craftlang
