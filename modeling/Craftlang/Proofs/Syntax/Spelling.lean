import Craftlang.Proofs.Code.Names
import Craftlang.Proofs.Syntax.Reading
import Craftlang.Text.Letter

/-!
# Spelling of names

The names in a program are words: letters, decimal digits and underscores. No such character has a dot in
its decomposition, so no name turns into a resource name that holds one.
-/

namespace Craftlang

/-! ## ASCII text -/

theorem utf8EncodeChar_of_ascii {c : Char} (h : ∀ b ∈ String.utf8EncodeChar c, b < 0x80) :
    String.utf8EncodeChar c = [byte c] := by
  have hlast : ∀ v : Nat, ¬ UInt8.ofNat (v % 64 + 128) < 0x80 := by
    intro v
    rw [UInt8.lt_iff_toNat_lt, UInt8.toNat_ofNat', show (0x80 : UInt8).toNat = 128 from rfl]
    omega
  unfold String.utf8EncodeChar at h ⊢
  dsimp only at h ⊢
  split at h
  · rename_i hle
    rw [if_pos hle]
    rfl
  · -- A character that takes several bytes ends in one of a continuation.
    refine absurd (h (UInt8.ofNat (c.val.toNat % 64 + 128)) ?_) (hlast _)
    split
    · simp
    · split <;> simp

/-- The bytes that an ASCII text holds are its characters. They are evaluated at once, where its characters
are read one behind another. -/
theorem toList_map_byte {s : String} (h : ∀ b ∈ s.toByteArray.data.toList, b < 0x80) :
    s.toList.map byte = s.toByteArray.data.toList := by
  have hbytes : s.toByteArray.data.toList = s.toList.flatMap String.utf8EncodeChar := by
    rw [← String.utf8Encode_toList, List.utf8Encode, List.toList_data_toByteArray]
  rw [hbytes] at h ⊢
  rw [List.map_eq_flatMap]
  refine (List.flatMap_congr fun c hc => utf8EncodeChar_of_ascii fun b hb => ?_).symm
  exact h b (List.mem_flatMap.mpr ⟨c, hc, hb⟩)

namespace CodePoint

/-- Ranges around the characters with a dot in their decomposition; no letter is in one. -/
def dotRanges : List (Nat × Nat) :=
  [(0x2E, 0x2E), (0x2024, 0x2026), (0x2488, 0x249B), (0x33C2, 0x33C7), (0x33D8, 0x33D8),
   (0xFE19, 0xFE19), (0xFE30, 0xFE30), (0xFE52, 0xFE52), (0xFF0E, 0xFF0E), (0x1F100, 0x1F100)]

/-! The tables are long, so they are gone through as Booleans: no element waits for those behind it. -/

theorem letterRanges_apart : ∀ r ∈ letterRanges ++ digitRanges, ∀ g ∈ dotRanges, r.2 < g.1 ∨ g.2 < r.1 := by
  have hall : ((letterRanges ++ digitRanges).all fun r =>
      dotRanges.all fun g => r.2 < g.1 || g.2 < r.1) = true := by decide +kernel
  intro r hr g hg
  simpa using List.all_eq_true.mp (List.all_eq_true.mp hall r hr) g hg

theorem asciiExpansions_dot : ∀ e ∈ asciiExpansions, ∀ c ∈ e.2.toList, byte c = byte '.' →
    within dotRanges e.1 = true := by
  have hall : (asciiExpansions.all fun e =>
      e.2.toList.all fun c => byte c != byte '.' || within dotRanges e.1) = true := by decide +kernel
  intro e he c hc hdot
  simpa [hdot] using List.all_eq_true.mp (List.all_eq_true.mp hall e he) c hc

/-- The place of every dot in a run of characters. -/
theorem asciiRuns_dot : ∀ r ∈ asciiRuns, ∀ x ∈ r.2.toList.zipIdx,
    byte x.1 = byte '.' → within dotRanges (r.1 + x.2) = true := by
  have hall : (asciiRuns.all fun r => r.2.toByteArray.data.toList.zipIdx.all fun x =>
      x.1 < 0x80 && (x.1 != byte '.' || within dotRanges (r.1 + x.2))) = true := by decide +kernel
  intro r hr x hx hdot
  have hrun := List.all_eq_true.mp (List.all_eq_true.mp hall r hr)
  have hbytes := toList_map_byte (s := r.2) fun b hb => by
    obtain ⟨k, hk⟩ := List.mem_iff_getElem?.mp hb
    have hplace := hrun (b, k) (List.mem_zipIdx_iff_getElem?.mpr hk)
    simp only [Bool.and_eq_true, decide_eq_true_eq] at hplace
    exact hplace.1
  have hplace := hrun (byte x.1, x.2) (by
    rw [List.mem_zipIdx_iff_getElem?, ← hbytes, List.getElem?_map, List.mem_zipIdx_iff_getElem?.mp hx]
    rfl)
  simp only [hdot, bne_self_eq_false, Bool.false_or, Bool.and_eq_true] at hplace
  exact hplace.2

theorem within_dotRanges {code : Nat} {c : Char} (h : c ∈ asciiPart code) (hc : byte c = byte '.') :
    within dotRanges code = true := by
  rw [asciiPart] at h
  split at h
  · rename_i hlt
    have hall : ∀ n : Fin 0x80, byte (Char.ofNat n) = byte '.' → within dotRanges n = true := by
      decide
    exact hall ⟨code, hlt⟩ (List.mem_singleton.mp h ▸ hc)
  · split at h
    · rename_i first text hfind
      have hcode : first = code := by simpa using List.find?_some hfind
      rw [← hcode]
      exact asciiExpansions_dot _ (List.mem_of_find?_eq_some hfind) c h hc
    · obtain ⟨⟨first, text⟩, hrun, hdot⟩ := List.exists_of_findSome?_eq_some (Option.mem_toList.mp h)
      dsimp only at hdot
      split at hdot
      · rename_i hle
        have hplace := asciiRuns_dot _ hrun (c, code - first)
          (List.mem_zipIdx_iff_getElem?.mpr hdot) hc
        rwa [Nat.add_sub_of_le hle] at hplace
      · cases hdot

/-- No letter or decimal digit has a dot in its decomposition. -/
theorem byte_ne_dot {code : Nat} (h : isLetter code = true ∨ isDecimalDigit code = true) {c : Char}
    (hc : c ∈ asciiPart code) : byte c ≠ byte '.' := by
  intro hdot
  obtain ⟨g, hg, hin⟩ := List.any_eq_true.mp (within_dotRanges hc hdot)
  have hrange : ∃ r ∈ letterRanges ++ digitRanges, r.1 ≤ code ∧ code ≤ r.2 := by
    rcases h with h | h
    · obtain ⟨r, hr, hle⟩ := List.any_eq_true.mp h
      exact ⟨r, List.mem_append_left _ hr, by simpa using hle⟩
    · obtain ⟨r, hr, hle⟩ := List.any_eq_true.mp h
      exact ⟨r, List.mem_append_right _ hr, by simpa using hle⟩
  obtain ⟨r, hr, hlow, hhigh⟩ := hrange
  have hin' : g.1 ≤ code ∧ code ≤ g.2 := by simpa using hin
  have hapart := letterRanges_apart r hr g hg
  omega

end CodePoint

namespace Utf8

/-- A code point is read from the bytes that spell it, whatever comes behind them. -/
theorem decodeCons_take {b : UInt8} {rest : Bytes} {code size n : Nat}
    (h : decodeCons b rest = .point code size) (hn : size ≤ n + 1) :
    decodeCons b (rest.take n) = .point code size := by
  unfold decodeCons at h ⊢
  split at h
  · rename_i hb
    rw [if_pos hb, h]
  rename_i hb
  rw [if_neg hb]
  split at h
  · cases h
  rename_i hb
  rw [if_neg hb]
  split at h
  · rename_i hb
    rw [if_pos hb]
    cases rest with
    | nil => cases h
    | cons c rest =>
      dsimp only at h
      split at h <;> cases h
      rename_i hsequence
      obtain ⟨m, rfl⟩ : ∃ m, n = m + 1 := ⟨n - 1, by omega⟩
      simp only [List.take_succ_cons, hsequence, if_true]
  rename_i hb
  rw [if_neg hb]
  split at h
  · rename_i hb
    rw [if_pos hb]
    match rest, h with
    | c :: d :: rest, h =>
      dsimp only at h
      split at h <;> cases h
      rename_i hsequence
      obtain ⟨m, rfl⟩ : ∃ m, n = m + 2 := ⟨n - 2, by omega⟩
      simp only [List.take_succ_cons, hsequence, if_true]
  rename_i hb
  rw [if_neg hb]
  split at h
  · rename_i hb
    rw [if_pos hb]
    match rest, h with
    | c :: d :: e :: rest, h =>
      dsimp only at h
      split at h <;> cases h
      rename_i hsequence
      obtain ⟨m, rfl⟩ : ∃ m, n = m + 3 := ⟨n - 3, by omega⟩
      simp only [List.take_succ_cons, hsequence, if_true]
  · cases h

theorem runes_cons (b : UInt8) (rest : Bytes) : runes (b :: rest) =
    (decodeCons b rest, (b :: rest).take (decodeCons b rest).size)
      :: runes ((b :: rest).drop (decodeCons b rest).size) := by
  rw [runes]

/-- Cutting behind a code point cuts no rune. -/
theorem runes_take_of_point {b : UInt8} {rest : Bytes} {code size : Nat}
    (h : decodeCons b rest = .point code size) (n : Nat) :
    (runes ((b :: rest).take (size + n))).map (·.1)
      = .point code size :: (runes (((b :: rest).drop size).take n)).map (·.1) := by
  have hpos : 0 < size := by
    have := size_decodeCons_pos b rest
    rwa [h] at this
  obtain ⟨m, rfl⟩ : ∃ m, size = m + 1 := ⟨size - 1, by omega⟩
  have hcut : decodeCons b (rest.take (m + n)) = .point code (m + 1) := decodeCons_take h (by omega)
  rw [show m + 1 + n = (m + n) + 1 by omega, List.take_succ_cons, runes_cons, hcut, List.map_cons]
  congr 2
  rw [Rune.size, List.drop_succ_cons, List.drop_succ_cons, List.drop_take]
  congr 2
  omega

end Utf8

/-- Text of letters, decimal digits and underscores. -/
def Bytes.IsWord (text : Bytes) : Prop := ∀ r ∈ Utf8.runes text, Lexeme.continuesWord r.1 = true

namespace Lexeme

theorem exists_point {rune : Utf8.Rune} (h : continuesWord rune = true) : ∃ code size,
    rune = .point code size := by
  cases rune with
  | point code size => exact ⟨code, size, rfl⟩
  | stray b => cases h

theorem continuesWord_of_startsWord {rune : Utf8.Rune} (h : startsWord rune = true) :
    continuesWord rune = true := by
  cases rune with
  | point code size =>
    simp only [startsWord, Bool.or_eq_true] at h
    simp only [continuesWord, Bool.or_eq_true]
    exact .inl h
  | stray b => cases h

theorem isWord_cons {b : UInt8} {rest : Bytes} (h : continuesWord (Utf8.decodeCons b rest) = true) {n : Nat}
    (hn : Bytes.IsWord (((b :: rest).drop (Utf8.decodeCons b rest).size).take n)) :
    Bytes.IsWord ((b :: rest).take ((Utf8.decodeCons b rest).size + n)) := by
  obtain ⟨code, size, hpoint⟩ := exists_point h
  rw [hpoint] at h hn ⊢
  intro r hr
  have hmem := List.mem_map_of_mem (f := (·.1)) hr
  rw [Utf8.Rune.size, Utf8.runes_take_of_point hpoint] at hmem
  rcases List.mem_cons.mp hmem with heq | hmem
  · rw [heq]
    exact h
  · obtain ⟨r', hr', heq⟩ := List.mem_map.mp hmem
    rw [← heq]
    exact hn r' hr'

theorem isWord_take_wordLength (s : Bytes) : Bytes.IsWord (s.take (wordLength s)) := by
  fun_induction wordLength s with
  | case1 =>
    intro r hr
    rw [List.take_nil, Utf8.runes] at hr
    cases hr
  | case2 b rest rune hrune ih => exact isWord_cons hrune ih
  | case3 b rest rune hrune =>
    intro r hr
    rw [List.take_zero, Utf8.runes] at hr
    cases hr

/-- The text of an identifier or a keyword is a word. -/
theorem isWord_word {b : UInt8} {rest : Bytes} (h : startsWord (Utf8.decodeCons b rest) = true) :
    (word b rest).text.IsWord :=
  isWord_cons (continuesWord_of_startsWord h) (isWord_take_wordLength _)

theorem operator_kind_ne_ident (b : UInt8) (rest : Bytes) : (operator b rest).kind ≠ .ident := by
  rw [operator]
  split
  · rename_i k hk
    obtain ⟨c, -, hc⟩ := Option.bind_eq_some_iff.mp hk
    rintro rfl
    have hmem := List.mem_of_find?_eq_some hc
    revert hmem
    decide
  · split
    · rename_i k hk
      rintro rfl
      have hmem := List.mem_of_find?_eq_some hk
      revert hmem
      decide
    · exact Kind.noConfusion

/-- Only words are identifiers. -/
theorem isWord_of_ident {atLineStart : Bool} {b : UInt8} {rest : Bytes}
    (h : (read atLineStart b rest).kind = .ident) : (read atLineStart b rest).text.IsWord := by
  unfold read at h ⊢
  split at h
  · cases h
  rename_i hcommand
  rw [if_neg hcommand]
  split at h
  · unfold number at h
    dsimp only at h
    split at h <;> cases h
  rename_i hnumber
  rw [if_neg hnumber]
  split at h
  · unfold string at h
    dsimp only at h
    split at h <;> cases h
  rename_i hstring
  rw [if_neg hstring]
  split at h
  · rename_i hword
    rw [if_pos hword]
    exact isWord_word hword
  · exact absurd h (operator_kind_ne_ident b rest)

end Lexeme

/-- The resource name of a word has no dot. -/
theorem ResourceName.dot_notMem_normalize {text : Bytes} (h : text.IsWord) :
    byte '.' ∉ normalize text := by
  rw [normalize]
  split
  · decide
  intro hdot
  obtain ⟨⟨rune, spelled⟩, hrune, hdot⟩ := List.mem_flatMap.mp hdot
  have hword := h _ hrune
  cases rune with
  | stray b => cases hword
  | point code size =>
    obtain ⟨c, hc, hbyte⟩ := List.mem_map.mp hdot
    have hdotted : ∀ b : UInt8, (if Bytes.isUpper b then b + 32
        else if Bytes.isLower b || Bytes.isDigit b || b == byte '_' || b == byte '-' || b == byte '.'
        then b else byte '_') = byte '.' → b = byte '.' := forall_byte (by decide +kernel)
    have hchar : byte c = byte '.' := hdotted _ hbyte
    simp only [Lexeme.continuesWord, Bool.or_eq_true, beq_iff_eq] at hword
    rcases hword with (rfl | hletter) | hdigit
    · rw [List.mem_singleton.mp hc] at hchar
      revert hchar
      decide
    · exact CodePoint.byte_ne_dot (.inl hletter) hc hchar
    · exact CodePoint.byte_ne_dot (.inr hdigit) hc hchar

namespace Scan

/-- A token that is read stands for the layout or is the lexeme at the front. -/
theorem mem_step_tokens {s : Scan} {b : UInt8} {rest : Bytes} {t : Token}
    (ht : t ∈ (s.step b rest).2.tokens) : t.kind.isLayout = true ∨
      (t.kind = (Lexeme.read s.atLineStart b rest).kind ∧
        t.text = (Lexeme.read s.atLineStart b rest).text) := by
  change t ∈ (s.take (Piece.read s.atLineStart b rest)).2.tokens at ht
  have hdedents : ∀ n, t ∈ s.dedents n → t.kind.isLayout = true := fun n h => by
    rw [(List.mem_replicate.mp h).2]
    rfl
  cases hp : Piece.read s.atLineStart b rest with
  | blank size =>
    rw [hp, take] at ht
    split at ht <;> cases ht
  | comment size =>
    rw [hp, take] at ht
    cases ht
  | lineEnd =>
    rw [hp, take] at ht
    split at ht
    · rw [List.mem_singleton.mp ht]
      exact .inl rfl
    · cases ht
  | lexeme l =>
    have hl := eq_read_of_lexeme hp
    rw [hp, take] at ht
    rcases List.mem_append.mp ht with ht | ht
    · split at ht
      · rw [settle] at ht
        dsimp only at ht
        split at ht
        · cases ht
        · rw [List.mem_singleton.mp ht]
          exact .inl rfl
        · exact .inl (hdedents _ ht)
        · exact .inl (hdedents _ ht)
        · cases ht
      · cases ht
    · rw [List.mem_singleton.mp ht, hl]
      exact .inr ⟨rfl, rfl⟩

theorem isWord_of_mem_batches (s : Scan) : ∀ batch ∈ s.batches, ∀ t ∈ batch.tokens, t.kind = .ident →
    t.text.IsWord := by
  intro batch hbatch t ht hident
  rw [batches] at hbatch
  split at hbatch
  · rw [List.mem_singleton.mp hbatch, finish] at ht
    exfalso
    rcases List.mem_append.mp ht with ht | ht
    · rcases List.mem_append.mp ht with ht | ht
      · split at ht
        · rw [List.mem_singleton.mp ht] at hident
          cases hident
        · cases ht
      · rw [(List.mem_replicate.mp ht).2] at hident
        cases hident
    · rw [List.mem_singleton.mp ht] at hident
      cases hident
  · rename_i b rest hrest
    rcases List.mem_cons.mp hbatch with rfl | hbatch
    · rcases mem_step_tokens ht with hlayout | ⟨hkind, htext⟩
      · rw [hident] at hlayout
        cases hlayout
      · rw [htext]
        exact Lexeme.isWord_of_ident (hkind ▸ hident)
    · exact isWord_of_mem_batches (s.step b rest).1 batch hbatch t ht hident
termination_by s.rest.length
decreasing_by exact step_rest_lt s _ _ ‹_›

end Scan

/-- The identifiers of a file are words. -/
theorem File.isWord_of_ident {file : File} {t : Token} (ht : t ∈ file.tokenize) (h : t.kind = .ident) :
    t.text.IsWord := by
  obtain ⟨batch, hbatch, ht⟩ := List.mem_flatMap.mp ht
  exact Scan.isWord_of_mem_batches _ batch hbatch t ht h

namespace Parse

theorem Attempt.bind_eq_some {s : State} {α β : Type} {p : Attempt s α}
    {next : α → (t : State) → t.rest.length ≤ s.rest.length → Attempt t β} {b : β}
    (h : (p.bind next).value = some b) :
    ∃ a, p.value = some a ∧ (next a p.state p.within.length_le).value = some b := by
  unfold Attempt.bind at h
  split at h
  · cases h
  · exact ⟨_, ‹_›, h⟩

theorem identifier_eq_some {s : State} {name : Name} (h : (identifier s).value = some name) :
    ∃ t ∈ s.rest, t.kind = .ident ∧ name.text = t.text := by
  rw [identifier] at h
  split at h
  · rename_i step htake
    cases h
    refine ⟨step.token, ?_, (State.take?_eq_some htake).2, rfl⟩
    rw [step.cons]
    exact List.mem_cons_self
  · cases h

/-- The parts of a dotted name are identifiers. -/
theorem dottedName_eq_some {s : State} {name : DottedName} (h : (dottedName s).value = some name) :
    ∀ part ∈ name.parts, ∃ t ∈ s.rest, t.kind = .ident ∧ part = t.text := by
  rw [dottedName] at h
  obtain ⟨first, hfirst, h⟩ := Attempt.bind_eq_some h
  have hidentifier := identifier_eq_some hfirst
  split at h
  · cases h
    intro part hpart
    rw [List.mem_singleton.mp hpart]
    exact hidentifier
  · rename_i dot _
    have hbind : ((dottedName dot.state).bind fun more u _ =>
        Attempt.ok u ⟨first.text :: more.parts, first.span.cover more.span⟩).value = some name := h
    obtain ⟨more, hmore, hok⟩ := Attempt.bind_eq_some hbind
    cases hok
    have hlt : dot.state.rest.length < s.rest.length :=
      Nat.lt_of_lt_of_le dot.length_lt (identifier s).length_le
    intro part hpart
    rcases List.mem_cons.mp hpart with rfl | hpart
    · exact hidentifier
    · obtain ⟨t, ht, hpart⟩ := dottedName_eq_some hmore part hpart
      exact ⟨t, (dot.suffix.trans (identifier s).within).subset ht, hpart⟩
termination_by s.rest.length
decreasing_by exact hlt

/-- What every continuation gives, the chain gives. -/
theorem Parsed.andThen_gives {s : State} {α β : Type} {p : Parsed s α}
    {next : α → (t : State) → t.rest.length ≤ s.rest.length → Parsed t β} {P : β → Prop}
    (h : ∀ a t ht, p.value = a → t.rest <:+ s.rest → P (next a t ht).value) :
    P (p.andThen next).value :=
  h p.value p.state p.within.length_le rfl p.within

theorem parts_ne_nil_of_dottedName {s : State} {name : DottedName} (h : (dottedName s).value = some name) :
    name.parts ≠ [] := by
  rw [dottedName] at h
  obtain ⟨first, -, h⟩ := Attempt.bind_eq_some h
  split at h
  · cases h
    exact List.cons_ne_nil _ _
  · rename_i dot _
    have hbind : ((dottedName dot.state).bind fun more u _ =>
        Attempt.ok u ⟨first.text :: more.parts, first.span.cover more.span⟩).value = some name := h
    obtain ⟨more, -, hok⟩ := Attempt.bind_eq_some hbind
    cases hok
    exact List.cons_ne_nil _ _

/-- A dotted name with parts that are identifiers among some tokens. -/
def IsSpelled (tokens : List Token) (name : DottedName) : Prop :=
  name.parts ≠ [] ∧ ∀ part ∈ name.parts, ∃ t ∈ tokens, t.kind = .ident ∧ part = t.text

/-- How an item comes from some tokens: the tags of a function are spelled with them, and its body and other
statements are parsed from them. -/
inductive ComesFrom (tokens : List Token) : Item → Prop
  | error (node : Node) : ComesFrom tokens (.error node)
  | alias (a : Alias) : ComesFrom tokens (.typeAlias a)
  | stmt (node : Node) {s : State} (hs : s.rest ⊆ tokens) (step : Step s) (heof : step.token.kind ≠ .eof)
      (hdedent : step.token.kind ≠ .dedent) : ComesFrom tokens (.stmt node (statement s step heof hdedent).value)
  | function {f : Function} (htags : ∀ name ∈ f.tags, IsSpelled tokens name) {s : State} (hs : s.rest ⊆ tokens)
      (hbody : (block s).value = some f.body) : ComesFrom tokens (.function f)

section

variable {tokens : List Token} {start : Span}

theorem abandonedItem_comesFrom (s : State) : ComesFrom tokens (abandonedItem s start).value := .error _

theorem failedItem_comesFrom (s : State) : ComesFrom tokens (failedItem s start).value := .error _

theorem function_comesFrom {tags : List DottedName} {s : State} (hs : s.rest ⊆ tokens)
    (htags : ∀ name ∈ tags, IsSpelled tokens name) : ComesFrom tokens (function start tags s).value := by
  rw [function]
  refine Parsed.andThen_gives fun sig t _ _ ht => ?_
  split
  · exact failedItem_comesFrom t
  · refine Parsed.andThen_gives fun ended u _ _ hu => ?_
    split
    · exact abandonedItem_comesFrom u
    · refine Parsed.andThen_gives fun body v _ hbody _ => ?_
      split
      · exact abandonedItem_comesFrom v
      · exact .function htags (List.Subset.trans (hu.trans ht).subset hs) hbody

theorem taggedFunction_comesFrom {tags : List DottedName} (s : State) (hs : s.rest ⊆ tokens)
    (htags : ∀ name ∈ tags, IsSpelled tokens name) : ComesFrom tokens (taggedFunction start tags s).value := by
  rw [taggedFunction]
  refine Parsed.andThen_gives fun found t _ hfound ht => ?_
  split
  · exact failedItem_comesFrom t
  · rename_i name
    have hmore : ∀ other ∈ tags ++ [name], IsSpelled tokens other := by
      intro other hother
      rcases List.mem_append.mp hother with hother | hother
      · exact htags other hother
      · obtain rfl := List.mem_singleton.mp hother
        refine ⟨parts_ne_nil_of_dottedName hfound, fun part hpart => ?_⟩
        obtain ⟨t, ht, hpart⟩ := dottedName_eq_some hfound part hpart
        exact ⟨t, hs ht, hpart⟩
    refine Parsed.andThen_gives fun ended u _ _ hu => ?_
    have hrest := List.Subset.trans (hu.trans ht).subset hs
    split
    · exact abandonedItem_comesFrom u
    · split
      · rename_i step _
        have hlt : step.state.rest.length < s.rest.length :=
          Nat.lt_of_lt_of_le step.length_lt (hu.trans ht).length_le
        exact taggedFunction_comesFrom step.state (List.Subset.trans step.suffix.subset hrest) hmore
      · split
        · rename_i step _
          exact function_comesFrom (List.Subset.trans step.suffix.subset hrest) hmore
        · exact Parsed.andThen_gives fun _ v _ _ _ => abandonedItem_comesFrom v
termination_by s.rest.length
decreasing_by exact hlt

theorem item_comesFrom {s : State} (hs : s.rest ⊆ tokens) (step : Step s) (heof : step.token.kind ≠ .eof)
    (hdedent : step.token.kind ≠ .dedent) : ComesFrom tokens (item s step heof hdedent).value := by
  have hstep := List.Subset.trans step.suffix.subset hs
  rw [item]
  split
  · exact taggedFunction_comesFrom _ hstep nofun
  · exact function_comesFrom hstep nofun
  · refine Parsed.andThen_gives fun parts t _ _ _ => ?_
    split
    · exact failedItem_comesFrom t
    · refine Parsed.andThen_gives fun ended u _ _ _ => ?_
      cases ended with
      | true => exact .alias _
      | false => exact .error _
  · exact failedItem_comesFrom _
  · refine Parsed.andThen_gives fun stmt t _ hstmt _ => ?_
    rw [← hstmt]
    exact .stmt _ hs step heof hdedent

theorem items_comeFrom {s : State} (hs : s.rest ⊆ tokens) : ∀ i ∈ (items s).value, ComesFrom tokens i := by
  rw [items]
  split
  · exact List.forall_mem_nil _
  · rename_i step _
    have hlt := step.length_lt
    have hstep := List.Subset.trans step.suffix.subset hs
    split
    · exact List.forall_mem_nil _
    · split
      · exact items_comeFrom hstep
      · split
        · exact items_comeFrom hstep
        · rename_i heof hdedent _
          intro i hi
          rcases List.mem_cons.mp hi with rfl | hi
          · exact item_comesFrom hs step heof hdedent
          · have hle := (item s step heof hdedent).length_le
            exact items_comeFrom (List.Subset.trans (item s step heof hdedent).within.subset hstep) i hi
termination_by s.rest.length
decreasing_by all_goals omega

end

theorem header_eq_some {s : State} {name : DottedName} (h : (header s).value = some name) :
    ∀ part ∈ name.parts, ∃ t ∈ s.rest, t.kind = .ident ∧ part = t.text := by
  rw [header] at h
  split at h
  · cases h
  · rename_i step _
    cases hname : (dottedName step.state).value with
    | none => simp only [Parsed.since, Parsed.andThen, hname, Parsed.pure] at h; cases h
    | some dotted =>
      simp only [Parsed.since, Parsed.andThen, hname, Parsed.pure] at h
      split at h
      · cases h
        intro part hpart
        obtain ⟨t, ht, hpart⟩ := dottedName_eq_some hname part hpart
        exact ⟨t, step.suffix.subset ht, hpart⟩
      · cases h

end Parse

/-- The namespace that a program names is made of words. -/
theorem File.isWord_of_header {file : File} {name : DottedName} (h : file.parse.program.header = some name) :
    ∀ part ∈ name.parts, part.IsWord := by
  intro part hpart
  obtain ⟨t, ht, hident, rfl⟩ := Parse.header_eq_some h part hpart
  exact isWord_of_ident ((List.dropLast_sublist _).subset ht) hident

/-- The items of a program come from the tokens of its file. -/
theorem File.items_comeFrom {file : File} : ∀ i ∈ file.parse.program.items, Parse.ComesFrom file.tokenize i := by
  refine Parse.items_comeFrom (List.Subset.trans (Parse.header (Parse.fileStart _ _)).within.subset ?_)
  exact (List.dropLast_sublist _).subset

/-- The tags that a program names are made of words, one at least. -/
theorem File.isWord_of_tag {file : File} {f : Function} (hf : f ∈ file.parse.program.functions)
    {name : DottedName} (hname : name ∈ f.tags) : name.parts ≠ [] ∧ ∀ part ∈ name.parts, part.IsWord := by
  obtain ⟨i, hi, hif⟩ := List.mem_filterMap.mp hf
  obtain rfl : i = .function f := by
    cases i <;> cases hif
    rfl
  cases items_comeFrom _ hi with
  | function htags _ _ =>
    obtain ⟨hne, hparts⟩ := htags name hname
    refine ⟨hne, fun part hpart => ?_⟩
    obtain ⟨t, ht, hident, rfl⟩ := hparts part hpart
    exact isWord_of_ident ht hident

end Craftlang
