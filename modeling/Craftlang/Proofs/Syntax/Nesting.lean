import Craftlang.Proofs.Syntax.Lexemes
import Mathlib.Data.List.TakeDrop

/-!
# How blocks nest

The tokens of any text, faulty or not, open and close blocks in pairs. They follow a walk that knows its
place in a line and how many blocks are open: a line ends with the token that says so, an indentation
comes at the start of a line and has a token of the line after it, and what is opened is closed.
-/

namespace Craftlang

/-- A place between tokens: at the start of a line, after an indentation, or within a line. -/
inductive LinePlace where
  | lineStart | indented | inLine
deriving DecidableEq, Repr

/-- Kinds of tokens, from a place with a number of open blocks to the end. -/
def Nested : LinePlace → Nat → List Kind → Prop
  | q, d, [] => q = .lineStart ∧ d = 0
  | q, d, .newline :: ks => q = .inLine ∧ Nested .lineStart d ks
  | q, d, .indent :: ks => q = .lineStart ∧ Nested .indented (d + 1) ks
  | q, d, .dedent :: ks => q = .lineStart ∧ 0 < d ∧ Nested .lineStart (d - 1) ks
  | _, d, k :: ks => k ≠ .eof ∧ Nested .inLine d ks

/-- Is a token of this kind neither layout nor the end of the file? -/
def Kind.isContent (k : Kind) : Bool := !k.isLayout && k != .eof

theorem Kind.isContent_of_isInline {k : Kind} (h : k.isInline = true) : k.isContent = true := by
  cases k <;> first | rfl | exact absurd h (by decide)

theorem nested_cons_of_isContent {q : LinePlace} {d : Nat} {k : Kind} {ks : List Kind}
    (hk : k.isContent = true) : Nested q d (k :: ks) ↔ Nested .inLine d ks := by
  cases k <;> first | exact absurd hk (by decide) | simp [Nested]

/-- Closing blocks leaves the line at its start. -/
theorem nested_replicate_dedent {n d : Nat} {ks : List Kind} (h : Nested .lineStart d ks) :
    Nested .lineStart (n + d) (List.replicate n .dedent ++ ks) := by
  induction n with
  | zero => simpa using h
  | succ n ih =>
    refine ⟨rfl, by omega, ?_⟩
    rwa [show n + 1 + d - 1 = n + d by omega]

/-- At any later place as many blocks are open as were opened and not closed. -/
theorem Nested.of_append {q : LinePlace} {d : Nat} {ts ks : List Kind} (h : Nested q d (ts ++ ks)) :
    ∃ q' d', Nested q' d' ks ∧ d + ts.count .indent = d' + ts.count .dedent := by
  induction ts generalizing q d with
  | nil => exact ⟨q, d, h, rfl⟩
  | cons t ts ih =>
    rw [List.count_cons, List.count_cons]
    cases t with
    | newline =>
      obtain ⟨q', d', hks, hcount⟩ := ih h.2
      exact ⟨q', d', hks, hcount⟩
    | indent =>
      obtain ⟨q', d', hks, hcount⟩ := ih h.2
      exact ⟨q', d', hks, by simp; omega⟩
    | dedent =>
      obtain ⟨q', d', hks, hcount⟩ := ih h.2.2
      have hopen := h.2.1
      exact ⟨q', d', hks, by simp; omega⟩
    | eof => exact absurd rfl h.1
    | _ =>
      obtain ⟨q', d', hks, hcount⟩ := ih h.2
      exact ⟨q', d', hks, hcount⟩

/-- The number of open blocks is that of the blocks that are still to be closed. -/
theorem Nested.count_dedent {q : LinePlace} {d : Nat} {ks : List Kind} (h : Nested q d ks) :
    ks.count .dedent = d + ks.count .indent := by
  have hall : Nested q d (ks ++ []) := by rwa [List.append_nil]
  obtain ⟨q', d', hnil, hcount⟩ := hall.of_append
  have hzero := hnil.2
  omega

/-- Blocks are opened and closed in pairs: at no time more are closed than were opened, and in the end as
many. -/
structure IsBalanced (ks : List Kind) : Prop where
  closed_le : ∀ n, (ks.take n).count .dedent ≤ (ks.take n).count .indent
  total : ks.count .dedent = ks.count .indent

namespace IsBalanced

theorem nil : IsBalanced [] := ⟨fun n => by rw [List.take_nil]; exact Nat.le_refl _, rfl⟩

theorem append {ks ls : List Kind} (hk : IsBalanced ks) (hl : IsBalanced ls) : IsBalanced (ks ++ ls) := by
  refine ⟨fun n => ?_, ?_⟩
  · rw [List.take_append, List.count_append, List.count_append]
    exact Nat.add_le_add (hk.closed_le n) (hl.closed_le _)
  · rw [List.count_append, List.count_append, hk.total, hl.total]

/-- Tokens that neither open nor close a block are in balance. -/
theorem of_forall {ks : List Kind} (h : ∀ k ∈ ks, k ≠ .indent ∧ k ≠ .dedent) : IsBalanced ks := by
  have hzero : ∀ ls : List Kind, (∀ k ∈ ls, k ∈ ks) → ls.count .dedent = 0 ∧ ls.count .indent = 0 :=
    fun ls hls => ⟨List.count_eq_zero.mpr fun hmem => (h _ (hls _ hmem)).2 rfl,
      List.count_eq_zero.mpr fun hmem => (h _ (hls _ hmem)).1 rfl⟩
  refine ⟨fun n => ?_, ?_⟩
  · rw [(hzero _ fun _ => List.mem_of_mem_take).1]
    exact Nat.zero_le _
  · rw [(hzero ks fun _ => id).1, (hzero ks fun _ => id).2]

/-- A whole block is in balance. -/
theorem block {ks : List Kind} (h : IsBalanced ks) : IsBalanced (.indent :: ks ++ [.dedent]) := by
  refine ⟨fun n => ?_, ?_⟩
  · cases n with
    | zero => exact Nat.le_refl _
    | succ n =>
      have hinside := h.closed_le n
      have hclosing : ([Kind.dedent].take (n - ks.length)).count .dedent ≤ 1 :=
        Nat.le_trans List.count_le_length (by rw [List.length_take]; exact Nat.min_le_right _ _)
      rw [List.cons_append, List.take_succ_cons, List.count_cons_of_ne (by decide),
        List.count_cons_self, List.take_append, List.count_append, List.count_append]
      omega
  · have htotal := h.total
    rw [List.cons_append, List.count_cons_of_ne (by decide), List.count_cons_self, List.count_append,
      List.count_append]
    simp
    omega

end IsBalanced

/-- Tokens in balance leave as many blocks open as there were. -/
theorem Nested.of_balanced {q : LinePlace} {d : Nat} {ts ks : List Kind} (h : Nested q d (ts ++ ks))
    (hts : IsBalanced ts) : ∃ q', Nested q' d ks := by
  obtain ⟨q', d', hks, hcount⟩ := h.of_append
  have htotal := hts.total
  obtain rfl : d' = d := by omega
  exact ⟨q', hks⟩

/-- Tokens from where no block is open to the end are in balance. -/
theorem Nested.isBalanced {q : LinePlace} {ks : List Kind} (h : Nested q 0 ks) : IsBalanced ks := by
  refine ⟨fun n => ?_, by have := h.count_dedent; omega⟩
  rw [← List.take_append_drop n ks] at h
  obtain ⟨-, d', -, hcount⟩ := h.of_append
  omega

theorem Lexeme.Fits.isContent {l : Lexeme} {s : Bytes} (h : l.Fits s) : l.kind.isContent = true := by
  rcases h.kind with hk | hk
  · exact Kind.isContent_of_isInline hk
  · rw [hk]
    rfl

namespace Layout

theorem closings_append (a b : List Level) : closings (a ++ b) = closings a + closings b :=
  List.countP_append

/-- The levels that a line closes are the innermost ones. -/
theorem splitDeeper_append (levels : List Level) (indentation : Bytes) :
    (splitDeeper levels indentation).1 ++ (splitDeeper levels indentation).2 = levels := by
  rw [splitDeeper, List.span_eq_takeWhile_dropWhile]
  exact List.takeWhile_append_dropWhile ..

/-- A line that goes on with the indentation of another is indented. -/
theorem ne_nil_of_isPrefixOf {top indentation : Bytes} (hne : ¬ (indentation == top) = true)
    (h : top.isPrefixOf indentation = true) : indentation ≠ [] := by
  rintro rfl
  cases top with
  | nil => exact hne rfl
  | cons b top => cases h

/-- A new line closes as many blocks as it says, or opens one. -/
theorem closings_enter {levels next : List Level} {margin : Bytes} {change : Change}
    (h : enter levels margin = (next, change)) :
    match change with
    | .none | .mixed => closings next = closings levels
    | .opens => closings next = closings levels + 1
    | .closes n | .unmatched n => closings levels = n + closings next := by
  unfold enter at h
  dsimp only at h
  split at h
  · cases h
    rfl
  split at h
  · cases h
    exact List.countP_cons_of_pos rfl
  split at h
  · have hs := congrArg closings (splitDeeper_append levels margin)
    rw [closings_append] at hs
    split at h
    · cases h
      exact hs.symm
    · cases h
      exact hs.symm
  · split at h
    · cases h
      rfl
    · cases h
      rw [closings, closings, List.countP_cons, List.countP_cons]

end Layout

namespace Scan

def place (s : Scan) : LinePlace := if s.inLine then .inLine else .lineStart

def openBlocks (s : Scan) : Nat := Layout.closings s.levels

/-- The kinds of the tokens of a batch. -/
def kinds (b : Batch) : List Kind := b.tokens.map (·.kind)

theorem kinds_dedents (s : Scan) (n : Nat) :
    (s.dedents n).map (·.kind) = List.replicate n Kind.dedent := by
  rw [dedents, List.map_replicate]

/-- The tokens that settle the layout of a line lead to its first token. -/
theorem settle_nested {s : Scan} {k : Kind} {ks : List Kind} (hk : k.isContent = true)
    (h : Nested .inLine s.settle.1.openBlocks ks) :
    Nested .lineStart s.openBlocks (kinds s.settle.2 ++ k :: ks) := by
  cases he : Layout.enter s.levels s.margin with
  | mk levels change =>
    have hc := Layout.closings_enter he
    simp only [settle, he] at h ⊢
    change Nested .inLine (Layout.closings levels) ks at h
    have hline : ∀ q, Nested q (Layout.closings levels) (k :: ks) := fun _ =>
      (nested_cons_of_isContent hk).mpr h
    cases change with
    | none | mixed =>
      rw [openBlocks, ← hc]
      exact hline _
    | opens =>
      rw [openBlocks, kinds]
      refine ⟨rfl, ?_⟩
      rw [← hc]
      exact hline _
    | closes n | unmatched n =>
      rw [openBlocks, hc, kinds, kinds_dedents]
      exact nested_replicate_dedent (hline _)

/-- Reading one piece goes on with the walk. -/
theorem take_nested {s : Scan} {p : Piece} {ks : List Kind}
    (hp : ∀ l, p = .lexeme l → l.kind.isContent = true)
    (h : Nested (s.take p).1.place (s.take p).1.openBlocks ks) :
    Nested s.place s.openBlocks (kinds (s.take p).2 ++ ks) := by
  cases p with
  | blank size =>
    rw [take] at h ⊢
    split at h
    · rename_i hs
      rw [if_pos hs]
      exact h
    · rename_i hs
      rw [if_neg hs]
      exact h
  | comment size => exact h
  | lineEnd =>
    rw [take] at h ⊢
    split at h
    · rename_i hs
      rw [if_pos hs, place, if_pos (by simp_all)]
      exact ⟨rfl, h⟩
    · rename_i hs
      rw [if_neg hs]
      exact h
  | lexeme l =>
    have hk := hp l rfl
    simp only [take, emit] at h ⊢
    rw [kinds, List.map_append, List.append_assoc]
    by_cases hs : s.atLineStart
    · rw [if_pos hs] at h ⊢
      have hi : s.place = .lineStart := by
        rw [atLineStart, Bool.and_eq_true, Bool.not_eq_true'] at hs
        rw [place, hs.1]
        rfl
      rw [hi]
      exact settle_nested hk h
    · rw [if_neg hs] at h ⊢
      exact (nested_cons_of_isContent hk).mpr h

theorem step_nested {s : Scan} {b : UInt8} {rest : Bytes} {ks : List Kind}
    (h : Nested (s.step b rest).1.place (s.step b rest).1.openBlocks ks) :
    Nested s.place s.openBlocks (kinds (s.step b rest).2 ++ ks) := by
  refine take_nested (p := Piece.read s.atLineStart b rest) (fun l hl => ?_) h
  rw [eq_read_of_lexeme hl]
  exact (Lexeme.read_fits s.atLineStart b rest).isContent

/-- The end of the text closes what is open. -/
theorem finish_nested (s : Scan) : ∃ ks,
    kinds s.finish = ks ++ [.eof] ∧ Nested s.place s.openBlocks ks := by
  have hd : Nested .lineStart s.openBlocks (List.replicate s.openBlocks .dedent) := by
    have h : Nested .lineStart (s.openBlocks + 0) (List.replicate s.openBlocks .dedent ++ []) :=
      nested_replicate_dedent ⟨rfl, rfl⟩
    simpa using h
  rw [finish, kinds, place]
  by_cases hs : s.inLine = true
  · refine ⟨.newline :: List.replicate s.openBlocks .dedent, ?_, ?_⟩
    · simp [hs, kinds_dedents, openBlocks]
    · rw [if_pos hs]
      exact ⟨rfl, hd⟩
  · refine ⟨List.replicate s.openBlocks .dedent, ?_, ?_⟩
    · simp [hs, kinds_dedents, openBlocks]
    · rw [if_neg hs]
      exact hd

theorem batches_nested (s : Scan) : ∃ ks,
    s.batches.flatMap kinds = ks ++ [.eof] ∧ Nested s.place s.openBlocks ks := by
  rw [batches]
  split
  · simpa using finish_nested s
  · rename_i b rest hr
    obtain ⟨ks, hks, hl⟩ := batches_nested (s.step b rest).1
    refine ⟨kinds (s.step b rest).2 ++ ks, ?_, step_nested hl⟩
    rw [List.flatMap_cons, hks, List.append_assoc]
termination_by s.rest.length
decreasing_by exact step_rest_lt s _ _ ‹_›

end Scan

/-- The tokens of any text nest, up to the end of the file. -/
theorem File.tokenize_nested (file : File) : ∃ ks,
    file.tokenize.map (·.kind) = ks ++ [.eof] ∧ Nested .lineStart 0 ks := by
  obtain ⟨ks, hks, hl⟩ := Scan.batches_nested (Scan.start file)
  refine ⟨ks, ?_, hl⟩
  rw [← hks, tokenize, List.map_flatMap]
  rfl

/-!
## The shape of a clean text

A text about which nothing is reported gives tokens of a regular shape: they nest, and each of them can be
read.
-/

/-- Kinds of tokens, from a place with a number of open blocks to the end. -/
def Laid : LinePlace → Nat → List Kind → Prop
  | q, d, [] => q = .lineStart ∧ d = 0
  | q, d, .newline :: ks => q = .inLine ∧ Laid .lineStart d ks
  | q, d, .indent :: ks => q = .lineStart ∧ Laid .indented (d + 1) ks
  | q, d, .dedent :: ks => q = .lineStart ∧ 0 < d ∧ Laid .lineStart (d - 1) ks
  | _, d, k :: ks => k.isInline = true ∧ Laid .inLine d ks

theorem laid_cons_of_isInline {q : LinePlace} {d : Nat} {k : Kind} {ks : List Kind}
    (hk : k.isInline = true) : Laid q d (k :: ks) ↔ Laid .inLine d ks := by
  cases k <;> first | exact absurd hk (by decide) | simp [Laid, hk]

/-- What could not be read has no place anywhere. -/
theorem Laid.head_ne_invalid {q : LinePlace} {d : Nat} {ks : List Kind} (h : Laid q d ks) :
    ks.head? ≠ some .invalid := by
  cases ks with
  | nil => simp
  | cons k rest =>
    cases k with
    | invalid => exact absurd h.1 (by decide)
    | _ => simp

/-- A walk on which everything could be read. -/
theorem laid_of_nested {q : LinePlace} {d : Nat} {ks : List Kind} (h : Nested q d ks)
    (hks : .invalid ∉ ks) : Laid q d ks := by
  induction ks generalizing q d with
  | nil => exact h
  | cons k ks ih =>
    have hrest : .invalid ∉ ks := fun hmem => hks (List.mem_cons_of_mem _ hmem)
    cases k with
    | newline => exact ⟨h.1, ih h.2 hrest⟩
    | indent => exact ⟨h.1, ih h.2 hrest⟩
    | dedent => exact ⟨h.1, h.2.1, ih h.2.2 hrest⟩
    | eof => exact absurd rfl h.1
    | invalid => exact absurd List.mem_cons_self hks
    | _ => exact ⟨rfl, ih h.2 hrest⟩

/-- The tokens of a text about which nothing is reported. -/
theorem File.tokenize_laid {file : File} (h : file.lexicalDiagnostics = []) : ∃ ks,
    file.tokenize.map (·.kind) = ks ++ [.eof] ∧ Laid .lineStart 0 ks := by
  obtain ⟨ks, hks, hl⟩ := file.tokenize_nested
  refine ⟨ks, hks, laid_of_nested hl fun hmem => ?_⟩
  have hnone := file.spans_unread
  rw [h, List.filter_nil, List.map_nil, eq_comm, List.map_eq_nil_iff, List.filter_eq_nil_iff] at hnone
  have hkinds : .invalid ∈ file.tokenize.map (·.kind) := hks ▸ List.mem_append_left _ hmem
  obtain ⟨t, ht, hk⟩ := List.mem_map.mp hkinds
  exact hnone t ht (by rw [hk]; rfl)

end Craftlang
