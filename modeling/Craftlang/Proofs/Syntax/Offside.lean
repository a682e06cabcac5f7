import Craftlang.Proofs.Syntax.Nesting
import Craftlang.Proofs.Syntax.Scanning

/-!
# The offside rule

The stack of open levels has the outermost level at its bottom, which no line closes or changes, and no
other level is without indentation. As long as the indentation of no line is bad, the levels are prefixes of
each other, and the innermost one is the margin of the line.
-/

namespace Craftlang

namespace Layout

/-- The level below all others. -/
def outermost : Level := ⟨[], false⟩

/-- Takes the levels off a whole stack that lie deeper than an indentation, but not the last one; counts
the tokens that this takes. -/
def popDeeper (indentation : Bytes) : List Level → List Level × Nat
  | [] => ([], 0)
  | [last] => ([last], 0)
  | level :: below :: rest =>
    if indentation.length < level.indentation.length then
      ((popDeeper indentation (below :: rest)).1,
        (popDeeper indentation (below :: rest)).2 + if level.isPhantom then 0 else 1)
    else (level :: below :: rest, 0)

/-- What a new line does to the whole stack. -/
def enterStack (stack : List Level) (indentation : Bytes) : List Level × Change :=
  let top := innermost stack
  if indentation == top then (stack, .none)
  else if top.isPrefixOf indentation then (⟨indentation, false⟩ :: stack, .opens)
  else if indentation.isPrefixOf top then
    let (left, n) := popDeeper indentation stack
    if innermost left == indentation then (left, .closes n)
    else (⟨indentation, true⟩ :: left, .unmatched n)
  else match stack with
    | [] => ([], .mixed)
    | level :: others => (⟨indentation, level.isPhantom⟩ :: others, .mixed)

/-- Every level is indented. -/
def AreIndented (levels : List Level) : Prop := ∀ l ∈ levels, l.indentation ≠ []

theorem innermost_stack (levels : List Level) : innermost (levels ++ [outermost]) = innermost levels := by
  cases levels <;> rfl

theorem popDeeper_stack (levels : List Level) (indentation : Bytes) :
    popDeeper indentation (levels ++ [outermost])
      = ((splitDeeper levels indentation).2 ++ [outermost], closings (splitDeeper levels indentation).1) := by
  rw [splitDeeper, List.span_eq_takeWhile_dropWhile]
  induction levels with
  | nil => rfl
  | cons level levels ih =>
    have hcons : ∃ below rest, levels ++ [outermost] = below :: rest := by
      cases levels with
      | nil => exact ⟨_, _, rfl⟩
      | cons below rest => exact ⟨_, _, rfl⟩
    obtain ⟨below, rest, hrest⟩ := hcons
    rw [List.cons_append, hrest, popDeeper, ← hrest]
    by_cases hdeep : indentation.length < level.indentation.length
    · rw [if_pos hdeep, ih, List.dropWhile_cons_of_pos (by simpa using hdeep),
        List.takeWhile_cons_of_pos (by simpa using hdeep), closings, closings, List.countP_cons]
      cases level.isPhantom <;> rfl
    · rw [if_neg hdeep, List.dropWhile_cons_of_neg (by simpa using hdeep),
        List.takeWhile_cons_of_neg (by simpa using hdeep)]
      rfl

/-- The outermost level is left alone, whatever a line starts with. -/
theorem enterStack_stack (levels : List Level) (indentation : Bytes) :
    enterStack (levels ++ [outermost]) indentation
      = ((enter levels indentation).1 ++ [outermost], (enter levels indentation).2) := by
  unfold enterStack enter
  dsimp only
  rw [innermost_stack, popDeeper_stack]
  split
  · rfl
  split
  · rfl
  split
  · dsimp only
    rw [innermost_stack]
    split <;> rfl
  · rename_i hprefix _
    cases levels with
    | nil => exact absurd rfl hprefix
    | cons level levels => rfl

theorem splitDeeper_nil {levels : List Level} (h : AreIndented levels) : (splitDeeper levels []).2 = [] := by
  rw [splitDeeper, List.span_eq_takeWhile_dropWhile, List.dropWhile_eq_nil_iff]
  intro l hl
  simpa [List.length_pos_iff] using h l hl

/-- Lines open and enter indented levels only. -/
theorem AreIndented.enter {levels : List Level} (h : AreIndented levels) (indentation : Bytes) :
    AreIndented (enter levels indentation).1 := by
  have hothers : AreIndented (splitDeeper levels indentation).2 := fun l hl =>
    h l (splitDeeper_append levels indentation ▸ List.mem_append_right _ hl)
  unfold Layout.enter
  dsimp only
  split
  · exact h
  rename_i hne
  split
  · rename_i hprefix
    intro l hl
    rcases List.mem_cons.mp hl with rfl | hl
    · exact ne_nil_of_isPrefixOf hne hprefix
    · exact h l hl
  rename_i hprefix
  split
  · split
    · exact hothers
    · rename_i hunmatched
      intro l hl
      rcases List.mem_cons.mp hl with rfl | hl
      · rintro rfl
        rw [splitDeeper_nil h] at hunmatched
        exact hunmatched rfl
      · exact hothers l hl
  · rename_i hmixed
    split
    · exact h
    · intro l hl
      rcases List.mem_cons.mp hl with rfl | hl
      · rintro rfl
        exact hmixed rfl
      · exact h l (List.mem_cons_of_mem _ hl)

/-- Each level goes on with the indentation of the next outer one, and was opened by a token. -/
structure IsChain (levels : List Level) : Prop where
  chain : levels.Pairwise fun inner outer =>
    outer.indentation <+: inner.indentation ∧ outer.indentation ≠ inner.indentation
  real : ∀ l ∈ levels, l.isPhantom = false

theorem IsChain.drop {levels deeper others : List Level} (h : IsChain levels)
    (heq : deeper ++ others = levels) : IsChain others := by
  subst heq
  exact ⟨(List.pairwise_append.mp h.chain).2.1, fun l hl => h.real l (List.mem_append_right _ hl)⟩

/-- The innermost level goes on with all others. -/
theorem IsChain.innermost {levels : List Level} (h : IsChain levels) :
    ∀ l ∈ levels, l.indentation <+: innermost levels := by
  intro l hl
  cases levels with
  | nil => cases hl
  | cons level levels =>
    rcases List.mem_cons.mp hl with rfl | hl
    · exact List.prefix_rfl
    · exact ((List.pairwise_cons.mp h.chain).1 l hl).1

/-- As many tokens close levels as there are. -/
theorem IsChain.closings {levels : List Level} (h : ∀ l ∈ levels, l.isPhantom = false) :
    closings levels = levels.length := by
  rw [Layout.closings, List.countP_eq_length]
  intro l hl
  rw [h l hl]
  rfl

/-- What a line with a good indentation does to levels that are a chain. -/
theorem IsChain.enter {levels next : List Level} {margin : Bytes} {change : Change} (h : IsChain levels)
    (he : enter levels margin = (next, change)) (hgood : change ≠ .mixed ∧ ∀ n, change ≠ .unmatched n) :
    IsChain next ∧ Layout.innermost next = margin ∧
      ((next = levels ∧ change = .none) ∨ (next = ⟨margin, false⟩ :: levels ∧ change = .opens) ∨
        ∃ closed, levels = closed ++ next ∧ change = .closes closed.length) := by
  unfold Layout.enter at he
  dsimp only at he
  split at he
  · rename_i hsame
    cases he
    exact ⟨h, (by simpa using hsame : margin = _).symm, .inl ⟨rfl, rfl⟩⟩
  rename_i hne
  split at he
  · rename_i hprefix
    cases he
    have htop : Layout.innermost levels <+: margin := List.isPrefixOf_iff_prefix.mp hprefix
    refine ⟨⟨List.pairwise_cons.mpr ⟨fun l hl => ?_, h.chain⟩, fun l hl => ?_⟩, rfl, .inr (.inl ⟨rfl, rfl⟩)⟩
    · have hbelow := h.innermost l hl
      refine ⟨hbelow.trans htop, fun heq => hne ?_⟩
      -- a level as deep as the line would be the innermost one
      have hsame := hbelow.eq_of_length_le (heq ▸ htop.length_le)
      rw [← hsame, heq]
      exact beq_self_eq_true _
    · rcases List.mem_cons.mp hl with rfl | hl
      · rfl
      · exact h.real l hl
  split at he
  · have hcut := splitDeeper_append levels margin
    split at he
    · rename_i hmatch
      cases he
      refine ⟨h.drop hcut, by simpa using hmatch, .inr (.inr ⟨_, hcut.symm, congrArg _ ?_⟩)⟩
      exact IsChain.closings fun l hl => h.real l (hcut ▸ List.mem_append_left _ hl)
    · cases he
      exact absurd rfl (hgood.2 _)
  · split at he
    · cases he
      exact absurd rfl hgood.1
    · cases he
      exact absurd rfl hgood.1

end Layout

/-- Is this a report about the indentation of a line? -/
def Diagnostic.isBadIndentation (d : Diagnostic) : Bool := d.code == .badIndentation

namespace Scan

/-- All levels, with the outermost one. -/
def stack (s : Scan) : List Layout.Level := s.levels ++ [Layout.outermost]

/-- The first token of a line has been read, with tokens before it for the layout: the innermost of the
open levels is the margin of the line, each goes on with the one around it, and there is a token for every
level that the line opened or closed. -/
structure Settles (before after : Scan) (layout : List Kind) : Prop where
  top : Layout.innermost after.stack = before.margin
  chain : Layout.IsChain after.stack
  change : (after.levels = before.levels ∧ layout = []) ∨
    (after.levels = ⟨before.margin, false⟩ :: before.levels ∧ layout = [.indent]) ∨
    ∃ closed, before.levels = closed ++ after.levels ∧ layout = List.replicate closed.length .dedent

/-- The levels change at the first token of a line only. -/
theorem levels_step (s : Scan) (b : UInt8) (rest : Bytes) : (s.step b rest).1.levels = s.levels ∨
    (s.atLineStart = true ∧ ∃ l, Piece.read s.atLineStart b rest = .lexeme l) := by
  change (s.take (Piece.read s.atLineStart b rest)).1.levels = _ ∨ _
  cases Piece.read s.atLineStart b rest with
  | blank size =>
    rw [take]
    split <;> exact .inl rfl
  | comment size => exact .inl rfl
  | lineEnd =>
    rw [take]
    split <;> exact .inl rfl
  | lexeme l =>
    rw [take]
    dsimp only
    split
    · exact .inr ⟨‹_›, l, rfl⟩
    · exact .inl rfl

/-- The first token of a line comes with the tokens for the layout. -/
theorem step_of_lexeme {s : Scan} {b : UInt8} {rest : Bytes} {l : Lexeme} (hline : s.atLineStart = true)
    (hl : Piece.read s.atLineStart b rest = .lexeme l) : ∃ token ds,
    (s.step b rest).2 = ⟨s.settle.2.tokens ++ [token], s.settle.2.diagnostics ++ ds⟩ ∧
      token.kind = l.kind ∧ (s.step b rest).1.levels = s.settle.1.levels := by
  refine ⟨⟨l.kind, s.settle.1.ahead l.text.length, l.text, s.settle.1.held⟩,
    (s.settle.1.emit l).2.diagnostics, ?_, rfl, ?_⟩
  · rw [step, hl]
    simp only [take, hline, if_true]
    rfl
  · rw [step, hl]
    simp only [take, hline, if_true]
    rfl

/-- A level that was entered to recover is reported. -/
theorem settle_good {s : Scan} (hd : ∀ d ∈ s.settle.2.diagnostics, d.isBadIndentation = false) :
    (Layout.enter s.levels s.margin).2 ≠ .mixed ∧
      ∀ n, (Layout.enter s.levels s.margin).2 ≠ .unmatched n := by
  refine ⟨fun hchange => ?_, fun n hchange => ?_⟩
  · have hreport := hd (LexicalProblem.mixedIndentation.report ⟨s.file, s.offset - s.margin.length, s.offset⟩)
      (by rw [settle]; simp only [hchange]; exact List.mem_singleton.mpr rfl)
    cases hreport
  · have hreport := hd (LexicalProblem.unmatchedUnindent.report ⟨s.file, s.offset - s.margin.length, s.offset⟩)
      (by rw [settle]; simp only [hchange]; exact List.mem_singleton.mpr rfl)
    cases hreport

/-- Settling a line without a bad indentation. -/
theorem settle_settles {s : Scan} (hchain : Layout.IsChain s.levels) (hi : Layout.AreIndented s.levels)
    (hd : ∀ d ∈ s.settle.2.diagnostics, d.isBadIndentation = false) :
    s.Settles s.settle.1 (kinds s.settle.2) ∧ Layout.IsChain s.settle.1.levels := by
  cases he : Layout.enter s.levels s.margin with
  | mk next change =>
    have hgood := settle_good hd
    rw [he] at hgood
    obtain ⟨hnext, htop, hchange⟩ := hchain.enter he hgood
    have hindented : Layout.AreIndented next := by
      have := hi.enter s.margin
      rwa [he] at this
    have hlevels : s.settle.1.levels = next := by rw [settle, he]
    have hstack : Layout.IsChain s.settle.1.stack := by
      rw [stack, hlevels]
      refine ⟨List.pairwise_append.mpr ⟨hnext.chain, List.pairwise_singleton _ _, fun l hl o ho => ?_⟩,
        fun l hl => ?_⟩
      · rw [List.mem_singleton.mp ho]
        exact ⟨List.nil_prefix, (hindented l hl).symm⟩
      · rcases List.mem_append.mp hl with hl | hl
        · exact hnext.real l hl
        · rw [List.mem_singleton.mp hl]
          rfl
    refine ⟨⟨?_, hstack, ?_⟩, by rwa [hlevels]⟩
    · rw [stack, Layout.innermost_stack, hlevels, htop]
    · rw [hlevels]
      rcases hchange with ⟨heq, rfl⟩ | ⟨heq, rfl⟩ | ⟨closed, heq, rfl⟩
      · exact .inl ⟨heq, by simp only [settle, he]; rfl⟩
      · exact .inr (.inl ⟨heq, by simp only [settle, he]; rfl⟩)
      · exact .inr (.inr ⟨closed, heq, by simp only [settle, he]; exact s.kinds_dedents _⟩)

end Scan

namespace File

variable {f : File} {bs : List Batch} {s : Scan}

theorem Reaches.areIndented (h : f.Reaches bs s) : Layout.AreIndented s.levels := by
  induction h with
  | start => exact fun _ hl => absurd hl List.not_mem_nil
  | @step _ s b rest _ _ ih =>
    rcases s.levels_step b rest with hlevels | ⟨hline, l, hl⟩
    · rwa [hlevels]
    · obtain ⟨-, -, -, -, hlevels⟩ := Scan.step_of_lexeme hline hl
      rw [hlevels]
      exact ih.enter s.margin

/-- As long as no indentation is bad the levels are a chain. -/
theorem Reaches.isChain (h : f.Reaches bs s)
    (hd : ∀ b ∈ bs, ∀ d ∈ b.diagnostics, d.isBadIndentation = false) : Layout.IsChain s.levels := by
  induction h with
  | start => exact ⟨List.Pairwise.nil, fun _ hl => absurd hl List.not_mem_nil⟩
  | @step bs s b rest h hs ih =>
    have hchain := ih fun b hb => hd b (List.mem_append_left _ hb)
    have hbatch := hd _ (List.mem_append_right bs (List.mem_singleton.mpr rfl))
    rcases s.levels_step b rest with hlevels | ⟨hline, l, hl⟩
    · rwa [hlevels]
    · obtain ⟨token, ds, heq, -, hlevels⟩ := Scan.step_of_lexeme hline hl
      rw [heq] at hbatch
      rw [hlevels]
      exact (Scan.settle_settles hchain h.areIndented fun d hd => hbatch d (List.mem_append_left _ hd)).2

/-- The tokens of any file open and close blocks in pairs. At any time all levels but the outermost one are
indented, and no line can close or change that one. A line that is reached before a bad indentation is
reported opens and closes levels by its margin. -/
theorem tokenize_offside (f : File) :
    IsBalanced (f.tokenize.map (·.kind)) ∧
    (∀ bs s, f.Reaches bs s → Layout.AreIndented s.levels ∧
      ∀ margin, Layout.enterStack s.stack margin =
        ((Layout.enter s.levels margin).1 ++ [Layout.outermost], (Layout.enter s.levels margin).2)) ∧
    ∀ bs s b rest l, f.Reaches bs s → s.rest = b :: rest → s.atLineStart = true →
      Piece.read s.atLineStart b rest = .lexeme l →
      (∀ batch ∈ bs ++ [(s.step b rest).2], ∀ d ∈ batch.diagnostics, d.isBadIndentation = false) →
      (∃ start, f.IsMargin s.margin start s.offset) ∧
        ∃ layout token, (s.step b rest).2.tokens = layout ++ [token] ∧ token.kind = l.kind ∧
          s.Settles (s.step b rest).1 (layout.map (·.kind)) := by
  refine ⟨?_, fun bs s h => ⟨h.areIndented, fun margin => Layout.enterStack_stack _ _⟩, ?_⟩
  · obtain ⟨ks, hks, hnested⟩ := f.tokenize_nested
    rw [hks]
    exact hnested.isBalanced.append (.of_forall (by decide))
  · intro bs s b rest l h hs hline hl hd
    refine ⟨(h.knowsMargin hline).resolve_left fun heq => ?_, ?_⟩
    · rw [hs] at heq
      obtain rfl : b = lineFeed := by simpa using heq
      cases hl
    · obtain ⟨token, ds, heq, hkind, hlevels⟩ := Scan.step_of_lexeme hline hl
      have hchain := h.isChain fun b hb => hd b (List.mem_append_left _ hb)
      have hbatch := hd _ (List.mem_append_right bs (List.mem_singleton.mpr rfl))
      rw [heq] at hbatch
      obtain ⟨htop, hstack, hchange⟩ := (Scan.settle_settles hchain h.areIndented fun d hd =>
        hbatch d (List.mem_append_left _ hd)).1
      refine ⟨s.settle.2.tokens, token, by rw [heq], hkind, ⟨?_, ?_, ?_⟩⟩
      · rwa [Scan.stack, hlevels]
      · rwa [Scan.stack, hlevels]
      · rwa [hlevels]

/-- A file with an indented line. -/
def indented : File := ⟨0, "indented.craft", "do\n  go\n", {}⟩

/-- At its second line one level is opened, for the two blanks that the line starts with. -/
theorem indented_settles : ∃ bs s b rest, indented.Reaches bs s ∧ s.rest = b :: rest ∧
    s.margin = "  " ∧ s.levels = [] ∧ ∃ layout token, (s.step b rest).2.tokens = layout ++ [token] ∧
      token.kind = .ident ∧ s.Settles (s.step b rest).1 (layout.map (·.kind)) := by
  have hdo := @Reaches.step indented _ _ (byte 'd') "o\n  go\n" .start (by decide +kernel)
  have hfeed := @Reaches.step indented _ _ lineFeed "  go\n" hdo (by decide +kernel)
  have hblank := @Reaches.step indented _ _ (byte ' ') " go\n" hfeed (by decide +kernel)
  obtain ⟨-, layout, token, htokens, hkind, hsettles⟩ := indented.tokenize_offside.2.2 _ _ (byte 'g')
    "o\n" (Lexeme.read true (byte 'g') "o\n") hblank (by decide +kernel) (by decide +kernel) rfl
    (by decide +kernel)
  have hident : (Lexeme.read true (byte 'g') "o\n").kind = .ident := by decide +kernel
  exact ⟨_, _, _, _, hblank, by decide +kernel, by decide +kernel, by decide +kernel, layout, token, htokens,
    hkind.trans hident, hsettles⟩

end File

end Craftlang
