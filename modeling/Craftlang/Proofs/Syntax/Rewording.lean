import Craftlang.Proofs.Syntax.ItemRelabelling
import Craftlang.Proofs.Syntax.Words

/-!
# Texts in which a word is replaced

If a name in a text gives way to another one, the pieces before it are read as they were, since none of them
goes on into a word, and so are those behind it, further on by as much as the new name is longer. The tokens
are the same but for that one.
-/

namespace Craftlang

/-! ## What comes before the word -/

namespace Scan

/-- What remains matters only as far as it is taken. -/
theorem take_congr (s : Scan) {rest : Bytes} {p : Piece} (h : rest.take p.size = s.rest.take p.size) :
    ({ s with rest } : Scan).take p = ({ (s.take p).1 with rest }, (s.take p).2) := by
  have hstart : ({ s with rest } : Scan).atLineStart = s.atLineStart := rfl
  cases p with
  | blank n =>
    change rest.take n = s.rest.take n at h
    rw [take, take, hstart, h]
    cases s.atLineStart
    · simp only [hold, ahead, h, Bool.false_eq_true, if_false]
    · rfl
  | comment n =>
    change rest.take n = s.rest.take n at h
    simp only [take, hold, ahead, h]
  | lineEnd =>
    change rest.take 1 = s.rest.take 1 at h
    simp only [take]
    cases hline : (s.inLine && s.depth == 0)
    · simp only [hold, ahead, h, Bool.false_eq_true, if_false]
    · simp only [ahead, if_true]
  | lexeme l =>
    rw [take, take, hstart]
    cases s.atLineStart <;> rfl

/-- A lexeme about which nothing is said has no flaw. -/
theorem flaws_eq_nil {s : Scan} {b : UInt8} {rest : Bytes} (h : (s.step b rest).2.diagnostics = []) {l : Lexeme}
    (hl : Piece.read s.atLineStart b rest = .lexeme l) : l.flaws = [] := by
  change (s.take (Piece.read s.atLineStart b rest)).2.diagnostics = [] at h
  rw [hl, take] at h
  exact List.map_eq_nil_iff.mp (List.append_eq_nil_iff.mp h).2

/-- The tokens of the layout stand before the lexeme that settles it. -/
theorem mem_settle_tokens {s : Scan} {t : Token} (h : t ∈ s.settle.2.tokens) :
    t.kind.isLayout = true ∧ t.span.file = s.file ∧ t.span.stop = s.offset ∧
      (t.span.start = s.offset ∨ t.span.start = s.offset - s.margin.length) := by
  have hdedents : ∀ n, t ∈ s.dedents n → t.kind.isLayout = true ∧ t.span.file = s.file ∧ t.span.stop = s.offset ∧
      (t.span.start = s.offset ∨ t.span.start = s.offset - s.margin.length) := fun n hn => by
    rw [(List.mem_replicate.mp hn).2]
    exact ⟨rfl, rfl, rfl, .inl rfl⟩
  rw [settle] at h
  dsimp only at h
  split at h
  · cases h
  · rw [List.mem_singleton.mp h]
    exact ⟨rfl, rfl, rfl, .inr rfl⟩
  · exact hdedents _ h
  · exact hdedents _ h
  · cases h

end Scan

namespace File

variable {f f' : File} {bs : List Batch} {s : Scan}

theorem Reaches.clean (h : f.Reaches bs s) (hclean : f.lexicalDiagnostics = []) {b : UInt8} {rest : Bytes}
    (hs : s.rest = b :: rest) : (s.step b rest).2.diagnostics = [] := by
  rw [lexicalDiagnostics, (h.step hs).scan_eq, List.flatMap_append, List.flatMap_append] at hclean
  have hstep := (List.append_eq_nil_iff.mp (List.append_eq_nil_iff.mp hclean).1).2
  rwa [List.flatMap_singleton] at hstep

/-- What stands before a word is read alike before another word. -/
theorem Reaches.reword {a : Bytes} {x x' : UInt8} {r r' : Bytes} (hx : Lexeme.StartsWord x r)
    (hx' : Lexeme.StartsWord x' r') (hid : f'.id = f.id) (hf : f.content = a ++ x :: r)
    (hf' : f'.content = a ++ x' :: r') (hclean : f.lexicalDiagnostics = []) (h : f.Reaches bs s) :
    s.offset ≤ a.length → f'.Reaches bs { s with rest := a.drop s.offset ++ x' :: r' } := by
  induction h with
  | start =>
    intro _
    have hstart : ({ Scan.start f with rest := a.drop (Scan.start f).offset ++ x' :: r' } : Scan) = .start f' := by
      rw [Scan.start, Scan.start, hf', hid, List.drop_zero]
    rw [hstart]
    exact .start
  | @step bs s b rest h hs ih =>
    intro hle
    have hpos := Piece.size_read_pos s.atLineStart b rest
    rw [s.offset_step] at hle
    have hbefore := ih (by omega)
    -- Something is left of what comes before the word, and the piece is in it.
    have hrest : s.rest = a.drop s.offset ++ x :: r := by
      rw [h.standsAt.rest, hf, List.drop_append_of_le_length (by omega)]
    obtain ⟨c, u, hu⟩ := List.exists_cons_of_length_pos (l := a.drop s.offset) (by rw [List.length_drop]; omega)
    have hlength : u.length + 1 = a.length - s.offset := by
      rw [← List.length_drop, hu, List.length_cons]
    rw [hu, hs, List.cons_append, List.cons.injEq] at hrest
    obtain ⟨rfl, rfl⟩ := hrest
    have hsame : Piece.read s.atLineStart b (u ++ x' :: r') = Piece.read s.atLineStart b (u ++ x :: r) :=
      Piece.read_append hx hx' (by omega) fun l hl => Scan.flaws_eq_nil (h.clean hclean hs) hl
    have htake : (b :: (u ++ x' :: r')).take (Piece.read s.atLineStart b (u ++ x :: r)).size
        = s.rest.take (Piece.read s.atLineStart b (u ++ x :: r)).size := by
      have hsize : (Piece.read s.atLineStart b (u ++ x :: r)).size ≤ u.length + 1 := by omega
      rw [hs, Lexeme.take_append_of_le _ hsize, Lexeme.take_append_of_le _ hsize]
    have hdrop : (b :: (u ++ x' :: r')).drop (Piece.read s.atLineStart b (u ++ x :: r)).size
        = a.drop (s.offset + (Piece.read s.atLineStart b (u ++ x :: r)).size) ++ x' :: r' := by
      rw [Lexeme.drop_append_of_le _ (by omega), ← hu, List.drop_drop]
    have hstep : ({ s with rest := b :: (u ++ x' :: r') } : Scan).step b (u ++ x' :: r')
        = ({ (s.step b (u ++ x :: r)).1 with
            rest := a.drop (s.step b (u ++ x :: r)).1.offset ++ x' :: r' }, (s.step b (u ++ x :: r)).2) := by
      have hp : Piece.read ({ s with rest := b :: (u ++ x' :: r') } : Scan).atLineStart b (u ++ x' :: r')
          = Piece.read s.atLineStart b (u ++ x :: r) := hsame
      rw [s.offset_step, ← hdrop, Scan.step, hp]
      dsimp only
      rw [Scan.take_congr s htake]
      rfl
    rw [hu, List.cons_append] at hbefore
    have hnext := hbefore.step (show _ = b :: (u ++ x' :: r') from rfl)
    rw [hstep] at hnext
    exact hnext

end File

/-! ## What comes behind the word -/

/-- The word at `start` ends at `stop` and gives way to another one: what stands behind it moves. -/
def Relabelling.rewording (file start stop : Nat) (new : Bytes) : Relabelling where
  file := file
  place i := if i < stop then min i start else start + new.length + (i - stop)
  mono := by
    intro i j hij
    dsimp only
    split <;> split <;> omega
  text x text := if x = ⟨file, start, stop⟩ then new else text

section

variable {file start stop : Nat} {new : Bytes}

theorem Relabelling.place_before {i : Nat} (hi : i ≤ start) (hlt : start < stop) :
    (rewording file start stop new).place i = i := by
  change (if i < stop then min i start else _) = i
  rw [if_pos (by omega)]
  omega

theorem Relabelling.place_behind {i : Nat} (hi : stop ≤ i) :
    (rewording file start stop new).place i = start + new.length + (i - stop) := if_neg (by omega)

/-- What ends before the word stays. -/
theorem Token.mirrors_before {t : Token} (hfile : t.span.file = file) (hstart : t.span.start ≤ start)
    (hstop : t.span.stop ≤ start) (hlt : start < stop) : t.Mirrors (.rewording file start stop new) t where
  inFile := hfile
  kind := rfl
  span := by
    rw [Relabelling.span, Relabelling.place_before hstart hlt, Relabelling.place_before hstop hlt]
  text := by
    have hne : t.span ≠ ⟨file, start, stop⟩ := fun h => by
      rw [h] at hstop
      exact absurd hstop (Nat.not_le.mpr hlt)
    split
    · exact (if_neg hne).symm
    · rfl

/-- What stands behind the word moves along. -/
theorem Token.mirrors_behind (hlt : start < stop) {i j i' j' : Nat} (hi : stop ≤ i) (hj : stop ≤ j)
    (hi' : i' = start + new.length + (i - stop)) (hj' : j' = start + new.length + (j - stop)) (k : Kind)
    (text : Bytes) (leading leading' : List Trivia) :
    Token.Mirrors (.rewording file start stop new) ⟨k, ⟨file, i, j⟩, text, leading⟩
      ⟨k, ⟨file, i', j'⟩, text, leading'⟩ where
  inFile := rfl
  kind := rfl
  span := by
    rw [Relabelling.span, Relabelling.place_behind hi, Relabelling.place_behind hj, hi', hj']
  text := by
    have hne : (⟨file, i, j⟩ : Span) ≠ ⟨file, start, stop⟩ := fun h => by
      cases h
      exact absurd hi (Nat.not_le.mpr hlt)
    split
    · exact (if_neg hne).symm
    · rfl

/-- A batch moved: its tokens are, and as little is wrong. -/
structure Batch.Mirrors (ρ : Relabelling) (b b' : Batch) : Prop where
  tokens : List.Forall₂ (Token.Mirrors ρ) b.tokens b'.tokens
  clean : b.diagnostics = [] → b'.diagnostics = []

theorem Batch.clean_of_mirrors {ρ : Relabelling} {bs bs' : List Batch} (h : List.Forall₂ (Batch.Mirrors ρ) bs bs')
    (hclean : bs.flatMap (·.diagnostics) = []) : bs'.flatMap (·.diagnostics) = [] := by
  induction h with
  | nil => rfl
  | cons hb _ ih =>
    rw [List.flatMap_cons] at hclean ⊢
    obtain ⟨hfirst, hrest⟩ := List.append_eq_nil_iff.mp hclean
    exact List.append_eq_nil_iff.mpr ⟨hb.clean hfirst, ih hrest⟩

/-- Two states behind the word, with the same text before them. Where a line starts, its margin is behind the
word too. -/
structure Scan.Shifted (file start stop : Nat) (new : Bytes) (s s' : Scan) : Prop where
  inFile : s.file = file
  inFile' : s'.file = file
  offset_le : stop ≤ s.offset
  offset' : s'.offset = start + new.length + (s.offset - stop)
  rest : s'.rest = s.rest
  margin : s'.margin = s.margin
  levels : s'.levels = s.levels
  inLine : s'.inLine = s.inLine
  depth : s'.depth = s.depth
  room : s.inLine = true ∨ stop + s.margin.length ≤ s.offset

namespace Scan.Shifted

variable {s s' : Scan} (h : Shifted file start stop new s s') (hlt : start < stop)

include h

theorem atLineStart : s'.atLineStart = s.atLineStart := by
  rw [Scan.atLineStart, Scan.atLineStart, h.inLine, h.depth]

theorem hold (k k' : TriviaKind) (n n' : Nat) : Shifted file start stop new (s.hold k n) (s'.hold k' n') :=
  ⟨h.inFile, h.inFile', h.offset_le, h.offset', h.rest, h.margin, h.levels, h.inLine, h.depth, h.room⟩

theorem skip (n : Nat) : Shifted file start stop new (s.skip n) (s'.skip n) := by
  have hle := h.offset_le
  refine ⟨h.inFile, h.inFile', Nat.le_add_right_of_le hle, ?_, congrArg (List.drop n) h.rest, h.margin, h.levels,
    h.inLine, h.depth, h.room.imp_right Nat.le_add_right_of_le⟩
  change s'.offset + n = start + new.length + (s.offset + n - stop)
  rw [h.offset']
  omega

include hlt

/-- Tokens at the place itself, or from some bytes before it on. -/
theorem token {m n : Nat} (hm : stop + m ≤ s.offset) (k : Kind) (text : Bytes) (leading leading' : List Trivia) :
    Token.Mirrors (.rewording file start stop new) ⟨k, ⟨s.file, s.offset - m, s.offset + n⟩, text, leading⟩
      ⟨k, ⟨s'.file, s'.offset - m, s'.offset + n⟩, text, leading'⟩ := by
  rw [h.inFile, h.inFile']
  refine Token.mirrors_behind hlt (by omega) (by omega) ?_ ?_ k text leading leading'
  · rw [h.offset']
    omega
  · rw [h.offset']
    omega

theorem dedents (n : Nat) :
    List.Forall₂ (Token.Mirrors (.rewording file start stop new)) (s.dedents n) (s'.dedents n) := by
  have hone := h.token hlt (m := 0) (n := 0) h.offset_le .dedent [] [] []
  induction n with
  | zero => exact .nil
  | succ n ih => exact .cons hone ih

theorem settle (hstart : s.atLineStart = true) : Shifted file start stop new s.settle.1 s'.settle.1 ∧
    Batch.Mirrors (.rewording file start stop new) s.settle.2 s'.settle.2 := by
  have hroom := h.room.resolve_left fun hin => by
    rw [Scan.atLineStart, hin] at hstart
    cases hstart
  rw [Scan.settle, Scan.settle, h.levels, h.margin]
  refine ⟨⟨h.inFile, h.inFile', h.offset_le, h.offset', h.rest, rfl, rfl, h.inLine, h.depth, h.room⟩, ?_⟩
  dsimp only
  split
  · exact ⟨.nil, fun _ => rfl⟩
  · exact ⟨.cons (h.token hlt (n := 0) hroom .indent s.margin [] []) .nil, fun _ => rfl⟩
  · exact ⟨h.dedents hlt _, fun _ => rfl⟩
  · exact ⟨h.dedents hlt _, fun hclean => absurd hclean (List.cons_ne_nil _ _)⟩
  · exact ⟨.nil, fun hclean => absurd hclean (List.cons_ne_nil _ _)⟩

theorem emit (l : Lexeme) : Shifted file start stop new (s.emit l).1 (s'.emit l).1 ∧
    Batch.Mirrors (.rewording file start stop new) (s.emit l).2 (s'.emit l).2 := by
  refine ⟨⟨h.inFile, h.inFile', h.offset_le, h.offset', h.rest, h.margin, h.levels, rfl, ?_, .inl rfl⟩, ?_, ?_⟩
  · exact congrArg (depthAfter · l.kind) h.depth
  · exact .cons (h.token hlt (m := 0) h.offset_le l.kind l.text s.held s'.held) .nil
  · exact fun hclean => List.map_eq_nil_iff.mpr (List.map_eq_nil_iff.mp hclean)

theorem step (b : UInt8) (rest : Bytes) : Shifted file start stop new (s.step b rest).1 (s'.step b rest).1 ∧
    Batch.Mirrors (.rewording file start stop new) (s.step b rest).2 (s'.step b rest).2 := by
  rw [Scan.step, Scan.step, h.atLineStart]
  dsimp only
  generalize Piece.read s.atLineStart b rest = p
  have hle := h.offset_le
  cases p with
  | blank n =>
    rw [take, take, h.atLineStart, h.rest, h.margin]
    cases hline : s.atLineStart with
    | false => exact ⟨(h.hold .space .space n n).skip n, .nil, id⟩
    | true =>
      have hroom := h.room.resolve_left fun hin => by
        rw [Scan.atLineStart, hin] at hline
        cases hline
      refine ⟨⟨h.inFile, h.inFile', Nat.le_add_right_of_le hle, ?_, rfl, rfl, h.levels, h.inLine, h.depth,
        .inr ?_⟩, .nil, id⟩
      · exact (h.skip n).offset'
      · have htake : (s.rest.take n).length ≤ n := List.length_take_le n s.rest
        change stop + (s.margin ++ s.rest.take n).length ≤ s.offset + n
        rw [List.length_append]
        omega
  | comment n => exact ⟨(h.hold .comment .comment n n).skip n, .nil, id⟩
  | lineEnd =>
    rw [take, take, h.inLine, h.depth]
    cases s.inLine && s.depth == 0 with
    | false =>
      refine ⟨⟨h.inFile, h.inFile', Nat.le_add_right_of_le hle, (h.skip 1).offset',
        congrArg (List.drop 1) h.rest, rfl, h.levels,
        h.inLine, h.depth, .inr (Nat.le_add_right_of_le hle)⟩, .nil, id⟩
    | true =>
      refine ⟨⟨h.inFile, h.inFile', Nat.le_add_right_of_le hle, (h.skip 1).offset',
        congrArg (List.drop 1) h.rest, rfl, h.levels,
        rfl, rfl, .inr (Nat.le_add_right_of_le hle)⟩, .cons ?_ .nil, id⟩
      exact h.token hlt (m := 0) h.offset_le .newline [lineFeed] s.held s'.held
  | lexeme l =>
    rw [take, take, h.atLineStart]
    cases hline : s.atLineStart with
    | false =>
      obtain ⟨hnext, hbatch⟩ := h.emit hlt l
      exact ⟨hnext.skip l.size, hbatch⟩
    | true =>
      obtain ⟨hsettled, hlayout⟩ := h.settle hlt hline
      obtain ⟨hnext, hbatch⟩ := hsettled.emit hlt l
      refine ⟨hnext.skip l.size, List.rel_append hlayout.tokens hbatch.tokens, fun hclean => ?_⟩
      obtain ⟨hfirst, hsecond⟩ := List.append_eq_nil_iff.mp hclean
      exact List.append_eq_nil_iff.mpr ⟨hlayout.clean hfirst, hbatch.clean hsecond⟩

theorem finish : Batch.Mirrors (.rewording file start stop new) s.finish s'.finish := by
  have hhere : ∀ (k : Kind) (held held' : List Trivia), Token.Mirrors (.rewording file start stop new)
      ⟨k, s.here, [], held⟩ ⟨k, s'.here, [], held'⟩ := fun k held held' =>
    h.token hlt (m := 0) (n := 0) h.offset_le k [] held held'
  refine ⟨List.rel_append (List.rel_append ?_ ?_) (.cons (hhere ..) .nil), fun _ => rfl⟩
  · rw [h.inLine]
    cases s.inLine with
    | false => exact .nil
    | true => exact .cons (hhere ..) .nil
  · rw [h.levels]
    exact h.dedents hlt _

omit h in
theorem batches (s s' : Scan) (h : Shifted file start stop new s s') :
    List.Forall₂ (Batch.Mirrors (.rewording file start stop new)) s.batches s'.batches := by
  rw [Scan.batches, Scan.batches, h.rest]
  split
  · exact .cons (h.finish hlt) .nil
  · rename_i b rest hs
    obtain ⟨hnext, hbatch⟩ := h.step hlt b rest
    exact .cons hbatch (batches _ _ hnext)
termination_by s.rest.length
decreasing_by exact step_rest_lt s _ _ ‹_›

end Scan.Shifted

/-- A word and another one in its place, read from states that differ in what remains alone. -/
theorem Scan.step_word {s : Scan} {x x' : UInt8} {r r' old b : Bytes} (hfile : s.file = file)
    (hoffset : s.offset = start) (hstop : stop = start + old.length) (hlt : start < stop)
    (hrest : s.rest = old ++ b) (hx : Lexeme.StartsWord x r) (hx' : Lexeme.StartsWord x' r')
    (hold : Lexeme.word x r = ⟨.ident, old, old.length, []⟩)
    (hnew : Lexeme.word x' r' = ⟨.ident, new, new.length, []⟩) :
    Shifted file start stop new (s.step x r).1 (({ s with rest := new ++ b } : Scan).step x' r').1 ∧
      Batch.Mirrors (.rewording file start stop new) (s.step x r).2
        (({ s with rest := new ++ b } : Scan).step x' r').2 := by
  have hstart : ({ s with rest := new ++ b } : Scan).atLineStart = s.atLineStart := rfl
  have hdrop : s.rest.drop old.length = b := by rw [hrest, List.drop_left]
  have hdrop' : (new ++ b).drop new.length = b := List.drop_left
  have hword : ∀ held, Token.Mirrors (.rewording file start stop new) ⟨.ident, s.ahead old.length, old, held⟩
      ⟨.ident, s.ahead new.length, new, held⟩ := by
    intro held
    have hspan : s.ahead old.length = ⟨file, start, stop⟩ := by rw [Scan.ahead, hfile, hoffset, hstop]
    refine ⟨hfile, rfl, ?_, ?_⟩
    · rw [hspan, Relabelling.span, Relabelling.place_before (Nat.le_refl _) hlt,
        Relabelling.place_behind (Nat.le_refl _), Scan.ahead, hfile, hoffset, Nat.sub_self]
      rfl
    · rw [hspan]
      exact (if_pos rfl).symm
  have hoffset' : s.offset + new.length = start + new.length + (s.offset + old.length - stop) := by omega
  rw [Scan.step, Scan.step, hstart, hx.read_eq, hx'.read_eq, hold, hnew]
  dsimp only [take, Piece.size]
  rw [hstart]
  cases s.atLineStart with
  | false =>
    refine ⟨⟨hfile, hfile, ?_, hoffset', hdrop'.trans hdrop.symm, rfl, rfl, rfl, rfl, .inl rfl⟩,
      .cons (hword _) .nil, id⟩
    exact (hoffset ▸ hstop).le
  | true =>
    have hsettle : ({ s with rest := new ++ b } : Scan).settle
        = ({ s.settle.1 with rest := new ++ b }, s.settle.2) := rfl
    rw [hsettle]
    refine ⟨⟨hfile, hfile, ?_, hoffset', hdrop'.trans hdrop.symm, rfl, rfl, rfl, rfl, .inl rfl⟩, ?_, id⟩
    · exact (hoffset ▸ hstop).le
    · refine List.rel_append (List.forall₂_same.mpr fun t ht => ?_) (.cons (hword _) .nil)
      obtain ⟨-, hin, hend, hbegin⟩ := mem_settle_tokens ht
      exact Token.mirrors_before (hin.trans hfile) (by omega) (by omega) hlt

end

/-! ## Identifiers among the tokens -/

namespace File

variable {f f' : File} {bs : List Batch} {s : Scan} {t : Token}

/-- A token that was read was read at some state. -/
theorem Reaches.exists_step (h : f.Reaches bs s) (ht : t ∈ tokensOf bs) : ∃ bs s b rest,
    f.Reaches bs s ∧ s.rest = b :: rest ∧ t ∈ (s.step b rest).2.tokens := by
  induction h with
  | start => cases ht
  | @step bs s b rest h hs ih =>
    rw [tokensOf_concat] at ht
    rcases List.mem_append.mp ht with ht | ht
    · exact ih ht
    · exact ⟨bs, s, b, rest, h, hs, ht⟩

/-- What is left at the end of a text is layout and the end of the file. -/
theorem lexeme_notMem_finish (ht : t ∈ s.finish.tokens) : t.kind.isLayout = true ∨ t.kind = .eof := by
  rcases List.mem_append.mp ht with ht | ht
  · rcases List.mem_append.mp ht with ht | ht
    · split at ht
      · rw [List.mem_singleton.mp ht]
        exact .inl rfl
      · cases ht
    · rw [(List.mem_replicate.mp ht).2]
      exact .inl rfl
  · rw [List.mem_singleton.mp ht]
    exact .inr rfl

/-- A token that is neither layout nor the end of the file is a lexeme that was read at its place. -/
theorem exists_reaches_lexeme (ht : t ∈ f.tokenize) (hk : t.kind.isLayout = false) (hend : t.kind ≠ .eof) :
    ∃ bs s b rest l, f.Reaches bs s ∧ s.rest = b :: rest ∧ Piece.read s.atLineStart b rest = .lexeme l ∧
      t = ⟨l.kind, s.ahead l.text.length, l.text, s.held⟩ := by
  obtain ⟨bs, s, hreach, -, hscan⟩ := f.exists_reaches_end
  rw [tokenize, hscan] at ht
  change t ∈ tokensOf (bs ++ [s.finish]) at ht
  rw [tokensOf_concat] at ht
  have ht := (List.mem_append.mp ht).resolve_right fun hlast => by
    rcases lexeme_notMem_finish hlast with hlayout | heof
    · exact Bool.false_ne_true (hk.symm.trans hlayout)
    · exact hend heof
  obtain ⟨bs, s, b, rest, hreach, hs, ht⟩ := hreach.exists_step ht
  change t ∈ (s.take (Piece.read s.atLineStart b rest)).2.tokens at ht
  cases hread : Piece.read s.atLineStart b rest with
  | blank size =>
    rw [hread, Scan.take] at ht
    split at ht <;> cases ht
  | comment size =>
    rw [hread, Scan.take] at ht
    cases ht
  | lineEnd =>
    rw [hread, Scan.take] at ht
    split at ht
    · rw [List.mem_singleton.mp ht] at hk
      cases hk
    · cases ht
  | lexeme l =>
    rw [hread, Scan.take] at ht
    have hemitted := (List.mem_append.mp ht).resolve_left fun hsettle => by
      split at hsettle
      · exact Bool.false_ne_true (hk.symm.trans (Scan.mem_settle_tokens hsettle).1)
      · cases hsettle
    refine ⟨bs, s, b, rest, l, hreach, hs, hread, ?_⟩
    rw [List.mem_singleton.mp hemitted]
    split <;> rfl

/-- An identifier is a word that was read at its place. -/
theorem exists_reaches_word (ht : t ∈ f.tokenize) (hk : t.kind = .ident) : ∃ bs s x r, f.Reaches bs s ∧
    s.rest = x :: r ∧ Lexeme.StartsWord x r ∧ (Lexeme.word x r).kind = .ident ∧
      t.span = s.ahead (Lexeme.word x r).text.length := by
  obtain ⟨bs, s, x, r, l, hreach, hs, hread, rfl⟩ :=
    exists_reaches_lexeme ht (by rw [hk]; rfl) (by rw [hk]; exact Kind.noConfusion)
  have hl := Scan.eq_read_of_lexeme hread
  have hx := Lexeme.startsWord_of_ident (hl ▸ hk)
  obtain rfl : l = Lexeme.word x r := Piece.lexeme.inj (hread.symm.trans (hx.read_eq s.atLineStart))
  exact ⟨bs, s, x, r, hreach, hs, hx, hk, rfl⟩

/-- If an identifier of a file in which nothing is wrong gives way to another one, the tokens before it stay,
those behind it move, and still nothing is wrong. -/
theorem tokenize_reworded {a old new b : Bytes} (hclean : f.lexicalDiagnostics = []) (hid : f'.id = f.id)
    (hf : f.content = a ++ (old ++ b)) (hf' : f'.content = a ++ (new ++ b)) (hnew : new.IsIdentifier)
    (ht : t ∈ f.tokenize) (hk : t.kind = .ident) (hspan : t.span = ⟨f.id, a.length, a.length + old.length⟩) :
    List.Forall₂ (Token.Mirrors (.rewording f.id a.length (a.length + old.length) new)) f.tokenize f'.tokenize ∧
      f'.lexicalDiagnostics = [] := by
  obtain ⟨bs, s, x, r, hreach, hs, hx, hkind, hahead⟩ := exists_reaches_word ht hk
  rw [hspan, Scan.ahead, Span.mk.injEq] at hahead
  obtain ⟨hfile, hoffset, hlength⟩ := hahead
  have hrest : x :: r = old ++ b := by rw [← hs, hreach.standsAt.rest, hf, ← hoffset, List.drop_left]
  have hsize : (Lexeme.word x r).size = old.length := by
    have hle := Lexeme.wordLength_le (x :: r)
    rw [← Lexeme.word_size hx] at hle
    have htext : (Lexeme.word x r).text.length = (Lexeme.word x r).size := List.length_take_of_le hle
    omega
  have hold : Lexeme.word x r = ⟨.ident, old, old.length, []⟩ := by
    have htext : (Lexeme.word x r).text = old := by
      change (x :: r).take (Lexeme.word x r).size = old
      rw [hsize, hrest, List.take_left]
    rw [← hkind, ← hsize]
    conv => rhs; rw [← htext]
    rfl
  have hpos : 0 < old.length := hsize ▸ Lexeme.word_size hx ▸ hx.wordLength_pos
  have hend : Lexeme.wordLength b = 0 := by
    have hdrop := Lexeme.wordLength_drop (x :: r)
    rwa [← Lexeme.word_size hx, hsize, hrest, List.drop_left] at hdrop
  obtain ⟨x', r', hnext, hx', hword⟩ := hnew.read hend
  have hreach' := hreach.reword hx hx' hid (hrest ▸ hf) (hnext ▸ hf') hclean (hoffset ▸ Nat.le_refl _)
  have hnone : a.drop s.offset = [] := by rw [← hoffset, List.drop_length]
  rw [hnone, List.nil_append, ← hnext] at hreach'
  obtain ⟨hshift, hbatch⟩ := Scan.step_word hfile.symm hoffset.symm rfl (by omega) (hs.trans hrest) hx hx'
    hold hword
  have hscan : f.scan = (bs ++ [(s.step x r).2]) ++ (s.step x r).1.batches := (hreach.step hs).scan_eq
  have hscan' := (hreach'.step hnext).scan_eq
  have hbehind := Scan.Shifted.batches (by omega) _ _ hshift
  obtain ⟨mark, htiling, -⟩ := hreach.tiled
  have hbefore : ∀ batch ∈ bs, batch.Mirrors (.rewording f.id a.length (a.length + old.length) new) batch := by
    refine fun batch hin => ⟨List.forall₂_same.mpr fun u hu => ?_, fun hnil => hnil⟩
    obtain ⟨hbears, hmark⟩ := htiling.tokens u (List.mem_flatMap.mpr ⟨batch, hin, hu⟩)
    have hle := htiling.mark_le
    have hordered := hbears.text.ordered
    exact Token.mirrors_before hbears.text.file (by omega) (by omega) (by omega)
  have hall : List.Forall₂ (Batch.Mirrors (.rewording f.id a.length (a.length + old.length) new)) f.scan f'.scan := by
    rw [hscan, hscan']
    exact List.rel_append (List.rel_append (List.forall₂_same.mpr hbefore) (.cons hbatch .nil)) hbehind
  refine ⟨?_, ?_⟩
  · rw [tokenize, tokenize]
    exact List.rel_flatMap hall fun _ _ hmirrors => hmirrors.tokens
  · rw [lexicalDiagnostics] at hclean ⊢
    exact Batch.clean_of_mirrors hall hclean

end File

end Craftlang
