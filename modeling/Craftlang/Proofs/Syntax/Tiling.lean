import Craftlang.Proofs.Syntax.Nesting
import Craftlang.Proofs.Syntax.Scanning
import Mathlib.Data.List.Pairwise

/-!
# Tokens tile the text

Reading loses no byte of a text and takes none twice. What was read up to some place is a tiling: the
texts of the tokens and of the trivia are spans of the file that lie apart, and between them there are
blanks only. Every piece extends the tiling at its end.
-/

namespace Craftlang

namespace Span

/-- No byte is in both. -/
def Apart (a b : Span) : Prop := a.stop ≤ b.start ∨ b.stop ≤ a.start

def Covers (a : Span) (i : Nat) : Prop := a.start ≤ i ∧ i < a.stop

theorem Apart.symm {a b : Span} (h : a.Apart b) : b.Apart a := Or.symm h

end Span

/-- The spans of the text that comes with a token: the trivia before it and, unless it is empty, its
own. -/
def Token.pieces (t : Token) : List Span :=
  t.leading.map (·.span) ++ if t.span.isEmpty then [] else [t.span]

namespace File

/-- A text is what the file has at a span. -/
structure Holds (f : File) (span : Span) (text : Bytes) : Prop where
  file : span.file = f.id
  ordered : span.start ≤ span.stop
  inside : span.stop ≤ f.size
  text : text = f.slice span.start span.stop

/-- A token of a file: its text and that of its trivia stand where they say. Only the end of a block, the
end of the file and a line end that the file lacks at its end are empty. -/
structure Bears (f : File) (t : Token) : Prop where
  text : f.Holds t.span t.text
  leading : ∀ x ∈ t.leading, f.Holds x.span x.text ∧ x.span.start < x.span.stop
  empty : t.kind = .dedent → t.span.isEmpty = true
  atEnd : t.kind = .eof → t.span = .point f.id f.size
  newline : t.kind = .newline → t.text = [lineFeed] ∨ t.span = .point f.id f.size
  nonempty : t.kind = .indent ∨ t.kind.isContent = true → t.span.start < t.span.stop

/-- Is there a blank at a place? -/
def BlankAt (f : File) (i : Nat) : Prop := ∃ c, f.content[i]? = some c ∧ Piece.isBlank c = true

end File

/-- The spans of the text of tokens and of trivia that wait for one. -/
def piecesOf (ts : List Token) (held : List Trivia) : List Span :=
  ts.flatMap Token.pieces ++ held.map (·.span)

/-- The text before `stop` is read: tokens and trivia that wait for one lie before `mark`, and what they
leave out are blanks. -/
structure Tiling (f : File) (ts : List Token) (held : List Trivia) (mark stop : Nat) : Prop where
  mark_le : mark ≤ stop
  stop_le : stop ≤ f.size
  tokens : ∀ t ∈ ts, f.Bears t ∧ t.span.stop ≤ mark
  ordered : ts.Pairwise fun t u => t.span.stop ≤ u.span.start
  waiting : ∀ x ∈ held, f.Holds x.span x.text ∧ x.span.start < x.span.stop
  apart : (piecesOf ts held).Pairwise Span.Apart
  within : ∀ p ∈ piecesOf ts held, p.stop ≤ mark
  blank : ∀ i < stop, (∀ p ∈ piecesOf ts held, ¬ p.Covers i) → f.BlankAt i

namespace Tiling

variable {f : File} {ts : List Token} {held : List Trivia} {mark stop : Nat}

theorem nil (f : File) : Tiling f [] [] 0 0 where
  mark_le := Nat.le_refl _
  stop_le := Nat.zero_le _
  tokens := fun _ ht => absurd ht List.not_mem_nil
  ordered := List.Pairwise.nil
  waiting := fun _ hx => absurd hx List.not_mem_nil
  apart := List.Pairwise.nil
  within := fun _ hp => absurd hp List.not_mem_nil
  blank := fun i hi => absurd hi (Nat.not_lt_zero i)

/-- Blanks need not be kept. -/
theorem skip (h : Tiling f ts held mark stop) {next : Nat} (hle : stop ≤ next) (hsize : next ≤ f.size)
    (hblank : ∀ i, stop ≤ i → i < next → f.BlankAt i) : Tiling f ts held mark next where
  mark_le := Nat.le_trans h.mark_le hle
  stop_le := hsize
  tokens := h.tokens
  ordered := h.ordered
  waiting := h.waiting
  apart := h.apart
  within := h.within
  blank := fun i hi hnone => by
    by_cases hlt : i < stop
    · exact h.blank i hlt hnone
    · exact hblank i (Nat.not_lt.mp hlt) hi

/-- A span behind everything that was read lies apart from it. -/
theorem apart_concat (h : Tiling f ts held mark stop) {p : Span} (hp : mark ≤ p.start) :
    (piecesOf ts held ++ [p]).Pairwise Span.Apart := by
  rw [List.pairwise_append]
  refine ⟨h.apart, List.pairwise_singleton _ _, fun q hq r hr => ?_⟩
  rw [List.mem_singleton.mp hr]
  exact .inl (Nat.le_trans (h.within q hq) hp)

theorem piecesOf_hold (ts : List Token) (held : List Trivia) (x : Trivia) :
    piecesOf ts (held ++ [x]) = piecesOf ts held ++ [x.span] := by
  rw [piecesOf, List.map_append, ← List.append_assoc]
  rfl

/-- The next bytes are kept as trivia. -/
theorem hold (h : Tiling f ts held mark stop) {x : Trivia} (hx : f.Holds x.span x.text)
    (hstart : x.span.start = stop) (hlt : stop < x.span.stop) :
    Tiling f ts (held ++ [x]) x.span.stop x.span.stop where
  mark_le := Nat.le_refl _
  stop_le := hx.inside
  tokens := fun t ht => ⟨(h.tokens t ht).1, by have := (h.tokens t ht).2; have := h.mark_le; omega⟩
  ordered := h.ordered
  waiting := by
    intro y hy
    rcases List.mem_append.mp hy with hy | hy
    · exact h.waiting y hy
    · rw [List.mem_singleton.mp hy]
      exact ⟨hx, hstart ▸ hlt⟩
  apart := by
    rw [piecesOf_hold]
    exact h.apart_concat (by rw [hstart]; exact h.mark_le)
  within := by
    intro p hp
    rw [piecesOf_hold] at hp
    rcases List.mem_append.mp hp with hp | hp
    · have := h.within p hp
      have := h.mark_le
      omega
    · rw [List.mem_singleton.mp hp]
  blank := by
    intro i hi hnone
    rw [piecesOf_hold] at hnone
    by_cases hlt : i < stop
    · exact h.blank i hlt fun p hp => hnone p (List.mem_append_left _ hp)
    · exact absurd ⟨by omega, hi⟩ (hnone x.span (List.mem_append_right _ (List.mem_singleton.mpr rfl)))

/-- A token comes next; it takes along trivia that waited, and it may start in the blanks before. -/
theorem push (h : Tiling f ts held mark stop) {t : Token} {left : List Trivia} (ht : f.Bears t)
    (hheld : t.leading ++ left = held) (hmark : mark ≤ t.span.start) (hstart : t.span.start ≤ stop)
    (hstop : stop ≤ t.span.stop) : Tiling f (ts ++ [t]) left t.span.stop t.span.stop := by
  -- the trivia that wait on come before the token in the text, and behind it in the list
  have hperm : (piecesOf ts held ++ if t.span.isEmpty then [] else [t.span]).Perm
      (piecesOf (ts ++ [t]) left) := by
    rw [piecesOf, piecesOf, ← hheld, List.flatMap_append, List.flatMap_singleton, Token.pieces,
      List.map_append]
    simp only [List.append_assoc]
    exact ((List.perm_append_comm).append_left _).append_left _
  have hmem : ∀ p, p ∈ piecesOf (ts ++ [t]) left ↔
      p ∈ piecesOf ts held ∨ (t.span.isEmpty = false ∧ p = t.span) := by
    intro p
    rw [← hperm.mem_iff, List.mem_append]
    cases t.span.isEmpty <;> simp
  have hle := h.mark_le
  refine ⟨Nat.le_refl _, ht.text.inside, fun u hu => ?_, ?_, fun x hx => h.waiting x ?_, ?_, fun p hp => ?_,
    fun i hi hnone => ?_⟩
  · rcases List.mem_append.mp hu with hu | hu
    · have := (h.tokens u hu).2
      exact ⟨(h.tokens u hu).1, by omega⟩
    · rw [List.mem_singleton.mp hu]
      exact ⟨ht, Nat.le_refl _⟩
  · rw [List.pairwise_append]
    refine ⟨h.ordered, List.pairwise_singleton _ _, fun u hu v hv => ?_⟩
    rw [List.mem_singleton.mp hv]
    exact Nat.le_trans (h.tokens u hu).2 hmark
  · rw [← hheld]
    exact List.mem_append_right _ hx
  · refine (hperm.pairwise_iff Span.Apart.symm).mp ?_
    split
    · rw [List.append_nil]
      exact h.apart
    · exact h.apart_concat hmark
  · rcases (hmem p).mp hp with hp | ⟨-, rfl⟩
    · have := h.within p hp
      omega
    · exact Nat.le_refl _
  · by_cases hlt : i < stop
    · exact h.blank i hlt fun p hp => hnone p ((hmem p).mpr (.inl hp))
    · refine absurd ⟨by omega, hi⟩ (hnone t.span ((hmem _).mpr (.inr ⟨?_, rfl⟩)))
      rw [Span.isEmpty, beq_eq_false_iff_ne]
      omega

/-- The ends of blocks take nothing. -/
theorem dedents (h : Tiling f ts held mark stop) (n : Nat) : ∃ mark',
    Tiling f (ts ++ List.replicate n ⟨.dedent, .point f.id stop, [], []⟩) held mark' stop := by
  induction n generalizing ts mark with
  | zero => exact ⟨mark, by rwa [List.replicate_zero, List.append_nil]⟩
  | succ n ih =>
    have hempty : f.slice stop stop = [] := by
      rw [← List.length_eq_zero_iff, File.length_slice h.stop_le, Nat.sub_self]
    have hbears : f.Bears ⟨.dedent, .point f.id stop, [], []⟩ :=
      ⟨⟨rfl, Nat.le_refl _, h.stop_le, hempty.symm⟩, fun _ hx => absurd hx List.not_mem_nil,
        fun _ => by simp [Span.point, Span.isEmpty], nofun, nofun, fun hk => hk.elim nofun nofun⟩
    have hnext := h.push hbears rfl h.mark_le (Nat.le_refl _) (Nat.le_refl _)
    obtain ⟨mark', hall⟩ := ih hnext
    refine ⟨mark', ?_⟩
    rwa [List.append_assoc] at hall

end Tiling

/-- A line that opens a block is indented. -/
theorem Layout.ne_nil_of_opens {levels next : List Level} {margin : Bytes}
    (h : enter levels margin = (next, .opens)) : margin ≠ [] := by
  unfold enter at h
  dsimp only at h
  split at h
  · cases h
  rename_i hne
  split at h
  · exact ne_nil_of_isPrefixOf hne ‹_›
  split at h
  · split at h <;> cases h
  · split at h <;> cases h

namespace File

variable {f : File} {bs : List Batch} {s : Scan}

/-- The tokens of batches. -/
def tokensOf (bs : List Batch) : List Token := bs.flatMap (·.tokens)

theorem tokensOf_concat (bs : List Batch) (b : Batch) : tokensOf (bs ++ [b]) = tokensOf bs ++ b.tokens := by
  rw [tokensOf, List.flatMap_append, List.flatMap_singleton]
  rfl

/-- The next bytes of what remains, as the file has them. -/
theorem StandsAt.holds (h : f.StandsAt s) {size : Nat} (hsize : size ≤ s.rest.length) :
    f.Holds (s.ahead size) (s.rest.take size) := by
  have hlength := congrArg List.length h.rest
  rw [List.length_drop] at hlength
  have hle := h.offset_le
  refine ⟨h.file, Nat.le_add_right _ _, ?_, h.slice size⟩
  change s.offset + size ≤ f.content.length
  change s.offset ≤ f.content.length at hle
  omega

/-- What reading has made of the text before a state. At the start of a line its margin is left. -/
def Tiled (f : File) (ts : List Token) (s : Scan) : Prop :=
  ∃ mark, Tiling f ts s.held mark s.offset ∧ (s.atLineStart = true →
    s.rest.head?.all (· == lineFeed) = true ∨ mark ≤ s.offset - s.margin.length)

/-- Settling the layout makes tokens of the margin. -/
theorem Tiled.settle {ts : List Token} (h : f.Tiled ts s) (hf : f.StandsAt s) {start : Nat}
    (hmargin : f.IsMargin s.margin start s.offset) (hline : s.atLineStart = true)
    (hrest : s.rest.head?.all (· == lineFeed) ≠ true) :
    ∃ mark, Tiling f (ts ++ s.settle.2.tokens) s.held mark s.offset := by
  obtain ⟨mark, htiling, hmark⟩ := h
  have hle := (hmark hline).resolve_left hrest
  rw [Scan.settle]
  dsimp only
  split
  · exact ⟨mark, by rwa [List.append_nil]⟩
  · rename_i hopens
    -- a line that opens a block has a margin
    have hpos : 0 < s.margin.length :=
      List.length_pos_iff.mpr (Layout.ne_nil_of_opens (Prod.ext rfl hopens))
    have hlength := hmargin.length_eq hf.offset_le
    have hsize : s.margin.length = s.offset - start := by rw [hmargin.text, length_slice hf.offset_le]
    have hbears : f.Bears ⟨.indent, ⟨s.file, s.offset - s.margin.length, s.offset⟩, s.margin, []⟩ :=
      ⟨⟨hf.file, Nat.sub_le _ _, hf.offset_le, by rw [hlength]; exact hmargin.text⟩,
        fun _ hx => absurd hx List.not_mem_nil, by simp, by simp, by simp,
        fun _ => by change s.offset - s.margin.length < s.offset; omega⟩
    exact ⟨_, htiling.push hbears rfl hle (Nat.sub_le _ _) (Nat.le_refl _)⟩
  · rw [Scan.dedents, Scan.here, hf.file]
    exact htiling.dedents _
  · rw [Scan.dedents, Scan.here, hf.file]
    exact htiling.dedents _
  · exact ⟨mark, by rwa [List.append_nil]⟩

/-- A lexeme becomes a token with all the trivia that waited. -/
theorem Tiled.emit {ts : List Token} {held : List Trivia} {mark : Nat}
    (h : Tiling f ts held mark s.offset) (hf : f.StandsAt s) {l : Lexeme} (hl : l.Fits s.rest) {u : Scan}
    (hu : u.file = s.file ∧ u.offset = s.offset ∧ u.held = held) :
    Tiling f (ts ++ (u.emit l).2.tokens) [] (s.offset + l.text.length) (s.offset + l.size) := by
  obtain ⟨blanks, rest, htext, hsize, hblank⟩ := hl.split
  have hlength := congrArg List.length htext
  have hrest := congrArg List.length hf.rest
  have hle := hf.offset_le
  have hpos := List.length_pos_iff.mpr hl.text
  rw [List.length_append, List.length_append] at hlength
  rw [List.length_append] at hsize
  rw [List.length_drop, ← size] at hrest
  have htake : s.rest.take l.text.length = l.text := by
    rw [htext, List.append_assoc, List.take_left]
  have hholds : f.Holds (s.ahead l.text.length) l.text := by
    have hall := hf.holds (show l.text.length ≤ s.rest.length by omega)
    rwa [htake] at hall
  have hahead : u.ahead l.text.length = s.ahead l.text.length := by
    rw [Scan.ahead, Scan.ahead, hu.1, hu.2.1]
  have hbears : f.Bears ⟨l.kind, s.ahead l.text.length, l.text, held⟩ := by
    have hcontent : ∀ k, k.isContent = false → l.kind ≠ k := by
      rintro k hk rfl
      rw [hl.isContent] at hk
      cases hk
    refine ⟨hholds, h.waiting, fun hk => absurd hk (hcontent _ rfl), fun hk => absurd hk (hcontent _ rfl),
      fun hk => absurd hk (hcontent _ rfl), fun _ => ?_⟩
    · change s.offset < s.offset + l.text.length
      omega
  have hpush := h.push hbears (List.append_nil _) h.mark_le (Nat.le_refl _) (Nat.le_add_right _ _)
  have hemit : (u.emit l).2.tokens = [⟨l.kind, s.ahead l.text.length, l.text, held⟩] := by
    rw [Scan.emit, hu.2.2, hahead]
  rw [hemit]
  refine hpush.skip (by change s.offset + _ ≤ _; omega) (by omega) fun i hlow hhigh => ?_
  -- behind the text of the lexeme come the blanks that it drops
  change s.offset + l.text.length ≤ i at hlow
  obtain ⟨j, rfl⟩ : ∃ j, i = s.offset + (l.text.length + j) := ⟨i - s.offset - l.text.length, by omega⟩
  have hj : j < blanks.length := by omega
  refine ⟨blanks[j], ?_, hblank _ (List.getElem_mem hj)⟩
  rw [← hf.getElem?, htext, List.append_assoc, List.getElem?_append_right (Nat.le_add_right _ _),
    Nat.add_sub_cancel_left, List.getElem?_append_left hj, List.getElem?_eq_getElem hj]

/-- The next bytes are kept as trivia. -/
theorem Tiled.hold {ts : List Token} (h : f.Tiled ts s) (hf : f.StandsAt s) (kind : TriviaKind) {size : Nat}
    (hpos : 0 < size) (hsize : size ≤ s.rest.length) :
    Tiling f ts (s.hold kind size).held (s.offset + size) (s.offset + size) := by
  obtain ⟨mark, htiling, -⟩ := h
  exact htiling.hold (x := ⟨kind, s.ahead size, s.rest.take size⟩) (hf.holds hsize) rfl
    (Nat.lt_add_of_pos_right hpos)

/-- Blanks at the start of a line go to its margin. -/
theorem Tiled.blank {ts : List Token} (h : f.Tiled ts s) (hf : f.StandsAt s) (hm : f.KnowsMargin s)
    (hline : s.atLineStart = true) (hrest : s.rest.head?.all (· == lineFeed) ≠ true) {size : Nat}
    (hsize : size ≤ s.rest.length) (hblank : ∀ c ∈ s.rest.take size, Piece.isBlank c = true) :
    ∃ mark, Tiling f ts s.held mark (s.offset + size) ∧
      mark ≤ s.offset + size - (s.margin ++ s.rest.take size).length := by
  obtain ⟨mark, htiling, hmark⟩ := h
  obtain ⟨start, hmargin⟩ := (hm hline).resolve_left hrest
  have hle := (hmark hline).resolve_left hrest
  have hlength : s.margin.length = s.offset - start := by rw [hmargin.text, length_slice hf.offset_le]
  refine ⟨mark, htiling.skip (Nat.le_add_right _ _) (hf.holds hsize).inside fun i hlow hhigh => ?_, ?_⟩
  · obtain ⟨j, rfl⟩ := Nat.exists_eq_add_of_le hlow
    have hj : j < (s.rest.take size).length := by
      rw [List.length_take_of_le hsize]
      omega
    refine ⟨_, ?_, hblank _ (List.getElem_mem hj)⟩
    rw [← hf.getElem?, List.getElem_take, List.getElem?_eq_getElem]
  · rw [List.length_append, List.length_take_of_le hsize]
    omega

/-- Reading one piece goes on with the tiling. -/
theorem Tiled.step {ts : List Token} (h : f.Tiled ts s) (hf : f.StandsAt s) (hm : f.KnowsMargin s)
    {b : UInt8} {rest : Bytes} (hs : s.rest = b :: rest) :
    f.Tiled (ts ++ (s.step b rest).2.tokens) (s.step b rest).1 := by
  have hsize := Piece.size_read_le s.atLineStart b rest
  have hpos := Piece.size_read_pos s.atLineStart b rest
  have hlength : rest.length + 1 = s.rest.length := by rw [hs, List.length_cons]
  have hfeed : Piece.read s.atLineStart b rest ≠ .lineEnd →
      s.rest.head?.all (· == lineFeed) ≠ true := by
    intro hp heq
    rw [hs] at heq
    obtain rfl : b = lineFeed := by simpa using heq
    exact hp rfl
  rw [hlength] at hsize
  rw [Tiled, s.offset_step, s.rest_step]
  change ∃ mark, Tiling f (ts ++ (s.take (Piece.read s.atLineStart b rest)).2.tokens)
    (s.take (Piece.read s.atLineStart b rest)).1.held mark _ ∧
      ((s.take (Piece.read s.atLineStart b rest)).1.atLineStart = true → _ ∨
        mark ≤ _ - (s.take (Piece.read s.atLineStart b rest)).1.margin.length)
  cases hp : Piece.read s.atLineStart b rest with
  | blank size =>
    rw [hp] at hsize hpos hfeed
    have hblank := Piece.blank_of_read hp
    rw [← hs] at hblank
    rw [Scan.take]
    split
    · rename_i hline
      obtain ⟨mark, htiling, hmark⟩ := h.blank hf hm hline (hfeed (by simp)) hsize hblank
      exact ⟨mark, by rwa [List.append_nil], fun _ => .inr hmark⟩
    · rename_i hline
      exact ⟨_, by rw [List.append_nil]; exact h.hold hf .space hpos hsize, fun hline' => absurd hline' hline⟩
  | comment size =>
    rw [hp] at hsize hpos
    refine ⟨_, by rw [Scan.take, List.append_nil]; exact h.hold hf .comment hpos hsize, fun _ => .inl ?_⟩
    rw [hs]
    exact Piece.lineFeed_after_comment hp
  | lineEnd =>
    rw [hp] at hsize hpos
    have htext : s.rest.take 1 = [lineFeed] := by rw [hs, Piece.eq_lineFeed_of_read hp]; rfl
    rw [Scan.take]
    split
    · obtain ⟨mark, htiling, -⟩ := h
      have hbears : f.Bears ⟨.newline, s.ahead 1, [lineFeed], s.held⟩ :=
        ⟨htext ▸ hf.holds hsize, htiling.waiting, by simp, by simp, fun _ => .inl rfl,
          by simp [Kind.isContent, Kind.isLayout]⟩
      exact ⟨_, htiling.push hbears (List.append_nil _) htiling.mark_le (Nat.le_refl _)
        (Nat.le_add_right _ _), fun _ => .inr (Nat.le_refl _)⟩
    · exact ⟨_, by rw [List.append_nil]; exact h.hold hf .newline hpos hsize, fun _ => .inr (Nat.le_refl _)⟩
  | lexeme l =>
    rw [hp] at hfeed
    have hfits := Lexeme.read_fits s.atLineStart b rest
    rw [← Scan.eq_read_of_lexeme hp, ← hs] at hfits
    rw [Scan.take]
    dsimp only
    rw [← List.append_assoc]
    by_cases hline : s.atLineStart = true
    · obtain ⟨start, hmargin⟩ := (hm hline).resolve_left (hfeed (by simp))
      obtain ⟨mark, hsettled⟩ := h.settle hf hmargin hline (hfeed (by simp))
      rw [if_pos hline]
      exact ⟨_, Tiled.emit hsettled hf hfits ⟨rfl, rfl, rfl⟩, fun hline' => absurd hline' Bool.false_ne_true⟩
    · obtain ⟨mark, htiling, -⟩ := h
      rw [if_neg hline, List.append_nil]
      exact ⟨_, Tiled.emit htiling hf hfits ⟨rfl, rfl, rfl⟩, fun hline' => absurd hline' Bool.false_ne_true⟩

theorem Reaches.tiled (h : f.Reaches bs s) : f.Tiled (tokensOf bs) s := by
  induction h with
  | start => exact ⟨0, .nil f, fun _ => .inr (Nat.zero_le _)⟩
  | step h hs ih =>
    rw [tokensOf_concat]
    exact ih.step h.standsAt h.knowsMargin hs

/-- The end of the text is read to the end of the file. -/
theorem Tiled.finish {ts : List Token} (h : f.Tiled ts s) (hf : f.StandsAt s) (hs : s.rest = []) :
    ∃ mark, Tiling f (ts ++ s.finish.tokens) [] mark f.size := by
  have hsize : s.offset = f.size := by
    have hrest := hf.rest
    rw [hs, eq_comm, List.drop_eq_nil_iff] at hrest
    exact Nat.le_antisymm hf.offset_le hrest
  have hhere : s.here = .point f.id f.size := by rw [Scan.here, hf.file, hsize]
  have hempty : f.slice f.size f.size = [] := by
    rw [← List.length_eq_zero_iff, length_slice (Nat.le_refl _), Nat.sub_self]
  have hholds : f.Holds (.point f.id f.size) [] := ⟨rfl, Nat.le_refl _, Nat.le_refl _, hempty.symm⟩
  obtain ⟨mark, htiling, -⟩ := h
  rw [hsize] at htiling
  have hnewline : ∃ mark', Tiling f
      (ts ++ if s.inLine then [⟨.newline, .point f.id f.size, [], s.held⟩] else [])
      (if s.inLine then [] else s.held) mark' f.size := by
    cases s.inLine with
    | false => exact ⟨mark, by rwa [if_neg Bool.false_ne_true, List.append_nil]⟩
    | true =>
      have hbears : f.Bears ⟨.newline, .point f.id f.size, [], s.held⟩ :=
        ⟨hholds, htiling.waiting, nofun, nofun, fun _ => .inr rfl,
          fun hk => hk.elim nofun nofun⟩
      exact ⟨_, htiling.push hbears (List.append_nil _) htiling.mark_le (Nat.le_refl _) (Nat.le_refl _)⟩
  obtain ⟨mark₁, hnewline⟩ := hnewline
  obtain ⟨mark₂, hdedents⟩ := hnewline.dedents (Layout.closings s.levels)
  have hbears : f.Bears ⟨.eof, .point f.id f.size, [], if s.inLine then [] else s.held⟩ :=
    ⟨hholds, hdedents.waiting, nofun, fun _ => rfl, nofun,
      fun hk => hk.elim nofun nofun⟩
  have heof := hdedents.push hbears (List.append_nil _) hdedents.mark_le (Nat.le_refl _) (Nat.le_refl _)
  rw [Scan.finish, Scan.dedents, hhere, ← List.append_assoc, ← List.append_assoc]
  exact ⟨_, heof⟩

/-- All tokens of a file tile its text. -/
theorem tokenize_tiling (f : File) : ∃ mark, Tiling f f.tokenize [] mark f.size := by
  obtain ⟨bs, s, h, hs, hscan⟩ := f.exists_reaches_end
  rw [tokenize, hscan]
  change ∃ mark, Tiling f (tokensOf (bs ++ [s.finish])) [] mark f.size
  rw [tokensOf_concat]
  exact h.tiled.finish h.standsAt hs

end File

theorem Nested.eof_notMem {q : LinePlace} {d : Nat} {ks : List Kind} (h : Nested q d ks) : .eof ∉ ks := by
  intro hmem
  obtain ⟨before, after, rfl⟩ := List.append_of_mem hmem
  obtain ⟨q', d', hend, -⟩ := h.of_append
  exact hend.1 rfl

/-- The tokens of any file end with the end of the file, which is in no other place. They start one after
the other, and what they and their trivia say is what the file has at their spans. These lie apart, and
what they leave out are blanks. What is reported as no token are the spans of the invalid tokens, in
order. -/
theorem File.tokenize_tiles (f : File) :
    (∃ ts eof, f.tokenize = ts ++ [eof] ∧ eof.kind = .eof ∧ eof.span = .point f.id f.size ∧
      ∀ t ∈ ts, t.kind ≠ .eof) ∧
    (f.tokenize.map (·.span.start)).Pairwise (· ≤ ·) ∧
    (∀ t ∈ f.tokenize, f.Bears t) ∧
    (f.tokenize.flatMap Token.pieces).Pairwise Span.Apart ∧
    (∀ i < f.size, (∀ p ∈ f.tokenize.flatMap Token.pieces, ¬ p.Covers i) → f.BlankAt i) ∧
    (f.lexicalDiagnostics.filter (·.isUnread)).map (·.span)
      = (f.tokenize.filter (·.kind == .invalid)).map (·.span) := by
  obtain ⟨mark, htiling⟩ := f.tokenize_tiling
  have hpieces : piecesOf f.tokenize [] = f.tokenize.flatMap Token.pieces := List.append_nil _
  refine ⟨?_, ?_, fun t ht => (htiling.tokens t ht).1, hpieces ▸ htiling.apart, hpieces ▸ htiling.blank,
    f.spans_unread⟩
  · obtain ⟨ks, hks, hnested⟩ := f.tokenize_nested
    obtain ⟨ts, last, heq, hts, hlast⟩ := List.map_eq_append_iff.mp hks
    obtain ⟨eof, rfl, heof⟩ := List.map_eq_singleton_iff.mp hlast
    have hmem : eof ∈ f.tokenize := heq ▸ List.mem_append_right _ (List.mem_singleton.mpr rfl)
    refine ⟨ts, eof, heq, heof, (htiling.tokens eof hmem).1.atEnd heof, fun t ht hk => hnested.eof_notMem ?_⟩
    rw [← hts, ← hk]
    exact List.mem_map_of_mem ht
  · rw [List.pairwise_map]
    refine htiling.ordered.imp_of_mem fun ht hu hle => ?_
    exact Nat.le_trans (htiling.tokens _ ht).1.text.ordered hle

end Craftlang
