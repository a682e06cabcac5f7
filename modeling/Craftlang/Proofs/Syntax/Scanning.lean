import Craftlang.Proofs.Syntax.Lexemes

/-!
# Reading state by state

`File.Reaches` are the states that reading a file goes through, each with the batches that came before it.
What remains at a state is the text from its offset on, and at the start of a line the margin is what the
line starts with.
-/

namespace Craftlang

namespace Piece

theorem size_read_le (atLineStart : Bool) (b : UInt8) (rest : Bytes) :
    (read atLineStart b rest).size ≤ rest.length + 1 := by
  have htake : ∀ p : UInt8 → Bool, 1 + (rest.takeWhile p).length ≤ rest.length + 1 := fun p => by
    have := (rest.takeWhile_sublist p).length_le
    omega
  unfold read
  split
  · exact htake _
  split
  · exact htake _
  split
  · exact Nat.le_add_left _ _
  · obtain ⟨blanks, left, htext, hsize, -⟩ := (Lexeme.read_fits atLineStart b rest).split
    change (Lexeme.read atLineStart b rest).size ≤ _
    have hlength := congrArg List.length htext
    rw [List.length_append, List.length_cons] at hlength
    omega

end Piece

namespace Scan

theorem file_take (s : Scan) (p : Piece) : (s.take p).1.file = s.file := by
  cases p with
  | blank n => simp only [take]; split <;> rfl
  | comment n => rfl
  | lineEnd => simp only [take]; split <;> rfl
  | lexeme l => simp only [take, emit]; split <;> rfl

theorem offset_take (s : Scan) (p : Piece) : (s.take p).1.offset = s.offset := by
  cases p with
  | blank n => simp only [take]; split <;> rfl
  | comment n => rfl
  | lineEnd => simp only [take]; split <;> rfl
  | lexeme l => simp only [take, emit]; split <;> rfl

theorem offset_step (s : Scan) (b : UInt8) (rest : Bytes) : (s.step b rest).1.offset
    = s.offset + (Piece.read s.atLineStart b rest).size :=
  congrArg (· + _) (s.offset_take _)

theorem rest_step (s : Scan) (b : UInt8) (rest : Bytes) : (s.step b rest).1.rest
    = s.rest.drop (Piece.read s.atLineStart b rest).size :=
  congrArg (List.drop _) (s.rest_take _)

end Scan

namespace File

/-- Reading a file has come to a state, after some batches. -/
inductive Reaches (f : File) : List Batch → Scan → Prop
  | start : f.Reaches [] (.start f)
  | step {bs : List Batch} {s : Scan} {b : UInt8} {rest : Bytes} (h : f.Reaches bs s)
      (hs : s.rest = b :: rest) : f.Reaches (bs ++ [(s.step b rest).2]) (s.step b rest).1

/-- A state stands in the file: what remains is the text from its offset on. -/
structure StandsAt (f : File) (s : Scan) : Prop where
  file : s.file = f.id
  offset_le : s.offset ≤ f.size
  rest : s.rest = f.content.drop s.offset

/-- The blanks that a line starts with, up to a place in it. -/
structure IsMargin (f : File) (margin : Bytes) (start stop : Nat) : Prop where
  le : start ≤ stop
  text : margin = f.slice start stop
  blank : ∀ c ∈ margin, Piece.isBlank c = true
  atStart : start = 0 ∨ f.content[start - 1]? = some lineFeed

/-- What a state knows of its line, unless nothing of the line is left to be read. -/
def KnowsMargin (f : File) (s : Scan) : Prop :=
  s.atLineStart = true → s.rest.head?.all (· == lineFeed) = true ∨ ∃ start, f.IsMargin s.margin start s.offset

variable {f : File} {bs : List Batch} {s : Scan}

theorem StandsAt.step (h : f.StandsAt s) {b : UInt8} {rest : Bytes} (hs : s.rest = b :: rest) :
    f.StandsAt (s.step b rest).1 := by
  have hsize := Piece.size_read_le s.atLineStart b rest
  have hlength := congrArg List.length h.rest
  rw [hs, List.length_drop, List.length_cons] at hlength
  have hle := h.offset_le
  refine ⟨(s.file_take _).trans h.file, ?_, ?_⟩
  · rw [s.offset_step, size] at *
    omega
  · rw [s.rest_step, s.offset_step, h.rest, List.drop_drop]

theorem Reaches.standsAt (h : f.Reaches bs s) : f.StandsAt s := by
  induction h with
  | start => exact ⟨rfl, Nat.zero_le _, rfl⟩
  | step _ hs ih => exact ih.step hs

/-- The next bytes of what remains are a piece of the file. -/
theorem StandsAt.slice (h : f.StandsAt s) (n : Nat) : s.rest.take n = f.slice s.offset (s.offset + n) := by
  rw [h.rest, File.slice, List.take_drop]

theorem StandsAt.getElem? (h : f.StandsAt s) (i : Nat) : s.rest[i]? = f.content[s.offset + i]? := by
  rw [h.rest, List.getElem?_drop]

/-- Two pieces that follow each other are one. -/
theorem slice_append {a b c : Nat} (hab : a ≤ b) (hbc : b ≤ c) (hb : b ≤ f.size) :
    f.slice a b ++ f.slice b c = f.slice a c := by
  have hshort : (f.content.take c).take b = f.content.take b := by
    rw [List.take_take, Nat.min_eq_left hbc]
  have hcut := List.take_append_drop b (f.content.take c)
  have hlength : a ≤ (f.content.take b).length := by
    rw [List.length_take_of_le hb]
    exact hab
  rw [hshort] at hcut
  change (f.content.take b).drop a ++ (f.content.take c).drop b = (f.content.take c).drop a
  rw [← List.drop_append_of_le_length hlength, hcut]

theorem length_slice {start stop : Nat} (h : stop ≤ f.size) :
    (f.slice start stop).length = stop - start := by
  rw [File.slice, List.length_drop, List.length_take_of_le h]

theorem IsMargin.length_eq {margin : Bytes} {start stop : Nat} (h : f.IsMargin margin start stop)
    (hstop : stop ≤ f.size) : stop - margin.length = start := by
  have hle := h.le
  rw [h.text, length_slice hstop]
  omega

/-- Blanks go on with the margin. -/
theorem IsMargin.append {margin : Bytes} {start stop next : Nat} (h : f.IsMargin margin start stop)
    (hstop : stop ≤ f.size) (hle : stop ≤ next) (hblank : ∀ c ∈ f.slice stop next, Piece.isBlank c = true) :
    f.IsMargin (margin ++ f.slice stop next) start next where
  le := Nat.le_trans h.le hle
  text := by
    rw [← slice_append h.le hle hstop, ← h.text]
  blank := fun c hc => (List.mem_append.mp hc).elim (h.blank c) (hblank c)
  atStart := h.atStart

/-- A line starts behind a line feed. -/
theorem IsMargin.ofLineFeed {offset : Nat} (hsize : offset + 1 ≤ f.size)
    (h : f.content[offset]? = some lineFeed) : f.IsMargin [] (offset + 1) (offset + 1) where
  le := Nat.le_refl _
  text := by
    rw [eq_comm, ← List.length_eq_zero_iff, length_slice hsize, Nat.sub_self]
  blank := fun _ hc => absurd hc List.not_mem_nil
  atStart := .inr (by rwa [Nat.add_sub_cancel])

end File

namespace Piece

variable {atLineStart : Bool} {b : UInt8} {rest : Bytes} {size : Nat}

/-- Blanks are read as long as there are any. -/
theorem blank_of_read (h : read atLineStart b rest = .blank size) :
    ∀ c ∈ (b :: rest).take size, isBlank c = true := by
  rw [read] at h
  split at h
  · rename_i hb
    cases h
    intro c hc
    rw [Nat.add_comm, List.take_succ_cons] at hc
    rcases List.mem_cons.mp hc with rfl | hc
    · exact hb
    · rw [← List.takeWhile_append_dropWhile (p := isBlank) (l := rest), List.take_left'] at hc
      · exact List.mem_takeWhile_imp hc
      · rw [List.takeWhile_append_dropWhile]
  split at h
  · cases h
  split at h <;> cases h

/-- A comment goes on to the end of its line. -/
theorem lineFeed_after_comment (h : read atLineStart b rest = .comment size) :
    ((b :: rest).drop size).head?.all (· == lineFeed) = true := by
  rw [read] at h
  split at h
  · cases h
  split at h
  · cases h
    have hdrop : (b :: rest).drop (1 + (rest.takeWhile (· != lineFeed)).length)
        = rest.dropWhile (· != lineFeed) := by
      rw [Nat.add_comm, List.drop_succ_cons]
      conv => lhs; rw [← List.takeWhile_append_dropWhile (p := (· != lineFeed)) (l := rest)]
      rw [List.drop_left']
      rw [List.takeWhile_append_dropWhile]
    rw [hdrop]
    have hhead := List.head?_dropWhile_not (· != lineFeed) rest
    cases hl : (rest.dropWhile (· != lineFeed)).head? with
    | none => rfl
    | some c =>
      rw [hl] at hhead
      simpa using hhead
  split at h <;> cases h

/-- Only a line feed ends a line. -/
theorem eq_lineFeed_of_read (h : read atLineStart b rest = .lineEnd) : b = lineFeed := by
  rw [read] at h
  split at h
  · cases h
  split at h
  · cases h
  split at h
  · assumption
  · cases h

end Piece

namespace File

variable {f : File} {bs : List Batch} {s : Scan}

theorem KnowsMargin.step (h : f.KnowsMargin s) (hf : f.StandsAt s) {b : UInt8} {rest : Bytes}
    (hs : s.rest = b :: rest) : f.KnowsMargin (s.step b rest).1 := by
  have hsize := Piece.size_read_le s.atLineStart b rest
  have hlength := congrArg List.length hf.rest
  rw [hs, List.length_drop, List.length_cons] at hlength
  have hle := hf.offset_le
  intro hstart
  rw [s.offset_step, s.rest_step]
  change (s.take (Piece.read s.atLineStart b rest)).1.atLineStart = true at hstart
  change _ ∨ ∃ start, f.IsMargin (s.take (Piece.read s.atLineStart b rest)).1.margin start _
  cases hp : Piece.read s.atLineStart b rest with
  | blank size =>
    rw [hp] at hsize hstart
    have hblank := Piece.blank_of_read hp
    rw [← hs, hf.slice] at hblank
    rw [Scan.take] at hstart ⊢
    split at hstart
    · rename_i hline
      rw [if_pos hline]
      -- a blank is no line feed, so the margin was known
      obtain ⟨start, hmargin⟩ := (h hline).resolve_left (by
        rw [hs]
        intro heq
        have hb : b = lineFeed := by simpa using heq
        rw [hb] at hp
        cases hp)
      refine .inr ⟨start, ?_⟩
      rw [hf.slice]
      exact hmargin.append hle (Nat.le_add_right _ _) hblank
    · exact absurd hstart ‹_›
  | comment size =>
    refine .inl ?_
    rw [hs]
    exact Piece.lineFeed_after_comment hp
  | lineEnd =>
    have hfeed : f.content[s.offset]? = some lineFeed := by
      rw [← Nat.add_zero s.offset, ← hf.getElem?, hs, Piece.eq_lineFeed_of_read hp]
      rfl
    have hnew := IsMargin.ofLineFeed (by rw [size] at *; omega) hfeed
    rw [Scan.take]
    split
    · exact .inr ⟨_, hnew⟩
    · exact .inr ⟨_, hnew⟩
  | lexeme l =>
    rw [hp, Scan.take] at hstart
    cases hstart

theorem Reaches.knowsMargin (h : f.Reaches bs s) : f.KnowsMargin s := by
  induction h with
  | start =>
    refine fun _ => .inr ⟨0, Nat.le_refl _, ?_, fun _ hc => absurd hc List.not_mem_nil, .inl rfl⟩
    rfl
  | step h hs ih => exact ih.step h.standsAt hs

/-- What is reached leads on to the end. -/
theorem Reaches.scan_eq (h : f.Reaches bs s) : f.scan = bs ++ s.batches := by
  induction h with
  | start => rfl
  | @step bs s b rest _ hs ih =>
    rw [ih, Scan.batches]
    split
    · rename_i hnil
      rw [hs] at hnil
      cases hnil
    · rename_i b' rest' hs'
      rw [hs] at hs'
      cases hs'
      rw [List.append_assoc]
      rfl

/-- Reading comes to the end of the file. -/
theorem exists_reaches_end (f : File) : ∃ bs s, f.Reaches bs s ∧ s.rest = [] ∧ f.scan = bs ++ [s.finish] := by
  have hrun : ∀ (n : Nat) (bs : List Batch) (s : Scan), s.rest.length ≤ n → f.Reaches bs s →
      ∃ bs' s', f.Reaches bs' s' ∧ s'.rest = [] := by
    intro n
    induction n with
    | zero => exact fun bs s hn h => ⟨bs, s, h, List.length_eq_zero_iff.mp (Nat.le_zero.mp hn)⟩
    | succ n ih =>
      intro bs s hn h
      cases hs : s.rest with
      | nil => exact ⟨bs, s, h, hs⟩
      | cons b rest =>
        have hlt := s.step_rest_lt b rest hs
        exact ih _ _ (by omega) (h.step hs)
  obtain ⟨bs, s, h, hnil⟩ := hrun _ [] (.start f) (Nat.le_refl _) .start
  refine ⟨bs, s, h, hnil, h.scan_eq.trans ?_⟩
  rw [Scan.batches]
  split
  · rfl
  · rename_i b rest hs
    rw [hnil] at hs
    cases hs

end File

end Craftlang
