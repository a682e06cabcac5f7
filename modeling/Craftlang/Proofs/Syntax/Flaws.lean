import Craftlang.Proofs.Syntax.SpanNesting

/-!
# Where a text is faulty

A flaw of a lexeme lies in what reading the lexeme takes, and a faulty margin is what its line starts with.
So all that is reported about a text and about the order of its tokens is shown in the file.
-/

namespace Craftlang

namespace Lexeme

/-- The flaws inside a string come between its start and its end. -/
theorem flaws_stringBody_le (offset : Nat) (s : Bytes) : ∀ flaw ∈ (stringBody offset s).flaws,
    flaw.start ≤ flaw.stop ∧ flaw.stop ≤ (stringBody offset s).size := by
  fun_induction stringBody offset s with
  | case1 | case2 | case3 => exact List.forall_mem_nil _
  | case4 _ _ _ _ _ _ ih => exact ih
  | case5 _ _ _ _ _ ih => exact ih
  | case6 _ _ _ _ _ _ _ _ ih => exact ih
  | case7 _ _ _ _ _ _ _ _ _ ih => exact ih
  | case8 offset _ _ _ _ c more _ _ size body ih =>
    have hbody : offset + 1 + size ≤ body.size := (size_stringBody _ _).1
    intro flaw hflaw
    rcases List.mem_cons.mp hflaw with rfl | hflaw
    · exact ⟨by dsimp only; omega, hbody⟩
    · exact ih flaw hflaw

/-- A flaw of a lexeme lies in what reading it takes. -/
theorem flaws_read_le (atLineStart : Bool) (b : UInt8) (rest : Bytes) :
    ∀ flaw ∈ (read atLineStart b rest).flaws,
      flaw.start ≤ flaw.stop ∧ flaw.stop ≤ (read atLineStart b rest).size := by
  have hwhole : ∀ {problem : LexicalProblem} {size : Nat} {flaw : Flaw},
      flaw ∈ [(⟨problem, 0, size⟩ : Flaw)] → flaw.start ≤ flaw.stop ∧ flaw.stop ≤ size := by
    intro problem size flaw hflaw
    rw [List.mem_singleton.mp hflaw]
    exact ⟨Nat.zero_le _, Nat.le_refl _⟩
  unfold read
  split
  · nofun
  split
  · unfold number
    dsimp only
    split
    · nofun
    · exact fun _ => hwhole
  split
  · have hbody := flaws_stringBody_le 1 rest
    have hsize : (stringBody 1 rest).size ≤ max 1 (stringBody 1 rest).size := Nat.le_max_right _ _
    have hinside : ∀ flaw ∈ (stringBody 1 rest).flaws,
        flaw.start ≤ flaw.stop ∧ flaw.stop ≤ max 1 (stringBody 1 rest).size := fun flaw hflaw =>
      ⟨(hbody flaw hflaw).1, Nat.le_trans (hbody flaw hflaw).2 hsize⟩
    unfold string
    dsimp only
    split
    · exact hinside
    · intro flaw hflaw
      exact (List.mem_append.mp hflaw).elim (hinside flaw) hwhole
  split
  · nofun
  · unfold operator
    split
    · nofun
    · split
      · nofun
      · exact fun _ => hwhole

end Lexeme

namespace File

variable {f : File} {bs : List Batch} {s : Scan}

/-- What is reported about a margin is shown where the line starts. -/
theorem StandsAt.standsIn_settle (h : f.StandsAt s) : ∀ d ∈ s.settle.2.diagnostics, d.StandsIn f := by
  have hmargin : ∀ (problem : LexicalProblem),
      ∀ d ∈ [problem.report ⟨s.file, s.offset - s.margin.length, s.offset⟩], d.StandsIn f := by
    intro problem d hd
    rw [List.mem_singleton.mp hd]
    exact Diagnostic.standsIn_of_notes ⟨h.file, Nat.sub_le _ _, h.offset_le⟩ nofun
  rw [Scan.settle]
  dsimp only
  split
  · exact List.forall_mem_nil _
  · exact List.forall_mem_nil _
  · exact List.forall_mem_nil _
  · exact hmargin _
  · exact hmargin _

/-- What is reported about a lexeme is shown in it. -/
theorem StandsAt.standsIn_emit (h : f.StandsAt s) {u : Scan} {l : Lexeme}
    (hu : u.file = s.file ∧ u.offset = s.offset) (hsize : s.offset + l.size ≤ f.size)
    (hl : ∀ flaw ∈ l.flaws, flaw.start ≤ flaw.stop ∧ flaw.stop ≤ l.size) :
    ∀ d ∈ (u.emit l).2.diagnostics, d.StandsIn f := by
  intro d hd
  obtain ⟨flaw, hflaw, rfl⟩ := List.mem_map.mp hd
  obtain ⟨hordered, hinside⟩ := hl flaw hflaw
  refine Diagnostic.standsIn_of_notes ⟨hu.1.trans h.file, Nat.add_le_add_left hordered _, ?_⟩ nofun
  change u.offset + flaw.stop ≤ f.size
  rw [hu.2]
  omega

/-- What is reported on the way past a piece is shown in the file. -/
theorem StandsAt.standsIn_step (h : f.StandsAt s) {b : UInt8} {rest : Bytes} (hs : s.rest = b :: rest) :
    ∀ d ∈ (s.step b rest).2.diagnostics, d.StandsIn f := by
  have hnext := (h.step hs).offset_le
  rw [s.offset_step] at hnext
  change ∀ d ∈ (s.take (Piece.read s.atLineStart b rest)).2.diagnostics, d.StandsIn f
  cases hp : Piece.read s.atLineStart b rest with
  | blank size =>
    rw [Scan.take]
    split <;> exact List.forall_mem_nil _
  | comment size => exact List.forall_mem_nil _
  | lineEnd =>
    rw [Scan.take]
    split <;> exact List.forall_mem_nil _
  | lexeme l =>
    have hl := Scan.eq_read_of_lexeme hp
    have hflaws := Lexeme.flaws_read_le s.atLineStart b rest
    rw [← hl] at hflaws
    rw [hp] at hnext
    rw [Scan.take]
    intro d hd
    rcases List.mem_append.mp hd with hd | hd
    · split at hd
      · exact h.standsIn_settle d hd
      · cases hd
    · split at hd
      · exact h.standsIn_emit ⟨rfl, rfl⟩ hnext hflaws d hd
      · exact h.standsIn_emit ⟨rfl, rfl⟩ hnext hflaws d hd

theorem Reaches.standsIn (h : f.Reaches bs s) : ∀ b ∈ bs, ∀ d ∈ b.diagnostics, d.StandsIn f := by
  induction h with
  | start => nofun
  | step hbefore hs ih =>
    intro b hb
    rcases List.mem_append.mp hb with hb | hb
    · exact ih b hb
    · rw [List.mem_singleton.mp hb]
      exact hbefore.standsAt.standsIn_step hs

/-- All that is wrong with the text of a file is shown in it. -/
theorem standsIn_of_mem_scan {b : Batch} (hb : b ∈ f.scan) : ∀ d ∈ b.diagnostics, d.StandsIn f := by
  obtain ⟨bs, s, hreaches, -, hscan⟩ := f.exists_reaches_end
  rw [hscan] at hb
  rcases List.mem_append.mp hb with hb | hb
  · exact hreaches.standsIn b hb
  · rw [List.mem_singleton.mp hb]
    nofun

/-- All that parsing reports is shown in the file. -/
theorem standsIn_of_mem_parse {d : Diagnostic} (hd : d ∈ f.parse.diagnostics) : d.StandsIn f := by
  rw [parse_interleaves] at hd
  rcases Parse.mem_interleave.mp hd with hd | hd
  · obtain ⟨b, hb, hd⟩ := Parse.mem_lexicalFindings.mp hd
    exact standsIn_of_mem_scan hb d hd
  · obtain ⟨found, hfound, rfl⟩ := List.mem_map.mp hd
    exact Diagnostic.standsIn_of_notes (shows_of_mem_findings hfound) nofun

end File

end Craftlang
