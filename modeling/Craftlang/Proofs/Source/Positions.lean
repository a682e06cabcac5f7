import Craftlang.Proofs.Pack.Components
import Craftlang.Report.Diagnostics

/-!
# Lines and columns

The position of an offset is found by halving the index of the line feeds, the text of a line by two look-ups in the
index. Both agree with the text: the search counts the line feeds before the offset, the column of an offset says how
much of its line stands before it, and a position belongs to one offset only. So whoever shows a part of a line with its
line and its column cuts out text of that line.
-/

namespace Craftlang

namespace Bytes

theorem length_splitOn (b : UInt8) (s : Bytes) : (splitOn b s).length = s.count b + 1 := by
  induction s with
  | nil => rfl
  | cons c s ih =>
    rw [splitOn]
    by_cases h : c = b
    · rw [if_pos h, List.length_cons, ih, h, List.count_cons_self]
    · rw [if_neg h, List.count_cons_of_ne h, ← ih]
      cases hs : splitOn b s with
      | nil => exact absurd hs (splitOn_ne_nil b s)
      | cons piece pieces => rfl

theorem length_le_of_mem_splitOn {b : UInt8} {s line : Bytes} (h : line ∈ splitOn b s) : line.length ≤ s.length := by
  induction s generalizing line with
  | nil => exact Nat.le_of_eq (congrArg List.length (List.mem_singleton.mp h))
  | cons c s ih =>
    rw [List.length_cons]
    rw [splitOn] at h
    split at h
    · rcases List.mem_cons.mp h with rfl | h
      · exact Nat.zero_le _
      · exact Nat.le_succ_of_le (ih h)
    · split at h
      · exact absurd ‹_› (splitOn_ne_nil b s)
      · rename_i piece pieces hs
        rcases List.mem_cons.mp h with rfl | h
        · exact Nat.succ_le_succ (ih (hs ▸ List.mem_cons_self))
        · exact Nat.le_succ_of_le (ih (hs ▸ List.mem_cons_of_mem _ h))

/-- A line of a text: what stands before it is empty or ends with a line feed, in the line itself there is none, and
what follows is empty or starts with one. -/
structure HasLine (content before line after : Bytes) : Prop where
  parts : content = before ++ (line ++ after)
  begins : before = [] ∨ ∃ earlier, before = earlier ++ [lineFeed]
  whole : lineFeed ∉ line
  ends : after = [] ∨ ∃ later, after = lineFeed :: later

/-- What stands in a text before an offset ends with the start of a line. -/
theorem exists_begin (s : Bytes) : ∃ before line, s = before ++ line ∧
    (before = [] ∨ ∃ earlier, before = earlier ++ [lineFeed]) ∧ lineFeed ∉ line := by
  induction s using List.reverseRecOn with
  | nil => exact ⟨[], [], rfl, .inl rfl, List.not_mem_nil⟩
  | append_singleton s b ih =>
    by_cases hb : b = lineFeed
    · exact ⟨s ++ [b], [], (List.append_nil _).symm, .inr ⟨s, by rw [hb]⟩, List.not_mem_nil⟩
    · obtain ⟨before, line, rfl, hbegins, hline⟩ := ih
      refine ⟨before, line ++ [b], List.append_assoc .., hbegins, ?_⟩
      rw [List.mem_append, List.mem_singleton, not_or]
      exact ⟨hline, Ne.symm hb⟩

/-- What stands in a text behind an offset starts with the end of a line. -/
theorem exists_end (s : Bytes) : ∃ line after, s = line ++ after ∧
    lineFeed ∉ line ∧ (after = [] ∨ ∃ later, after = lineFeed :: later) := by
  induction s with
  | nil => exact ⟨[], [], rfl, List.not_mem_nil, .inl rfl⟩
  | cons b s ih =>
    by_cases hb : b = lineFeed
    · exact ⟨[], b :: s, rfl, List.not_mem_nil, .inr ⟨s, by rw [hb]⟩⟩
    · obtain ⟨line, after, rfl, hline, hends⟩ := ih
      refine ⟨b :: line, after, rfl, ?_, hends⟩
      rw [List.mem_cons, not_or]
      exact ⟨Ne.symm hb, hline⟩

/-- Every offset of a text is in a line, or at its end. -/
theorem exists_hasLine {content : Bytes} {o : Nat} (ho : o ≤ content.length) : ∃ before line after,
    content.HasLine before line after ∧ before.length ≤ o ∧ o ≤ before.length + line.length := by
  obtain ⟨before, start, hstart, hbegins, hfirst⟩ := exists_begin (content.take o)
  obtain ⟨rest, after, hrest, hlast, hends⟩ := exists_end (content.drop o)
  have hlength : before.length + start.length = o := by
    rw [← List.length_append, ← hstart, List.length_take_of_le ho]
  refine ⟨before, start ++ rest, after, ⟨?_, hbegins, ?_, hends⟩, by omega, ?_⟩
  · rw [← List.take_append_drop o content, hstart, hrest]
    simp only [List.append_assoc]
  · rw [List.mem_append, not_or]
    exact ⟨hfirst, hlast⟩
  · rw [List.length_append]
    omega

namespace HasLine

variable {content before line after : Bytes}

theorem splitOn_eq (h : content.HasLine before line after) : ∃ firsts lasts,
    splitOn lineFeed content = firsts ++ line :: lasts ∧ firsts.length = before.count lineFeed := by
  have hlasts : ∃ lasts, splitOn lineFeed (line ++ after) = line :: lasts := by
    obtain hends | ⟨later, hends⟩ := h.ends
    · exact ⟨[], by rw [hends, List.append_nil, splitOn_of_notMem h.whole]⟩
    · exact ⟨splitOn lineFeed later, by rw [hends, splitOn_append_cons, splitOn_of_notMem h.whole]; rfl⟩
  obtain ⟨lasts, hlasts⟩ := hlasts
  obtain hbegins | ⟨earlier, hbegins⟩ := h.begins
  · exact ⟨[], lasts, by rw [h.parts, hbegins, List.nil_append, hlasts, List.nil_append], by rw [hbegins]; rfl⟩
  · refine ⟨splitOn lineFeed earlier, lasts, ?_, ?_⟩
    · rw [h.parts, hbegins, List.append_assoc, List.singleton_append, splitOn_append_cons, hlasts]
    · rw [length_splitOn, hbegins, List.count_append, List.count_singleton_self]

/-- The line is the one that the number of line feeds before it says. -/
theorem getElem?_splitOn (h : content.HasLine before line after) :
    (splitOn lineFeed content)[before.count lineFeed]? = some line := by
  obtain ⟨firsts, lasts, hsplit, hlength⟩ := h.splitOn_eq
  rw [hsplit, ← hlength, List.getElem?_append_right (Nat.le_refl _), Nat.sub_self]
  rfl

theorem mem_splitOn (h : content.HasLine before line after) : line ∈ splitOn lineFeed content :=
  List.mem_of_getElem? h.getElem?_splitOn

/-- The text up to an offset of the line. -/
theorem take_eq (h : content.HasLine before line after) {o : Nat} (hstart : before.length ≤ o)
    (hstop : o ≤ before.length + line.length) : content.take o = before ++ line.take (o - before.length) := by
  rw [h.parts, List.take_append, List.take_of_length_le hstart, List.take_append_of_le_length (by omega)]

/-- As many line feeds stand before an offset of the line as before the line. -/
theorem count_take (h : content.HasLine before line after) {o : Nat} (hstart : before.length ≤ o)
    (hstop : o ≤ before.length + line.length) : (content.take o).count lineFeed = before.count lineFeed := by
  rw [h.take_eq hstart hstop, List.count_append,
    List.count_eq_zero_of_not_mem fun hmem => h.whole (List.mem_of_mem_take hmem), Nat.add_zero]

/-- More line feeds stand before an offset behind the line. -/
theorem count_lt (h : content.HasLine before line after) {o : Nat} (hstop : before.length + line.length < o)
    (ho : o ≤ content.length) : before.count lineFeed < (content.take o).count lineFeed := by
  obtain hends | ⟨later, hends⟩ := h.ends
  · rw [h.parts, hends, List.append_nil, List.length_append] at ho
    omega
  · have htake : content.take o
        = before ++ (line ++ (lineFeed :: later).take (o - before.length - line.length)) := by
      rw [h.parts, hends, List.take_append, List.take_of_length_le (by omega), List.take_append,
        List.take_of_length_le (by omega)]
    obtain ⟨n, hn⟩ : ∃ n, o - before.length - line.length = n + 1 := ⟨o - before.length - line.length - 1, by omega⟩
    rw [htake, hn, List.take_succ_cons, List.count_append, List.count_append, List.count_cons_self]
    omega

end HasLine

end Bytes

namespace LineCol

/-- Is a position before another one, on an earlier line or further left? -/
def Before (p q : LineCol) : Prop := p.line < q.line ∨ p.line = q.line ∧ p.col < q.col

theorem Before.ne {p q : LineCol} (h : p.Before q) : p ≠ q := by
  rintro rfl
  obtain hline | ⟨-, hcol⟩ := h
  · exact Nat.lt_irrefl _ hline
  · exact Nat.lt_irrefl _ hcol

theorem Before.not_before {p q : LineCol} (h : p.Before q) : ¬ q.Before p := by
  obtain hline | ⟨hline, hcol⟩ := h <;> rintro (hline' | ⟨hline', hcol'⟩) <;> omega

end LineCol

namespace File

/-- If exactly the first entries of an index lie before an offset, the search finds how many they are. -/
theorem search_eq {index : Array Nat} {offset n : Nat} (hn : ∀ i (h : i < index.size), index[i] < offset ↔ i < n)
    {low high : Nat} (within : high ≤ index.size) (hlow : low ≤ n) (hhigh : n ≤ high) :
    search index offset low high within = n := by
  fun_induction search index offset low high within with
  | case1 low high within more middle_lt hlt ih => exact ih ((hn _ middle_lt).mp hlt) hhigh
  | case2 low high within more middle_lt hge ih =>
    exact ih hlow (Nat.le_of_not_lt fun hlt => hge ((hn _ middle_lt).mpr hlt))
  | case3 low high within done => omega

/-- The offsets of the line feeds in a text that starts at an offset. -/
def feedsFrom (start : Nat) (s : Bytes) : List Nat :=
  (s.zipIdx start).filterMap fun (b, i) => if b == lineFeed then some i else none

theorem lineIndex_eq (f : File) : f.lineIndex = (feedsFrom 0 f.content).toArray := rfl

theorem feedsFrom_append (start : Nat) (s t : Bytes) :
    feedsFrom start (s ++ t) = feedsFrom start s ++ feedsFrom (start + s.length) t := by
  rw [feedsFrom, List.zipIdx_append, List.filterMap_append]
  rfl

theorem feedsFrom_cons_lineFeed (start : Nat) (s : Bytes) :
    feedsFrom start (lineFeed :: s) = start :: feedsFrom (start + 1) s := rfl

theorem feedsFrom_cons_of_ne (start : Nat) {b : UInt8} (h : b ≠ lineFeed) (s : Bytes) :
    feedsFrom start (b :: s) = feedsFrom (start + 1) s := by
  rw [feedsFrom, List.zipIdx_cons, List.filterMap_cons_none (by simp [h])]
  rfl

theorem feedsFrom_of_notMem (start : Nat) {s : Bytes} (h : lineFeed ∉ s) : feedsFrom start s = [] := by
  induction s generalizing start with
  | nil => rfl
  | cons b s ih =>
    rw [List.mem_cons, not_or] at h
    rw [feedsFrom_cons_of_ne start (Ne.symm h.1), ih _ h.2]

theorem length_feedsFrom (start : Nat) (s : Bytes) : (feedsFrom start s).length = s.count lineFeed := by
  induction s generalizing start with
  | nil => rfl
  | cons b s ih =>
    by_cases hb : b = lineFeed
    · rw [hb, feedsFrom_cons_lineFeed, List.length_cons, ih, List.count_cons_self]
    · rw [feedsFrom_cons_of_ne start hb, ih, List.count_cons_of_ne hb]

/-- An offset in an index is one of the text. -/
theorem bounds_of_mem_feedsFrom {start i : Nat} {s : Bytes} (h : i ∈ feedsFrom start s) :
    start ≤ i ∧ i < start + s.length := by
  obtain ⟨⟨b, j⟩, hmem, hi⟩ := List.mem_filterMap.mp h
  obtain ⟨-, rfl⟩ : b = lineFeed ∧ j = i := by simpa using hi
  exact ⟨List.le_snd_of_mem_zipIdx hmem, Nat.add_comm s.length start ▸ List.snd_lt_of_mem_zipIdx hmem⟩

theorem getElem_append_lt_iff {firsts lasts : List Nat} {o : Nat} (hfirsts : ∀ x ∈ firsts, x < o)
    (hlasts : ∀ x ∈ lasts, o ≤ x) (i : Nat) (h : i < (firsts ++ lasts).length) :
    (firsts ++ lasts)[i] < o ↔ i < firsts.length := by
  by_cases hi : i < firsts.length
  · rw [List.getElem_append_left hi]
    exact iff_of_true (hfirsts _ (List.getElem_mem hi)) hi
  · rw [List.getElem_append_right (Nat.le_of_not_lt hi)]
    exact iff_of_false (Nat.not_lt_of_le (hlasts _ (List.getElem_mem _))) hi

/-- The entries before an offset are those of the line feeds in the text up to it. -/
theorem lineIndex_lt_iff (f : File) (o i : Nat) (h : i < f.lineIndex.size) :
    f.lineIndex[i] < o ↔ i < (f.content.take o).count lineFeed := by
  have hsplit : feedsFrom 0 f.content
      = feedsFrom 0 (f.content.take o) ++ feedsFrom (f.content.take o).length (f.content.drop o) := by
    rw [← Nat.zero_add (f.content.take o).length, ← feedsFrom_append, List.take_append_drop]
  have hfirsts : ∀ x ∈ feedsFrom 0 (f.content.take o), x < o := fun x hx =>
    Nat.lt_of_lt_of_le (bounds_of_mem_feedsFrom hx).2 (by rw [Nat.zero_add]; exact List.length_take_le ..)
  have hlasts : ∀ x ∈ feedsFrom (f.content.take o).length (f.content.drop o), o ≤ x := by
    intro x hx
    have hbounds := bounds_of_mem_feedsFrom hx
    rw [List.length_drop, List.length_take] at hbounds
    omega
  rw [← length_feedsFrom 0, ← getElem_append_lt_iff hfirsts hlasts i (hsplit ▸ h)]
  simp only [lineIndex_eq, List.getElem_toArray, hsplit]

/-- The search in the index of a file counts the line feeds before an offset. -/
theorem search_lineIndex (f : File) (o : Nat) :
    search f.lineIndex o 0 f.lineIndex.size (Nat.le_refl _) = (f.content.take o).count lineFeed := by
  refine search_eq (f.lineIndex_lt_iff o) _ (Nat.zero_le _) ?_
  rw [lineIndex_eq, List.size_toArray, length_feedsFrom]
  exact (List.take_sublist o f.content).count_le _

variable {f : File} {o : Nat} {p q : LineCol} {before line after : Bytes}

/-- Columns are words: at the end of each line there is still one. Only a line of four gigabytes has none there. -/
def HasColumns (f : File) : Prop := ∀ l ∈ Bytes.splitOn lineFeed f.content, l.length + 1 < 0x100000000

/-- Offsets are words too, so in a text with offsets for all its bytes every line has columns, unless the line is the
whole text and ends where the words do. -/
theorem HasColumns.of_size (h : f.size + 1 < 0x100000000) : f.HasColumns := fun _ hl =>
  Nat.lt_of_le_of_lt (Nat.succ_le_succ (Bytes.length_le_of_mem_splitOn hl)) h

/-- Where the search ends, the line of an offset starts. -/
theorem lineCol_eq {n start : Nat} (hn : search f.lineIndex o 0 f.lineIndex.size (Nat.le_refl _) = n)
    (hstart : f.lineStart? (n + 1) = some start) : f.lineCol o = ⟨n + 1, (o - start + 1) % 0x100000000⟩ := by
  subst hn
  rw [lineCol, locate]
  split
  · next hpos =>
    obtain ⟨k, hk⟩ := Nat.exists_eq_succ_of_ne_zero (Nat.ne_of_gt hpos)
    rw [hk, lineStart?, Option.map_eq_some_iff] at hstart
    obtain ⟨i, hi, rfl⟩ := hstart
    obtain ⟨hlt, rfl⟩ := Array.getElem?_eq_some_iff.mp hi
    simp only [hk, Nat.succ_eq_add_one, Nat.add_sub_cancel]
  · next hzero =>
    rw [Nat.eq_zero_of_not_pos hzero] at hstart ⊢
    obtain rfl : 0 = start := Option.some.inj hstart
    rfl

/-- The index of a text with a line: it has the line feeds before the line, and those from its end on. -/
theorem feedsFrom_hasLine (h : f.content.HasLine before line after) :
    feedsFrom 0 f.content = feedsFrom 0 before ++ feedsFrom (before.length + line.length) after := by
  rw [h.parts, feedsFrom_append, feedsFrom_append, feedsFrom_of_notMem _ h.whole, Nat.zero_add, List.nil_append]

theorem lineStart?_hasLine (h : f.content.HasLine before line after) :
    f.lineStart? (before.count lineFeed + 1) = some before.length := by
  obtain hbegins | ⟨earlier, hbegins⟩ := h.begins
  · rw [hbegins]
    rfl
  · have hlast : feedsFrom 0 before = feedsFrom 0 earlier ++ [earlier.length] := by
      rw [hbegins, feedsFrom_append, Nat.zero_add]
      rfl
    rw [← length_feedsFrom 0, hlast, List.length_append, List.length_singleton, lineStart?, lineIndex_eq,
      feedsFrom_hasLine h, hlast, List.getElem?_toArray, List.append_assoc,
      List.getElem?_append_right (Nat.le_refl _), Nat.sub_self, hbegins, List.length_append]
    rfl

theorem lineEnd_hasLine (h : f.content.HasLine before line after) :
    f.lineIndex[before.count lineFeed]?.getD f.size = before.length + line.length := by
  rw [← length_feedsFrom 0, lineIndex_eq, feedsFrom_hasLine h, List.getElem?_toArray,
    List.getElem?_append_right (Nat.le_refl _), Nat.sub_self]
  obtain hends | ⟨later, hends⟩ := h.ends
  · rw [hends, size, h.parts, hends, List.append_nil, List.length_append]
    rfl
  · rw [hends, feedsFrom_cons_lineFeed]
    rfl

theorem lineCol_hasLine (h : f.content.HasLine before line after) (hstart : before.length ≤ o)
    (hstop : o ≤ before.length + line.length) :
    f.lineCol o = ⟨1 + before.count lineFeed, (1 + (o - before.length)) % 0x100000000⟩ := by
  have hcount := f.search_lineIndex o
  rw [h.count_take hstart hstop] at hcount
  rw [lineCol_eq hcount (lineStart?_hasLine h), Nat.add_comm 1, Nat.add_comm 1]

theorem slice_hasLine (h : f.content.HasLine before line after) {o o' : Nat} (hstart : before.length ≤ o)
    (hstop : o' ≤ before.length + line.length) :
    f.slice o o' = (line.take (o' - before.length)).drop (o - before.length) := by
  rw [slice]
  by_cases ho : before.length ≤ o'
  · rw [h.take_eq ho hstop, List.drop_append, List.drop_eq_nil_of_le hstart, List.nil_append]
  · rw [List.drop_eq_nil_of_le (Nat.le_trans (List.length_take_le _ _) (by omega)),
      Nat.sub_eq_zero_of_le (Nat.le_of_not_le ho), List.take_zero, List.drop_nil]

/-- The two look-ups cut out the line. -/
theorem line_hasLine (h : f.content.HasLine before line after) : f.line (1 + before.count lineFeed) = line := by
  have hsize : before.length + line.length ≤ f.size := by
    rw [size, h.parts, List.length_append, List.length_append]
    omega
  rw [Nat.add_comm, File.line, lineStart?_hasLine h]
  dsimp only
  rw [Nat.add_sub_cancel, lineEnd_hasLine h, if_neg (by omega), slice_hasLine h (Nat.le_refl _) (Nat.le_refl _),
    Nat.sub_self, List.drop_zero, Nat.add_sub_cancel_left, List.take_length]

/-- A position is that of an offset: the number of its line counts the line feeds before the offset, its column the
bytes from the start of the line, and these are the first bytes of the line with that number. -/
structure Locates (f : File) (o : Nat) (p : LineCol) (before after : Bytes) : Prop where
  around : f.content.HasLine before (f.line p.line) after
  line : p.line = 1 + (f.content.take o).count lineFeed
  starts : before.length ≤ o
  col : p.col = 1 + (o - before.length)
  within : p.col - 1 ≤ (f.line p.line).length
  reads : (f.line p.line).take (p.col - 1) = f.slice before.length o

theorem HasColumns.lineCol_eq (hf : f.HasColumns) (h : f.content.HasLine before line after) (hstart : before.length ≤ o)
    (hstop : o ≤ before.length + line.length) :
    f.lineCol o = ⟨1 + before.count lineFeed, 1 + (o - before.length)⟩ := by
  have hline := hf line h.mem_splitOn
  rw [lineCol_hasLine h hstart hstop, Nat.mod_eq_of_lt (by omega)]

/-- Every offset has a position. -/
theorem HasColumns.locates (hf : f.HasColumns) (ho : o ≤ f.size) :
    ∃ before after, f.Locates o (f.lineCol o) before after := by
  obtain ⟨before, line, after, h, hstart, hstop⟩ := Bytes.exists_hasLine ho
  have hpos := hf.lineCol_eq h hstart hstop
  have htext : f.line (f.lineCol o).line = line := by rw [hpos]; exact line_hasLine h
  refine ⟨before, after, ?_, ?_, hstart, ?_, ?_, ?_⟩
  · rw [htext]
    exact h
  · rw [hpos, h.count_take hstart hstop]
  · rw [hpos]
  · rw [htext, hpos, Nat.add_sub_cancel_left]
    omega
  · rw [htext, hpos, Nat.add_sub_cancel_left, slice_hasLine h (Nat.le_refl _) hstop, Nat.sub_self, List.drop_zero]

/-- A later offset has a later position: on the same line it is further right, and behind the line there is one more
line feed before it. -/
theorem HasColumns.before_of_lt (hf : f.HasColumns) {o' : Nat} (ho : o < o') (hsize : o' ≤ f.size) :
    (f.lineCol o).Before (f.lineCol o') := by
  obtain ⟨before, line, after, h, hstart, hstop⟩ := Bytes.exists_hasLine (Nat.le_of_lt (Nat.lt_of_lt_of_le ho hsize))
  rw [hf.lineCol_eq h hstart hstop]
  by_cases hsame : o' ≤ before.length + line.length
  · rw [hf.lineCol_eq h (Nat.le_trans hstart (Nat.le_of_lt ho)) hsame]
    exact .inr ⟨rfl, Nat.add_lt_add_left (Nat.sub_lt_sub_right hstart ho) 1⟩
  · obtain ⟨_, _, h'⟩ := hf.locates hsize
    refine .inl ?_
    rw [h'.line]
    exact Nat.add_lt_add_left (h.count_lt (Nat.lt_of_not_le hsame) hsize) 1

theorem HasColumns.before_iff (hf : f.HasColumns) {o' : Nat} (ho : o ≤ f.size) (ho' : o' ≤ f.size) :
    (f.lineCol o).Before (f.lineCol o') ↔ o < o' := by
  refine ⟨fun h => Nat.lt_of_not_le fun hle => ?_, fun h => hf.before_of_lt h ho'⟩
  obtain heq | hlt := Nat.eq_or_lt_of_le hle
  · exact h.ne (by rw [heq])
  · exact h.not_before (hf.before_of_lt hlt ho)

theorem HasColumns.lineCol_inj (hf : f.HasColumns) {o' : Nat} (ho : o ≤ f.size) (ho' : o' ≤ f.size) :
    f.lineCol o = f.lineCol o' ↔ o = o' := by
  refine ⟨fun h => ?_, congrArg _⟩
  obtain hlt | heq | hlt := Nat.lt_trichotomy o o'
  · exact absurd h (hf.before_of_lt hlt ho').ne
  · exact heq
  · exact absurd h.symm (hf.before_of_lt hlt ho).ne

/-- A later offset is on the same line exactly if that line does not end before it. -/
theorem HasColumns.line_eq_iff (hf : f.HasColumns) (h : f.content.HasLine before line after)
    (hstart : before.length ≤ o) (hstop : o ≤ before.length + line.length) {o' : Nat} (ho : o ≤ o')
    (hsize : o' ≤ f.size) : (f.lineCol o').line = (f.lineCol o).line ↔ o' ≤ before.length + line.length := by
  obtain ⟨_, _, h'⟩ := hf.locates hsize
  rw [hf.lineCol_eq h hstart hstop]
  constructor
  · intro heq
    rw [h'.line] at heq
    exact Nat.le_of_not_lt fun hlt => Nat.ne_of_gt (h.count_lt hlt hsize) (Nat.add_left_cancel heq)
  · intro hle
    rw [hf.lineCol_eq h (Nat.le_trans hstart ho) hle]

/-- How much of the line of one position stands before the other: all of it if that is on another line. -/
def markEnd (f : File) (p q : LineCol) : Nat := if q.line = p.line then q.col - 1 else (f.line p.line).length

theorem markEnd_le (hq : q.col - 1 ≤ (f.line q.line).length) : f.markEnd p q ≤ (f.line p.line).length := by
  rw [markEnd]
  split
  · next hline => exact hline ▸ hq
  · exact Nat.le_refl _

/-- What a line is cut to between two positions is the text between their offsets, as far as it is on the line. -/
theorem HasColumns.slice_markEnd (hf : f.HasColumns) {o' : Nat} (ho : o ≤ o') (hsize : o' ≤ f.size) :
    ((f.line (f.lineCol o).line).take (f.markEnd (f.lineCol o) (f.lineCol o'))).drop ((f.lineCol o).col - 1)
      = f.slice o (min o' (o + ((f.line (f.lineCol o).line).length - ((f.lineCol o).col - 1)))) := by
  obtain ⟨before, line, after, h, hstart, hstop⟩ := Bytes.exists_hasLine (Nat.le_trans ho hsize)
  have hpos := hf.lineCol_eq h hstart hstop
  have htext : f.line (f.lineCol o).line = line := by rw [hpos]; exact line_hasLine h
  have hend : o + (line.length - (o - before.length)) = before.length + line.length := by omega
  have hsame := hf.line_eq_iff h hstart hstop ho hsize
  have hcol : (f.lineCol o).col - 1 = o - before.length := by rw [hpos, Nat.add_sub_cancel_left]
  rw [markEnd, htext, hcol, hend, slice_hasLine h hstart (Nat.min_le_right _ _)]
  by_cases hle : o' ≤ before.length + line.length
  · rw [if_pos (hsame.mpr hle), hf.lineCol_eq h (Nat.le_trans hstart ho) hle, Nat.add_sub_cancel_left,
      Nat.min_eq_left hle]
  · rw [if_neg (mt hsame.mp hle), Nat.min_eq_right (Nat.le_of_not_le hle), Nat.add_sub_cancel_left]

end File

namespace Report

variable {fs : FileSet} {span : Span} {f : File}

/-- The lines that a snippet shows down to the one it marks. -/
def shownLines (f : File) (line : Nat) (context : Int) (color : Bool) : Bytes :=
  let first := (max ((line : Int) - context) 1).toNat
  ((List.range (line + 1 - first)).map (first + ·)).flatMap fun n =>
    gutter color (Bytes.padLeft (Bytes.decimal line).length (Bytes.decimal n)) ++ expandTabs (f.line n) ++ [lineFeed]

/-- Below the line where a span starts, the mark goes from the column of its start to that of its end. -/
theorem snippet_eq (hf : fs.get? span.file = some f)
    (hleft : (f.lineCol span.start).col - 1 ≤ (f.line (f.lineCol span.start).line).length)
    (hright : (f.lineCol span.stop).col - 1 ≤ (f.line (f.lineCol span.stop).line).length) (context : Int) (color : Bool) :
    snippet fs span context color = shownLines f (f.lineCol span.start).line context color
      ++ gutter color (List.replicate (Bytes.decimal (f.lineCol span.start).line).length (byte ' '))
      ++ underline color (f.line (f.lineCol span.start).line) ((f.lineCol span.start).col - 1)
        (f.markEnd (f.lineCol span.start) (f.lineCol span.stop)) ++ [lineFeed] := by
  have hmark : (if (f.lineCol span.stop).line = (f.lineCol span.start).line
      then min ((f.lineCol span.stop).col - 1) (f.line (f.lineCol span.start).line).length
      else (f.line (f.lineCol span.start).line).length) = f.markEnd (f.lineCol span.start) (f.lineCol span.stop) := by
    rw [File.markEnd]
    split
    · next hline => exact Nat.min_eq_left (hline ▸ hright)
    · rfl
  simp only [snippet, FileSet.resolve?, hf, Option.map_some, Nat.min_eq_left hleft, hmark]
  rfl

/-- Both ends of a span have the positions of their offsets, in the order of the offsets, and the mark of a snippet is
below the text of the span on its first line. -/
theorem resolve?_located (hf : fs.get? span.file = some f) (hcolumns : f.HasColumns)
    (hstart : span.start ≤ f.size) (hstop : span.stop ≤ f.size) : ∃ p q,
      fs.resolve? span = some (p, q) ∧
      (∃ before after, f.Locates span.start p before after) ∧ (∃ before after, f.Locates span.stop q before after) ∧
      (p.Before q ↔ span.start < span.stop) ∧ (p = q ↔ span.start = span.stop) ∧
      p.col - 1 ≤ (f.line p.line).length ∧ f.markEnd p q ≤ (f.line p.line).length ∧
      (span.start ≤ span.stop → ((f.line p.line).take (f.markEnd p q)).drop (p.col - 1)
        = f.slice span.start (min span.stop (span.start + ((f.line p.line).length - (p.col - 1))))) ∧
      ∀ context color, snippet fs span context color = shownLines f p.line context color
        ++ gutter color (List.replicate (Bytes.decimal p.line).length (byte ' '))
        ++ underline color (f.line p.line) (p.col - 1) (f.markEnd p q) ++ [lineFeed] := by
  obtain ⟨before, after, hp⟩ := hcolumns.locates hstart
  obtain ⟨before', after', hq⟩ := hcolumns.locates hstop
  refine ⟨f.lineCol span.start, f.lineCol span.stop, by rw [FileSet.resolve?, hf]; rfl, ⟨_, _, hp⟩, ⟨_, _, hq⟩,
    hcolumns.before_iff hstart hstop, hcolumns.lineCol_inj hstart hstop, hp.within, File.markEnd_le hq.within,
    fun h => hcolumns.slice_markEnd h hstop, snippet_eq hf hp.within hq.within⟩

/-- The last two letters of the second line, up to the end of a text whose last line has no line feed. -/
theorem resolve?_located_second : ∃ p q,
    let f : File := ⟨0, "a", "ab\ncde\n\nf", {}⟩
    FileSet.resolve? ⟨[f], [], []⟩ ⟨0, 4, 9⟩ = some (p, q) ∧ p = ⟨2, 2⟩ ∧ q = ⟨4, 2⟩ ∧
      ((f.line p.line).take (f.markEnd p q)).drop (p.col - 1) = f.slice 4 6 ∧
      ∀ context color, snippet ⟨[f], [], []⟩ ⟨0, 4, 9⟩ context color = shownLines f p.line context color
        ++ gutter color (List.replicate (Bytes.decimal p.line).length (byte ' '))
        ++ underline color (f.line p.line) (p.col - 1) (f.markEnd p q) ++ [lineFeed] := by
  have hf : FileSet.get? ⟨[⟨0, "a", "ab\ncde\n\nf", {}⟩], [], []⟩ (Span.mk 0 4 9).file
      = some ⟨0, "a", "ab\ncde\n\nf", {}⟩ := rfl
  obtain ⟨p, q, hpq, -, -, -, -, -, -, hmark, hsnippet⟩ := resolve?_located hf (.of_size (by decide)) (by decide) (by decide)
  have hends : (⟨2, 2⟩, ⟨4, 2⟩) = (p, q) := Option.some.inj (.trans (by decide +kernel) hpq)
  obtain ⟨rfl, rfl⟩ := Prod.mk.inj hends
  exact ⟨_, _, hpq, rfl, rfl, hmark (by decide), hsnippet⟩

end Report

end Craftlang
