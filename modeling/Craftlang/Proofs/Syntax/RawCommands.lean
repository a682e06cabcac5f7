import Craftlang.Proofs.Code.Places
import Craftlang.Proofs.Syntax.Rewording

/-!
# Raw commands are lines

A raw command of a program is the text of a token behind its slash, whatever else is wrong with the program,
and the text of such a token ends where its line ends. So no raw command holds a line feed.
-/

namespace Craftlang

namespace Parse

/-- Each text stands behind the slash of a token among some. -/
def TextsSpelled (tokens : List Token) (texts : List Bytes) : Prop :=
  ∀ v ∈ texts, ∃ t ∈ tokens, t.kind = .command ∧ v = t.text.tail

/-- The raw commands in a statement are spelled with some tokens. -/
def CommandsSpelled (tokens : List Token) (st : Stmt) : Prop := TextsSpelled tokens st.texts

/-- What a parser gives does not depend on the state that it is seen from. -/
theorem Parsed.since_gives {s t : State} {α : Type} {p : Parsed t α} {P : α → Prop} (h : P p.value)
    (hw : t.rest <:+ s.rest) : P (p.since hw).value := h

variable {tokens : List Token}

theorem textsSpelled_nil : TextsSpelled tokens [] := List.forall_mem_nil _

theorem textsSpelled_append {us vs : List Bytes} :
    TextsSpelled tokens (us ++ vs) ↔ TextsSpelled tokens us ∧ TextsSpelled tokens vs :=
  List.forall_mem_append

/-- A simple statement is what is made, or an error. -/
theorem commandsSpelled_simple {s : State} {span : Span} {make : Node → Stmt}
    (h : ∀ n, CommandsSpelled tokens (make n)) :
    CommandsSpelled tokens (simple s span make).value := by
  rw [simple]
  refine Parsed.andThen_gives fun made t _ hmade _ => ?_
  refine Parsed.andThen_gives fun ended u _ _ _ => ?_
  cases ended with
  | true => exact hmade ▸ h _
  | false => exact textsSpelled_nil

theorem commandsSpelled_declaration (start : Span) (s : State) :
    CommandsSpelled tokens (declaration start s).value := by
  rw [declaration]
  refine Parsed.andThen_gives fun header t _ _ _ => ?_
  split
  · exact textsSpelled_nil
  · split
    · exact commandsSpelled_simple fun _ => textsSpelled_nil
    · refine Parsed.since_gives (Parsed.andThen_gives fun value u _ _ _ => ?_) _
      split
      · exact commandsSpelled_simple fun _ => textsSpelled_nil
      · exact textsSpelled_nil

theorem commandsSpelled_returned (start : Span) (s : State) :
    CommandsSpelled tokens (returned start s).value := by
  rw [returned]
  split
  iterate 3 exact commandsSpelled_simple fun _ => textsSpelled_nil
  refine Parsed.andThen_gives fun value t _ _ _ => ?_
  split
  · exact textsSpelled_nil
  · exact commandsSpelled_simple fun _ => textsSpelled_nil

mutual

theorem textsSpelled_block {s : State} (hs : s.rest ⊆ tokens) {b : Block} (hb : (block s).value = some b) :
    TextsSpelled tokens b.texts := by
  rw [block] at hb
  split at hb
  · cases hb
  · rename_i opening _
    have hlen := opening.length_lt
    cases hb
    exact textsSpelled_statements (List.Subset.trans opening.suffix.subset hs)
termination_by s.rest.length * 4 + 1
decreasing_by all_goals omega

theorem textsSpelled_statements {s : State} (hs : s.rest ⊆ tokens) :
    TextsSpelled tokens (Stmt.allTexts (statements s).value) := by
  rw [statements]
  split
  · exact textsSpelled_nil
  · rename_i step _
    have hlen := step.length_lt
    have hstep := List.Subset.trans step.suffix.subset hs
    split
    · exact textsSpelled_nil
    split
    · exact textsSpelled_nil
    split
    · exact textsSpelled_statements hstep
    · rename_i heof hdedent _
      have hle := (statement s step heof hdedent).length_le
      have hrest := List.Subset.trans (statement s step heof hdedent).within.subset hstep
      exact textsSpelled_append.mpr
        ⟨commandsSpelled_statement hs step heof hdedent, textsSpelled_statements hrest⟩
termination_by s.rest.length * 4
decreasing_by all_goals omega

/-- Only a command is spelled by its own token; other statements hold the commands of their blocks. -/
theorem commandsSpelled_statement {s : State} (hs : s.rest ⊆ tokens) (step : Step s)
    (heof : step.token.kind ≠ .eof) (hdedent : step.token.kind ≠ .dedent) :
    CommandsSpelled tokens (statement s step heof hdedent).value := by
  have hlen := step.length_lt
  have hstep := List.Subset.trans step.suffix.subset hs
  rw [statement]
  split
  · exact commandsSpelled_declaration _ _
  · exact commandsSpelled_branch _ hstep
  · refine Parsed.andThen_gives fun cond t _ _ ht => ?_
    split
    · exact textsSpelled_nil
    · refine Parsed.andThen_gives fun body u _ hbody _ => ?_
      split
      · exact textsSpelled_nil
      · have hle := ht.length_le
        exact textsSpelled_block (List.Subset.trans ht.subset hstep) hbody
  · refine Parsed.andThen_gives fun ended t _ _ ht => ?_
    split
    · exact textsSpelled_nil
    · refine Parsed.andThen_gives fun body u _ hbody _ => ?_
      split
      · exact textsSpelled_nil
      · have hle := ht.length_le
        have hblock := textsSpelled_block (List.Subset.trans ht.subset hstep) hbody
        refine Parsed.andThen_gives fun cond v _ _ _ => ?_
        split
        · exact textsSpelled_nil
        · exact commandsSpelled_simple fun _ => hblock
  · exact commandsSpelled_simple fun _ => textsSpelled_nil
  · exact commandsSpelled_simple fun _ => textsSpelled_nil
  · exact commandsSpelled_returned _ _
  · rename_i hkind
    refine commandsSpelled_simple fun _ v hv => ?_
    have hmem : step.token ∈ s.rest := step.cons ▸ List.mem_cons_self
    exact ⟨step.token, hs hmem, hkind, List.mem_singleton.mp hv⟩
  · exact textsSpelled_nil
  iterate 5 exact textsSpelled_nil
  split
  · exact commandsSpelled_simple fun _ => textsSpelled_nil
  · exact textsSpelled_nil
termination_by s.rest.length * 4 - 1
decreasing_by all_goals omega

theorem commandsSpelled_branch (start : Span) {s : State} (hs : s.rest ⊆ tokens) :
    CommandsSpelled tokens (branch start s).value := by
  rw [branch]
  refine Parsed.andThen_gives fun cond t _ _ ht => ?_
  split
  · exact textsSpelled_nil
  · refine Parsed.andThen_gives fun body u _ hbody hu => ?_
    have hle := ht.length_le
    split
    · exact textsSpelled_nil
    · have hblock := textsSpelled_block (List.Subset.trans ht.subset hs) hbody
      split
      · exact textsSpelled_append.mpr ⟨hblock, textsSpelled_nil⟩
      · rename_i other _
        have hlen := other.length_lt
        have hother := other.suffix.trans (hu.trans ht)
        have hle' := hother.length_le
        split
        · rename_i again _
          have hlen' := again.length_lt
          have hagain := again.suffix.trans hother
          refine Parsed.since_gives (Parsed.since_gives (Parsed.andThen_gives fun chained v _ hchained _ => ?_) _) _
          have hrest := commandsSpelled_branch again.token.span (List.Subset.trans hagain.subset hs)
          exact textsSpelled_append.mpr ⟨hblock, hchained ▸ hrest⟩
        · refine Parsed.since_gives (Parsed.andThen_gives fun ended v _ _ hv => ?_) _
          split
          · exact textsSpelled_nil
          · refine Parsed.andThen_gives fun rest w _ hrest _ => ?_
            split
            · exact textsSpelled_nil
            · have hle'' := hv.length_le
              have helse := textsSpelled_block (List.Subset.trans (hv.trans hother).subset hs) hrest
              exact textsSpelled_append.mpr ⟨hblock, helse⟩
termination_by s.rest.length * 4 + 2
decreasing_by all_goals omega

end

end Parse

/-- The text of a raw command ends where its line ends. -/
theorem Lexeme.lineFeed_notMem_command {b : UInt8} (hb : b ≠ lineFeed) (rest : Bytes) :
    lineFeed ∉ (command b rest).text := by
  have hline : lineFeed ∉ rest.takeWhile (· != lineFeed) := fun hmem => by
    simpa using List.mem_takeWhile_imp hmem
  intro hmem
  rcases List.mem_cons.mp hmem with heq | hmem
  · exact hb heq.symm
  · exact hline (List.mem_reverse.mp ((List.dropWhile_suffix _).subset (List.mem_reverse.mp hmem)))

namespace File

variable {file : File}

theorem lineFeed_notMem_command {t : Token} (ht : t ∈ file.tokenize) (hk : t.kind = .command) :
    lineFeed ∉ t.text := by
  obtain ⟨bs, s, b, rest, l, -, -, hread, rfl⟩ :=
    exists_reaches_lexeme ht (by rw [hk]; rfl) (by rw [hk]; exact Kind.noConfusion)
  change l.kind = .command at hk
  change lineFeed ∉ l.text
  rw [Scan.eq_read_of_lexeme hread] at hk ⊢
  rcases Lexeme.read_cases s.atLineStart b rest with ⟨rfl, heq⟩ | ⟨-, heq⟩ | ⟨-, heq⟩ | hother
  · rw [heq]
    exact Lexeme.lineFeed_notMem_command (by decide) rest
  · rw [heq] at hk
    rcases Lexeme.number_kind b rest with h | h <;> rw [h] at hk <;> cases hk
  · rw [heq] at hk
    rcases Lexeme.string_kind b rest with h | h <;> rw [h] at hk <;> cases hk
  · rw [hk] at hother
    exact absurd (by decide) hother

/-- The raw commands of a program are spelled by tokens of its file. -/
theorem textsSpelled (file : File) : Parse.TextsSpelled file.tokenize file.parse.program.texts := by
  intro v hv
  rcases List.mem_append.mp hv with hv | hv
  · obtain ⟨st, hst, hv⟩ := Stmt.mem_allTexts.mp hv
    obtain ⟨n, hn⟩ := Program.mem_topLevel.mp hst
    cases items_comeFrom _ hn with
    | stmt _ hs step heof hdedent => exact Parse.commandsSpelled_statement hs step heof hdedent v hv
  · obtain ⟨f, hf, hv⟩ := List.mem_flatMap.mp hv
    cases items_comeFrom _ (Item.mem_functionsOf.mp hf) with
    | function _ hs hbody => exact Parse.textsSpelled_block hs hbody v (f.body.texts_eq ▸ hv)

/-- No raw command of a program holds a line feed. -/
theorem lineFeed_notMem_texts (file : File) : ∀ v ∈ file.parse.program.texts, lineFeed ∉ v := by
  intro v hv
  obtain ⟨t, ht, hk, rfl⟩ := file.textsSpelled v hv
  exact fun hmem => lineFeed_notMem_command ht hk (List.mem_of_mem_tail hmem)

end File

end Craftlang
