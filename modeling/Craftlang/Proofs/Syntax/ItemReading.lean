import Craftlang.Proofs.Syntax.StmtReading

/-!
# Programs are read by the grammar

Items, and the whole of a program. Ends of blocks that are skipped between items do not occur: no block
is open there.
-/

namespace Craftlang.Parse

open Parsed (Reads)

theorem dottedName_reads (s : State) (d : Nat) :
    Attempt.Reads (dottedName s) (Laid .inLine d) fun _ ts ks =>
      Phrase .dotted ts ∧ Laid .inLine d ks := by
  rw [dottedName]
  refine (identifier_reads s).bind fun name t h => ?_
  split
  · refine .ok ?_
    rintro ks - ts - ⟨rfl, hl⟩
    exact ⟨.oneName, hl⟩
  · rename_i dot ht
    have hlen := dot.length_lt
    obtain ⟨hs, hk⟩ := State.take?_eq_some ht
    refine .since hs (((dottedName_reads dot.state d).of ?_).bind fun more u hu => .ok ?_)
    · rintro ks ⟨ts, -, -, hl⟩
      rw [hk] at hl
      exact (laid_cons_of_isInline rfl).mp hl
    · rintro ks - ms - ⟨hm, hl⟩ ts - ⟨rfl, -⟩
      rw [hk]
      exact ⟨by simpa using Phrase.moreNames hm, hl⟩
termination_by s.rest.length
decreasing_by all_goals omega

theorem parameter_reads (s : State) (d : Nat) :
    Attempt.Reads (parameter s) (Laid .inLine d) fun _ ts ks =>
      Phrase .param ts ∧ Laid .inLine d ks := by
  rw [parameter]
  refine (identifier_reads s).bind fun name t h => ((expect_reads (q := .inLine) (d := d) t rfl).of
    ?_).bind fun colon u hu => ((typeName_reads (q := .inLine) (d := d) u).of ?_).bind
      fun type v hv => .ok ?_
  · rintro ks ⟨ts, -, -, hl⟩
    exact hl
  · rintro ks ⟨ts, -, -, hl⟩
    exact hl
  · rintro ks - ts - ⟨rfl, hl⟩ us - ⟨rfl, -⟩ vs - ⟨rfl, -⟩
    exact ⟨.typedParam, hl⟩

theorem parameterList_reads (s : State) (d : Nat) :
    Attempt.Reads (parameterList s) (Laid .inLine d) fun _ ts ks =>
      (∃ ps, ts = ps ++ [.rParen] ∧ Phrase .paramList ps) ∧ Laid .inLine d ks := by
  rw [parameterList]
  refine (parameter_reads s d).bind fun param t h => ?_
  split
  · rename_i comma ht
    have hlen := comma.length_lt
    obtain ⟨hs, hk⟩ := State.take?_eq_some ht
    refine .since hs (((parameterList_reads comma.state d).of ?_).bind fun params u hu => .ok ?_)
    · rintro ks ⟨ts, -, -, hl⟩
      rw [hk] at hl
      exact (laid_cons_of_isInline rfl).mp hl
    · rintro ks - us - ⟨⟨ps, rfl, hps⟩, hl⟩ ts - ⟨hp, -⟩
      refine ⟨⟨ts ++ .comma :: ps, ?_, .moreParams hp hps⟩, hl⟩
      simp [hk]
  · split
    · rename_i close ht
      obtain ⟨hs, hk⟩ := State.take?_eq_some ht
      refine .since hs (.ok ?_)
      rintro ks - ts - ⟨hp, hl⟩
      rw [hk] at hl ⊢
      exact ⟨⟨ts, rfl, .lastParam hp⟩, (laid_cons_of_isInline rfl).mp hl⟩
    · refine .expected ?_
      rintro ks ⟨ts, -, -, hl⟩
      exact hl.head_ne_invalid
termination_by s.rest.length
decreasing_by all_goals omega

theorem parameters_reads (s : State) (d : Nat) :
    Attempt.Reads (parameters s) (Laid .inLine d) fun _ ts ks =>
      (∃ ps, ts = ps ++ [.rParen] ∧ Phrase .params ps) ∧ Laid .inLine d ks := by
  rw [parameters]
  split
  · rename_i close ht
    obtain ⟨hs, hk⟩ := State.take?_eq_some ht
    refine .since hs (.ok fun ks hl => ?_)
    rw [hk] at hl ⊢
    exact ⟨⟨[], rfl, .noParam⟩, (laid_cons_of_isInline rfl).mp hl⟩
  · refine (parameterList_reads s d).mono (fun _ hl => hl) ?_
    rintro _ ts ks - ⟨⟨ps, hts, hps⟩, hl⟩
    exact ⟨⟨ps, hts, .someParams hps⟩, hl⟩

theorem signature_reads (s : State) (d : Nat) :
    Attempt.Reads (signature s) (Laid .inLine d) fun _ ts ks =>
      (∃ ps r, ts = .ident :: .lParen :: ps ++ .rParen :: r ∧ Phrase .params ps ∧
        Phrase .typeMark r) ∧ Laid .inLine d ks := by
  rw [signature]
  refine (identifier_reads s).bind fun name t h => ((expect_reads (q := .inLine) (d := d) t rfl).of
    ?_).bind fun opening u hu => ((parameters_reads u d).of ?_).bind fun params v hv =>
      ((typeMark_reads v d).of ?_).bind fun result w hw => .ok ?_
  · rintro ks ⟨ts, -, -, hl⟩
    exact hl
  · rintro ks ⟨ts, -, -, hl⟩
    exact hl
  · rintro ks ⟨ts, -, -, hl⟩
    exact hl
  · rintro ks - rs - ⟨hr, hl⟩ us - ⟨⟨ps, rfl, hps⟩, -⟩ os - ⟨rfl, -⟩ ns - ⟨rfl, -⟩
    exact ⟨⟨ps, rs, by simp, hps, hr⟩, hl⟩

/-- What is read as an item that starts with a kind of token. -/
def ItemReadAs (c : PhraseKind) (k : Kind) (i : Item) (ts ks : List Kind) : Prop :=
  Phrase c (k :: ts) ∧ i.isWhole = true ∧ Laid .lineStart 0 ks

theorem function_reads (start : Span) (tags : List DottedName) (s : State) :
    (function start tags s).Reads (Laid .inLine 0) (ItemReadAs .function .kwFun) := by
  rw [function]
  refine Reads.andThen (signature_reads s 0) fun sig t h => ?_
  split
  · exact .afterFailure List.suffix_rfl
  · rename_i name params result
    refine ((lineEnd_reads t 0).of ?_).andThen fun ended u hu => ?_
    · rintro ks ⟨ts, -, a, ha, -, hl⟩
      exact hl
    · split
      · rename_i hn
        refine .unreached List.suffix_rfl ?_
        rintro ks ⟨ts, -, rfl, -⟩
        cases hn
      · refine Reads.andThen ((block_reads u 0).of ?_) fun body v hv => ?_
        · rintro ks ⟨ts, -, -, -, hl⟩
          exact hl
        · split
          · exact .afterFailure List.suffix_rfl
          · rename_i body
            refine .build ?_
            rintro n ks - bs - ⟨b, hb, hblock, hwb, hlaid⟩ ns - ⟨-, rfl, -⟩ ts -
              ⟨a, -, ⟨ps, r, rfl, hps, hr⟩, -⟩
            cases hb
            exact ⟨by simpa using Phrase.bare hps hr hblock, hwb, hlaid⟩

theorem taggedFunction_reads (start : Span) (tags : List DottedName) (s : State) :
    (taggedFunction start tags s).Reads (Laid .inLine 0) (ItemReadAs .function .kwTag) := by
  rw [taggedFunction]
  refine Reads.andThen (dottedName_reads s 0) fun name t h => ?_
  split
  · exact .afterFailure List.suffix_rfl
  · rename_i name
    refine ((lineEnd_reads t 0).of ?_).andThen fun ended u hu => ?_
    · rintro ks ⟨ts, -, a, ha, -, hl⟩
      exact hl
    · split
      · rename_i hn
        refine .unreached List.suffix_rfl ?_
        rintro ks ⟨ts, -, rfl, -⟩
        cases hn
      · split
        · rename_i step ht
          have hlen := step.length_lt
          obtain ⟨hs, hk⟩ := State.take?_eq_some ht
          refine .since hs ((taggedFunction_reads start _ step.state).mono ?_ ?_)
          · rintro ks ⟨ts, -, -, -, hl⟩
            rw [hk] at hl
            exact (laid_cons_of_isInline rfl).mp hl
          · rintro i fs ks - ⟨hf, hw, hl⟩ ns - ⟨-, rfl, -⟩ ts - ⟨a, -, hq, -⟩
            rw [hk]
            exact ⟨by simpa using Phrase.tagged hq hf, hw, hl⟩
        · split
          · rename_i step ht
            obtain ⟨hs, hk⟩ := State.take?_eq_some ht
            refine .since hs ((function_reads start _ step.state).mono ?_ ?_)
            · rintro ks ⟨ts, -, -, -, hl⟩
              rw [hk] at hl
              exact (laid_cons_of_isInline rfl).mp hl
            · rintro i fs ks - ⟨hf, hw, hl⟩ ns - ⟨-, rfl, -⟩ ts - ⟨a, -, hq, -⟩
              rw [hk]
              exact ⟨by simpa using Phrase.tagged hq hf, hw, hl⟩
          · have hnone : Attempt.Reads (Attempt.expected u .functionAfterTag : Attempt u Unit)
                (Laid .lineStart 0) fun _ _ _ => False := .expected fun ks hl => hl.head_ne_invalid
            refine Reads.andThen (Attempt.Reads.of hnone ?_) fun _ v hv => ?_
            · rintro ks ⟨ts, -, -, -, hl⟩
              exact hl
            · refine .unreached List.suffix_rfl ?_
              rintro ks ⟨ts, -, a, -, hf⟩
              exact hf
termination_by s.rest.length
decreasing_by all_goals omega

theorem typeAlias_reads (start : Span) (s : State) :
    (typeAlias start s).Reads (Laid .inLine 0) (ItemReadAs .item .kwType) := by
  rw [typeAlias]
  have hparts : Attempt.Reads ((identifier s).bind fun name t _ =>
      (expect t .assign).bind fun _ u _ =>
        (typeName u).bind fun target v _ => Attempt.ok v (name, target)) (Laid .inLine 0)
      fun _ ts ks => ts = [.ident, .assign, .ident] ∧ Laid .inLine 0 ks := by
    refine (identifier_reads s).bind fun name t h => ((expect_reads (q := .inLine) (d := 0) t
      rfl).of ?_).bind fun sign u hu => ((typeName_reads (q := .inLine) (d := 0) u).of ?_).bind
        fun type v hv => .ok ?_
    · rintro ks ⟨ts, -, -, hl⟩
      exact hl
    · rintro ks ⟨ts, -, -, hl⟩
      exact hl
    · rintro ks - ts - ⟨rfl, hl⟩ us - ⟨rfl, -⟩ vs - ⟨rfl, -⟩
      exact ⟨rfl, hl⟩
  refine Reads.andThen hparts fun parts t h => ?_
  split
  · exact .afterFailure List.suffix_rfl
  · rename_i name target
    refine ((lineEnd_reads t 0).of ?_).andThen fun ended u hu => .build ?_
    · rintro ks ⟨ts, -, a, ha, -, hl⟩
      exact hl
    · rintro n ks - ns - ⟨rfl, rfl, hl⟩ ts - ⟨a, -, rfl, -⟩
      exact ⟨.typeItem, rfl, hl⟩

theorem item_reads (s : State) (step : Step s) (hs : s.step? = some step)
    (heof : step.token.kind ≠ .eof) (hdedent : step.token.kind ≠ .dedent) :
    (item s step heof hdedent).Reads (fun ks => Laid .lineStart 0 (step.token.kind :: ks))
      (ItemReadAs .item step.token.kind) := by
  rw [item]
  dsimp only
  split
  · rename_i hk
    rw [hk]
    exact (taggedFunction_reads _ _ _).mono (fun ks hl => (laid_cons_of_isInline rfl).mp hl)
      fun i ts ks _ hr => ⟨.functionItem hr.1, hr.2⟩
  · rename_i hk
    rw [hk]
    exact (function_reads _ _ _).mono (fun ks hl => (laid_cons_of_isInline rfl).mp hl)
      fun i ts ks _ hr => ⟨.functionItem hr.1, hr.2⟩
  · rename_i hk
    rw [hk]
    exact (typeAlias_reads _ _).of fun ks hl => (laid_cons_of_isInline rfl).mp hl
  · refine .found List.suffix_rfl ?_ fun _ => ?_
    · rw [(State.step?_eq_some hs).2.1]
      exact List.suffix_cons _ _
    · rw [(State.step?_eq_some hs).2.1]
      exact List.cons_ne_self _ _
  · refine (statement_reads s step hs heof hdedent .lineStart 0).andThen fun stmt t h => .build ?_
    rintro n ks - ts - ⟨hphrase, hw, hl⟩
    exact ⟨by simpa using Phrase.stmtItem hphrase, hw, hl⟩

theorem items_reads (s : State) :
    (items s).Reads (Laid .lineStart 0) fun is ts ks =>
      Phrase .items ts ∧ is.all Item.isWhole = true ∧ ks = [] := by
  rw [items]
  split
  · rename_i hs
    refine ⟨List.suffix_rfl, fun _ _ => ⟨[], rfl, .noItem, rfl, State.step?_eq_none hs⟩⟩
  · rename_i step hs
    have hlen := step.length_lt
    have hkinds := (State.step?_eq_some hs).1
    split
    · rename_i hk
      refine ⟨List.suffix_rfl, fun hl => ?_⟩
      rw [hkinds, hk] at hl
      exact absurd hl.1 (by decide)
    · rename_i heof
      split
      · rename_i hk
        -- No block is open here, so none ends.
        refine .since hs (.unreached (items_reads step.state).1 fun ks hl => ?_)
        rw [hk] at hl
        exact absurd hl.2.1 (by omega)
      · rename_i hdedent
        split
        · rename_i hk
          refine .since hs (.unreached (items_reads step.state).1 fun ks hl => ?_)
          rw [hk] at hl
          exact absurd hl.1 (by decide)
        · refine .since hs ((item_reads s step hs heof hdedent).andThen fun item t h =>
            ((items_reads t).of ?_).andThen fun more u hu => .pure ?_)
          · rintro ks ⟨ts, -, hr⟩
            exact hr.2.2
          · rintro ks - ms - ⟨hm, hwm, rfl⟩ ts - ⟨hphrase, hw, -⟩
            refine ⟨by simpa using Phrase.someItem hphrase hm, ?_, rfl⟩
            rw [List.all_cons, hw, hwm]
            rfl
termination_by s.rest.length
decreasing_by all_goals omega

theorem header_reads (s : State) :
    (header s).Reads (Laid .lineStart 0) fun _ ts ks =>
      (ts = [] ∨ ∃ q, ts = .kwNamespace :: q ++ [.newline] ∧ Phrase .dotted q) ∧
        Laid .lineStart 0 ks := by
  rw [header]
  split
  · exact .pure fun ks hl => ⟨.inl rfl, hl⟩
  · rename_i step ht
    obtain ⟨hs, hk⟩ := State.take?_eq_some ht
    refine .since hs (Reads.andThen ((dottedName_reads step.state 0).of ?_) fun name t h => ?_)
    · intro ks hl
      rw [hk] at hl
      exact (laid_cons_of_isInline rfl).mp hl
    · split
      · exact .afterFailure List.suffix_rfl
      · rename_i name
        refine ((lineEnd_reads t 0).of ?_).andThen fun ended u hu => .pure ?_
        · rintro ks ⟨ts, -, a, ha, -, hl⟩
          exact hl
        · rintro ks - ns - ⟨rfl, rfl, hl⟩ ts - ⟨a, -, hq, -⟩
          exact ⟨.inr ⟨ts, by simp [hk], hq⟩, hl⟩

/-- A program from tokens of the right shape about which nothing is found. -/
theorem program_reads {file : File} {tokens : List Token}
    (hl : Laid .lineStart 0 (tokens.map (·.kind))) (hf : (program file tokens).2 = []) :
    Phrase .file (tokens.map (·.kind)) ∧ (program file tokens).1.isWhole = true := by
  have hread : (fileParts file tokens).Reads (Laid .lineStart 0)
      fun answer ts ks => Phrase .file ts ∧ answer.2.all Item.isWhole = true ∧ ks = [] := by
    refine (header_reads _).andThen fun name s h => ((items_reads s).of ?_).andThen
      fun items t ht => .pure ?_
    · rintro ks ⟨ts, -, -, hl⟩
      exact hl
    · rintro ks - is - ⟨his, hw, rfl⟩ ts - ⟨hts, -⟩
      refine ⟨?_, hw, rfl⟩
      rcases hts with rfl | ⟨q, rfl, hq⟩
      · simpa using Phrase.headless his
      · simpa using Phrase.headed hq his
  rw [program, List.reverse_eq_nil_iff] at hf
  obtain ⟨ts, hts, hphrase, hw, hks⟩ := hread.2 hl hf
  rw [hks, List.append_nil] at hts
  rw [← hts] at hphrase
  exact ⟨hphrase, hw⟩

end Craftlang.Parse
