import Craftlang.Parse.Program
import Craftlang.Proofs.Syntax.Nesting

/-!
# What a parser reads

A parser that reports nothing has read tokens of some shape from the front of what remained. `Reads`
says which: from what holds of the tokens that remain before, if nothing is reported, to what the
parser answers, the tokens it took and those it leaves. Parsers only add to what was found, so in
a chain of parsers that reports nothing none of them does.
-/

namespace Craftlang.Parse

/-- The kinds of the tokens that remain. -/
def State.kinds (s : State) : List Kind := s.rest.map (·.kind)

theorem State.kind_eq (s : State) : s.kind = s.kinds.head?.getD .eof := by
  rw [kind, kinds, List.head?_map]

@[simp] theorem State.findings_report (s : State) (p : Problem) (span : Span) :
    (s.report p span).findings = ⟨s.rest.length - 1, p, span⟩ :: s.findings := rfl

theorem State.findings_reportExpected (s : State) (what : Expectation) :
    s.findings <:+ (s.reportExpected what).findings := by
  rw [reportExpected]
  split
  · exact List.suffix_rfl
  · exact List.suffix_cons _ _

/-- Something unexpected is reported unless it is no token at all. -/
theorem State.findings_reportExpected_ne {s : State} {what : Expectation} (h : s.kind ≠ .invalid) :
    (s.reportExpected what).findings ≠ s.findings := by
  rw [reportExpected, if_neg (by simpa using h)]
  exact List.cons_ne_self _ _

/-- Taking the next token changes nothing but what remains and where the parser is. -/
theorem State.step?_eq_some {s : State} {step : Step s} (h : s.step? = some step) :
    s.kinds = step.token.kind :: step.state.kinds ∧ step.state.findings = s.findings ∧
      step.state.nextId = s.nextId := by
  have hk : s.kinds = step.token.kind :: step.state.kinds := by
    rw [kinds, step.cons]
    rfl
  rw [step?] at h
  split at h
  · cases h
  · cases h
    exact ⟨hk, rfl, rfl⟩

theorem State.step?_eq_none {s : State} (h : s.step? = none) : s.kinds = [] := by
  rw [step?] at h
  split at h
  · rename_i hr
    rw [kinds, hr]
    rfl
  · cases h

theorem State.take?_eq_some {s : State} {k : Kind} {step : Step s} (h : s.take? k = some step) :
    s.step? = some step ∧ step.token.kind = k := by
  rw [take?] at h
  split at h
  · rename_i step' hs
    split at h
    · cases h
      exact ⟨hs, ‹_›⟩
    · cases h
  · cases h

/-- From tokens with `pre`, a parser that reports nothing answers, takes and leaves by `post`. -/
def Parsed.Reads {s : State} {α : Type} (p : Parsed s α) (pre : List Kind → Prop)
    (post : α → List Kind → List Kind → Prop) : Prop :=
  s.findings <:+ p.state.findings ∧
    (pre s.kinds → p.state.findings = s.findings →
      ∃ ts, s.kinds = ts ++ p.state.kinds ∧ post p.value ts p.state.kinds)

/-- The same for a parser that may fail: if it reports nothing it does not fail. -/
def Attempt.Reads {s : State} {α : Type} (p : Attempt s α) (pre : List Kind → Prop)
    (post : α → List Kind → List Kind → Prop) : Prop :=
  Parsed.Reads p pre fun v ts ks => ∃ a, v = some a ∧ post a ts ks

namespace Parsed.Reads

variable {s : State} {α β : Type} {p : Parsed s α} {pre pre' : List Kind → Prop}
  {post post' : α → List Kind → List Kind → Prop}

theorem mono (h : p.Reads pre post) (hpre : ∀ ks, pre' ks → pre ks)
    (hpost : ∀ a ts ks, pre' (ts ++ ks) → post a ts ks → post' a ts ks) : p.Reads pre' post' := by
  refine ⟨h.1, fun hp hf => ?_⟩
  obtain ⟨ts, hts, hr⟩ := h.2 (hpre _ hp) hf
  exact ⟨ts, hts, hpost _ _ _ (hts ▸ hp) hr⟩

theorem of (h : p.Reads pre post) (hpre : ∀ ks, pre' ks → pre ks) : p.Reads pre' post :=
  h.mono hpre fun _ _ _ _ hr => hr

/-- Of a parser that is never reached without a report only the reports matter. -/
theorem unreached (hg : s.findings <:+ p.state.findings) (hpre : ∀ ks, ¬ pre ks) :
    p.Reads pre post :=
  ⟨hg, fun hp => absurd hp (hpre _)⟩

/-- So it is with what comes after an attempt that failed. -/
theorem afterFailure {γ : Type} {before : List Kind → List Kind → Prop}
    {made : γ → List Kind → List Kind → Prop} (hg : s.findings <:+ p.state.findings) :
    p.Reads (fun ks => ∃ ts, before ts ks ∧ ∃ a, none = some a ∧ made a ts ks) post := by
  refine unreached hg ?_
  rintro ks ⟨ts, -, a, ha, -⟩
  cases ha

theorem pure {a : α} (h : ∀ ks, pre ks → post a [] ks) : (Parsed.pure s a).Reads pre post :=
  ⟨List.suffix_rfl, fun hp _ => ⟨[], rfl, h _ hp⟩⟩

theorem build [IsNode α] {span : Span} {make : Node → α} (h : ∀ n ks, pre ks → post (make n) [] ks) :
    (Parsed.build s span make).Reads pre post :=
  ⟨List.suffix_rfl, fun hp _ => ⟨[], rfl, h _ _ hp⟩⟩

theorem buildSome [IsNode α] {span : Span} {make : Node → α}
    {post : Option α → List Kind → List Kind → Prop}
    (h : ∀ n ks, pre ks → post (some (make n)) [] ks) :
    Parsed.Reads (Attempt.build s span make) pre post :=
  ⟨List.suffix_rfl, fun hp _ => ⟨[], rfl, h _ _ hp⟩⟩

theorem andThen {next : α → (t : State) → t.rest.length ≤ s.rest.length → Parsed t β}
    {last : β → List Kind → List Kind → Prop} (hp : p.Reads pre post)
    (hn : ∀ a t h, (next a t h).Reads (fun ks => ∃ ts, pre (ts ++ ks) ∧ post a ts ks)
      fun b ts ks => ∀ ts₁, pre (ts₁ ++ (ts ++ ks)) → post a ts₁ (ts ++ ks) → last b (ts₁ ++ ts) ks) :
    (p.andThen next).Reads pre last := by
  have hn' := hn p.value p.state p.within.length_le
  refine ⟨hp.1.trans hn'.1, fun hpre hf => ?_⟩
  have hmid : p.state.findings = s.findings := by
    refine (hp.1.eq_of_length_le ?_).symm
    rw [← hf]
    exact hn'.1.length_le
  obtain ⟨ts₁, hts₁, hpost⟩ := hp.2 hpre hmid
  obtain ⟨ts₂, hts₂, hlast⟩ := hn'.2 ⟨ts₁, hts₁ ▸ hpre, hpost⟩ (hf.trans hmid.symm)
  refine ⟨ts₁ ++ ts₂, ?_, hlast ts₁ ?_ ?_⟩
  · rw [hts₁, hts₂, List.append_assoc]
    rfl
  · rw [hts₁, hts₂] at hpre
    exact hpre
  · rw [hts₂] at hpost
    exact hpost

/-- Making a node takes no token. -/
theorem buildThen [IsNode α] {span : Span} {make : Node → α}
    {next : α → (t : State) → t.rest.length ≤ s.rest.length → Parsed t β}
    {last : β → List Kind → List Kind → Prop} (hn : ∀ n t h, (next (make n) t h).Reads pre last) :
    ((Parsed.build s span make).andThen next).Reads pre last :=
  hn ⟨s.nextId, span⟩ (s.making _) (Nat.le_refl _)

/-- A parser that goes on after the next token. -/
theorem since {step : Step s} (hs : s.step? = some step) {p : Parsed step.state α}
    (h : p.Reads (fun ks => pre (step.token.kind :: ks))
      fun a ts ks => post a (step.token.kind :: ts) ks) :
    (p.since step.suffix).Reads pre post := by
  obtain ⟨hk, hf, -⟩ := State.step?_eq_some hs
  refine ⟨?_, fun hpre hsame => ?_⟩
  · rw [← hf]
    exact h.1
  · rw [hk] at hpre
    obtain ⟨ts, hts, hpost⟩ := h.2 hpre (hsame.trans hf.symm)
    refine ⟨step.token.kind :: ts, ?_, hpost⟩
    rw [hk, hts]
    rfl

end Parsed.Reads

namespace Attempt.Reads

variable {s : State} {α β : Type} {p : Attempt s α} {pre pre' : List Kind → Prop}
  {post post' : α → List Kind → List Kind → Prop}

theorem mono (h : Attempt.Reads p pre post) (hpre : ∀ ks, pre' ks → pre ks)
    (hpost : ∀ a ts ks, pre' (ts ++ ks) → post a ts ks → post' a ts ks) :
    Attempt.Reads p pre' post' :=
  Parsed.Reads.mono h hpre fun _ _ _ hp ⟨a, ha, hr⟩ => ⟨a, ha, hpost _ _ _ hp hr⟩

theorem of (h : Attempt.Reads p pre post) (hpre : ∀ ks, pre' ks → pre ks) :
    Attempt.Reads p pre' post :=
  Parsed.Reads.of h hpre

theorem ok {a : α} (h : ∀ ks, pre ks → post a [] ks) : Attempt.Reads (Attempt.ok s a) pre post :=
  Parsed.Reads.pure fun ks hk => ⟨a, rfl, h ks hk⟩

/-- A failure is reported, unless it comes from something that is no token. -/
theorem expected {what : Expectation} (h : ∀ ks, pre ks → ks.head? ≠ some .invalid) :
    Attempt.Reads (Attempt.expected s what) pre post := by
  refine ⟨s.findings_reportExpected what, fun hp hf => absurd hf ?_⟩
  refine State.findings_reportExpected_ne ?_
  rw [State.kind_eq]
  have hk := h _ hp
  cases hh : s.kinds.head? with
  | none => simp
  | some k =>
    rw [hh] at hk
    simpa using hk

/-- A chain of attempts goes on only after success. -/
theorem bind_eq (p : Attempt s α)
    (next : α → (t : State) → t.rest.length ≤ s.rest.length → Attempt t β) :
    p.bind next = Parsed.andThen p fun v t h =>
      match v with
      | none => ⟨none, t, List.suffix_rfl⟩
      | some a => next a t h := by
  unfold Attempt.bind Parsed.andThen Parsed.since
  split <;> simp_all

theorem bind {next : α → (t : State) → t.rest.length ≤ s.rest.length → Attempt t β}
    {last : β → List Kind → List Kind → Prop} (hp : Attempt.Reads p pre post)
    (hn : ∀ a t h, Attempt.Reads (next a t h) (fun ks => ∃ ts, pre (ts ++ ks) ∧ post a ts ks)
      fun b ts ks => ∀ ts₁, pre (ts₁ ++ (ts ++ ks)) → post a ts₁ (ts ++ ks) → last b (ts₁ ++ ts) ks) :
    Attempt.Reads (p.bind next) pre last := by
  rw [bind_eq]
  refine Parsed.Reads.andThen hp fun v t h => ?_
  cases v with
  | none =>
    exact Parsed.Reads.afterFailure List.suffix_rfl
  | some a =>
    refine Parsed.Reads.mono (hn a t h) ?_ ?_
    · rintro ks ⟨ts, hpre, a', ha, hpost⟩
      cases ha
      exact ⟨ts, hpre, hpost⟩
    · rintro b ts ks - ⟨c, rfl, hlast⟩ ts₁ hpre ⟨a', ha, hpost⟩
      cases ha
      exact ⟨c, rfl, hlast ts₁ hpre hpost⟩

theorem since {step : Step s} (hs : s.step? = some step) {p : Attempt step.state α}
    (h : Attempt.Reads p (fun ks => pre (step.token.kind :: ks))
      fun a ts ks => post a (step.token.kind :: ts) ks) :
    Attempt.Reads (p.since step.suffix) pre post :=
  Parsed.Reads.since hs h

end Attempt.Reads

/-- A token of a kind that a line can have. -/
theorem expect_reads {k : Kind} {q : LinePlace} {d : Nat} (s : State) (hk : k.isInline = true) :
    Attempt.Reads (expect s k) (Laid q d) fun _ ts ks => ts = [k] ∧ Laid .inLine d ks := by
  rw [expect]
  split
  · rename_i step ht
    obtain ⟨hs, rfl⟩ := State.take?_eq_some ht
    exact .since hs (.ok fun ks hl => ⟨rfl, (laid_cons_of_isInline hk).mp hl⟩)
  · exact .expected fun ks hl => hl.head_ne_invalid

theorem identifier_reads {q : LinePlace} {d : Nat} (s : State) :
    Attempt.Reads (identifier s) (Laid q d) fun _ ts ks => ts = [.ident] ∧ Laid .inLine d ks := by
  rw [identifier]
  split
  · rename_i step ht
    obtain ⟨hs, hk⟩ := State.take?_eq_some ht
    refine .since hs (.ok fun ks hl => ?_)
    rw [hk] at hl ⊢
    exact ⟨rfl, (laid_cons_of_isInline rfl).mp hl⟩
  · exact .expected fun ks hl => hl.head_ne_invalid

theorem typeName_reads {q : LinePlace} {d : Nat} (s : State) :
    Attempt.Reads (typeName s) (Laid q d) fun _ ts ks => ts = [.ident] ∧ Laid .inLine d ks := by
  rw [typeName]
  split
  · rename_i step ht
    obtain ⟨hs, hk⟩ := State.take?_eq_some ht
    refine .since hs (.ok fun ks hl => ?_)
    rw [hk] at hl ⊢
    exact ⟨rfl, (laid_cons_of_isInline rfl).mp hl⟩
  · exact .expected fun ks hl => hl.head_ne_invalid

end Craftlang.Parse
