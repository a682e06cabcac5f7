import Craftlang.Proofs.Tree.Frames
import Craftlang.Proofs.Syntax.Blocks
import Craftlang.Proofs.Syntax.Tiling

/-!
# Where what is parsed stands

The tokens that remain stand in a row behind the last one that was taken. So what a parser reads stands
between the last token before and the last token that it took, and what two parsers read one after the
other stands in a row. A faulty expression leaves nothing in the tree; what is reported about it is shown
at the next token, right behind the last one, or at what was read.
-/

namespace Craftlang.Parse

/-- From `s` to `t` tokens are taken, and the last span is theirs. -/
def State.Takes (s t : State) : Prop :=
  ∃ ts, s.rest = ts ++ t.rest ∧ t.lastSpan = ts.foldl State.spanAfter s.lastSpan

namespace State.Takes

variable {s t u : State}

theorem of_eq (hrest : t.rest = s.rest) (hlast : t.lastSpan = s.lastSpan) : s.Takes t :=
  ⟨[], hrest.symm, hlast⟩

theorem trans (h : s.Takes t) (h' : t.Takes u) : s.Takes u := by
  obtain ⟨ts, hts, hlast⟩ := h
  obtain ⟨us, hus, hlast'⟩ := h'
  exact ⟨ts ++ us, by rw [hts, hus, List.append_assoc], by rw [hlast', hlast, List.foldl_append]⟩

theorem step {step : Step s} (h : s.step? = some step) : s.Takes step.state := by
  refine ⟨[step.token], step.cons, ?_⟩
  rw [State.step?] at h
  split at h
  · cases h
  · cases h
    rfl

/-- What takes a token goes on behind it. -/
theorem behind {step : Step s} (hs : s.step? = some step) (h : s.Takes t)
    (hsuffix : t.rest <:+ step.state.rest) : step.state.Takes t := by
  obtain ⟨ts, hts, hlast⟩ := h
  cases ts with
  | nil =>
    have hlen := step.length_lt
    rw [hts] at hlen
    exact absurd hsuffix.length_le (Nat.not_le.mpr hlen)
  | cons x xs =>
    obtain ⟨ts, hstep, hlast'⟩ := Takes.step hs
    have hx : x = step.token ∧ xs ++ t.rest = step.state.rest := by
      rw [step.cons, List.cons_append] at hts
      obtain ⟨hx, hrest⟩ := List.cons.inj hts
      exact ⟨hx.symm, hrest.symm⟩
    refine ⟨xs, hx.2.symm, ?_⟩
    rw [hlast, List.foldl_cons, hx.1]
    rw [State.step?] at hs
    split at hs
    · cases hs
    · cases hs
      rfl

end State.Takes

theorem skipBlock_takes (depth : Nat) (last : Span) (ts : List Token) : ∃ us,
    ts = us ++ (skipBlock depth last ts).2 ∧ (skipBlock depth last ts).1 = us.foldl State.spanAfter last := by
  induction ts generalizing depth last with
  | nil => exact ⟨[], rfl, rfl⟩
  | cons t ts ih =>
    have hnext : ∀ depth, ∃ us, t :: ts = us ++ (skipBlock depth (State.spanAfter last t) ts).2 ∧
        (skipBlock depth (State.spanAfter last t) ts).1 = us.foldl State.spanAfter last := by
      intro depth
      obtain ⟨us, hus, hlast⟩ := ih depth (State.spanAfter last t)
      exact ⟨t :: us, congrArg (t :: ·) hus, hlast⟩
    simp only [skipBlock]
    split
    · exact ⟨[t], rfl, rfl⟩
    · exact hnext _
    · exact ⟨[t], rfl, rfl⟩
    · exact hnext _
    · exact hnext _

/-- The span of a token of a line is the last one once it is taken. -/
theorem State.spanAfter_of_isContent {last : Span} {t : Token} (hk : t.kind.isContent = true) :
    State.spanAfter last t = t.span := by
  rw [Kind.isContent, Bool.and_eq_true, Bool.not_eq_true', bne_iff_ne] at hk
  rw [spanAfter, hk.1, Bool.false_or, if_neg (by rw [beq_iff_eq]; exact hk.2)]

theorem Kind.isContent_of_ne {k : Kind} (heof : k ≠ .eof) (hdedent : k ≠ .dedent) (hnewline : k ≠ .newline)
    (hindent : k ≠ .indent) : k.isContent = true := by
  cases k <;> first | rfl | contradiction

theorem skipLine_takes (last : Span) (ts : List Token) : ∃ us,
    ts = us ++ (skipLine last ts).2 ∧ (skipLine last ts).1 = us.foldl State.spanAfter last := by
  have hlayout : ∀ (last : Span) {t : Token}, t.kind.isLayout = true → State.spanAfter last t = last := by
    intro last t hk
    rw [State.spanAfter, hk, Bool.true_or, if_pos rfl]
  fun_induction skipLine last ts with
  | case1 | case2 | case3 => exact ⟨[], rfl, rfl⟩
  | case4 last t hk u below hu =>
    obtain ⟨us, hus, hlast⟩ := skipBlock_takes 0 last below
    refine ⟨t :: u :: us, by rw [List.cons_append, List.cons_append, ← hus], ?_⟩
    rw [hlast, List.foldl_cons, List.foldl_cons, hlayout last (by rw [hk]; rfl),
      hlayout last (by rw [hu]; rfl)]
  | case5 last t hk | case6 last t hk =>
    exact ⟨[t], rfl, by rw [List.foldl_cons, hlayout last (by rw [hk]; rfl)]; rfl⟩
  | case7 last t rest hk ih =>
    obtain ⟨us, hus, hlast⟩ := skipBlock_takes 0 last rest
    obtain ⟨us', hus', hlast'⟩ := ih
    refine ⟨t :: us ++ us', by rw [List.append_assoc, ← hus', List.cons_append, ← hus], ?_⟩
    rw [hlast', hlast, List.foldl_append, List.foldl_cons, hlayout last (by rw [hk]; rfl)]
  | case8 last t rest heof hdedent hnewline hindent ih =>
    obtain ⟨us, hus, hlast⟩ := ih
    refine ⟨t :: us, by rw [List.cons_append, ← hus], ?_⟩
    rw [hlast, List.foldl_cons, State.spanAfter_of_isContent
      (Kind.isContent_of_ne heof hdedent hnewline hindent)]

/-- All tokens that remain start at a place or behind it. -/
def State.Ahead (a : Nat) (s : State) : Prop := ∀ t ∈ s.rest, a ≤ t.span.start

/-- The tokens that remain are tokens of a file that stand in their order behind the last one. -/
structure State.Stands (f : File) (s : State) : Prop where
  bears : ∀ t ∈ s.rest, f.Bears t
  ordered : s.rest.Pairwise fun t u => t.span.stop ≤ u.span.start
  nested : ∃ q d, Nested q d s.kinds
  file : s.lastSpan.file = f.id
  le : s.lastSpan.start ≤ s.lastSpan.stop
  inside : s.lastSpan.stop ≤ f.size
  ahead : s.Ahead s.lastSpan.stop

namespace State.Stands

variable {f : File} {s t : State} {a : Nat}

theorem of_eq (h : s.Stands f) (hrest : t.rest = s.rest) (hlast : t.lastSpan = s.lastSpan) : t.Stands f := by
  obtain ⟨hbears, hordered, hnested, hfile, hle, hinside, hahead⟩ := h
  rw [kinds, ← hrest] at hnested
  rw [← hrest] at hbears hordered
  rw [Ahead, ← hrest] at hahead
  rw [← hlast] at hfile hle hinside hahead
  exact ⟨hbears, hordered, hnested, hfile, hle, hinside, hahead⟩

/-- Taking a token leads on. -/
theorem after (h : s.Stands f) {x : Token} {rest : List Token} (hs : s.rest = x :: rest) :
    (s.after x rest).Stands f ∧ s.lastSpan.start ≤ (s.after x rest).lastSpan.start ∧
      s.lastSpan.stop ≤ (s.after x rest).lastSpan.stop := by
  obtain ⟨hbears, hordered, ⟨q, d, hnested⟩, hfile, hle, hinside, hahead⟩ := h
  rw [hs] at hbears hordered
  rw [Ahead, hs] at hahead
  rw [kinds, hs, List.map_cons, ← List.singleton_append] at hnested
  obtain ⟨q', d', hnested, -⟩ := hnested.of_append
  have hx := hbears x List.mem_cons_self
  have hstart := hahead x List.mem_cons_self
  have hxle := hx.text.ordered
  obtain ⟨hfollow, hordered⟩ := List.pairwise_cons.mp hordered
  have hrest : ∀ y ∈ rest, f.Bears y := fun y hy => hbears y (List.mem_cons_of_mem x hy)
  simp only [State.after, spanAfter]
  split
  · exact ⟨⟨hrest, hordered, ⟨q', d', hnested⟩, hfile, hle, hinside,
      fun y hy => hahead y (List.mem_cons_of_mem x hy)⟩, Nat.le_refl _, Nat.le_refl _⟩
  · exact ⟨⟨hrest, hordered, ⟨q', d', hnested⟩, hx.text.file, hxle, hx.text.inside, hfollow⟩, by omega, by omega⟩

theorem takes (h : s.Stands f) (hp : s.Takes t) : t.Stands f ∧
    s.lastSpan.start ≤ t.lastSpan.start ∧ s.lastSpan.stop ≤ t.lastSpan.stop := by
  obtain ⟨ts, hts, hlast⟩ := hp
  induction ts generalizing s with
  | nil =>
    refine ⟨h.of_eq hts.symm hlast, ?_⟩
    rw [hlast]
    exact ⟨Nat.le_refl _, Nat.le_refl _⟩
  | cons x xs ih =>
    obtain ⟨hafter, hstart, hstop⟩ := h.after hts
    obtain ⟨hstands, hstart', hstop'⟩ := ih hafter rfl hlast
    exact ⟨hstands, Nat.le_trans hstart hstart', Nat.le_trans hstop hstop'⟩

theorem step (h : s.Stands f) {step : Step s} (hs : s.step? = some step) : step.state.Stands f :=
  (h.takes (.step hs)).1

/-- A token of a line is the last one once it is taken. -/
theorem lastSpan_step {step : Step s} (hs : s.step? = some step) (hk : step.token.kind.isContent = true) :
    step.state.lastSpan = step.token.span := by
  rw [State.step?] at hs
  split at hs
  · cases hs
  · cases hs
    exact spanAfter_of_isContent hk

/-- It stands where tokens remained. -/
theorem row_step (h : s.Stands f) (ha : s.Ahead a) {step : Step s} (hs : s.step? = some step)
    (hk : step.token.kind.isContent = true) : Span.Row f a step.state.lastSpan.stop [step.token.span] := by
  have hmem : step.token ∈ s.rest := by
    rw [step.cons]
    exact List.mem_cons_self
  have hbears := h.bears _ hmem
  rw [lastSpan_step hs hk]
  exact ⟨hbears.text.file, ha _ hmem, hbears.nonempty (.inr hk), Nat.le_refl _⟩

end State.Stands

/-- What was found is shown in a file. -/
def State.Reported (f : File) (s : State) : Prop := ∀ d ∈ s.findings, f.Shows d.span

/-- From `s` to `t` tokens are taken, and what is found on the way is shown in the file they stand in. -/
structure State.Passes (s t : State) : Prop where
  takes : s.Takes t
  reported : ∀ f, s.Stands f → s.Reported f → t.Reported f

namespace State

variable {f : File} {s t u : State}

theorem Stands.passes (h : s.Stands f) (hp : s.Passes t) : t.Stands f ∧
    s.lastSpan.start ≤ t.lastSpan.start ∧ s.lastSpan.stop ≤ t.lastSpan.stop := h.takes hp.takes

theorem Stands.shows_lastSpan (h : s.Stands f) : f.Shows s.lastSpan := ⟨h.file, h.le, h.inside⟩

theorem Stands.shows_of_mem (h : s.Stands f) {t : Token} (ht : t ∈ s.rest) : f.Shows t.span :=
  ⟨(h.bears t ht).text.file, (h.bears t ht).text.ordered, (h.bears t ht).text.inside⟩

theorem Stands.shows_step (h : s.Stands f) (step : Step s) : f.Shows step.token.span :=
  h.shows_of_mem (by rw [step.cons]; exact List.mem_cons_self)

/-- What stands in a file before the last token stands in every file that the tokens stand in. -/
theorem Stands.shows_of_row {g : File} {lo : Nat} {x : Span} (h : s.Stands f)
    (hrow : Span.Row f lo s.lastSpan.stop [x]) (hg : s.Stands g) : g.Shows x :=
  ⟨hrow.1.trans (h.file.symm.trans hg.file), Nat.le_of_lt hrow.2.2.1, Nat.le_trans hrow.2.2.2 hg.inside⟩

/-- A problem is shown at the next token, or right behind the last one. -/
theorem Stands.shows_problemSpan (h : s.Stands f) : f.Shows s.problemSpan := by
  rw [problemSpan]
  split
  · exact h.shows_lastSpan.endPoint
  · rename_i t ts hs
    split
    · exact h.shows_lastSpan.endPoint
    · exact h.shows_of_mem (by rw [hs]; exact List.mem_cons_self)

theorem Reported.report (h : s.Reported f) (p : Problem) {x : Span} (hx : f.Shows x) :
    (s.report p x).Reported f := by
  intro d hd
  rcases List.mem_cons.mp hd with rfl | hd
  · exact hx
  · exact h d hd

theorem Stands.reportExpected (hs : s.Stands f) (h : s.Reported f) (what : Expectation) :
    (s.reportExpected what).Reported f := by
  unfold State.reportExpected
  split
  · exact h
  · exact h.report _ hs.shows_problemSpan

namespace Passes

theorem of_eq (hrest : t.rest = s.rest) (hlast : t.lastSpan = s.lastSpan) (hfound : t.findings = s.findings) :
    s.Passes t :=
  ⟨.of_eq hrest hlast, fun f _ h => by rw [Reported, hfound]; exact h⟩

theorem refl (s : State) : s.Passes s := of_eq rfl rfl rfl

theorem trans (h : s.Passes t) (h' : t.Passes u) : s.Passes u :=
  ⟨h.takes.trans h'.takes, fun f hs hr => h'.reported f (hs.passes h).1 (h.reported f hs hr)⟩

theorem findings_step {step : Step s} (h : s.step? = some step) : step.state.findings = s.findings := by
  rw [State.step?] at h
  split at h
  · cases h
  · cases h
    rfl

theorem step {step : Step s} (h : s.step? = some step) : s.Passes step.state :=
  ⟨.step h, fun f _ hr => by rw [Reported, findings_step h]; exact hr⟩

theorem reportExpected (s : State) (what : Expectation) : s.Passes (s.reportExpected what) := by
  refine ⟨?_, fun f hs h => hs.reportExpected h what⟩
  unfold State.reportExpected
  split <;> exact .of_eq rfl rfl

end Passes

end State

/-- The parser passes tokens, and its value is good for the place of the last one. -/
def Parsed.Lays {s : State} {α : Type} (p : Parsed s α) (g : α → Nat → Prop) : Prop :=
  s.Passes p.state ∧ g p.value p.state.lastSpan.stop

/-- The same for a parser that may fail: its value is good if there is one. -/
def Attempt.Lays {s : State} {α : Type} (p : Attempt s α) (g : α → Nat → Prop) : Prop :=
  Parsed.Lays p fun v hi => ∀ a, v = some a → g a hi

namespace Parsed.Lays

variable {s : State} {α β : Type} {p : Parsed s α} {g : α → Nat → Prop} {g' : β → Nat → Prop}

theorem pure {v : α} (h : g v s.lastSpan.stop) : (Parsed.pure s v).Lays g := ⟨.refl s, h⟩

theorem build [IsNode α] {span : Span} {make : Node → α} (h : ∀ id, g (make ⟨id, span⟩) s.lastSpan.stop) :
    (Parsed.build s span make).Lays g := ⟨.of_eq rfl rfl rfl, h _⟩

theorem andThen {next : α → (t : State) → t.rest.length ≤ s.rest.length → Parsed t β} (hp : p.Lays g)
    (hn : ∀ v t h, s.Passes t → g v t.lastSpan.stop → (next v t h).Lays g') :
    (p.andThen next).Lays g' := by
  have hnext := hn p.value p.state p.within.length_le hp.1 hp.2
  exact ⟨hp.1.trans hnext.1, hnext.2⟩

theorem since {step : Step s} (hs : s.step? = some step) {p : Parsed step.state α} (hp : p.Lays g) :
    (p.since step.suffix).Lays g := ⟨(State.Passes.step hs).trans hp.1, hp.2⟩

theorem sinceTake {k : Kind} {step : Step s} (ht : s.take? k = some step) {p : Parsed step.state α}
    (hp : p.Lays g) : (p.since step.suffix).Lays g := since (State.take?_eq_some ht).1 hp

end Parsed.Lays

namespace Attempt.Lays

variable {s : State} {α β : Type} {p : Attempt s α} {g : α → Nat → Prop} {g' : β → Nat → Prop}

theorem ok {v : α} (h : g v s.lastSpan.stop) : (Attempt.ok s v).Lays g :=
  ⟨.refl s, fun _ heq => Option.some.inj heq ▸ h⟩

theorem expected {what : Expectation} : (Attempt.expected s what : Attempt s α).Lays g :=
  ⟨.reportExpected s what, fun _ heq => by cases heq⟩

theorem bind {next : α → (t : State) → t.rest.length ≤ s.rest.length → Attempt t β} (hp : p.Lays g)
    (hn : ∀ v t h, s.Passes t → g v t.lastSpan.stop → (next v t h).Lays g') : (p.bind next).Lays g' := by
  rw [Lays, Attempt.Reads.bind_eq]
  refine Parsed.Lays.andThen hp fun v t h ht hgood => ?_
  cases v with
  | none => exact ⟨.refl t, fun _ heq => by cases heq⟩
  | some v => exact hn v t h ht (hgood v rfl)

theorem sinceTake {k : Kind} {step : Step s} (ht : s.take? k = some step) {p : Attempt step.state α}
    (hp : p.Lays g) : Lays (p.since step.suffix) g := Parsed.Lays.sinceTake ht hp

end Attempt.Lays

section Expressions

variable {f : File} {s : State} {a : Nat}

/-- A token of a kind that is taken stands in the row. -/
theorem State.Stands.row_take (hs : s.Stands f) (ha : s.Ahead a) {k : Kind} {step : Step s}
    (ht : s.take? k = some step) (hk : k.isContent = true) :
    Span.Row f a step.state.lastSpan.stop [step.token.span] := by
  obtain ⟨hstep, rfl⟩ := State.take?_eq_some ht
  exact hs.row_step ha hstep hk

theorem State.Stands.take (hs : s.Stands f) {k : Kind} {step : Step s} (ht : s.take? k = some step) :
    step.state.Stands f := hs.step (State.take?_eq_some ht).1

theorem expect_lays (hs : s.Stands f) (ha : s.Ahead a) {k : Kind} (hk : k.isContent = true) :
    (expect s k).Lays fun t hi => Span.Row f a hi [t.span] := by
  rw [expect]
  split
  · exact .sinceTake ‹_› (.ok (hs.row_take ha ‹_› hk))
  · exact .expected

theorem identifier_lays (hs : s.Stands f) (ha : s.Ahead a) :
    (identifier s).Lays fun n hi => Span.Row f a hi [n.span] := by
  rw [identifier]
  split
  · exact .sinceTake ‹_› (.ok (hs.row_take ha ‹_› rfl))
  · exact .expected

theorem typeName_lays (hs : s.Stands f) (ha : s.Ahead a) :
    (typeName s).Lays fun n hi => Span.Row f a hi [n.span] := by
  rw [typeName]
  split
  · exact .sinceTake ‹_› (.ok (hs.row_take ha ‹_› rfl))
  · exact .expected

/-- An expression stands in the row, with all below it. -/
def Lies (f : File) (a : Nat) (e : Expr) (hi : Nat) : Prop := Framed f a hi [e.span] e.frames

/-- What a function reads stands in the row. -/
def ExprPart.Lays {α : Type} (p : ExprPart α) (f : File) (a : Nat) (e : α) (hi : Nat) : Prop :=
  match p, e with
  | .arguments, (args, close) | .argumentList, (args, close) =>
    Framed f a hi (args.map Expr.span ++ [close]) (Expr.framesOf args)
  | .expression, e | .operand _, e | .tail _ _, e | .unary, e | .postfixed, e | .calls _, e | .primary, e =>
    Lies f a e hi

/-- So does what was read before it is called. -/
def ExprPart.Starts {α : Type} (p : ExprPart α) (f : File) (a : Nat) (s : State) : Prop :=
  match p with
  | .tail _ left | .calls left => Lies f a left s.lastSpan.stop
  | .expression | .operand _ | .unary | .postfixed | .arguments | .argumentList | .primary => s.Ahead a

theorem State.Stands.moves {s t : State} {ts : List Token} (hs : s.Stands f) (h : s.Moves ts t) : t.Stands f :=
  (hs.takes ⟨ts, h.rest, h.lastSpan⟩).1

theorem ExprRun.lays {α : Type} {p : ExprPart α} {s t : State} {ts : List Token} {e : α}
    (h : ExprRun p s ts e t) {a : Nat} (hs : s.Stands f) (ha : p.Starts f a s) :
    p.Lays f a e t.lastSpan.stop := by
  induction h generalizing a with
  | assignment hleft hstep hop hvalue he ihleft ihvalue =>
    have hl := ihleft hs ha
    have ht := hs.moves hleft.moves
    have hrow := ht.row_step ht.ahead hstep (Kind.isContent_of_isInline (isInline_of_assign hop))
    have hsign := ht.step hstep
    subst he
    exact Framed.node (hl.append (.append (.of_row hrow) (ihvalue hsign hsign.ahead))) rfl rfl
      (List.Sublist.refl _) (hsign.moves hvalue.moves).inside
  | operation _ _ ih | plain _ _ ih | someArguments _ _ ih => exact ih hs ha
  | operand hfirst _ ihfirst ihtail | postfixed hfirst _ ihfirst ihtail =>
    exact ihtail (hs.moves hfirst.moves) (ihfirst hs ha)
  | yielding | uncalled => exact ha
  | joined hstep hop _ hright hj _ ihright ihtail =>
    have hrow := hs.row_step hs.ahead hstep (Kind.isContent_of_isInline (isInline_of_binary hop))
    have hsign := hs.step hstep
    have ht := hsign.moves hright.moves
    subst hj
    refine ihtail (ht.of_eq rfl rfl) ?_
    exact Framed.node (Framed.append ha (.append (.of_row hrow) (ihright hsign hsign.ahead))) rfl rfl
      (List.Sublist.refl _) ht.inside
  | prefixed hstep hop hinner he ih =>
    have hrow := hs.row_step ha hstep (Kind.isContent_of_isInline (isInline_of_unary hop))
    have hsign := hs.step hstep
    subst he
    exact Framed.node (.append (.of_row hrow) (ih hsign hsign.ahead)) rfl rfl (List.sublist_cons_self _ _)
      (hsign.moves hinner.moves).inside
  | called hstep hk hargs hc _ ihargs ihcalls =>
    have hrow := hs.row_step hs.ahead hstep (by rw [hk]; rfl)
    have hopen := hs.step hstep
    have ht := hopen.moves hargs.moves
    have hlist := ihargs hopen hopen.ahead
    subst hc
    refine ihcalls (ht.of_eq rfl rfl) ?_
    refine Framed.node (Framed.append ha (hlist.mono hrow.le (Nat.le_refl _))) rfl ?_ ?_ ht.inside
    · rw [← List.append_assoc, List.getLast?_concat]
    · exact (List.sublist_append_left _ _).cons_cons _
  | noArgument hstep hk => exact .of_row (hs.row_step ha hstep (by rw [hk]; rfl))
  | moreArguments harg hstep hk _ iharg ihargs =>
    have ht := hs.moves harg.moves
    have hrow := ht.row_step ht.ahead hstep (by rw [hk]; rfl)
    have hcomma := ht.step hstep
    exact (iharg hs ha).append ((ihargs hcomma hcomma.ahead).mono hrow.le (Nat.le_refl _))
  | lastArgument harg hstep hk iharg =>
    have ht := hs.moves harg.moves
    exact (iharg hs ha).append (.of_row (ht.row_step ht.ahead hstep (by rw [hk]; rfl)))
  | constant hstep hvalue he =>
    have hk := Kind.isContent_of_isInline (isInline_of_isLiteral (isLiteral_of_constant hvalue))
    subst he
    exact .leaf (hs.row_step ha hstep hk) (hs.step hstep).inside
  | name hstep hk he =>
    subst he
    exact .leaf (hs.row_step ha hstep (by rw [hk]; rfl)) (hs.step hstep).inside
  | group hstep hk hinner hc hk' he ih =>
    have hopening := hs.row_step ha hstep (by rw [hk]; rfl)
    have hopen := hs.step hstep
    have ht := hopen.moves hinner.moves
    have hclosing := ht.row_step ht.ahead hc (by rw [hk']; rfl)
    have hrow := (Framed.of_row hopening).append (Framed.append (ih hopen hopen.ahead) (.of_row hclosing))
    rw [List.append_nil] at hrow
    subst he
    exact hrow.node rfl rfl ((List.sublist_append_left _ _).cons _) (ht.step hc).inside

/-- A failure is shown in the file: where a token is missed, or at what was read for a target. -/
theorem State.Stops.shows {s w t : State} (h : s.Stops w t) (hs : s.Stands f) (hw : w.Stands f)
    (hr : w.Reported f) : t.Reported f := by
  cases h with
  | expected what => exact hw.reportExpected hr what
  | target hmoves hleft =>
    have hr' := hs.moves hmoves
    exact hr.report _ (hw.shows_of_row (hleft.lays hr' hr'.ahead).row hw)

theorem expression_passes (s : State) : s.Passes (expression s).state := by
  obtain ⟨e, ts, -, hrun⟩ | ⟨-, ts, hfails⟩ := expression_cases s
  · have hmoves := hrun.moves
    exact ⟨⟨ts, hmoves.rest, hmoves.lastSpan⟩, fun f _ hr => by rw [State.Reported, hmoves.findings]; exact hr⟩
  · obtain ⟨w, hmoves, hstops⟩ := hfails.moves
    refine ⟨⟨ts, ?_, ?_⟩, fun f hs hr => hstops.shows hs (hs.moves hmoves) ?_⟩
    · rw [hstops.rest, hmoves.rest]
    · rw [hstops.lastSpan, hmoves.lastSpan]
    · rw [State.Reported, hmoves.findings]
      exact hr

theorem expression_lays {s : State} {a : Nat} (hs : s.Stands f) (ha : s.Ahead a) :
    (expression s).Lays (Lies f a) := by
  refine ⟨expression_passes s, fun e he => ?_⟩
  obtain ⟨e', ts, hvalue, hrun⟩ | ⟨hvalue, -⟩ := expression_cases s
  · rw [hvalue] at he
    cases he
    exact hrun.lays hs ha
  · rw [hvalue] at he
    cases he

/-- The type of a declaration, if there is one. -/
theorem typeMark_lays (hs : s.Stands f) :
    (typeMark s).Lays fun type hi => Span.Row f s.lastSpan.stop hi (Name.spans? type) := by
  rw [typeMark]
  split
  · exact .ok (Nat.le_refl s.lastSpan.stop)
  · rename_i colon hc
    have hcolon := hs.row_take hs.ahead hc rfl
    have hc' := hs.take hc
    exact .sinceTake hc (.bind (typeName_lays hc' hc'.ahead) fun type t _ ht hrow =>
      .ok (hrow.mono hcolon.le (Nat.le_refl _)))

theorem dottedName_lays {s : State} {a : Nat} (hs : s.Stands f) (ha : s.Ahead a) :
    (dottedName s).Lays fun n hi => Span.Row f a hi [n.span] := by
  rw [dottedName]
  refine .bind (identifier_lays hs ha) fun name t _ ht hname => ?_
  have ht := (hs.passes ht).1
  split
  · exact .ok hname
  · rename_i dot hdot
    have hlen := dot.length_lt
    have hrow := ht.row_take ht.ahead hdot rfl
    have hdot' := ht.take hdot
    refine .sinceTake hdot (.bind (dottedName_lays hdot' hdot'.ahead) fun more u _ hu hmore => .ok ?_)
    exact (Span.Row.hull (hname.append (hmore.mono hrow.le (Nat.le_refl _))) rfl rfl).2.1
termination_by s.rest.length
decreasing_by all_goals omega

theorem parameter_lays (hs : s.Stands f) (ha : s.Ahead a) :
    (parameter s).Lays fun p hi => Span.Row f a hi p.spans := by
  refine .bind (identifier_lays hs ha) fun name t _ ht hname => ?_
  have ht := (hs.passes ht).1
  refine .bind (expect_lays ht ht.ahead rfl) fun colon u _ hu hcolon => ?_
  have hu := (ht.passes hu).1
  exact .bind (typeName_lays hu hu.ahead) fun type v _ hv htype =>
    .ok (hname.append (htype.mono hcolon.le (Nat.le_refl _)))

theorem parameterList_lays {s : State} {a : Nat} (hs : s.Stands f) (ha : s.Ahead a) :
    (parameterList s).Lays fun ps hi => Span.Row f a hi (ps.flatMap Param.spans) := by
  rw [parameterList]
  refine .bind (parameter_lays hs ha) fun param t _ ht hparam => ?_
  have ht := (hs.passes ht).1
  split
  · rename_i comma hc
    have hlen := comma.length_lt
    have hcomma := ht.row_take ht.ahead hc rfl
    have hc' := ht.take hc
    exact .sinceTake hc (.bind (parameterList_lays hc' hc'.ahead) fun params u _ hu hparams =>
      .ok (hparam.append (hparams.mono hcomma.le (Nat.le_refl _))))
  · split
    · rename_i close hc
      exact .sinceTake hc (.ok (hparam.mono (Nat.le_refl _) (ht.row_take ht.ahead hc rfl).le))
    · exact .expected
termination_by s.rest.length
decreasing_by all_goals omega

theorem parameters_lays (hs : s.Stands f) :
    (parameters s).Lays fun ps hi => Span.Row f s.lastSpan.stop hi (ps.flatMap Param.spans) := by
  rw [parameters]
  split
  · exact .sinceTake ‹_› (.ok (hs.row_take hs.ahead ‹_› rfl).le)
  · exact parameterList_lays hs hs.ahead

/-- The name, the parameters and the result of a function. -/
theorem signature_lays (hs : s.Stands f) : (signature s).Lays fun (name, params, result) hi =>
    Span.Row f s.lastSpan.stop hi (name.span :: (params.flatMap Param.spans ++ Name.spans? result)) := by
  refine .bind (identifier_lays hs hs.ahead) fun name t _ ht hname => ?_
  have ht := (hs.passes ht).1
  refine .bind (expect_lays ht ht.ahead rfl) fun lParen u _ hu hopen => ?_
  have hu := (ht.passes hu).1
  refine .bind (parameters_lays hu) fun params v _ hv hparams => ?_
  have hv := (hu.passes hv).1
  exact .bind (typeMark_lays hv) fun result w _ hw hresult =>
    .ok (hname.append ((hparams.append hresult).mono hopen.le (Nat.le_refl _)))

end Expressions

end Craftlang.Parse
