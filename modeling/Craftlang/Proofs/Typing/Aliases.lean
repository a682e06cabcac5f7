import Craftlang.Proofs.Typing.Denotation
import Mathlib.Logic.Relation

/-!
# The graph of type aliases

Every alias leads to what its target is bound to, so a chain of aliases is a way in a graph where one edge
at most leaves a symbol. A way ends in a type of the language, or in what is no type, or it enters a cycle.
Following aliases finds out which; what is recorded on the way, and the cycles that are reported, are an
invariant of the checker: aliases are explored along with all that they lead to, and each cycle that is
explored was reported at one of its aliases.
-/

namespace Craftlang

open Relation Resolution

section Graph

variable (p : Program) (q : Resolution)

/-- An alias leads to what its target is bound to. -/
def Program.Leads (x y : Nat) : Prop := (x, y) ∈ p.aliases q

/-- A chain of targets, of any length. -/
abbrev Program.Reaches : Nat → Nat → Prop := ReflTransGen (p.Leads q)

/-- The chain of targets comes back to where it starts. -/
def Program.OnCycle (x : Nat) : Prop := TransGen (p.Leads q) x x

def Program.EntersCycle (x : Nat) : Prop := ∃ z, p.Reaches q x z ∧ p.OnCycle q z

/-- The chain of targets ends in what is no type: a name that is not resolved, or that of something else. -/
def Program.Dangles (x : Nat) : Prop := ∃ y, p.Reaches q x y ∧ ¬ q.HasKind y .type

/-- What a symbol stands for as a type: the type of values at the end of the chain, or no type. -/
def Program.StandsFor (x : Nat) (ty : Ty) : Prop :=
  p.Denotes q x ty ∨ ty = .invalid ∧ ∀ ty', ¬ p.Denotes q x ty'

end Graph

section

variable {p : Program} {q : Resolution} {x y z : Nat} {ty ty' : Ty}

theorem Program.Leads.exists_alias (h : p.Leads q x y) : ∃ a i, Item.typeAlias a ∈ p.items ∧
    q.itemOf? a.node.id = some i ∧ x = i.symbol ∧ y = (q.typeOf? a.target.span).getD 0 := by
  obtain ⟨a, i, ha, hi, he⟩ := Program.mem_aliases.mp h
  cases he
  exact ⟨a, i, ha, hi, rfl, rfl⟩

/-- An alias does not come with the language. -/
theorem Program.Leads.symbol (hq : q.Hoists p) (h : p.Leads q x y) :
    ∃ z, q.table.symbol? x = some z ∧ z.kind = .type ∧ z.flags.builtin = false := by
  obtain ⟨a, i, ha, hi, rfl, -⟩ := h.exists_alias
  exact hq.alias_symbol ha hi

theorem Program.Leads.unique (hq : q.Hoists p) (hids : p.ids.Nodup) (h : p.Leads q x y)
    (h' : p.Leads q x z) : y = z := by
  obtain ⟨a, i, ha, hi, rfl, rfl⟩ := h.exists_alias
  obtain ⟨b, j, hb, hj, hs, rfl⟩ := h'.exists_alias
  rw [hq.alias_eq hids ha hb hi hj hs]

/-- What is a type of the program leads somewhere. -/
theorem Resolution.TellsApart.exists_leads (hq : q.TellsApart p) {s : Symbol}
    (hs : q.table.symbol? x = some s) (hk : s.kind = .type) (hb : s.flags.builtin = false) :
    ∃ y, p.Leads q x y := by
  obtain ⟨a, i, ha, hi, rfl⟩ := hq.aliased x s hs hk hb
  exact ⟨_, Program.mem_aliases.mpr ⟨a, i, ha, hi, rfl⟩⟩

theorem Program.denotes_iff_of_leads (hq : q.Hoists p) (hids : p.ids.Nodup) (h : p.Leads q x y) :
    p.Denotes q x ty ↔ p.Denotes q y ty := by
  constructor
  · intro hd
    cases hd with
    | builtin hz _ hb _ =>
      obtain ⟨s, hs, -, hb'⟩ := h.symbol hq
      rw [hz] at hs
      cases hs
      exact absurd (hb.symm.trans hb') (by decide)
    | synonym ha hi hy hd =>
      have hleads : p.Leads q _ _ := Program.mem_aliases.mpr ⟨_, _, ha, hi, rfl⟩
      rw [hy] at hleads
      exact h.unique hq hids hleads ▸ hd
  · intro hd
    obtain ⟨a, i, ha, hi, rfl, rfl⟩ := h.exists_alias
    cases hy : q.typeOf? a.target.span with
    | none =>
      rw [hy] at hd
      obtain ⟨z, hz, -⟩ := hd.hasKind hq
      cases hz
    | some y =>
      rw [hy] at hd
      exact .synonym ha hi hy hd

theorem Program.denotes_iff_of_reaches (hq : q.Hoists p) (hids : p.ids.Nodup) (h : p.Reaches q x y) :
    p.Denotes q x ty ↔ p.Denotes q y ty := by
  induction h with
  | refl => rfl
  | tail _ hlast ih => exact ih.trans (Program.denotes_iff_of_leads hq hids hlast)

theorem Program.standsFor_iff_of_reaches (hq : q.Hoists p) (hids : p.ids.Nodup)
    (h : p.Reaches q x y) : p.StandsFor q x ty ↔ p.StandsFor q y ty := by
  simp only [Program.StandsFor, Program.denotes_iff_of_reaches hq hids h]

theorem Program.StandsFor.unique (hq : q.Hoists p) (hids : p.ids.Nodup) (h : p.StandsFor q x ty)
    (h' : p.StandsFor q x ty') : ty = ty' := by
  rcases h with h | ⟨rfl, h⟩
  · rcases h' with h' | ⟨rfl, h'⟩
    · exact h.unique hq hids h'
    · exact absurd h (h' ty)
  · rcases h' with h' | ⟨rfl, -⟩
    · exact absurd h' (h ty')
    · rfl

/-- From a cycle nothing leads away. -/
theorem Program.OnCycle.of_reaches (hq : q.Hoists p) (hids : p.ids.Nodup) (h : p.OnCycle q x)
    (hxy : p.Reaches q x y) : p.OnCycle q y ∧ p.Reaches q y x := by
  induction hxy with
  | refl => exact ⟨h, .refl⟩
  | tail _ hlast ih =>
    obtain ⟨hcycle, hback⟩ := ih
    obtain ⟨y', hfirst, hrest⟩ := TransGen.head'_iff.mp hcycle
    rw [hfirst.unique hq hids hlast] at hrest
    exact ⟨.tail' hrest hlast, hrest.trans hback⟩

theorem Program.OnCycle.exists_leads (h : p.OnCycle q x) : ∃ y, p.Leads q x y := by
  obtain ⟨y, hy, -⟩ := TransGen.head'_iff.mp h
  exact ⟨y, hy⟩

/-- A cycle stands for no type. -/
theorem Program.OnCycle.not_denotes (hq : q.Hoists p) (hids : p.ids.Nodup) (h : p.OnCycle q x) :
    ¬ p.Denotes q x ty := by
  intro hd
  induction hd with
  | builtin hz _ hb _ =>
    obtain ⟨y, hy⟩ := h.exists_leads
    obtain ⟨s, hs, -, hb'⟩ := hy.symbol hq
    rw [hz] at hs
    cases hs
    exact absurd (hb.symm.trans hb') (by decide)
  | synonym ha hi hy _ ih =>
    have hleads : p.Leads q _ _ := Program.mem_aliases.mpr ⟨_, _, ha, hi, rfl⟩
    rw [hy] at hleads
    exact ih (h.of_reaches hq hids (.single hleads)).1

theorem Program.EntersCycle.standsFor (hq : q.Hoists p) (hids : p.ids.Nodup) (h : p.EntersCycle q x) :
    p.StandsFor q x .invalid := by
  obtain ⟨z, hxz, hz⟩ := h
  refine (Program.standsFor_iff_of_reaches hq hids hxz).mpr (.inr ⟨rfl, fun ty => ?_⟩)
  exact hz.not_denotes hq hids

theorem Program.standsFor_of_not_hasKind (hq : q.Hoists p) (h : ¬ q.HasKind x .type) :
    p.StandsFor q x .invalid := .inr ⟨rfl, fun _ hd => h (hd.hasKind hq)⟩

theorem Program.Dangles.standsFor (hq : q.Hoists p) (hids : p.ids.Nodup) (h : p.Dangles q x) :
    p.StandsFor q x .invalid := by
  obtain ⟨y, hxy, hy⟩ := h
  exact (Program.standsFor_iff_of_reaches hq hids hxy).mpr (Program.standsFor_of_not_hasKind hq hy)

end

/-! ## Following a chain -/

/-- A way along targets: the aliases on it, and where it leads. -/
inductive Way (aliases : List (Nat × Nat)) : Nat → List Nat → Nat → Prop
  | here {x} : Way aliases x [] x
  | step {x y z xs} : (x, y) ∈ aliases → Way aliases y xs z → Way aliases x (x :: xs) z

namespace Way

variable {aliases aliases' : List (Nat × Nat)} {p : Program} {q : Resolution} {x y z : Nat} {xs : List Nat}

theorem mono (h : Way aliases x xs z) (hsub : aliases ⊆ aliases') : Way aliases' x xs z := by
  induction h with
  | here => exact .here
  | step hxy _ ih => exact .step (hsub hxy) ih

theorem reaches (h : Way (p.aliases q) x xs z) : p.Reaches q x z := by
  induction h with
  | here => exact .refl
  | step hxy _ ih => exact .head hxy ih

/-- What is on the way is reached, and leads on to the end. -/
theorem of_mem (h : Way (p.aliases q) x xs z) (hy : y ∈ xs) :
    p.Reaches q x y ∧ TransGen (p.Leads q) y z := by
  induction h with
  | here => cases hy
  | step hxy hrest ih =>
    rcases List.mem_cons.mp hy with rfl | hy
    · exact ⟨.refl, .head' hxy hrest.reaches⟩
    · exact ⟨.head hxy (ih hy).1, (ih hy).2⟩

/-- One alias on the way leads to the next, and the last to the end. -/
theorem exists_next (h : Way (p.aliases q) x xs z) (hy : y ∈ xs) :
    ∃ y', p.Leads q y y' ∧ (y' ∈ xs ∨ y' = z) := by
  induction h with
  | here => cases hy
  | @step x w z xs hxw hrest ih =>
    rcases List.mem_cons.mp hy with rfl | hy
    · refine ⟨w, hxw, ?_⟩
      cases hrest with
      | here => exact .inr rfl
      | step => exact .inl (List.mem_cons_of_mem _ List.mem_cons_self)
    · obtain ⟨y', hy', hmem⟩ := ih hy
      exact ⟨y', hy', hmem.imp_left (List.mem_cons_of_mem _)⟩

/-- A way that is not over at its start has the start on it. -/
theorem mem_start (h : Way aliases x xs z) : x ∈ xs ∨ x = z := by
  cases h with
  | here => exact .inr rfl
  | step => exact .inl List.mem_cons_self

end Way

/-- Following aliases goes a way along symbols that are not known. It ends at a type that is known, or where
nothing is left: at a symbol that was met before, or that has no target. -/
theorem followAlias_way (known : Nat → Option Ty) (aliases : List (Nat × Nat)) (x : Nat) :
    ∃ z, Way aliases x (followAlias known aliases x).1 z ∧
      (∀ y ∈ (followAlias known aliases x).1, known y = none) ∧
      match (followAlias known aliases x).2 with
      | .type ty => known z = some ty
      | .cycle closesAt => closesAt = z ∧ known z = none ∧
          (z ∈ (followAlias known aliases x).1 ∨ ∀ y, (z, y) ∉ aliases) := by
  fun_induction followAlias known aliases x with
  | case1 aliases x ty hx =>
    exact ⟨x, .here, fun _ h => (by cases h), hx⟩
  | case2 aliases x hx hf =>
    refine ⟨x, .here, fun _ h => (by cases h), rfl, hx, .inr fun y hy => ?_⟩
    exact absurd (List.find?_eq_none.mp hf _ hy) (by simp)
  | case3 aliases x hx a hf hfewer met last heq ih =>
    rw [heq] at ih
    obtain ⟨z, hway, hmet, hlast⟩ := ih
    have ha : a.1 = x := by simpa using List.find?_some hf
    have hedge : (x, a.2) ∈ aliases := ha ▸ List.mem_of_find?_eq_some hf
    refine ⟨z, .step hedge (hway.mono fun _ => List.mem_of_mem_eraseP),
      List.forall_mem_cons.mpr ⟨hx, hmet⟩, ?_⟩
    cases last with
    | type ty => exact hlast
    | cycle closesAt =>
      obtain ⟨rfl, hz, hend⟩ := hlast
      refine ⟨rfl, hz, ?_⟩
      -- What was left out on the way is the symbol where it starts.
      by_cases hzx : closesAt = x
      · exact .inl (hzx ▸ List.mem_cons_self)
      · refine hend.imp (List.mem_cons_of_mem _) fun hnone y hy => hnone y ?_
        exact (List.mem_eraseP_of_neg (by simpa using hzx)).mpr hy

/-! ## What is recorded of aliases -/

/-- How a cycle is reported at one of its aliases. -/
def Resolution.cycleError (q : Resolution) (z : Nat) : Diagnostic :=
  .error .aliasCycle (q.spanOf z) (TypeProblem.aliasCycle (q.table.nameOf z)).message

namespace Typing

/-- The cycles that were reported. -/
def cycleErrors (t : Typing) : List Diagnostic := t.diagnostics.filter fun d => d.code == .aliasCycle

/-- Something is recorded for a symbol. -/
def HasNoted (t : Typing) (x : Nat) : Prop := (t.symbols.lookup x).isSome

theorem hasNoted_noteAll {t : Typing} {xs ys : List Nat} {info : TypeInfo} {x : Nat}
    (hxs : ∀ y, y ∈ xs ↔ y ∈ ys) : (t.noteAll xs info).HasNoted x ↔ t.HasNoted x ∨ x ∈ ys := by
  rw [HasNoted, lookup_noteAll, HasNoted, ← hxs]
  by_cases h : x ∈ xs <;> simp [h]

/-- Finding out about a type goes a way along aliases that are not known, and records the same for all of
them: the type at its end, or nothing if the way comes to where nothing is left. -/
theorem namedType_way (c : TypingContext) (t : Typing) (x : Nat) : ∃ ys xs z, Way c.aliases x ys z ∧
    (∀ y ∈ ys, t.namedType? c.resolution y = none) ∧
    ((∃ ty, t.namedType? c.resolution z = some ty ∧ (∀ y, y ∈ xs ↔ y ∈ ys) ∧
        t.namedType c x = (t.noteAll xs (.value ty), ty)) ∨
      t.namedType? c.resolution z = none ∧ (z ∈ ys ∨ ∀ y, (z, y) ∉ c.aliases) ∧ (∀ y, y ∈ xs ↔ y = z ∨ y ∈ ys) ∧
        t.namedType c x = (({ t with diagnostics := t.diagnostics ++ [c.resolution.cycleError z] }
          : Typing).noteAll xs (.value .invalid), .invalid)) := by
  obtain ⟨z, hway, hmet, hlast⟩ := followAlias_way (t.namedType? c.resolution) c.aliases x
  have hrecords := t.namedType_records c x
  generalize followAlias (t.namedType? c.resolution) c.aliases x = walk at hway hmet hlast hrecords
  generalize t.namedType c x = answer at hrecords ⊢
  cases hrecords with
  | @type met xs ty hxs => exact ⟨met, xs, z, hway, hmet, .inl ⟨ty, hlast, hxs, rfl⟩⟩
  | @cycle met xs closesAt hxs =>
    obtain ⟨rfl, hz, hend⟩ := hlast
    exact ⟨met, xs, closesAt, hway, hmet, .inr ⟨hz, hend, hxs, rfl⟩⟩

/-- What is recorded of aliases is right, and recorded along with all that they lead to; the cycles among
them were each reported once, at the aliases that are listed. -/
structure Explored (p : Program) (q : Resolution) (t : Typing) (zs : List Nat) : Prop where
  types : ∀ x y info, p.Leads q x y → t.symbols.lookup x = some info →
    ∃ ty, info = .value ty ∧ p.StandsFor q x ty
  closed : ∀ x y y', p.Leads q x y → p.Leads q y y' → t.HasNoted x → t.HasNoted y
  reports : t.cycleErrors = zs.map q.cycleError
  onCycle : ∀ z ∈ zs, p.OnCycle q z ∧ t.HasNoted z
  covered : ∀ x, p.OnCycle q x → t.HasNoted x → ∃ z ∈ zs, p.Reaches q x z
  apart : zs.Pairwise fun z z' => ¬ p.Reaches q z z'

section

variable {p : Program} {q : Resolution} {t : Typing} {zs : List Nat} {x y z : Nat} {ty : Ty}

theorem Explored.hasNoted_of_reaches (h : Explored p q t zs) (hxy : p.Reaches q x y)
    (hy : ∃ y', p.Leads q y y') (hn : t.HasNoted x) : t.HasNoted y := by
  induction hxy with
  | refl => exact hn
  | tail _ hlast ih =>
    obtain ⟨y', hy'⟩ := hy
    exact h.closed _ _ _ hlast hy' (ih ⟨_, hlast⟩)

/-- What is not known of a type is the type of an alias, and it was not recorded. -/
theorem Explored.namedType?_none (h : Explored p q t zs) (hq : q.TellsApart p)
    (hx : t.namedType? q x = none) : (∃ y, p.Leads q x y) ∧ ¬ t.HasNoted x := by
  rw [namedType?] at hx
  cases hs : q.table.symbol? x with
  | none =>
    rw [hs] at hx
    cases hx
  | some s =>
    rw [hs] at hx
    by_cases hk : s.kind = .type
    · cases hb : s.flags.builtin with
      | true => simp [hk, hb] at hx
      | false =>
        obtain ⟨y, hy⟩ := hq.exists_leads hs hk hb
        refine ⟨⟨y, hy⟩, fun hn => ?_⟩
        obtain ⟨info, hi⟩ := Option.isSome_iff_exists.mp hn
        obtain ⟨ty, rfl, -⟩ := h.types x y info hy hi
        simp [hk, hb, hi] at hx
    · simp [hk] at hx

/-- What is known of a type is what it stands for, and if it is an alias it was recorded. -/
theorem Explored.namedType?_some (h : Explored p q t zs) (hq : q.TellsApart p)
    (hx : t.namedType? q x = some ty) : p.StandsFor q x ty ∧ ∀ y, p.Leads q x y → t.HasNoted x := by
  have halias : ∀ y, p.Leads q x y → t.HasNoted x ∧ p.StandsFor q x ty := by
    intro y hy
    obtain ⟨s, hs, hk, hb⟩ := hy.symbol hq.toHoists
    rw [namedType?, hs] at hx
    cases hl : t.symbols.lookup x with
    | none => simp [hk, hb, hl] at hx
    | some info =>
      obtain ⟨ty', rfl, hd⟩ := h.types x y info hy hl
      simp only [hk, hb, hl, ne_eq, not_true_eq_false, if_false, Bool.false_eq_true,
        Option.some.injEq] at hx
      exact ⟨by simp [HasNoted, hl], hx ▸ hd⟩
  refine ⟨?_, fun y hy => (halias y hy).1⟩
  by_cases hleads : ∃ y, p.Leads q x y
  · obtain ⟨y, hy⟩ := hleads
    exact (halias y hy).2
  · rw [namedType?] at hx
    cases hs : q.table.symbol? x with
    | none =>
      rw [hs] at hx
      cases hx
      refine Program.standsFor_of_not_hasKind hq.toHoists ?_
      rintro ⟨s, hs', -⟩
      rw [hs] at hs'
      cases hs'
    | some s =>
      rw [hs] at hx
      by_cases hk : s.kind = .type
      · cases hb : s.flags.builtin with
        | true =>
          simp only [hk, hb, ne_eq, not_true_eq_false, if_false, if_true, Option.some.injEq] at hx
          rw [← hx]
          exact .inl (.builtin hs hk hb (ofName?_of_builtin hq.sound hs hk hb))
        | false => exact absurd (hq.exists_leads hs hk hb) hleads
      · simp only [hk, ne_eq, not_false_eq_true, if_true, Option.some.injEq] at hx
        rw [← hx]
        refine Program.standsFor_of_not_hasKind hq.toHoists ?_
        rintro ⟨s', hs', hk'⟩
        rw [hs] at hs'
        cases hs'
        exact hk hk'

/-- A way that was gone: what is recorded for it is right, and it is recorded along with its end. -/
theorem Explored.noteAll (h : Explored p q t zs) (hq : q.TellsApart p) (hids : p.ids.Nodup) {xs ys : List Nat}
    (hxs : ∀ y, y ∈ xs ↔ y ∈ ys) (hway : Way (p.aliases q) x ys z) (hz : p.StandsFor q z ty)
    (hend : ∀ y, p.Leads q z y → t.HasNoted z ∨ z ∈ ys) :
    (∀ y y' info, p.Leads q y y' → (t.noteAll xs (.value ty)).symbols.lookup y = some info →
      ∃ ty, info = .value ty ∧ p.StandsFor q y ty) ∧
    ∀ y y' y'', p.Leads q y y' → p.Leads q y' y'' → (t.noteAll xs (.value ty)).HasNoted y →
      (t.noteAll xs (.value ty)).HasNoted y' := by
  constructor
  · intro y y' info hy hl
    rw [lookup_noteAll] at hl
    cases hold : t.symbols.lookup y with
    | some info' =>
      rw [hold] at hl
      cases hl
      exact h.types y y' _ hy hold
    | none =>
      rw [hold, Option.none_or] at hl
      split at hl
      · rename_i hmem
        cases hl
        exact ⟨ty, rfl,
          (Program.standsFor_iff_of_reaches hq.toHoists hids
            (hway.of_mem ((hxs y).mp hmem)).2.to_reflTransGen).mpr hz⟩
      · cases hl
  · intro y y' y'' hy hy' hn
    rw [hasNoted_noteAll hxs] at hn ⊢
    rcases hn with hn | hmem
    · exact .inl (h.closed y y' y'' hy hy' hn)
    · obtain ⟨next, hnext, hwhere⟩ := hway.exists_next hmem
      obtain rfl := hnext.unique hq.toHoists hids hy
      rcases hwhere with hmem' | rfl
      · exact .inr hmem'
      · exact hend y'' hy'

/-- What asking for a type does: the answer is right, the symbol is recorded if it is an alias, with nothing
but what it leads to, and nothing was reported but cycles that had not been met. -/
structure Answers (p : Program) (q : Resolution) (zs : List Nat) (x : Nat) (t : Typing)
    (answer : Typing × Ty) : Prop where
  type : p.StandsFor q x answer.2
  noted : ∀ y, p.Leads q x y → answer.1.HasNoted x
  only : ∀ y, answer.1.HasNoted y → t.HasNoted y ∨ p.Reaches q x y
  explored : ∃ found, Explored p q answer.1 (zs ++ found) ∧
    answer.1.diagnostics = t.diagnostics ++ found.map q.cycleError

/-- Asking for a type keeps what is recorded right. The way ends at what is known, or it closes a cycle: in
that case the cycle was not met before, and it is reported. -/
theorem Explored.namedType (h : Explored p q t zs) (hq : q.TellsApart p) (hids : p.ids.Nodup)
    {c : TypingContext} (hc : c.resolution = q) (ha : c.aliases = p.aliases q) (x : Nat) :
    Answers p q zs x t (t.namedType c x) := by
  obtain ⟨ys, xs, z, hway, hmet, hcases⟩ := namedType_way c t x
  rw [hc] at hmet hcases
  rw [ha] at hway hcases
  have hfresh : ∀ y ∈ ys, ¬ t.HasNoted y := fun y hy => (h.namedType?_none hq (hmet y hy)).2
  rcases hcases with ⟨ty, hz, hxs, heq⟩ | ⟨hz, hend, hxs, heq⟩
  · obtain ⟨hstands, hnoted⟩ := h.namedType?_some hq hz
    obtain ⟨htypes, hclosed⟩ := h.noteAll hq hids hxs hway hstands fun y hy => .inl (hnoted y hy)
    rw [heq]
    refine ⟨(Program.standsFor_iff_of_reaches hq.toHoists hids hway.reaches).mpr hstands, fun y hy => ?_,
      fun y hy => ?_, [], ?_, (List.append_nil _).symm⟩
    · rcases hway.mem_start with hmem | rfl
      · exact (hasNoted_noteAll hxs).mpr (.inr hmem)
      · exact (hasNoted_noteAll hxs).mpr (.inl (hnoted y hy))
    · exact ((hasNoted_noteAll hxs).mp hy).imp_right fun hmem => (hway.of_mem hmem).1
    · rw [List.append_nil]
      refine ⟨htypes, hclosed, h.reports, fun z hz => ?_, fun y hy hn => ?_, h.apart⟩
      · exact ⟨(h.onCycle z hz).1, (hasNoted_noteAll hxs).mpr (.inl (h.onCycle z hz).2)⟩
      · rcases (hasNoted_noteAll hxs).mp hn with hn | hmem
        · exact h.covered y hy hn
        · -- The way would end on the cycle, which is recorded as a whole.
          obtain ⟨hcycle, hback⟩ := hy.of_reaches hq.toHoists hids (hway.of_mem hmem).2.to_reflTransGen
          obtain ⟨z', hz'⟩ := hcycle.exists_leads
          exact absurd (h.hasNoted_of_reaches hback hy.exists_leads (hnoted z' hz')) (hfresh y hmem)
  · obtain ⟨⟨z', hz'⟩, hnew⟩ := h.namedType?_none hq hz
    have hmem : z ∈ ys := hend.resolve_right fun hnone => hnone z' hz'
    replace hxs : ∀ y, y ∈ xs ↔ y ∈ ys := fun y => by simpa [hxs] using fun hy => hy ▸ hmem
    have hcycle : p.OnCycle q z := (hway.of_mem hmem).2
    have hstands : p.StandsFor q z .invalid := Program.EntersCycle.standsFor hq.toHoists hids ⟨z, .refl, hcycle⟩
    obtain ⟨htypes, hclosed⟩ := h.noteAll hq hids hxs hway hstands fun _ _ => .inr hmem
    rw [heq]
    refine ⟨(Program.standsFor_iff_of_reaches hq.toHoists hids hway.reaches).mpr hstands, fun y hy => ?_,
      fun y hy => ?_, [z], ?_, rfl⟩
    · rcases hway.mem_start with hmem' | rfl
      · exact (hasNoted_noteAll hxs).mpr (.inr hmem')
      · exact (hasNoted_noteAll hxs).mpr (.inr hmem)
    · exact ((hasNoted_noteAll hxs).mp hy).imp_right fun hmem => (hway.of_mem hmem).1
    · refine ⟨htypes, hclosed, ?_, fun y hy => ?_, fun y hy hn => ?_, ?_⟩
      · have hreports := h.reports
        rw [cycleErrors] at hreports
        rw [List.map_append, ← hreports]
        exact List.filter_append ..
      · rcases List.mem_append.mp hy with hy | hy
        · exact ⟨(h.onCycle y hy).1, (hasNoted_noteAll hxs).mpr (.inl (h.onCycle y hy).2)⟩
        · rw [List.mem_singleton.mp hy]
          exact ⟨hcycle, (hasNoted_noteAll hxs).mpr (.inr hmem)⟩
      · rcases (hasNoted_noteAll hxs).mp hn with hn | hmem'
        · obtain ⟨z₀, hz₀, hreach⟩ := h.covered y hy hn
          exact ⟨z₀, List.mem_append_left _ hz₀, hreach⟩
        · exact ⟨z, List.mem_append_right _ (List.mem_singleton.mpr rfl),
            (hway.of_mem hmem').2.to_reflTransGen⟩
      · refine List.pairwise_append.mpr ⟨h.apart, List.pairwise_singleton .., fun z₀ hz₀ z₁ hz₁ hreach => ?_⟩
        rw [List.mem_singleton.mp hz₁] at hreach
        have hn₀ := (h.onCycle z₀ hz₀).2
        exact hnew (h.hasNoted_of_reaches hreach ⟨z', hz'⟩ hn₀)

/-- Before anything is asked for nothing is explored. -/
theorem explored_of_fresh (hn : ∀ x y, p.Leads q x y → t.symbols.lookup x = none)
    (hd : t.cycleErrors = []) : Explored p q t [] := by
  have hfresh : ∀ x y, p.Leads q x y → ¬ t.HasNoted x := fun x y hy h => by
    rw [HasNoted, hn x y hy] at h
    cases h
  refine ⟨fun x y info hy hl => ?_, fun x y y' hy _ h => absurd h (hfresh x y hy), hd,
    fun z hz => (by cases hz), fun x hx h => ?_, .nil⟩
  · rw [hn x y hy] at hl
    cases hl
  · obtain ⟨y, hy⟩ := hx.exists_leads
    exact absurd h (hfresh x y hy)

end

end Typing

/-- The chain of a symbol ends in a type of values, or it dangles, or it enters a cycle. -/
theorem Program.chain_cases {p : Program} {q : Resolution} (hq : q.TellsApart p) (hids : p.ids.Nodup)
    (x : Nat) : (∃ ty, p.Denotes q x ty) ∨ p.Dangles q x ∨ p.EntersCycle q x := by
  have hfresh : Typing.Explored p q {} [] := Typing.explored_of_fresh (fun _ _ _ => rfl) rfl
  obtain ⟨z, hway, hmet, hlast⟩ := followAlias_way (({} : Typing).namedType? q) (p.aliases q) x
  split at hlast
  · rename_i ty _
    by_cases hk : q.HasKind z .type
    · refine .inl ⟨ty, (Program.denotes_iff_of_reaches hq.toHoists hids hway.reaches).mpr ?_⟩
      obtain ⟨s, hs, hkind⟩ := hk
      cases hb : s.flags.builtin with
      | true =>
        have hd := Typing.ofName?_of_builtin hq.sound hs hkind hb
        rw [Typing.namedType?, hs] at hlast
        simp only [hkind, hb, ne_eq, not_true_eq_false, if_false, if_true, Option.some.injEq] at hlast
        rw [hlast] at hd
        exact .builtin hs hkind hb hd
      | false =>
        obtain ⟨y, hy⟩ := hq.exists_leads hs hkind hb
        cases (hfresh.namedType?_some hq hlast).2 y hy
    · exact .inr (.inl ⟨z, hway.reaches, hk⟩)
  · obtain ⟨rfl, hz, hend⟩ := hlast
    obtain ⟨⟨y, hy⟩, -⟩ := hfresh.namedType?_none hq hz
    have hmem := hend.resolve_right fun hnone => hnone y hy
    exact .inr (.inr ⟨_, hway.reaches, (hway.of_mem hmem).2⟩)

end Craftlang
