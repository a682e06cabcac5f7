import Craftlang.Proofs.Syntax.Numbering
import Craftlang.Proofs.Typing.Aliases

/-!
# Asking for types while a program is checked

Types are asked for wherever one is written, and by the aliases themselves. What is recorded of aliases
outlasts all that happens in between. So in the end all aliases stand for what their chains end in, and every
cycle was reported once, whatever came first.
-/

namespace Craftlang

open Relation Resolution

namespace Typing

section

variable {p : Program} {q : Resolution} {t : Typing} {zs : List Nat} {x y : Nat}

/-- What is recorded for a symbol that is no type is none of an alias. -/
theorem lookup_noteSymbol_of_leads (hq : q.Hoists p) (hy : ¬ q.HasKind y .type) (info : TypeInfo)
    {z : Nat} (hx : p.Leads q x z) : (t.noteSymbol y info).symbols.lookup x = t.symbols.lookup x := by
  have hne : x ≠ y := by
    rintro rfl
    obtain ⟨s, hs, hk, -⟩ := hx.symbol hq
    exact hy ⟨s, hs, hk⟩
  have hsingle : List.lookup x [(y, info)] = none := by
    rw [List.lookup_cons, beq_false_of_ne hne]
    rfl
  rw [noteSymbol, List.lookup_append, hsingle, Option.or_none]

/-- The same is recorded of aliases, and the same cycles were reported. -/
theorem Explored.congr {t' : Typing} (h : Explored p q t zs)
    (hl : ∀ x y, p.Leads q x y → t'.symbols.lookup x = t.symbols.lookup x)
    (hd : t'.cycleErrors = t.cycleErrors) : Explored p q t' zs := by
  have hn : ∀ x, (∃ y, p.Leads q x y) → (t'.HasNoted x ↔ t.HasNoted x) := by
    rintro x ⟨y, hy⟩
    rw [HasNoted, hl x y hy, HasNoted]
  refine ⟨fun x y info hy hi => ?_, fun x y y' hy hy' hx => ?_, hd.trans h.reports, fun z hz => ?_,
    fun x hx hnoted => ?_, h.apart⟩
  · rw [hl x y hy] at hi
    exact h.types x y info hy hi
  · exact (hn y ⟨y', hy'⟩).mpr (h.closed x y y' hy hy' ((hn x ⟨y, hy⟩).mp hx))
  · obtain ⟨hcycle, hz'⟩ := h.onCycle z hz
    exact ⟨hcycle, (hn z hcycle.exists_leads).mpr hz'⟩
  · exact h.covered x hx ((hn x hx.exists_leads).mp hnoted)

/-- Typing that gives a type to what is one only by asking for it. -/
def Limits.apart (p : Program) (q : Resolution) : Limits :=
  ⟨q, p.aliases q, fun y => ¬ q.HasKind y .type, fun _ => True⟩

theorem Limits.Allow.apart (hq : q.TellsApart p) : (Limits.apart p q).Allow (itemContext p q) :=
  ⟨rfl, rfl, fun h => hq.decls _ (mem_of_lookup_eq_some h), fun h => hq.implicit _ (mem_of_lookup_eq_some h),
    fun _ _ _ _ => trivial⟩

/-- What is recorded of aliases outlasts all that typing does; asking for one explores more. -/
theorem Moves.explored {ids : List Nat} {u : Typing} (h : Moves (.apart p q) ids t u) (hq : q.TellsApart p)
    (hids : p.ids.Nodup) (ht : ∃ zs, Explored p q t zs) : ∃ zs, Explored p q u zs := by
  induction h with
  | stay => exact ht
  | report t problem span notes hp =>
    obtain ⟨zs, ht⟩ := ht
    refine ⟨zs, ht.congr (fun _ _ _ => rfl) ?_⟩
    have hno : (problem.code == Code.aliasCycle) = false := beq_false_of_ne hp
    simp [cycleErrors, Typing.report, Diagnostic.error, hno]
  | noteExpr =>
    obtain ⟨zs, ht⟩ := ht
    exact ⟨zs, ht.congr (fun _ _ _ => rfl) rfl⟩
  | noteSymbol t y info hy =>
    obtain ⟨zs, ht⟩ := ht
    exact ⟨zs, ht.congr (fun _ _ hx => lookup_noteSymbol_of_leads hq.toHoists hy info hx) rfl⟩
  | ask t y =>
    obtain ⟨zs, ht⟩ := ht
    obtain ⟨found, hfound, -⟩ := (ht.namedType hq hids (c := itemContext p q) rfl rfl y).explored
    exact ⟨_, hfound⟩
  | trans _ _ _ ih ih' => exact ih' (ih ht)

theorem explored_declareFunction (hq : q.TellsApart p) (hids : p.ids.Nodup) {f : Function}
    (hf : f ∈ p.functions) (ht : ∃ zs, Explored p q t zs) :
    ∃ zs, Explored p q (declareFunction (itemContext p q) t f) zs := by
  obtain ⟨e, he, z, hz, hk, -⟩ := hq.itemOf? (Item.mem_functionsOf.mp hf) rfl
  have hnames : q.namesOf f = e := by rw [namesOf, he]; rfl
  have hsymbol : ¬ q.HasKind (q.namesOf f).symbol .type := by
    rw [hnames]
    intro htype
    cases htype.unique ⟨z, hz, hk⟩
  have hparams : ∀ y ∈ (q.namesOf f).params, ¬ q.HasKind y .type := by
    rw [hnames]
    intro y hy htype
    cases htype.unique (hq.params e (List.mem_of_find?_eq_some he) y hy)
  obtain ⟨u, tags, hmoves, heq⟩ :=
    moves_declareFunction (.apart hq) t hparams hsymbol fun _ _ => trivial
  obtain ⟨zs, hu⟩ := hmoves.explored hq hids ht
  rw [heq]
  exact ⟨zs, hu.congr (fun _ _ _ => rfl) rfl⟩

theorem explored_items (hq : q.TellsApart p) (hids : p.ids.Nodup) (ht : ∃ zs, Explored p q t zs)
    (is : List Item) : ∃ zs, Explored p q (is.foldl (item (itemContext p q)) t) zs :=
  (moves_items (.apart hq) t fun _ _ _ _ _ _ => trivial).explored hq hids ht

/-- What the language provides is no alias. -/
theorem lookup_start_of_leads (hq : q.Hoists p) (hx : p.Leads q x y) :
    (Typing.start q).symbols.lookup x = none := by
  have hfind : q.table.findLocal? SymbolTable.outermost "print" = some 5 :=
    hq.sound.provided.found _ _ _ (by decide)
  obtain ⟨z, hz⟩ := SymbolTable.exists_symbol? (t := .start) (y := 5) (by decide) (by decide)
  have hprint : ¬ q.HasKind 5 .type := by
    rintro ⟨z', hz', hk⟩
    rw [hq.sound.provided.symbol? hz] at hz'
    cases hz'
    have hs := SymbolTable.symbol?_start hz
    simp [hk] at hs
  rw [Typing.start, hfind]
  exact lookup_noteSymbol_of_leads hq hprint _ hx

theorem diagnostics_start (q : Resolution) : (Typing.start q).diagnostics = [] := by
  rw [Typing.start]
  split <;> rfl

theorem explored_start (hq : q.Hoists p) : Explored p q (Typing.start q) [] :=
  explored_of_fresh (fun _ _ hx => lookup_start_of_leads hq hx) (by rw [cycleErrors, diagnostics_start]; rfl)

/-- Before the items are typed, some aliases have been asked for by the functions. -/
theorem explored_declared (hq : q.TellsApart p) (hids : p.ids.Nodup) :
    ∃ zs, Explored p q (p.declared q) zs := by
  have hrun : ∀ (fs : List Function) (t : Typing), (∃ zs, Explored p q t zs) → (∀ f ∈ fs, f ∈ p.functions) →
      ∃ zs, Explored p q (fs.foldl (declareFunction (itemContext p q)) t) zs := by
    intro fs
    induction fs with
    | nil => exact fun t ht _ => ht
    | cons f fs ih =>
      intro t ht hfs
      rw [List.forall_mem_cons] at hfs
      exact ih _ (explored_declareFunction hq hids hfs.1 ht) hfs.2
  exact hrun p.functions _ ⟨[], explored_start hq.toHoists⟩ fun _ h => h

theorem HasNoted.mono {t' : Typing} (h : t.HasNoted x) (ht : t.symbols <+: t'.symbols) : t'.HasNoted x := by
  obtain ⟨info, hi⟩ := Option.isSome_iff_exists.mp h
  exact Option.isSome_iff_exists.mpr ⟨info, lookup_of_isPrefix ht hi⟩

/-- What asking for several types one after the other leaves. -/
def ask (c : TypingContext) (t : Typing) (asked : List Nat) : Typing :=
  asked.foldl (fun t x => (t.namedType c x).1) t

theorem symbols_ask (c : TypingContext) (t : Typing) (asked : List Nat) :
    t.symbols <+: (ask c t asked).symbols := by
  induction asked generalizing t with
  | nil => exact List.prefix_rfl
  | cons x asked ih => exact (extends_namedType t c x).symbols.trans (ih _)

/-- Asking for several types: those that were asked for are recorded, with what they lead to and nothing
else, and the cycles that were met are reported. -/
theorem Explored.ask (h : Explored p q t zs) (hq : q.TellsApart p) (hids : p.ids.Nodup) (asked : List Nat) :
    (∀ x ∈ asked, ∀ y, p.Leads q x y → (ask (itemContext p q) t asked).HasNoted x) ∧
      (∀ y, (ask (itemContext p q) t asked).HasNoted y → t.HasNoted y ∨ ∃ x ∈ asked, p.Reaches q x y) ∧
      ∃ found, Explored p q (ask (itemContext p q) t asked) (zs ++ found) ∧
        (ask (itemContext p q) t asked).diagnostics = t.diagnostics ++ found.map q.cycleError := by
  induction asked generalizing t zs with
  | nil =>
    refine ⟨fun x hx => (by cases hx), fun y hy => .inl hy, [], ?_, (List.append_nil _).symm⟩
    rw [List.append_nil]
    exact h
  | cons x asked ih =>
    have hx := h.namedType hq hids (c := itemContext p q) rfl rfl x
    obtain ⟨found, hfound, hdiagnostics⟩ := hx.explored
    obtain ⟨hnoted, honly, found', hfound', hdiagnostics'⟩ := ih hfound
    refine ⟨fun y hy y' hleads => ?_, fun y hy => ?_, found ++ found', ?_, ?_⟩
    · rcases List.mem_cons.mp hy with rfl | hy
      · exact (hx.noted y' hleads).mono (symbols_ask _ _ asked)
      · exact hnoted y hy y' hleads
    · rcases honly y hy with hy | ⟨z, hz, hzy⟩
      · exact (hx.only y hy).imp_right fun hxy => ⟨x, List.mem_cons_self, hxy⟩
      · exact .inr ⟨z, List.mem_cons_of_mem _ hz, hzy⟩
    · rw [← List.append_assoc]
      exact hfound'
    · rw [List.map_append, ← List.append_assoc, ← hdiagnostics]
      exact hdiagnostics'

end

end Typing

/-! ## Aliases in the end -/

/-- The symbol of an alias. -/
def Alias.symbolIn (q : Resolution) (a : Alias) : Nat := ((q.itemOf? a.node.id).map (·.symbol)).getD 0

/-- How a cycle is reported at an alias. -/
def Alias.cycleError (a : Alias) : Diagnostic :=
  .error .aliasCycle a.name.span (TypeProblem.aliasCycle a.name.text).message

/-- One alias of every cycle that has a property, and no others. -/
structure Program.PicksFrom (p : Program) (q : Resolution) (S : Nat → Prop) (picked : List Alias) : Prop where
  nodup : picked.Nodup
  onCycle : ∀ a ∈ picked, .typeAlias a ∈ p.items ∧ p.OnCycle q (a.symbolIn q) ∧ S (a.symbolIn q)
  unique : ∀ x, p.OnCycle q x → S x → ∃! a, a ∈ picked ∧ p.Reaches q x (a.symbolIn q)

section

variable {p : Program} {q : Resolution} {t : Typing} {zs : List Nat} {x : Nat}

theorem Program.Leads.exists_symbolIn {y : Nat} (h : p.Leads q x y) :
    ∃ a, .typeAlias a ∈ p.items ∧ a.symbolIn q = x := by
  obtain ⟨a, i, ha, hi, rfl, -⟩ := h.exists_alias
  exact ⟨a, ha, by rw [Alias.symbolIn, hi]; rfl⟩

theorem Alias.exists_leads (hq : q.Hoists p) {a : Alias} (ha : .typeAlias a ∈ p.items) :
    ∃ y, p.Leads q (a.symbolIn q) y := by
  obtain ⟨i, hi, -⟩ := hq.itemOf? ha rfl
  refine ⟨(q.typeOf? a.target.span).getD 0, Program.mem_aliases.mpr ⟨a, i, ha, hi, ?_⟩⟩
  rw [Alias.symbolIn, hi]
  rfl

/-- A cycle is reported with the name and at the place of an alias. -/
theorem Alias.cycleError_symbolIn (hq : q.TellsApart p) {a : Alias} (ha : .typeAlias a ∈ p.items) :
    q.cycleError (a.symbolIn q) = a.cycleError := by
  obtain ⟨i, hi, z, hz, -, hname, -⟩ := hq.itemOf? ha rfl
  have hspan := hq.spans a i ha hi
  rw [Alias.symbolIn, hi]
  change q.cycleError i.symbol = _
  rw [Resolution.cycleError, hspan, SymbolTable.nameOf, hz]
  change Diagnostic.error _ _ (TypeProblem.aliasCycle z.name).message = _
  rw [hname]
  rfl

theorem exists_map_eq {α β : Type} {f : α → β} {P : α → Prop} {ys : List β}
    (h : ∀ y ∈ ys, ∃ x, P x ∧ f x = y) : ∃ xs : List α, xs.map f = ys ∧ ∀ x ∈ xs, P x := by
  induction ys with
  | nil => exact ⟨[], rfl, fun x hx => (by cases hx)⟩
  | cons y ys ih =>
    rw [List.forall_mem_cons] at h
    obtain ⟨⟨x, hx, rfl⟩, hys⟩ := h
    obtain ⟨xs, rfl, hxs⟩ := ih hys
    exact ⟨x :: xs, rfl, List.forall_mem_cons.mpr ⟨hx, hxs⟩⟩

/-- The cycles that were reported are those that were met. -/
theorem Typing.Explored.picksFrom (h : Typing.Explored p q t zs) (hq : q.TellsApart p)
    (hids : p.ids.Nodup) {S : Nat → Prop} (hS : ∀ x, p.OnCycle q x → (t.HasNoted x ↔ S x)) :
    ∃ picked, zs.map q.cycleError = picked.map Alias.cycleError ∧ p.PicksFrom q S picked := by
  obtain ⟨picked, rfl, hpicked⟩ := exists_map_eq fun z hz => by
    obtain ⟨y, hy⟩ := (h.onCycle z hz).1.exists_leads
    exact hy.exists_symbolIn
  have hcycle : ∀ a ∈ picked, p.OnCycle q (a.symbolIn q) ∧ t.HasNoted (a.symbolIn q) :=
    fun a ha => h.onCycle _ (List.mem_map_of_mem ha)
  have hapart := List.pairwise_map.mp h.apart
  refine ⟨picked, ?_, ?_, fun a ha => ?_, fun x hx hs => ?_⟩
  · rw [List.map_map]
    exact List.map_congr_left fun a ha => Alias.cycleError_symbolIn hq (hpicked a ha)
  · refine hapart.imp fun {a b} hno heq => hno ?_
    rw [heq]
  · exact ⟨hpicked a ha, (hcycle a ha).1, (hS _ (hcycle a ha).1).mp (hcycle a ha).2⟩
  · obtain ⟨z, hz, hxz⟩ := h.covered x hx ((hS x hx).mpr hs)
    obtain ⟨a, ha, rfl⟩ := List.mem_map.mp hz
    refine ⟨a, ⟨ha, hxz⟩, fun b ⟨hb, hxb⟩ => ?_⟩
    by_contra hne
    have hback := hx.of_reaches hq.toHoists hids hxz
    have hback' := hx.of_reaches hq.toHoists hids hxb
    have hsymm : Std.Symm fun a b : Alias =>
        ¬ (p.Reaches q (a.symbolIn q) (b.symbolIn q) ∧ p.Reaches q (b.symbolIn q) (a.symbolIn q)) :=
      ⟨fun _ _ hno hboth => hno hboth.symm⟩
    have hpairs := hapart.imp (S := fun a b : Alias =>
      ¬ (p.Reaches q (a.symbolIn q) (b.symbolIn q) ∧ p.Reaches q (b.symbolIn q) (a.symbolIn q)))
      fun hno hboth => hno hboth.1
    exact hpairs.forall hb ha hne ⟨hback'.2.trans hxz, hback.2.trans hxb⟩

/-- Every alias is recorded in the end: it asks for its own type. -/
theorem Program.hasNoted_alias (hq : q.TellsApart p) (hids : p.ids.Nodup) {a : Alias}
    (ha : .typeAlias a ∈ p.items) : (p.typed q).HasNoted (a.symbolIn q) := by
  obtain ⟨before, after, hitems⟩ := List.append_of_mem ha
  obtain ⟨zs, hbefore⟩ := Typing.explored_items hq hids (Typing.explored_declared hq hids) before
  obtain ⟨y, hy⟩ := Alias.exists_leads hq.toHoists ha
  have hnoted := (hbefore.namedType hq hids (c := Typing.itemContext p q) rfl rfl _).noted y hy
  rw [p.typed_eq, hitems, List.foldl_append, List.foldl_cons]
  exact hnoted.mono (Typing.extends_items _ _ after).symbols

end

/-- Aliases are resolved exactly. Each gets the type that its chain of targets ends in, and no type if the
chain ends in what is no type or enters a cycle; one of these is the case. One error is reported for each
cycle, at an alias on it. And whatever types are asked for, in whatever order: what the next answer is does
not depend on it, and nothing is reported but one error for each of the cycles that are led to. -/
theorem File.aliases_exact (file : File) (w : Bool) :
    let p := file.parse.program
    let q := p.resolve w
    (∀ a, .typeAlias a ∈ p.items →
      (∀ ty, p.Denotes q (a.symbolIn q) ty →
        (p.typed q).symbols.lookup (a.symbolIn q) = some (.value ty)) ∧
      (p.Dangles q (a.symbolIn q) ∨ p.EntersCycle q (a.symbolIn q) →
        (p.typed q).symbols.lookup (a.symbolIn q) = some (.value .invalid)) ∧
      ((∃ ty, p.Denotes q (a.symbolIn q) ty) ∨ p.Dangles q (a.symbolIn q) ∨
        p.EntersCycle q (a.symbolIn q))) ∧
    (∃ picked, (p.typed q).cycleErrors = picked.map Alias.cycleError ∧
      p.PicksFrom q (fun _ => True) picked) ∧
    ∀ asked : List Nat,
      let t := Typing.ask (Typing.itemContext p q) (.start q) asked
      (∀ x ty, p.StandsFor q x ty → (t.namedType (Typing.itemContext p q) x).2 = ty) ∧
      ∃ picked, t.diagnostics = picked.map Alias.cycleError ∧
        p.PicksFrom q (fun x => ∃ y ∈ asked, p.Reaches q y x) picked := by
  intro p q
  have hids : p.ids.Nodup := Parse.program_nodup file _
  have hq : q.TellsApart p := Program.resolve_tellsApart hids w
  have hstart := Typing.explored_start hq.toHoists
  obtain ⟨zs, htyped⟩ : ∃ zs, Typing.Explored p q (p.typed q) zs :=
    Typing.explored_items hq hids (Typing.explored_declared hq hids) p.items
  refine ⟨fun a ha => ?_, ?_, fun asked => ?_⟩
  · obtain ⟨info, hinfo⟩ := Option.isSome_iff_exists.mp (Program.hasNoted_alias hq hids ha)
    obtain ⟨y, hy⟩ := Alias.exists_leads hq.toHoists ha
    obtain ⟨ty, rfl, hstands⟩ := htyped.types _ y info hy hinfo
    refine ⟨fun ty' hd => ?_, fun hnone => ?_, Program.chain_cases hq hids _⟩
    · rw [hinfo, hstands.unique hq.toHoists hids (.inl hd)]
    · have hinvalid := hnone.elim (·.standsFor hq.toHoists hids) (·.standsFor hq.toHoists hids)
      rw [hinfo, hstands.unique hq.toHoists hids hinvalid]
  · rw [htyped.reports]
    refine htyped.picksFrom hq hids fun x hx => iff_of_true ?_ trivial
    obtain ⟨y, hy⟩ := hx.exists_leads
    obtain ⟨a, ha, rfl⟩ := hy.exists_symbolIn
    exact Program.hasNoted_alias hq hids ha
  · obtain ⟨hnoted, honly, found, hexplored, hdiagnostics⟩ := hstart.ask hq hids asked
    refine ⟨fun x ty hx => ?_, ?_⟩
    · exact (hexplored.namedType hq hids rfl rfl x).type.unique hq.toHoists hids hx
    · rw [Typing.diagnostics_start, List.nil_append] at hdiagnostics
      rw [List.nil_append] at hexplored
      rw [hdiagnostics]
      refine hexplored.picksFrom hq hids fun x hx => ⟨fun hn => ?_, fun ⟨y, hy, hyx⟩ => ?_⟩
      · refine (honly x hn).resolve_left fun hstarted => ?_
        obtain ⟨y, hy⟩ := hx.exists_leads
        rw [Typing.HasNoted, Typing.lookup_start_of_leads hq.toHoists hy] at hstarted
        cases hstarted
      · refine hexplored.hasNoted_of_reaches hyx hx.exists_leads ?_
        rcases hyx.cases_head with rfl | ⟨z, hz, -⟩
        · obtain ⟨z, hz⟩ := hx.exists_leads
          exact hnoted _ hy z hz
        · exact hnoted _ hy z hz

/-- Two aliases of each other, one that leads to them, one of a type by way of another, and one of what is no
type. -/
def File.knot : File :=
  ⟨0, "knot.craft", "type a = b\ntype b = a\ntype c = a\ntype d = int\ntype e = d\ntype g = print\n", {}⟩

theorem File.aliases_knot : File.knot.parse.program.aliases (File.knot.parse.program.resolve true)
    = [(6, 7), (7, 6), (8, 6), (9, 2), (10, 9), (11, 1)] := by
  decide +kernel

/-- Chains of all three sorts, and the cycle is reported. -/
theorem File.aliases_exact_knot :
    let p := File.knot.parse.program
    let q := p.resolve true
    (∃ a, .typeAlias a ∈ p.items ∧ p.Denotes q (a.symbolIn q) .int ∧
      (p.typed q).symbols.lookup (a.symbolIn q) = some (.value .int)) ∧
    (∃ a, .typeAlias a ∈ p.items ∧ p.EntersCycle q (a.symbolIn q) ∧
      (p.typed q).symbols.lookup (a.symbolIn q) = some (.value .invalid)) ∧
    (∃ a, .typeAlias a ∈ p.items ∧ p.Dangles q (a.symbolIn q) ∧
      (p.typed q).symbols.lookup (a.symbolIn q) = some (.value .invalid)) ∧
    ∃ a, .typeAlias a ∈ p.items ∧ p.OnCycle q (a.symbolIn q) ∧
      a.cycleError ∈ (p.typed q).cycleErrors := by
  intro p q
  have hids : p.ids.Nodup := Parse.program_nodup File.knot _
  have hq : q.TellsApart p := Program.resolve_tellsApart hids true
  have hint : p.Denotes q 2 .int := by
    obtain ⟨z, hz⟩ := SymbolTable.exists_symbol? (t := .start) (y := 2) (by decide) (by decide)
    have hs := SymbolTable.symbol?_start hz
    simp only [List.mem_cons, Prod.mk.injEq, List.not_mem_nil, or_false, Nat.reduceEqDiff, false_and,
      true_and, false_or] at hs
    obtain ⟨hk, hname, hb⟩ := hs
    exact .builtin (hq.sound.provided.symbol? hz) hk hb (by rw [hname]; decide)
  have herror : ¬ q.HasKind 1 .type := by
    rintro ⟨z, hz, hk⟩
    obtain ⟨z', hz'⟩ := SymbolTable.exists_symbol? (t := .start) (y := 1) (by decide) (by decide)
    rw [hq.sound.provided.symbol? hz'] at hz
    cases hz
    have hs := SymbolTable.symbol?_start hz'
    simp [hk] at hs
  have h : ∀ x y, (x, y) ∈ p.aliases q → p.Leads q x y := fun _ _ h => h
  rw [show p.aliases q = _ from File.aliases_knot] at h
  have hcycle : p.OnCycle q 6 := .tail (.single (h 6 7 (by decide))) (h 7 6 (by decide))
  obtain ⟨htypes, ⟨picked, hreports, hpicks⟩, -⟩ := File.aliases_exact File.knot true
  refine ⟨?_, ?_, ?_, ?_⟩
  · obtain ⟨a, ha, hx⟩ := (h 10 9 (by decide)).exists_symbolIn
    have hd : p.Denotes q (a.symbolIn q) .int := hx ▸ (Program.denotes_iff_of_reaches hq.toHoists hids
      (.head (h 10 9 (by decide)) (.single (h 9 2 (by decide))))).mpr hint
    exact ⟨a, ha, hd, (htypes a ha).1 .int hd⟩
  · obtain ⟨a, ha, hx⟩ := (h 8 6 (by decide)).exists_symbolIn
    have henters : p.EntersCycle q (a.symbolIn q) := hx ▸ ⟨6, .single (h 8 6 (by decide)), hcycle⟩
    exact ⟨a, ha, henters, (htypes a ha).2.1 (.inr henters)⟩
  · obtain ⟨a, ha, hx⟩ := (h 11 1 (by decide)).exists_symbolIn
    have hdangles : p.Dangles q (a.symbolIn q) := hx ▸ ⟨1, .single (h 11 1 (by decide)), herror⟩
    exact ⟨a, ha, hdangles, (htypes a ha).2.1 (.inl hdangles)⟩
  · obtain ⟨a, ⟨ha, -⟩, -⟩ := hpicks.unique 6 hcycle trivial
    obtain ⟨hitem, hon, -⟩ := hpicks.onCycle a ha
    exact ⟨a, hitem, hon, hreports ▸ List.mem_map_of_mem ha⟩

end Craftlang
