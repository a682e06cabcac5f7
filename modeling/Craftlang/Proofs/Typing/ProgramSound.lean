import Craftlang.Proofs.Typing.Declared

/-!
# Programs that are accepted are well typed

The items of a program are typed in order, once all signatures are known. A program in which nothing was
reported is well typed.
-/

namespace Craftlang

open Resolution

namespace Typing

/-- The items of a program are typed after its functions are declared. -/
structure Opened (p : Program) (q : Resolution) (t u : Typing) : Prop where
  settles : q.Settles p
  ids : p.ids.Nodup
  declared : Declared p q p.functions t
  precedes : t.Precedes u
  clean : u.IsClean

section

variable {p : Program} {q : Resolution} {t u : Typing}

theorem map_eq_of_forall₂ {α β γ : Type} {R : α → β → Prop} {f : α → γ} {g : β → γ} {as : List α}
    {bs : List β} (h : List.Forall₂ R as bs) (hfg : ∀ a b, R a b → g b = f a) :
    bs.map g = as.map f := by
  induction h with
  | nil => rfl
  | cons hab _ ih => rw [List.map_cons, List.map_cons, ih, hfg _ _ hab]

theorem exists_of_forall₂ {α β : Type} {R : α → β → Prop} {as : List α} {bs : List β}
    (h : List.Forall₂ R as bs) {a : α} (ha : a ∈ as) : ∃ b ∈ bs, R a b := by
  induction h with
  | nil => cases ha
  | cons hab _ ih =>
    rcases List.mem_cons.mp ha with rfl | ha
    · exact ⟨_, List.mem_cons_self .., hab⟩
    · obtain ⟨b, hb, hr⟩ := ih ha
      exact ⟨b, List.mem_cons_of_mem _ hb, hr⟩

/-- What is recorded about a function is found by its item, and nothing else is. -/
theorem Declared.info (h : Declared p q p.functions t) (hids : p.ids.Nodup) {f : Function}
    (hf : f ∈ p.functions) : ∃ info ∈ t.functions, DeclaredAs p q t f info ∧
      t.functionOfItem? f.node.id = some info ∧
      ∀ other ∈ t.functions, other.item = f.node.id → other = info := by
  obtain ⟨info, hinfo, hdeclared⟩ := exists_of_forall₂ h.functions hf
  have hitems : (t.functions.map (·.item)).Nodup := by
    rw [map_eq_of_forall₂ h.functions fun _ _ hd => hd.item]
    exact hids.sublist (Item.functionIds_sublist p.items)
  refine ⟨info, hinfo, hdeclared, ?_, fun other hother hitem => ?_⟩
  · rw [← hdeclared.item]
    exact find?_eq_some_of_mem hitems hinfo
  · exact List.inj_on_of_nodup_map hitems hother hinfo (hitem.trans hdeclared.item.symm)

theorem Declared.symbols_nodup (h : Declared p q p.functions t) (hq : q.Settles p) (hids : p.ids.Nodup) :
    (t.functions.map (·.symbol)).Nodup := by
  rw [map_eq_of_forall₂ h.functions fun _ _ hd => hd.symbol]
  exact hq.functionSymbols_nodup hids

/-- The context in which the items of a program are typed. -/
def itemContext (p : Program) (q : Resolution) : TypingContext :=
  { resolution := q, aliases := p.aliases q }

theorem aliasesFit (hq : q.Settles p) : AliasesFit p (itemContext p q) := by
  intro a ha
  obtain ⟨i, hi, hmap⟩ := List.mem_filterMap.mp ha
  cases i with
  | error n => cases hmap
  | function f => cases hmap
  | stmt n s => cases hmap
  | typeAlias b =>
    obtain ⟨n, hb, -⟩ := hq.bound
    obtain ⟨n', m', hbound⟩ := hb.exists_bound hi
    cases hbound with
    | typeAlias hn =>
      obtain ⟨y, z, hy, hz, hk⟩ := hn
      obtain ⟨e, he, rfl⟩ := Option.map_eq_some_iff.mp hmap
      rw [hy]
      exact ⟨⟨z, hz, hk⟩, fun ty hd => .synonym hi he hy hd⟩

theorem DeclaredAs.isProper {f : Function} {info : FunctionInfo} (h : DeclaredAs p q t f info) :
    info.signature.IsProper :=
  ⟨fun ty hty => .inl (h.params.isValue ty hty), h.result.isValue⟩

/-- Once they are declared, functions can be called. -/
theorem Declared.knows (h : Declared p q p.functions t) (hq : q.Settles p) (hids : p.ids.Nodup) {n : Nat}
    (hn : ∀ y z, y ≤ n → q.table.symbol? y = some z → z.kind ≠ .var ∧ z.kind ≠ .param) :
    Knows q n t := by
  refine ⟨fun y hy hk => ?_, fun y hy => ?_⟩
  · rcases hk with ⟨z, hz, hk⟩ | ⟨z, hz, hk⟩
    · exact absurd hk (hn y z hy hz).1
    · exact absurd hk (hn y z hy hz).2
  · rcases hq.exists_function hy with rfl | ⟨f, hf, rfl⟩
    · exact ⟨_, h.print, by decide, .inr rfl⟩
    · obtain ⟨info, -, hd, -⟩ := h.info hids hf
      exact ⟨_, hd.symbol ▸ hd.signature, hd.isProper⟩

/-- No variable has a type before the items are typed. -/
theorem Declared.clear (h : Declared p q p.functions t) (hq : q.Settles p) (n m : Nat) :
    Clear q n m t := by
  intro e he hk
  exfalso
  rcases h.keyed e he with htype | hmem
  · cases hk.unique htype
  · rcases List.mem_cons.mp hmem with h5 | hmem
    · obtain ⟨z, hz, hkind, -⟩ := hq.symbol?_print
      rw [h5] at hk
      cases hk.unique ⟨z, hz, hkind⟩
    · obtain ⟨f, hf, hmem⟩ := List.mem_flatMap.mp hmem
      rcases List.mem_append.mp hmem with hmem | hmem
      · cases hk.unique ((hq.declares hf).kinds _ hmem)
      · obtain ⟨z, hz, hkind, -⟩ := (hq.declares hf).symbol
        rw [List.mem_singleton.mp hmem] at hk
        cases hk.unique ⟨z, hz, hkind⟩

theorem Opened.stage {t₀ : Typing} (h : Opened p q t₀ u) : Stage p (itemContext p q) u :=
  ⟨h.settles.final.sound, h.clean, aliasesFit h.settles, nofun⟩

/-- The types that are written for a function are those of its symbols in the end. -/
theorem DeclaredAs.signed {f : Function} {info : FunctionInfo} (h : DeclaredAs p q t f info)
    (ht : t.Precedes u) : f.Signed ⟨p, q, u.types⟩ info.signature := by
  refine ⟨h.symbol ▸ types_eq h.signature ht, h.written, ?_, h.result⟩
  change (q.namesOf f).params.map u.types = _
  have htypes : info.signature.params = info.params.map t.typeOfSymbol := h.params.types
  rw [← h.names, htypes, List.map_map]
  refine List.map_congr_left fun y hy => ?_
  obtain ⟨ty, hl, -⟩ := h.params.values y hy
  rw [types_eq hl ht, Function.comp_apply, typeOfSymbol_eq hl]

theorem function_sound {t₀ : Typing} (h : Opened p q t₀ u) {f : Function} (hf : f ∈ p.functions)
    {n m : Nat} (hw : f.body.isWhole = true) (hb : Item.Bound q n (.function f) m)
    (hr : Ready p q n m t) (ht : t₀.Precedes t) (hu : (function (itemContext p q) t f).Precedes u) :
    (∃ js, Item.Derives ⟨p, q, u.types⟩ (.function f) js) ∧
      Reaches p q n m t (function (itemContext p q) t f) := by
  obtain ⟨info, -, hd, hfind, -⟩ := h.declared.info h.ids hf
  have hitem : t.functionOfItem? f.node.id = some info := by
    rw [functionOfItem?, ← ht.functions]
    exact hfind
  have hstage : Stage p { itemContext p q with function := some info } u :=
    ⟨h.stage.sound, h.clean, h.stage.aliases, fun g hg => (by
      cases hg
      exact hd.result.isValue)⟩
  cases hb with
  | function hptypes hresult hitemOf hparams hkinds hbody =>
    rename_i e
    have hnames : q.namesOf f = e := by
      rw [namesOf, hitemOf]
      rfl
    have hle := hbody.le
    -- The parameters have had types from the start.
    have hknows : Knows q (n + f.params.length) t := by
      refine hr.knows.skip fun y hlt hle _ => ?_
      have hy : y ∈ info.params := by
        rw [hd.names, hnames, hparams, List.mem_range'_1]
        omega
      obtain ⟨ty, hl, hv⟩ := hd.params.values y hy
      exact ⟨ty, lookup_of_isPrefix ht.symbols hl, hv⟩
    have hclear : Clear q (n + f.params.length) m t := by
      intro e he hk
      have := hr.clear e he hk
      omega
    have hblock : f.body.Bound q (n + f.params.length) m := by
      cases hbody' : f.body with
      | mk k ss =>
        rw [hbody'] at hbody
        exact .mk hbody
    rw [function, hitem] at hu ⊢
    dsimp only at hu ⊢
    have hpre : (block { itemContext p q with function := some info } t f.body).Precedes u := by
      split at hu
      · exact hu
      · exact absurd hu h.clean.not_report
    obtain ⟨⟨js, htyped⟩, hreach⟩ := block_sound hstage f.body hw hblock ⟨hknows, hclear, hr.types⟩ hpre
    split at hu
    · rename_i hc
      rw [if_pos hc]
      have hreturns : info.result = .void ∨ f.body.Returns := by
        rw [Bool.or_eq_true, Bool.or_eq_true, decide_eq_true_eq, decide_eq_true_eq] at hc
        rcases hc with (hvoid | hinvalid) | hclosed
        · exact .inl hvoid
        · rcases hd.result.isValue with hv | hv
          · exact absurd hinvalid (Ty.ne_invalid hv)
          · exact .inl hv
        · exact .inr ((Block.returns_iff f.body).mpr hclosed)
      exact ⟨⟨js, .function (hd.signed h.precedes) hd.tags htyped hreturns⟩, hreach.knows,
        hreach.notes.widen (by omega) (Nat.le_refl m)⟩
    · exact absurd hu h.clean.not_report

theorem item_sound {t₀ : Typing} (h : Opened p q t₀ u) {i : Item} (hi : i ∈ p.items) {n m : Nat}
    (hw : i.isWhole = true) (hb : i.Bound q n m) (hr : Ready p q n m t) (ht : t₀.Precedes t)
    (hu : (item (itemContext p q) t i).Precedes u) :
    (∃ js, i.Derives ⟨p, q, u.types⟩ js) ∧ Reaches p q n m t (item (itemContext p q) t i) := by
  cases i with
  | error k => cases hw
  | function f => exact function_sound h (Item.mem_functionsOf.mpr hi) hw hb hr ht hu
  | stmt k s =>
    cases hb with
    | stmt hs =>
      obtain ⟨⟨js, htyped⟩, hreach⟩ := stmt_sound h.stage s hw hs hr hu
      exact ⟨⟨js, .stmt htyped⟩, hreach⟩
  | typeAlias a =>
    obtain ⟨e, he, hid, z, hz, hk, -⟩ := h.settles.stored _ hi _ _ rfl
    have hitem : q.itemOf? a.node.id = some e := hid ▸ itemOf?_eq_some h.settles.items he
    have hsymbol : ((q.itemOf? a.node.id).map (·.symbol)).getD 0 = e.symbol := by
      rw [hitem]
      rfl
    have heq : item (itemContext p q) t (.typeAlias a) = (t.namedType (itemContext p q) e.symbol).1 := by
      rw [item]
      exact congrArg (fun y => (t.namedType (itemContext p q) y).1) hsymbol
    have hext := (extends_namedType t (itemContext p q) e.symbol).toPrecedes
    rw [heq] at hu ⊢
    obtain ⟨hd, hnotes⟩ := namedType_sound h.stage.sound h.stage.aliases hr.types ⟨z, hz, hk⟩
      (hu.isClean h.clean)
    cases hb
    exact ⟨⟨[], .typeAlias hitem hd⟩, hr.knows.mono hext, hnotes⟩

theorem items_sound {t₀ : Typing} (h : Opened p q t₀ u) {is : List Item} (hi : ∀ i ∈ is, i ∈ p.items)
    {n m : Nat} (hw : ∀ i ∈ is, i.isWhole = true) (hb : Item.AllBound q n is m)
    (hr : Ready p q n m t) (ht : t₀.Precedes t) (hu : (is.foldl (item (itemContext p q)) t).Precedes u) :
    (∃ js, Item.AllDerive ⟨p, q, u.types⟩ is js) ∧
      Knows q m (is.foldl (item (itemContext p q)) t) := by
  induction hb generalizing t with
  | nil => exact ⟨⟨[], .nil⟩, hr.knows⟩
  | cons hbi hbis ih =>
    rename_i i is
    rw [List.forall_mem_cons] at hi hw
    have hitem := (extends_item (itemContext p q) t i).toPrecedes
    have hrest := (extends_items (itemContext p q) (item (itemContext p q) t i) is).toPrecedes.trans hu
    obtain ⟨⟨js, htyped⟩, hreach⟩ := item_sound h hi.1 hw.1 hbi (hr.shrink hbis.le) ht hrest
    obtain ⟨⟨ks, hall⟩, hknows⟩ := ih hi.2 hw.2 (hr.after hreach hbi.le) (ht.trans hitem) hu
    exact ⟨⟨js ++ ks, .cons htyped hall⟩, hknows⟩

end

end Typing

open Typing

/-- The types that are known once the functions of a program are declared. -/
def Program.declared (p : Program) (q : Resolution) : Typing :=
  p.functions.foldl (declareFunction (itemContext p q)) (start q)

theorem Program.typed_eq (p : Program) (q : Resolution) :
    p.typed q = p.items.foldl (item (itemContext p q)) (p.declared q) := rfl

/-- Before the items are typed, the functions are declared. -/
theorem Program.opened {p : Program} {q : Resolution} (hids : p.ids.Nodup) (hq : q.Settles p)
    (hc : (p.typed q).IsClean) : Opened p q (p.declared q) (p.typed q) := by
  rw [p.typed_eq] at hc ⊢
  have hitems := extends_items (itemContext p q) (p.declared q) p.items
  exact ⟨hq, hids, (Declared.start hq).run (c := itemContext p q) hq.final.sound (aliasesFit hq)
    (fun f hf => hq.declares hf) (hq.noted_nodup hids) (hitems.isClean hc), hitems.toPrecedes, hc⟩

/-- A program in which typing reports nothing is well typed with the types that are recorded, and all
its variables have types of values. -/
theorem Program.derives_of_clean {p : Program} {q : Resolution} (hw : p.isWhole = true)
    (hids : p.ids.Nodup) (hq : q.Settles p) (hc : (p.typed q).IsClean) :
    (∃ js, p.Derives q (p.typed q).types js) ∧ Knows q q.table.symbols.length (p.typed q) := by
  have h := Program.opened hids hq hc
  obtain ⟨n, hb, hn⟩ := hq.bound
  obtain ⟨⟨js, hall⟩, hknows⟩ := items_sound h (fun _ hi => hi) (List.all_eq_true.mp hw) hb
    ⟨h.declared.knows hq hids hn, h.declared.clear hq n _, h.declared.types⟩ (.refl _) (.refl _)
  have hfind : q.table.findLocal? SymbolTable.outermost "print" = some 5 :=
    hq.final.sound.provided.found _ _ _ (by decide)
  refine ⟨⟨js, fun y hy => ?_, hall⟩, hknows⟩
  obtain rfl : 5 = y := Option.some.inj (hfind.symm.trans hy)
  exact types_eq h.declared.print h.precedes

end Craftlang
