import Craftlang.Proofs.Scope.Hoisting
import Craftlang.Proofs.Scope.Lexical
import Mathlib.Data.List.Nodup

/-!
# The names of functions

In a program whose names are settled every function has a symbol and parameters of its own. In the pack it
goes by its resource name.
-/

namespace Craftlang

namespace Resolution

/-- The symbols of a function. -/
def namesOf (q : Resolution) (f : Function) : ItemSymbols :=
  (q.itemOf? f.node.id).getD { item := f.node.id, symbol := 0 }

/-- The symbols that get types when a function is declared: its parameters and itself. -/
def notedBy (q : Resolution) (f : Function) : List Nat := (q.namesOf f).params ++ [(q.namesOf f).symbol]

/-- The symbols of a function that was declared. -/
structure Declares (q : Resolution) (f : Function) : Prop where
  item : q.itemOf? f.node.id = some (q.namesOf f)
  symbol : ∃ z, q.table.symbol? (q.namesOf f).symbol = some z ∧ z.kind = .function ∧
    z.flags.builtin = false
  length : (q.namesOf f).params.length = f.params.length
  kinds : ∀ y ∈ (q.namesOf f).params, q.HasKind y .param
  types : ∀ x ∈ f.params, q.NamesType x.type
  result : ∀ x ∈ f.result, q.NamesType x

end Resolution

open Resolution

theorem Item.Bound.le {q : Resolution} {n m : Nat} {i : Item} (h : i.Bound q n m) : n ≤ m := by
  cases h with
  | error => exact Nat.le_refl _
  | typeAlias => exact Nat.le_refl _
  | function _ _ _ _ _ hb =>
    have := hb.le
    omega
  | stmt hs => exact hs.le

theorem Item.AllBound.le {q : Resolution} {n m : Nat} {is : List Item} (h : Item.AllBound q n is m) :
    n ≤ m := by
  induction h with
  | nil => exact Nat.le_refl _
  | cons hi _ ih => exact Nat.le_trans hi.le ih

theorem Item.AllBound.exists_bound {q : Resolution} {n m : Nat} {is : List Item} {i : Item}
    (h : Item.AllBound q n is m) (hi : i ∈ is) : ∃ n' m', Item.Bound q n' i m' := by
  induction h with
  | nil => cases hi
  | cons hb _ ih =>
    rcases List.mem_cons.mp hi with rfl | hi
    · exact ⟨_, _, hb⟩
    · exact ih hi

theorem Item.mem_functionsOf {is : List Item} {f : Function} :
    f ∈ Item.functionsOf is ↔ Item.function f ∈ is := by
  rw [functionsOf, List.mem_filterMap]
  refine ⟨fun ⟨i, hi, heq⟩ => ?_, fun h => ⟨_, h, rfl⟩⟩
  cases i with
  | function g => cases heq; exact hi
  | error n => cases heq
  | typeAlias a => cases heq
  | stmt n s => cases heq

/-- Functions have parameters of their own. -/
theorem Item.AllBound.params {q : Resolution} {n m : Nat} {is : List Item}
    (h : Item.AllBound q n is m) :
    ((Item.functionsOf is).flatMap fun f => (q.namesOf f).params).Nodup ∧
      ∀ f ∈ Item.functionsOf is, ∀ y ∈ (q.namesOf f).params, n < y ∧ y ≤ m := by
  induction h with
  | nil => exact ⟨List.nodup_nil, fun f hf => (by cases hf)⟩
  | @cons n m o i is hi his ih =>
    have hle := hi.le
    have hother : (∀ f, i ≠ .function f) → Item.functionsOf (i :: is) = Item.functionsOf is := by
      intro hne
      cases i with
      | function f => exact absurd rfl (hne f)
      | error k => rfl
      | typeAlias a => rfl
      | stmt k s => rfl
    have hwiden : ∀ f ∈ Item.functionsOf is, ∀ y ∈ (q.namesOf f).params, n < y ∧ y ≤ o := by
      intro f hf y hy
      have := ih.2 f hf y hy
      omega
    cases hi with
    | error => rw [hother nofun]; exact ⟨ih.1, hwiden⟩
    | typeAlias => rw [hother nofun]; exact ⟨ih.1, hwiden⟩
    | stmt => rw [hother nofun]; exact ⟨ih.1, hwiden⟩
    | function hptypes hresult hitem hparams hkinds hbody =>
      rename_i f e
      have hnames : (q.namesOf f).params = List.range' (n + 1) f.params.length := by
        rw [namesOf, hitem]
        exact hparams
      have hbody := hbody.le
      have hrest := his.le
      have hcons : Item.functionsOf (.function f :: is) = f :: Item.functionsOf is := rfl
      rw [hcons]
      refine ⟨?_, fun g hg y hy => ?_⟩
      · rw [List.flatMap_cons, List.nodup_append, hnames]
        refine ⟨List.nodup_range', ih.1, fun a ha b hb heq => ?_⟩
        obtain ⟨g, hg, hb⟩ := List.mem_flatMap.mp hb
        have := ih.2 g hg b hb
        rw [List.mem_range'_1] at ha
        omega
      · rcases List.mem_cons.mp hg with rfl | hg
        · rw [hnames, List.mem_range'_1] at hy
          omega
        · exact hwiden g hg y hy

/-- The node of a function is one of the program's. -/
theorem Item.functionIds_sublist (is : List Item) :
    ((Item.functionsOf is).map (·.node.id)).Sublist (is.flatMap Item.ids) := by
  induction is with
  | nil => exact List.Sublist.refl _
  | cons i is ih =>
    rw [List.flatMap_cons]
    cases i with
    | function f =>
      have hone : [f.node.id].Sublist (Item.function f).ids := by
        rw [Item.ids]
        exact List.sublist_append_right _ _
      exact hone.append ih
    | error n => exact ih.trans (List.sublist_append_right _ _)
    | typeAlias a => exact ih.trans (List.sublist_append_right _ _)
    | stmt n s => exact ih.trans (List.sublist_append_right _ _)

namespace Resolution

variable {p : Program} {q : Resolution}

theorem Settles.declares (h : q.Settles p) {f : Function} (hf : f ∈ p.functions) : q.Declares f := by
  have hmem : Item.function f ∈ p.items := Item.mem_functionsOf.mp hf
  obtain ⟨e, he, hid, z, hz, hkind, -, hbuiltin⟩ := h.stored _ hmem _ _ rfl
  have hitem : q.itemOf? f.node.id = some e := hid ▸ itemOf?_eq_some h.items he
  have hnames : q.namesOf f = e := by rw [namesOf, hitem]; rfl
  obtain ⟨n, hb, -⟩ := h.bound
  obtain ⟨n', m', hbound⟩ := hb.exists_bound hmem
  cases hbound with
  | function htypes hresult hi hparams hkinds _ =>
    rw [hitem] at hi
    cases hi
    refine ⟨hnames ▸ hitem, ⟨z, hnames ▸ hz, hkind, hbuiltin⟩, ?_, ?_, htypes, hresult⟩
    · rw [hnames, hparams, List.length_range']
    · rw [hnames]
      exact hkinds

/-- Parameters belong to the calls of their function. -/
theorem Declares.isGlobal_params (hq : q.Sound p) {f : Function} (h : q.Declares f) {y : Nat}
    (hy : y ∈ (q.namesOf f).params) :
    ((q.table.symbol? y).map (·.flags.isGlobal)).getD false = false := by
  obtain ⟨z, hz, hk⟩ := h.kinds y hy
  rw [hz]
  rcases hq.origin y z hz with hs | ⟨-, hkind | ⟨-, hg⟩ | hkind | ⟨hkind, -⟩⟩
  · have hs := SymbolTable.symbol?_start hs
    simp only [List.mem_cons, Prod.mk.injEq, List.not_mem_nil, or_false, hk] at hs
    rcases hs with hs | hs | hs | hs | hs
    all_goals exact absurd hs.2.1 (by decide)
  · exact absurd (hk.symm.trans hkind) (by decide)
  · exact hg
  · exact absurd (hk.symm.trans hkind) (by decide)
  · exact absurd (hk.symm.trans hkind) (by decide)

theorem Settles.symbol?_print (h : q.Settles p) : ∃ z, q.table.symbol? 5 = some z ∧
    z.kind = .function ∧ z.flags.builtin = true ∧ z.name = "print" := by
  obtain ⟨z, hz⟩ := SymbolTable.exists_symbol? (t := .start) (y := 5) (by decide) (by decide)
  have hs := SymbolTable.symbol?_start hz
  simp only [List.mem_cons, Prod.mk.injEq, List.not_mem_nil, or_false] at hs
  refine ⟨z, h.final.sound.provided.symbol? hz, ?_⟩
  rcases hs with hs | hs | hs | hs | hs
  all_goals first | exact ⟨hs.2.1, hs.2.2.2, hs.2.2.1⟩ | exact absurd hs.1 (by decide)

/-- What stands for a function is `print` or the symbol of a declaration. -/
theorem Settles.exists_function (h : q.Settles p) {y : Nat} (hy : q.HasKind y .function) :
    y = 5 ∨ ∃ f ∈ p.functions, (q.namesOf f).symbol = y := by
  obtain ⟨z, hz, hk⟩ := hy
  rcases h.final.sound.origin y z hz with hs | ⟨-, hkind | ⟨hkind, -⟩ | hkind | ⟨-, f, hf, e, he, hid, rfl⟩⟩
  · have hs := SymbolTable.symbol?_start hs
    simp only [List.mem_cons, Prod.mk.injEq, List.not_mem_nil, or_false, hk] at hs
    rcases hs with hs | hs | hs | hs | hs
    all_goals first | exact .inl hs.1 | exact absurd hs.2.1 (by decide)
  · exact absurd (hk.symm.trans hkind) (by decide)
  · exact absurd (hk.symm.trans hkind) (by decide)
  · exact absurd (hk.symm.trans hkind) (by decide)
  · have hitem := (h.declares hf).item
    rw [← hid, itemOf?_eq_some h.items he] at hitem
    exact .inr ⟨f, hf, by rw [← Option.some.inj hitem]⟩

/-- No symbol stands for two functions. -/
theorem Settles.functionSymbols_nodup (h : q.Settles p) (hids : p.ids.Nodup) :
    (p.functions.map fun f => (q.namesOf f).symbol).Nodup := by
  have hnodes : (p.functions.map (·.node.id)).Nodup := hids.sublist (Item.functionIds_sublist p.items)
  rw [List.Nodup, List.pairwise_map] at hnodes ⊢
  refine hnodes.imp_of_mem fun {f g} hf hg hne heq => hne ?_
  have hf := (h.declares hf).item
  have hg := (h.declares hg).item
  have hsame := List.inj_on_of_nodup_map h.symbols (List.mem_of_find?_eq_some hf)
    (List.mem_of_find?_eq_some hg) heq
  have hfi := List.find?_some hf
  have hgi := List.find?_some hg
  rw [beq_iff_eq] at hfi hgi
  rw [← hfi, ← hgi, hsame]

/-- Every symbol gets its type once when functions are declared. -/
theorem Settles.noted_nodup (h : q.Settles p) (hids : p.ids.Nodup) :
    (5 :: p.functions.flatMap q.notedBy).Nodup := by
  obtain ⟨n, hb, -⟩ := h.bound
  have hsymbols := h.functionSymbols_nodup hids
  have hparams := (List.nodup_flatMap.mp hb.params.1)
  rw [List.Nodup, List.pairwise_map] at hsymbols
  have hfunction : ∀ f ∈ p.functions, q.HasKind (q.namesOf f).symbol .function := by
    intro f hf
    obtain ⟨z, hz, hk, -⟩ := (h.declares hf).symbol
    exact ⟨z, hz, hk⟩
  have hkinds : ∀ f ∈ p.functions, ∀ g ∈ p.functions, (q.namesOf f).symbol ∉ (q.namesOf g).params := by
    intro f hf g hg hmem
    cases (hfunction f hf).unique ((h.declares hg).kinds _ hmem)
  refine List.nodup_cons.mpr ⟨fun hmem => ?_, List.nodup_flatMap.mpr ⟨fun f hf => ?_, ?_⟩⟩
  · obtain ⟨z, hz, hk, hbuiltin, -⟩ := h.symbol?_print
    obtain ⟨f, hf, hmem⟩ := List.mem_flatMap.mp hmem
    rcases List.mem_append.mp hmem with hmem | hmem
    · have hparam := (h.declares hf).kinds _ hmem
      cases hparam.unique ⟨z, hz, hk⟩
    · obtain ⟨z', hz', -, hbuiltin'⟩ := (h.declares hf).symbol
      rw [← List.mem_singleton.mp hmem, hz] at hz'
      cases hz'
      rw [hbuiltin] at hbuiltin'
      cases hbuiltin'
  · refine List.nodup_append.mpr ⟨hparams.1 f hf, List.nodup_singleton _, fun a ha b hb heq => ?_⟩
    rw [heq, List.mem_singleton.mp hb] at ha
    exact hkinds f hf f hf ha
  · refine (hparams.2.and hsymbols).imp_of_mem fun {f g} hf hg hfg => ?_
    intro y hyf hyg
    rcases List.mem_append.mp hyf with hyf | hyf <;> rcases List.mem_append.mp hyg with hyg | hyg
    · exact hfg.1 hyf hyg
    · exact hkinds g hg f hf (List.mem_singleton.mp hyg ▸ hyf)
    · exact hkinds f hf g hg (List.mem_singleton.mp hyf ▸ hyg)
    · exact hfg.2 ((List.mem_singleton.mp hyf).symm.trans (List.mem_singleton.mp hyg))

end Resolution

/-!
## Resource names

Every function of a program becomes one of the pack under its resource name. The functions of a program
without errors have resource names that differ, none of which is the one of the program itself.
-/

namespace Resolution

variable {w : Bool} {here : Nat} {outer : List Nat} {r : Resolution}

/-- The resource names of the functions that are declared so far differ from each other and from that of
the program, and each is owned by a function that is found in the scope. -/
structure Owns (r : Resolution) (here : Nat) (names : List Bytes) : Prop where
  resources : r.resources.map (·.1) = names.map ResourceName.normalize
  nodup : (names.map ResourceName.normalize).Nodup
  entry : ResourceName.entry ∉ names.map ResourceName.normalize
  found : ∀ e ∈ r.resources, ∃ z, r.table.symbol? e.2 = some z ∧
    (r.table.findLocal? here z.name).isSome = true

theorem Owns.grows {names : List Bytes} {table : SymbolTable} {ds : List Diagnostic}
    {items : List ItemSymbols} (h : r.Owns here names) (hg : r.table.Grows table) :
    ({ r with table, diagnostics := ds, items } : Resolution).Owns here names := by
  refine ⟨h.resources, h.nodup, h.entry, fun e he => ?_⟩
  obtain ⟨z, hz, hfound⟩ := h.found e he
  obtain ⟨y, hy⟩ := Option.isSome_iff_exists.mp hfound
  exact ⟨z, hg.symbol? hz, Option.isSome_iff_exists.mpr ⟨y, hg.found _ _ _ hy⟩⟩

theorem diagnostics_declare (w : Bool) (path : List Nat) (r : Resolution) (symbol : Symbol) :
    (r.declare w path symbol).1.diagnostics = (r.checkDeclaration w path symbol).diagnostics := by
  unfold declare
  dsimp only
  split <;> rfl

/-- A name that is declared without errors was not there before. -/
theorem findLocal?_of_isClean {symbol : Symbol}
    (h : (r.declare w (here :: outer) symbol).1.IsClean) : r.table.findLocal? here symbol.name = none := by
  have hchecked : (r.checkDeclaration w (here :: outer) symbol).IsClean := fun d hd =>
    h d (diagnostics_declare w _ r symbol ▸ hd)
  unfold checkDeclaration at hchecked
  dsimp only at hchecked
  split at hchecked
  · exact absurd hchecked (not_isClean_report rfl)
  · assumption

/-- A function that is reported for nothing owns its resource name. -/
theorem Owns.checkResource {names : List Bytes} {symbol : Nat} {z : Symbol} {name : Name}
    (h : r.Owns here names) (hz : r.table.symbol? symbol = some z) (hname : z.name = name.text)
    (hfound : (r.table.findLocal? here name.text).isSome = true)
    (hfresh : ∀ e ∈ r.resources, r.table.nameOf e.2 ≠ name.text)
    (hc : (r.checkResource symbol name).IsClean) :
    (r.checkResource symbol name).Owns here (names ++ [name.text]) := by
  unfold Resolution.checkResource at hc ⊢
  dsimp only at hc ⊢
  by_cases hentry : (ResourceName.normalize name.text == ResourceName.entry) = true
  · rw [if_pos hentry] at hc
    exact absurd hc (not_isClean_report rfl)
  rw [if_neg hentry] at hc ⊢
  cases hl : r.resources.lookup (ResourceName.normalize name.text) with
  | some other =>
    rw [hl] at hc
    obtain ⟨before, after, heq, -⟩ := List.lookup_eq_some_iff.mp hl
    have hne : ¬ (r.table.nameOf other == name.text) = true := fun h =>
      hfresh (_, other) (heq ▸ List.mem_append_right _ List.mem_cons_self) (eq_of_beq h)
    dsimp only at hc
    rw [if_neg hne] at hc
    exact absurd hc (not_isClean_report rfl)
  | none =>
    have hnew : ResourceName.normalize name.text ∉ names.map ResourceName.normalize := by
      rw [← h.resources]
      intro hmem
      obtain ⟨e, he, heq⟩ := List.mem_map.mp hmem
      have := List.lookup_eq_none_iff.mp hl e he
      simp [heq] at this
    refine ⟨?_, ?_, ?_, fun e he => ?_⟩
    · simp [h.resources]
    · rw [List.map_append, List.nodup_append]
      refine ⟨h.nodup, by simp, fun a ha b hb heq => ?_⟩
      rw [heq, List.mem_singleton.mp hb] at ha
      exact hnew ha
    · rw [List.map_append, List.mem_append]
      rintro (hmem | hmem)
      · exact h.entry hmem
      · exact hentry (beq_iff_eq.mpr (List.mem_singleton.mp hmem).symm)
    · rcases List.mem_append.mp he with he | he
      · exact h.found e he
      · rw [List.mem_singleton.mp he]
        exact ⟨z, hz, hname ▸ hfound⟩

theorem Owns.hoist {names : List Bytes} (h : r.Owns here names) (hp : r.Stands (here :: outer)) (i : Item)
    (hc : (hoist w (here :: outer) r i).IsClean) :
    (hoist w (here :: outer) r i).Owns here (names ++ (Item.functionsOf [i]).map (·.name.text)) := by
  cases i with
  | error n => exact (List.append_nil names).symm ▸ h
  | stmt n s => exact (List.append_nil names).symm ▸ h
  | typeAlias a =>
    obtain ⟨ds, table, heq, hd⟩ := declare_eq w hp
      { name := a.name.text, kind := .type, span := a.name.span, flags := { hoisted := true } }
    rw [Resolution.hoist, heq]
    exact (List.append_nil names).symm ▸ h.grows (.declare hd)
  | function f =>
    rw [Resolution.hoist] at hc ⊢
    generalize hsymbol : (
      { name := f.name.text, kind := .function, span := f.name.span,
        flags := { hoisted := true, isGlobal := true } } : Symbol) = symbol at hc ⊢
    have hname : symbol.name = f.name.text := by rw [← hsymbol]
    have hfresh : (r.declare w (here :: outer) symbol).1.IsClean →
        r.table.findLocal? here symbol.name = none := findLocal?_of_isClean
    obtain ⟨ds, table, heq, hd⟩ := declare_eq w hp symbol
    rw [heq] at hc hfresh ⊢
    dsimp only at hc hfresh ⊢
    generalize hq : Resolution.addItem { r with table, diagnostics := r.diagnostics ++ ds } f.node.id _ = q
      at hc ⊢
    have howns : q.Owns here names := hq ▸ h.grows (.declare hd)
    have hqclean : ({ r with table, diagnostics := r.diagnostics ++ ds } : Resolution).IsClean := by
      obtain ⟨ds', resources, hds'⟩ := checkResource_eq q (r.table.symbols.length + 1) f.name
      rw [hds'] at hc
      exact fun d hd => hc d (List.mem_append_left _ (hq ▸ hd))
    have hnone := hname ▸ hfresh hqclean
    have hgrows : r.table.Grows table := .declare hd
    have hstored := (SymbolTable.symbol?_of_append (symbols_of_declare hd) (r.table.symbols.length + 1)).trans
      (if_pos rfl)
    subst hq
    refine howns.checkResource hstored hname ?_ (fun e he howner => ?_) hc
    · change (table.findLocal? here f.name.text).isSome = true
      rw [SymbolTable.findLocal?_declare hd]
      simp [localized, hname]
    · -- The owner of a resource name is found in the scope, where this name is new.
      obtain ⟨z, hz, hfound⟩ := h.found e he
      change table.nameOf e.2 = f.name.text at howner
      rw [SymbolTable.nameOf, hgrows.symbol? hz] at howner
      change z.name = f.name.text at howner
      rw [howner, hnone] at hfound
      cases hfound

theorem isClean_of_hoist {path : List Nat} (hp : r.Stands path) (i : Item)
    (hc : (Resolution.hoist w path r i).IsClean) : r.IsClean := by
  cases hi : hoisted? i with
  | none => rwa [hoist_of_none w hi] at hc
  | some declared =>
    obtain ⟨ds, table, resources, heq, -⟩ := hoist_eq w hp hi
    rw [heq] at hc
    exact fun d hd => hc d (List.mem_append_left _ hd)

theorem isClean_of_hoists {path : List Nat} {p : Program} {done : List Item} (hr : Hoisted p path done r)
    (is : List Item) (hi : ∀ i ∈ is, i ∈ p.items)
    (hc : (is.foldl (Resolution.hoist w path) r).IsClean) : r.IsClean := by
  induction is generalizing r done with
  | nil => exact hc
  | cons i is ih =>
    exact isClean_of_hoist hr.stands i
      (ih (hr.step w (hi i List.mem_cons_self)) (fun j hj => hi j (List.mem_cons_of_mem _ hj)) hc)

theorem Owns.run {names : List Bytes} {p : Program} {done : List Item} (h : r.Owns here names)
    (hr : Hoisted p (here :: outer) done r) (is : List Item) (hi : ∀ i ∈ is, i ∈ p.items)
    (hc : (is.foldl (Resolution.hoist w (here :: outer)) r).IsClean) :
    (is.foldl (Resolution.hoist w (here :: outer)) r).Owns here
      (names ++ (Item.functionsOf is).map (·.name.text)) := by
  induction is generalizing r names done with
  | nil => exact (List.append_nil names).symm ▸ h
  | cons i is ih =>
    have hstep := hr.step w (hi i List.mem_cons_self)
    have hrest : ∀ j ∈ is, j ∈ p.items := fun j hj => hi j (List.mem_cons_of_mem _ hj)
    have hclean := isClean_of_hoists hstep is hrest hc
    have := ih (h.hoist hr.stands i hclean) hstep hrest hc
    rw [List.append_assoc, ← List.map_append] at this
    have hcons : Item.functionsOf [i] ++ Item.functionsOf is = Item.functionsOf (i :: is) := by
      cases i <;> rfl
    rwa [hcons] at this

end Resolution

open Resolution

/-- The resource names of the functions of a program without errors differ from each other and from that
of the program itself. -/
theorem Program.resolve_owns {p : Program} {w : Bool} (hc : (p.resolve w).IsClean) :
    (p.functions.map fun f => ResourceName.normalize f.name.text).Nodup ∧
      ∀ f ∈ p.functions, ResourceName.normalize f.name.text ≠ ResourceName.entry := by
  have hr := p.hoisted w
  rw [p.resolve_eq] at hc
  have hclean := (extends_items w hr.sound hr.stands p.items).grows.isClean hc
  have hopened : p.fileOpened.Owns 2 [] := ⟨rfl, List.nodup_nil, List.not_mem_nil, nofun⟩
  have howns := hopened.run (p.hoisted_start) p.items (fun _ h => h) hclean
  rw [List.nil_append] at howns
  have hnames : p.functions.map (fun f => ResourceName.normalize f.name.text)
      = ((Item.functionsOf p.items).map (·.name.text)).map ResourceName.normalize := by
    rw [List.map_map]
    rfl
  rw [hnames]
  refine ⟨howns.nodup, fun f hf heq => howns.entry ?_⟩
  rw [← hnames]
  exact List.mem_map.mpr ⟨f, hf, heq⟩

end Craftlang
