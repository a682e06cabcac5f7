import Craftlang.Proofs.Scope.Items

/-!
# Declarations that are visible everywhere

Functions and type aliases are declared before anything else. Each gets a symbol of its own.
-/

namespace Craftlang

/-- The functions among items. -/
def Item.functionsOf (is : List Item) : List Function :=
  is.filterMap fun
    | .function f => some f
    | _ => none

namespace Resolution

variable {p : Program} {r : Resolution} {path : List Nat} (w : Bool)

theorem checkResource_eq (r : Resolution) (symbol : Nat) (name : Name) : ∃ ds resources,
    r.checkResource symbol name = { r with diagnostics := r.diagnostics ++ ds, resources } := by
  unfold checkResource
  dsimp only
  split
  · exact ⟨_, _, rfl⟩
  · split
    · exact ⟨[], r.resources ++ [(ResourceName.normalize name.text, symbol)], by simp⟩
    · split
      · exact ⟨[], r.resources, by simp⟩
      · exact ⟨_, _, rfl⟩

/-- What an item declares for the whole program, with the number of its node. -/
def hoisted? : Item → Option (Nat × Symbol)
  | .function f => some (f.node.id,
      { name := f.name.text, kind := .function, span := f.name.span,
        flags := { hoisted := true, isGlobal := true } })
  | .typeAlias a => some (a.node.id,
      { name := a.name.text, kind := .type, span := a.name.span, flags := { hoisted := true } })
  | _ => none

/-- A declaration for the whole program adds a symbol and an item. -/
theorem hoist_eq (hp : r.Stands path) {i : Item} {id : Nat} {symbol : Symbol}
    (hi : hoisted? i = some (id, symbol)) : ∃ ds table resources,
    hoist w path r i = { r with
      table
      diagnostics := r.diagnostics ++ ds
      items := r.items ++ [{ item := id, symbol := r.table.symbols.length + 1 }]
      resources } ∧
    r.table.declare? (path.headD 0) (r.localized path symbol)
      = some (table, r.table.symbols.length + 1) := by
  obtain ⟨ds, table, heq, hd⟩ := declare_eq w hp symbol
  cases i with
  | function f =>
    cases hi
    obtain ⟨ds', resources, hc⟩ := checkResource_eq
      (({ r with table, diagnostics := r.diagnostics ++ ds } : Resolution).addItem f.node.id
        (r.table.symbols.length + 1)) (r.table.symbols.length + 1) f.name
    refine ⟨ds ++ ds', table, resources, ?_, hd⟩
    rw [hoist, heq]
    dsimp only
    rw [hc]
    simp [addItem]
  | typeAlias a =>
    cases hi
    refine ⟨ds, table, r.resources, ?_, hd⟩
    rw [hoist, heq]
    rfl
  | error n => cases hi
  | stmt n s => cases hi

theorem hoist_of_none {i : Item} (hi : hoisted? i = none) : hoist w path r i = r := by
  cases i with
  | error n => rfl
  | stmt n s => rfl
  | function f => cases hi
  | typeAlias a => cases hi

/-- The number of a symbol that was declared for the whole program. -/
def Stores (r : Resolution) (y : Nat) (symbol : Symbol) : Prop :=
  ∃ z, r.table.symbol? y = some z ∧ z.kind = symbol.kind ∧ z.name = symbol.name ∧
    z.flags.builtin = false

/-- What is known once the declarations of some items are made. -/
structure Hoisted (p : Program) (path : List Nat) (is : List Item) (r : Resolution) : Prop where
  sound : r.Sound p
  stands : r.Stands path
  refs : r.refs = []
  decls : r.decls = []
  ids : ∀ x, (r.items.map (·.item)).count x ≤ (is.flatMap Item.ids).count x
  symbols : (r.items.map (·.symbol)).Nodup
  le : ∀ i ∈ r.items, i.symbol ≤ r.table.symbols.length
  global : ∀ y z, r.table.symbol? y = some z → z.kind ≠ .var ∧ z.kind ≠ .param
  stored : ∀ i ∈ is, ∀ id symbol, hoisted? i = some (id, symbol) →
    ∃ e ∈ r.items, e.item = id ∧ r.Stores e.symbol symbol

theorem count_hoisted? {i : Item} {id : Nat} {symbol : Symbol} (hi : hoisted? i = some (id, symbol))
    (x : Nat) : [id].count x ≤ i.ids.count x := by
  cases i with
  | function f => cases hi; simp [Item.ids]
  | typeAlias a => cases hi; simp [Item.ids]
  | error n => cases hi
  | stmt n s => cases hi

/-- Only functions and types are declared for the whole program. -/
theorem kind_of_hoisted? {i : Item} (hi : i ∈ p.items) {id : Nat} {symbol : Symbol}
    (hh : hoisted? i = some (id, symbol)) : symbol.flags.builtin = false ∧ (symbol.kind = .type ∨
      symbol.kind = .function ∧ ∃ f ∈ p.functions, id = f.node.id) := by
  cases i with
  | function f =>
    cases hh
    exact ⟨rfl, .inr ⟨rfl, f, List.mem_filterMap.mpr ⟨_, hi, rfl⟩, rfl⟩⟩
  | typeAlias a =>
    cases hh
    exact ⟨rfl, .inl rfl⟩
  | error n => cases hh
  | stmt n s => cases hh

theorem Origin.mono {r' : Resolution} {y : Nat} {z : Symbol} (h : Origin p r y z)
    (hi : ∀ i ∈ r.items, i ∈ r'.items) : Origin p r' y z := by
  rcases h with ho | ⟨hb, ho | ho | ho | ⟨hk, f, hf, e, he, ho⟩⟩
  · exact .inl ho
  · exact .inr ⟨hb, .inl ho⟩
  · exact .inr ⟨hb, .inr (.inl ho)⟩
  · exact .inr ⟨hb, .inr (.inr (.inl ho))⟩
  · exact .inr ⟨hb, .inr (.inr (.inr ⟨hk, f, hf, e, hi e he, ho⟩))⟩

/-- The new symbol comes from its item. -/
theorem sound_hoist (hr : r.Sound p) (hp : r.Stands path) {i : Item} (hi : i ∈ p.items) {id : Nat}
    {symbol : Symbol} (hh : hoisted? i = some (id, symbol)) : (hoist w path r i).Sound p := by
  obtain ⟨ds, table, resources, heq, hd⟩ := hoist_eq w hp hh
  obtain ⟨hbuiltin, hkind⟩ := kind_of_hoisted? hi hh
  have hne : symbol.kind ≠ .error := by rcases hkind with hk | ⟨hk, -⟩ <;> simp [hk]
  obtain ⟨hvalid, hprovided, hsymbol⟩ := sound_of_declare hr hd hne
  have hgrows : r.table.Grows table := .declare hd
  rw [heq]
  refine ⟨hvalid, hprovided, hr.implicit, fun y z hz => ?_, fun hc e he => ?_⟩
  · change table.symbol? y = some z at hz
    rw [hsymbol] at hz
    split at hz
    · rename_i hy
      cases hz
      refine .inr ⟨hbuiltin, ?_⟩
      rcases hkind with hk | ⟨hk, f, hf, hid⟩
      · exact .inr (.inr (.inl hk))
      · exact .inr (.inr (.inr ⟨hk, f, hf, _, List.mem_append_right _ (List.mem_singleton.mpr rfl),
          hid, hy.symm⟩))
    · exact (hr.origin y z hz).mono fun e he => List.mem_append_left _ he
  · obtain ⟨z, hz, hk⟩ := hr.types (fun d hd => hc d (List.mem_append_left _ hd)) e he
    exact ⟨z, hgrows.symbol? hz, hk⟩

theorem Hoisted.step {is : List Item} (h : Hoisted p path is r) {i : Item} (hi : i ∈ p.items) :
    Hoisted p path (is ++ [i]) (hoist w path r i) := by
  cases hh : hoisted? i with
  | none =>
    rw [hoist_of_none w hh]
    refine { h with ids := fun x => ?_, stored := fun j hj id symbol hs => ?_ }
    · have := h.ids x
      simp only [List.flatMap_append, List.count_append]
      omega
    · rcases List.mem_append.mp hj with hj | hj
      · exact h.stored j hj id symbol hs
      · rw [List.mem_singleton.mp hj, hh] at hs
        cases hs
  | some declared =>
    obtain ⟨id, symbol⟩ := declared
    have hsound := sound_hoist w h.sound h.stands hi hh
    obtain ⟨ds, table, resources, heq, hd⟩ := hoist_eq w h.stands hh
    have hsymbols := symbols_of_declare hd
    have hgrows : r.table.Grows table := .declare hd
    have hlen : table.symbols.length = r.table.symbols.length + 1 := by
      rw [hsymbols, List.length_append]
      rfl
    rw [heq] at hsound ⊢
    refine ⟨hsound, hgrows.scope _ h.stands, h.refs, h.decls, fun x => ?_, ?_, fun e he => ?_,
      fun y z hz => ?_, fun j hj id' symbol' hs => ?_⟩
    · have := h.ids x
      have := count_hoisted? hh x
      simp only [List.map_append, List.count_append, List.flatMap_append, List.flatMap_cons,
        List.flatMap_nil, List.append_nil, List.map_cons, List.map_nil] at *
      omega
    · rw [List.map_append, List.nodup_append]
      refine ⟨h.symbols, by simp, fun y hy y' hy' heq => ?_⟩
      obtain ⟨e, he, rfl⟩ := List.mem_map.mp hy
      have hle := h.le e he
      have hy' : y' = r.table.symbols.length + 1 := List.mem_singleton.mp hy'
      omega
    · change e.symbol ≤ table.symbols.length
      rcases List.mem_append.mp he with he | he
      · have := h.le e he
        omega
      · simp only [List.mem_singleton.mp he, hlen, Nat.le_refl]
    · change table.symbol? y = some z at hz
      rw [SymbolTable.symbol?_of_append hsymbols] at hz
      split at hz
      · cases hz
        change symbol.kind ≠ _ ∧ symbol.kind ≠ _
        rcases (kind_of_hoisted? hi hh).2 with hk | ⟨hk, -⟩ <;> simp [hk]
      · exact h.global y z hz
    · rcases List.mem_append.mp hj with hj | hj
      · obtain ⟨e, he, hid, z, hz, hprops⟩ := h.stored j hj id' symbol' hs
        exact ⟨e, List.mem_append_left _ he, hid, z, hgrows.symbol? hz, hprops⟩
      · rw [List.mem_singleton.mp hj, hh] at hs
        cases hs
        exact ⟨_, List.mem_append_right _ (List.mem_singleton.mpr rfl), rfl, _,
          (SymbolTable.symbol?_of_append hsymbols _).trans (if_pos rfl), rfl, rfl,
          (kind_of_hoisted? hi hh).1⟩

theorem Hoisted.run {is : List Item} (h : Hoisted p path is r) (rest : List Item)
    (hi : ∀ i ∈ rest, i ∈ p.items) : Hoisted p path (is ++ rest) (rest.foldl (hoist w path) r) := by
  induction rest generalizing is r with
  | nil => rwa [List.append_nil]
  | cons i rest ih =>
    have hstep := h.step w (hi i List.mem_cons_self)
    have := ih hstep fun j hj => hi j (List.mem_cons_of_mem _ hj)
    rwa [List.append_assoc] at this

/-- The names of a program that are resolved without errors. -/
structure Settles (q : Resolution) (p : Program) : Prop where
  final : q.Final p
  items : (q.items.map (·.item)).Nodup
  symbols : (q.items.map (·.symbol)).Nodup
  stored : ∀ i ∈ p.items, ∀ id symbol, hoisted? i = some (id, symbol) →
    ∃ e ∈ q.items, e.item = id ∧ q.Stores e.symbol symbol
  bound : ∃ n, Item.AllBound q n p.items q.table.symbols.length ∧
    ∀ y z, y ≤ n → q.table.symbol? y = some z → z.kind ≠ .var ∧ z.kind ≠ .param

end Resolution

open Resolution

theorem SymbolTable.exists_symbol? {t : SymbolTable} {y : Nat} (h : 0 < y)
    (hy : y ≤ t.symbols.length) : ∃ z, t.symbol? y = some z := by
  rw [symbol?, if_neg (by omega)]
  exact ⟨_, List.getElem?_eq_getElem (by omega)⟩

/-- What is there before anything is declared: the names of the language, and the scope of the file. -/
def Program.fileOpened (p : Program) : Resolution :=
  (({ table := .start } : Resolution).openScope .file [SymbolTable.outermost] p.span).1

/-- The scope of the file, inside the outermost one. -/
def filePath : List Nat := [2, SymbolTable.outermost]

theorem Program.hoisted_start (p : Program) : Hoisted p filePath [] p.fileOpened := by
  have hstart : Sound p { table := .start } := by
    refine ⟨.start, .refl _, List.Sublist.refl _, fun y z hz => .inl hz, fun _ e he => by cases he⟩
  have hstands : Resolution.Stands { table := .start } [SymbolTable.outermost] := rfl
  obtain ⟨ho, hp⟩ := extends_openScope hstart hstands .file (by decide) p.span
  refine ⟨ho.sound, hp, rfl, rfl, fun x => Nat.zero_le _, List.nodup_nil,
    fun i hi => (by cases hi), fun y z hz => ?_, fun i hi => (by cases hi)⟩
  have hz' := SymbolTable.symbol?_start ((SymbolTable.symbol?_openScope _ _ _ _ _).symm.trans hz)
  simp only [List.mem_cons, Prod.mk.injEq, List.not_mem_nil, or_false] at hz'
  rcases hz' with h | h | h | h | h <;> simp [h]

/-- Before anything is resolved the declarations are made. -/
theorem Program.hoisted (p : Program) (w : Bool) :
    Hoisted p filePath p.items (p.items.foldl (hoist w filePath) p.fileOpened) :=
  p.hoisted_start.run w p.items fun _ h => h

theorem Program.resolve_eq (p : Program) (w : Bool) : p.resolve w =
    p.items.foldl (Resolution.item w filePath) (p.items.foldl (hoist w filePath) p.fileOpened) := rfl

/-- Resolving leaves a table without faults. -/
theorem Program.resolve_faults (p : Program) (w : Bool) : (p.resolve w).table.faults = [] := by
  have hr := p.hoisted w
  rw [p.resolve_eq]
  exact (extends_items w hr.sound hr.stands p.items).sound.valid.faults_eq_nil

/-- The declarations for the whole program are there, whatever else is wrong: items have symbols of their
own, and these are what the items declare. -/
structure Resolution.Hoists (q : Resolution) (p : Program) : Prop where
  sound : q.Sound p
  items : (q.items.map (·.item)).Nodup
  symbols : (q.items.map (·.symbol)).Nodup
  stored : ∀ i ∈ p.items, ∀ id symbol, hoisted? i = some (id, symbol) →
    ∃ e ∈ q.items, e.item = id ∧ q.Stores e.symbol symbol

theorem Resolution.Settles.hoists {q : Resolution} {p : Program} (h : q.Settles p) : q.Hoists p :=
  ⟨h.final.sound, h.items, h.symbols, h.stored⟩

/-- Resolving a program declares its items. -/
theorem Program.resolve_hoists {p : Program} (hids : p.ids.Nodup) (w : Bool) : (p.resolve w).Hoists p := by
  have hr := p.hoisted w
  rw [p.resolve_eq]
  generalize p.items.foldl (hoist w filePath) p.fileOpened = r at hr ⊢
  have hx := extends_items w hr.sound hr.stands p.items
  refine ⟨hx.sound, ?_, ?_, fun i hi id symbol hh => ?_⟩
  · rw [hx.items.items]
    refine List.nodup_iff_count.mpr fun x => ?_
    have := hr.ids x
    have := List.nodup_iff_count.mp hids x
    rw [Program.ids] at this
    omega
  · rw [hx.items.symbols]
    exact hr.symbols
  · obtain ⟨e, he, hid, z, hz, hprops⟩ := hr.stored i hi id symbol hh
    obtain ⟨e', he', hid', hs'⟩ := hx.items.exists_mem he
    exact ⟨e', he', hid'.trans hid, z, by rw [hs']; exact hx.grows.table.symbol? hz, hprops⟩

/-- Resolving a program without errors settles its names. -/
theorem Program.resolve_settles {p : Program} (hids : p.ids.Nodup) {w : Bool}
    (hc : (p.resolve w).IsClean) : (p.resolve w).Settles p := by
  have hhoists := p.resolve_hoists hids w
  have hr := p.hoisted w
  rw [p.resolve_eq] at hc hhoists ⊢
  generalize p.items.foldl (hoist w filePath) p.fileOpened = r at hr hc hhoists ⊢
  have hx := extends_items w hr.sound hr.stands p.items
  have hfinal : Final p (p.items.foldl (Resolution.item w filePath) r) := by
    refine ⟨hc, hx.sound, ?_, ?_⟩
    · have := hx.refs
      rw [hr.refs] at this
      exact this.nodup hids
    · have := hx.decls
      rw [hr.decls] at this
      exact this.nodup hids
  refine ⟨hfinal, hhoists.items, hhoists.symbols, hhoists.stored, r.table.symbols.length,
    items_bound w hfinal hr.sound hr.stands p.items hids ?_ hhoists.items (fun _ h => h) (.refl _), ?_⟩
  · intro f hf
    obtain ⟨e, he, hid, -⟩ := hr.stored _ hf _ _ rfl
    exact ⟨e, he, hid⟩
  · intro y z hy hz
    obtain ⟨z', hz'⟩ := SymbolTable.exists_symbol? (SymbolTable.le_of_symbol? hz).1 hy
    have := hx.grows.table.symbol? hz'
    rw [hz] at this
    cases this
    exact hr.global y z hz'

end Craftlang
