import Craftlang.Scope.Validity

/-!
# Tables stay valid

A table that is built by opening scopes and declaring symbols in them has no faults. What is looked up
in such a table is a symbol with the name that was looked for, and a name that means a symbol in a
scope goes on to mean it.
-/

namespace Craftlang

namespace Scope

theorem mem_addToIndex {name : Bytes} {y : Nat} {index : List (Bytes × List Nat)}
    {e : Bytes × List Nat} (he : e ∈ addToIndex name y index) {z : Nat} (hz : z ∈ e.2) :
    (z = y ∧ e.1 = name) ∨ ∃ e' ∈ index, e'.1 = e.1 ∧ z ∈ e'.2 := by
  induction index with
  | nil =>
    rw [addToIndex, List.mem_singleton] at he
    subst he
    exact .inl ⟨List.mem_singleton.mp hz, rfl⟩
  | cons first rest ih =>
    rw [addToIndex] at he
    split at he
    · rename_i hname
      rcases List.mem_cons.mp he with rfl | he
      · rcases List.mem_append.mp hz with hz | hz
        · exact .inr ⟨first, List.mem_cons_self, rfl, hz⟩
        · exact .inl ⟨List.mem_singleton.mp hz, by simpa using hname⟩
      · exact .inr ⟨e, List.mem_cons_of_mem _ he, rfl, hz⟩
    · rcases List.mem_cons.mp he with rfl | he
      · exact .inr ⟨e, List.mem_cons_self, rfl, hz⟩
      · rcases ih he with h | ⟨e', he', h⟩
        · exact .inl h
        · exact .inr ⟨e', List.mem_cons_of_mem _ he', h⟩

theorem mem_flatMap_addToIndex (name : Bytes) (y : Nat) (index : List (Bytes × List Nat)) (z : Nat) :
    z ∈ (addToIndex name y index).flatMap (·.2) ↔ z = y ∨ z ∈ index.flatMap (·.2) := by
  induction index with
  | nil => simp [addToIndex]
  | cons first rest ih =>
    rw [addToIndex]
    split
    · simp only [List.flatMap_cons, List.mem_append, List.mem_singleton]
      grind
    · rw [List.flatMap_cons, List.mem_append, ih, List.flatMap_cons, List.mem_append]
      grind

/-- What a name means in a scope does not change when more is declared. -/
theorem find?_declare {s : Scope} {name : Bytes} {y : Nat} (h : s.find? name = some y)
    (other : Bytes) (z : Nat) : (s.declare other z).find? name = some y := by
  rw [find?, bucket] at h ⊢
  change ((((addToIndex other z s.index).find? _).map _).getD []).head? = _
  generalize s.index = index at h ⊢
  induction index with
  | nil => simp at h
  | cons first rest ih =>
    rw [addToIndex]
    by_cases hf : (first.1 == name) = true
    · simp only [List.find?_cons, hf, Option.map_some, Option.getD_some] at h
      split
      · simp [hf, List.head?_append, h]
      · simp [hf, h]
    · rw [Bool.not_eq_true] at hf
      simp only [List.find?_cons, hf] at h
      split
      · simp [hf, h]
      · simp only [List.find?_cons, hf]
        exact ih h

theorem mem_of_find? {s : Scope} {name : Bytes} {y : Nat} (h : s.find? name = some y) :
    ∃ e ∈ s.index, e.1 = name ∧ y ∈ e.2 := by
  rw [find?, bucket] at h
  cases hf : s.index.find? fun entry => entry.1 == name with
  | none => rw [hf] at h; cases h
  | some e =>
    rw [hf] at h
    have hname := List.find?_some hf
    exact ⟨e, List.mem_of_find?_eq_some hf, by simpa using hname, List.mem_of_mem_head? h⟩

end Scope

namespace SymbolTable

variable {t : SymbolTable}

theorem le_of_scope? {id : Nat} {s : Scope} (h : t.scope? id = some s) :
    0 < id ∧ id ≤ t.scopes.length := by
  rw [scope?] at h
  split at h
  · cases h
  · have := (List.getElem?_eq_some_iff.mp h).1
    omega

theorem le_of_symbol? {id : Nat} {y : Symbol} (h : t.symbol? id = some y) :
    0 < id ∧ id ≤ t.symbols.length := by
  rw [symbol?] at h
  split at h
  · cases h
  · have := (List.getElem?_eq_some_iff.mp h).1
    omega

@[simp] theorem symbols_modifyScope (t : SymbolTable) (id : Nat) (f : Scope → Scope) :
    (t.modifyScope id f).symbols = t.symbols := by
  rw [modifyScope]
  split <;> rfl

theorem mem_of_symbol? {y : Nat} {z : Symbol} (h : t.symbol? y = some z) : z ∈ t.symbols := by
  rw [symbol?] at h
  split at h
  · cases h
  · exact List.mem_of_getElem? h

@[simp] theorem symbol?_modifyScope (t : SymbolTable) (id : Nat) (f : Scope → Scope) (y : Nat) :
    (t.modifyScope id f).symbol? y = t.symbol? y := by
  rw [symbol?, symbols_modifyScope, symbol?]

theorem scope?_modifyScope (t : SymbolTable) (id : Nat) (f : Scope → Scope) (k : Nat) :
    (t.modifyScope id f).scope? k = if k = id then (t.scope? k).map f else t.scope? k := by
  rw [modifyScope]
  by_cases hid : id = 0
  · rw [if_pos hid]
    split
    · rename_i hk
      simp [scope?, hk, hid]
    · rfl
  · rw [if_neg hid]
    by_cases hk : k = 0
    · rw [if_neg (by omega)]
      simp [scope?, hk]
    · simp only [scope?, if_neg hk, List.getElem?_modify]
      by_cases he : k = id
      · simp [he]
      · have hne : id - 1 ≠ k - 1 := by omega
        simp [he, hne]

theorem scope?_append (t : SymbolTable) (s : Scope) (k : Nat) :
    ({ t with scopes := t.scopes ++ [s] } : SymbolTable).scope? k =
      if k = t.scopes.length + 1 then some s else t.scope? k := by
  simp only [scope?]
  by_cases hk : k = 0
  · rw [if_pos hk, if_neg (by omega), if_pos hk]
  · rw [if_neg hk, if_neg hk, List.getElem?_append]
    by_cases he : k = t.scopes.length + 1
    · simp [he]
    · rw [if_neg he]
      split
      · rfl
      · rw [List.getElem?_eq_none (by simp; omega), List.getElem?_eq_none (by omega)]

theorem symbol?_of_append {t t' : SymbolTable} {y : Symbol} (h : t'.symbols = t.symbols ++ [y])
    (k : Nat) : t'.symbol? k = if k = t.symbols.length + 1 then some y else t.symbol? k := by
  simp only [symbol?, h]
  by_cases hk : k = 0
  · rw [if_pos hk, if_neg (by omega), if_pos hk]
  · rw [if_neg hk, if_neg hk, List.getElem?_append]
    by_cases he : k = t.symbols.length + 1
    · simp [he]
    · rw [if_neg he]
      split
      · rfl
      · rw [List.getElem?_eq_none (by simp; omega), List.getElem?_eq_none (by omega)]

/-- The new scope, its parent, and all others. -/
theorem scope?_openScope (t : SymbolTable) (kind : ScopeKind) (parent : Nat) (span : Span)
    (hp : parent ≤ t.scopes.length) (k : Nat) :
    (t.openScope kind parent span).1.scope? k =
      if k = t.scopes.length + 1 then some { kind, parent, span }
      else if k = parent then
        (t.scope? k).map fun s => { s with children := s.children ++ [t.scopes.length + 1] }
      else t.scope? k := by
  simp only [openScope, scope?_modifyScope, scope?_append]
  by_cases hk : k = t.scopes.length + 1
  · rw [if_neg (by omega), if_pos hk, if_pos hk]
  · simp only [if_neg hk]

theorem symbols_openScope (t : SymbolTable) (kind : ScopeKind) (parent : Nat) (span : Span) :
    (t.openScope kind parent span).1.symbols = t.symbols := symbols_modifyScope _ _ _

theorem scope?_declare {here : Nat} {y : Symbol} {t' : SymbolTable} {id : Nat}
    (h : t.declare? here y = some (t', id)) (k : Nat) :
    t'.scope? k = if k = here then (t.scope? k).map (·.declare y.name id) else t.scope? k := by
  rw [declare?] at h
  split at h
  · cases h
  · cases h
    rw [scope?_modifyScope]
    rfl

theorem symbols_declare {here : Nat} {y : Symbol} {t' : SymbolTable} {id : Nat}
    (h : t.declare? here y = some (t', id)) :
    t'.symbols = t.symbols ++ [{ y with scope := here }] ∧ id = t.symbols.length + 1 := by
  rw [declare?] at h
  split at h
  · cases h
  · cases h
    exact ⟨symbols_modifyScope _ _ _, rfl⟩

/-- The links of a table agree. -/
structure IsValid (t : SymbolTable) : Prop where
  kind : ∀ id s, t.scope? id = some s → s.kind ≠ .invalid ∧ (s.kind = .outermost ↔ s.parent = 0)
  parent : ∀ id s, t.scope? id = some s → s.parent ≠ 0 →
    s.parent ≠ id ∧ ∃ q, t.scope? s.parent = some q ∧ id ∈ q.children
  child : ∀ id s, t.scope? id = some s → ∀ c ∈ s.children,
    c ≠ id ∧ ∃ q, t.scope? c = some q ∧ q.parent = id
  indexed : ∀ id s, t.scope? id = some s → ∀ e ∈ s.index, ∀ y ∈ e.2,
    y ∈ s.symbols ∧ y ≠ errorSymbol ∧ ∃ z, t.symbol? y = some z ∧ z.name = e.1
  listed : ∀ id s, t.scope? id = some s → ∀ y ∈ s.symbols, y ∈ s.index.flatMap (·.2)
  error : ∀ y z, t.symbol? y = some z → z.kind = .error → y = errorSymbol ∧ z.scope = 0
  placed : ∀ y z, t.symbol? y = some z → z.kind ≠ .error →
    ∃ s, t.scope? z.scope = some s ∧ y ∈ s.symbols

/-- A scope after another was opened: it is the new one, or it was there and has perhaps one child
more. -/
theorem openScope_cases {kind : ScopeKind} {parent : Nat} {span : Span}
    (hp : parent ≤ t.scopes.length) {id : Nat} {s : Scope}
    (hs : (t.openScope kind parent span).1.scope? id = some s) :
    (id = t.scopes.length + 1 ∧ s = { kind, parent, span }) ∨
    ∃ s', t.scope? id = some s' ∧ s.kind = s'.kind ∧ s.parent = s'.parent ∧
      s.symbols = s'.symbols ∧ s.index = s'.index ∧
      (s.children = s'.children ∨ id = parent ∧ s.children = s'.children ++ [t.scopes.length + 1]) := by
  rw [scope?_openScope t kind parent span hp] at hs
  split at hs
  · cases hs
    exact .inl ⟨‹_›, rfl⟩
  · split at hs
    · obtain ⟨s', hs', rfl⟩ := Option.map_eq_some_iff.mp hs
      exact .inr ⟨s', hs', rfl, rfl, rfl, rfl, .inr ⟨‹_›, rfl⟩⟩
    · exact .inr ⟨s, hs, rfl, rfl, rfl, rfl, .inl rfl⟩

/-- A scope that was there is there still when another is opened. -/
theorem scope?_of_openScope (kind : ScopeKind) {parent : Nat} (span : Span)
    (hp : parent ≤ t.scopes.length) {id : Nat} {s : Scope} (hs : t.scope? id = some s) :
    ∃ s', (t.openScope kind parent span).1.scope? id = some s' ∧ s'.kind = s.kind ∧
      s'.parent = s.parent ∧ s'.symbols = s.symbols ∧ s'.index = s.index ∧
      s.children ⊆ s'.children := by
  have hid := le_of_scope? hs
  rw [scope?_openScope t kind parent span hp, if_neg (by omega)]
  split
  · rw [hs]
    exact ⟨_, rfl, rfl, rfl, rfl, rfl, by simp⟩
  · exact ⟨s, hs, rfl, rfl, rfl, rfl, fun _ hc => hc⟩

theorem symbol?_openScope (t : SymbolTable) (kind : ScopeKind) (parent : Nat) (span : Span)
    (y : Nat) : (t.openScope kind parent span).1.symbol? y = t.symbol? y := by
  rw [symbol?, symbols_openScope, symbol?]

/-- A scope after something was declared. -/
theorem declare_cases {here : Nat} {y : Symbol} {t' : SymbolTable} {new : Nat}
    (h : t.declare? here y = some (t', new)) {id : Nat} {s : Scope} (hs : t'.scope? id = some s) :
    ∃ s', t.scope? id = some s' ∧ (s = s' ∨ id = here ∧ s = s'.declare y.name new) := by
  rw [scope?_declare h] at hs
  split at hs
  · obtain ⟨s', hs', rfl⟩ := Option.map_eq_some_iff.mp hs
    exact ⟨s', hs', .inr ⟨‹_›, rfl⟩⟩
  · exact ⟨s, hs, .inl rfl⟩

theorem scope?_of_declare {here : Nat} {y : Symbol} {t' : SymbolTable} {new : Nat}
    (h : t.declare? here y = some (t', new)) {id : Nat} {s : Scope} (hs : t.scope? id = some s) :
    ∃ s', t'.scope? id = some s' ∧ s'.kind = s.kind ∧ s'.parent = s.parent ∧
      s'.children = s.children ∧ s.symbols ⊆ s'.symbols := by
  rw [scope?_declare h, hs]
  split
  · exact ⟨_, rfl, rfl, rfl, rfl, by simp [Scope.declare]⟩
  · exact ⟨s, rfl, rfl, rfl, rfl, fun _ hc => hc⟩

/-- The symbols that come with the language. -/
theorem symbol?_start {y : Nat} {z : Symbol} (h : start.symbol? y = some z) :
    (y, z.kind, z.name, z.flags.builtin) ∈
      ([(1, .error, "<error>", false), (2, .type, "int", true), (3, .type, "bool", true),
        (4, .type, "string", true), (5, .function, "print", true)] :
        List (Nat × SymbolKind × Bytes × Bool)) := by
  have hle := le_of_symbol? h
  have hlen : start.symbols.length = 5 := rfl
  have hy : y = 1 ∨ y = 2 ∨ y = 3 ∨ y = 4 ∨ y = 5 := by omega
  rcases hy with rfl | rfl | rfl | rfl | rfl <;> cases h <;> decide

namespace IsValid

/-- A new scope is empty, and its parent lists it. -/
theorem openScope (h : t.IsValid) {kind : ScopeKind} {parent : Nat} {span : Span} {q : Scope}
    (hq : t.scope? parent = some q) (hk : kind ≠ .invalid ∧ kind ≠ .outermost) :
    (t.openScope kind parent span).1.IsValid := by
  have hp := le_of_scope? hq
  refine ⟨?_, ?_, ?_, ?_, ?_, ?_, ?_⟩
  · intro id s hs
    rcases openScope_cases hp.2 hs with ⟨-, rfl⟩ | ⟨s', hs', hkind, hparent, -⟩
    · refine ⟨hk.1, fun he => absurd he hk.2, fun he => ?_⟩
      have : parent = 0 := he
      omega
    · rw [hkind, hparent]
      exact h.kind id s' hs'
  · intro id s hs hne
    rcases openScope_cases hp.2 hs with ⟨rfl, rfl⟩ | ⟨s', hs', -, hparent, -⟩
    · refine ⟨by change parent ≠ _; omega, { q with children := q.children ++ [t.scopes.length + 1] },
        ?_, by simp⟩
      rw [scope?_openScope t kind parent span hp.2, if_neg (by change parent ≠ _; omega), if_pos rfl]
      change (t.scope? parent).map _ = _
      rw [hq]
      rfl
    · rw [hparent] at hne ⊢
      obtain ⟨hid, q', hq', hmem⟩ := h.parent id s' hs' hne
      obtain ⟨q'', hq'', -, -, -, -, hsub⟩ := scope?_of_openScope kind span hp.2 hq'
      exact ⟨hid, q'', hq'', hsub hmem⟩
  · intro id s hs c hc
    have hold : ∀ s', t.scope? id = some s' → c ∈ s'.children →
        c ≠ id ∧ ∃ q, (t.openScope kind parent span).1.scope? c = some q ∧ q.parent = id := by
      intro s' hs' hc'
      obtain ⟨hne, q', hq', hp'⟩ := h.child id s' hs' c hc'
      obtain ⟨q'', hq'', -, hp'', -⟩ := scope?_of_openScope kind span hp.2 hq'
      exact ⟨hne, q'', hq'', hp''.trans hp'⟩
    rcases openScope_cases hp.2 hs with ⟨-, rfl⟩ | ⟨s', hs', -, -, -, -, hch | ⟨hid, hch⟩⟩
    · cases hc
    · exact hold s' hs' (hch ▸ hc)
    · rw [hch, List.mem_append, List.mem_singleton] at hc
      rcases hc with hc | rfl
      · exact hold s' hs' hc
      · refine ⟨by omega, { kind, parent, span }, ?_, hid.symm⟩
        rw [scope?_openScope t kind parent span hp.2, if_pos rfl]
  · intro id s hs e he y hy
    rcases openScope_cases hp.2 hs with ⟨-, rfl⟩ | ⟨s', hs', -, -, hsym, hidx, -⟩
    · cases he
    · rw [hsym, symbol?_openScope]
      exact h.indexed id s' hs' e (hidx ▸ he) y hy
  · intro id s hs y hy
    rcases openScope_cases hp.2 hs with ⟨-, rfl⟩ | ⟨s', hs', -, -, hsym, hidx, -⟩
    · cases hy
    · rw [hidx]
      exact h.listed id s' hs' y (hsym ▸ hy)
  · intro y z hz
    rw [symbol?_openScope] at hz
    exact h.error y z hz
  · intro y z hz hne
    rw [symbol?_openScope] at hz
    obtain ⟨s, hs, hy⟩ := h.placed y z hz hne
    obtain ⟨s', hs', -, -, hsym, -⟩ := scope?_of_openScope kind span hp.2 hs
    exact ⟨s', hs', hsym ▸ hy⟩

/-- A new symbol is listed and indexed in its scope. -/
theorem declare (h : t.IsValid) {here : Nat} {y : Symbol} {t' : SymbolTable} {new : Nat}
    (hd : t.declare? here y = some (t', new)) (hy : y.kind ≠ .error) (ht : t.symbols ≠ []) :
    t'.IsValid := by
  obtain ⟨hsymbols, rfl⟩ := symbols_declare hd
  have hsymbol := symbol?_of_append hsymbols
  have hlen := List.length_pos_iff.mpr ht
  have hold : ∀ {k z}, t.symbol? k = some z → t'.symbol? k = some z := by
    intro k z hz
    have := le_of_symbol? hz
    rw [hsymbol, if_neg (by omega)]
    exact hz
  refine ⟨?_, ?_, ?_, ?_, ?_, ?_, ?_⟩
  · intro id s hs
    obtain ⟨s', hs', rfl | ⟨-, rfl⟩⟩ := declare_cases hd hs
    · exact h.kind id s hs'
    · exact h.kind id s' hs'
  · intro id s hs hne
    obtain ⟨s', hs', hcase⟩ := declare_cases hd hs
    have hparent : s.parent = s'.parent := by
      rcases hcase with rfl | ⟨-, rfl⟩ <;> rfl
    rw [hparent] at hne ⊢
    obtain ⟨hid, q, hq, hmem⟩ := h.parent id s' hs' hne
    obtain ⟨q', hq', -, -, hch, -⟩ := scope?_of_declare hd hq
    exact ⟨hid, q', hq', hch ▸ hmem⟩
  · intro id s hs c hc
    obtain ⟨s', hs', hcase⟩ := declare_cases hd hs
    have hchildren : s.children = s'.children := by
      rcases hcase with rfl | ⟨-, rfl⟩ <;> rfl
    obtain ⟨hid, q, hq, hparent⟩ := h.child id s' hs' c (hchildren ▸ hc)
    obtain ⟨q', hq', -, hp', -⟩ := scope?_of_declare hd hq
    exact ⟨hid, q', hq', hp'.trans hparent⟩
  · intro id s hs e he k hk
    obtain ⟨s', hs', rfl | ⟨-, rfl⟩⟩ := declare_cases hd hs
    · obtain ⟨hmem, hne, z, hz, hname⟩ := h.indexed id s hs' e he k hk
      exact ⟨hmem, hne, z, hold hz, hname⟩
    · rcases Scope.mem_addToIndex he hk with ⟨rfl, hname⟩ | ⟨e', he', hname, hk'⟩
      · refine ⟨by simp [Scope.declare], by rw [errorSymbol]; omega, { y with scope := here }, ?_,
          hname.symm⟩
        rw [hsymbol, if_pos rfl]
      · obtain ⟨hmem, hne, z, hz, hz'⟩ := h.indexed id s' hs' e' he' k hk'
        exact ⟨by simp [Scope.declare, hmem], hne, z, hold hz, hz'.trans hname⟩
  · intro id s hs k hk
    obtain ⟨s', hs', rfl | ⟨-, rfl⟩⟩ := declare_cases hd hs
    · exact h.listed id s hs' k hk
    · refine (Scope.mem_flatMap_addToIndex _ _ _ _).mpr ?_
      simp only [Scope.declare, List.mem_append, List.mem_singleton] at hk
      rcases hk with hk | hk
      · exact .inr (h.listed id s' hs' k hk)
      · exact .inl hk
  · intro k z hz hkind
    rw [hsymbol] at hz
    split at hz
    · cases hz
      exact absurd hkind hy
    · exact h.error k z hz hkind
  · intro k z hz hkind
    rw [hsymbol] at hz
    split at hz
    · rename_i hk
      cases hz
      have hhere : ∃ s, t.scope? here = some s := by
        rw [declare?] at hd
        split at hd
        · cases hd
        · exact ⟨_, ‹_›⟩
      obtain ⟨s, hs⟩ := hhere
      refine ⟨s.declare y.name (t.symbols.length + 1), ?_, by simp [Scope.declare, hk]⟩
      rw [scope?_declare hd, if_pos rfl, hs]
      rfl
    · obtain ⟨s, hs, hmem⟩ := h.placed k z hz hkind
      obtain ⟨s', hs', -, -, -, hsub⟩ := scope?_of_declare hd hs
      exact ⟨s', hs', hsub hmem⟩

/-- A symbol that a name means in a scope has that name. -/
theorem symbol?_of_findLocal? (h : t.IsValid) {id y : Nat} {name : Bytes}
    (hf : t.findLocal? id name = some y) :
    y ≠ errorSymbol ∧ ∃ z, t.symbol? y = some z ∧ z.name = name ∧ z.kind ≠ .error := by
  rw [findLocal?] at hf
  obtain ⟨s, hs, hfind⟩ := Option.bind_eq_some_iff.mp hf
  obtain ⟨e, he, hname, hy⟩ := Scope.mem_of_find? hfind
  obtain ⟨-, hne, z, hz, hzname⟩ := h.indexed id s hs e he y hy
  exact ⟨hne, z, hz, hzname.trans hname, fun hk => hne (h.error y z hz hk).1⟩

theorem symbol?_of_findAlong? (h : t.IsValid) {path : List Nat} {y : Nat} {name : Bytes}
    (hf : t.findAlong? path name = some y) :
    y ≠ errorSymbol ∧ ∃ z, t.symbol? y = some z ∧ z.name = name ∧ z.kind ≠ .error := by
  obtain ⟨id, -, hid⟩ := List.exists_of_findSome?_eq_some hf
  exact h.symbol?_of_findLocal? hid

theorem start : start.IsValid := by
  have hscope : ∀ id s, SymbolTable.start.scope? id = some s → id = 1 ∧
      SymbolTable.start.scope? 1 = some s := by
    intro id s hs
    have hle := le_of_scope? hs
    have hlen : SymbolTable.start.scopes.length = 1 := rfl
    have hid : id = 1 := by omega
    exact ⟨hid, hid ▸ hs⟩
  have hsymbol : ∀ y z, SymbolTable.start.symbol? y = some z → y ∈ [1, 2, 3, 4, 5] := by
    intro y z hz
    have hle := le_of_symbol? hz
    have hlen : SymbolTable.start.symbols.length = 5 := rfl
    rw [hlen] at hle
    simp
    omega
  refine ⟨?_, ?_, ?_, ?_, ?_, ?_, ?_⟩
  · intro id s hs
    obtain ⟨-, hs⟩ := hscope id s hs
    cases hs
    decide
  · intro id s hs hne
    obtain ⟨-, hs⟩ := hscope id s hs
    cases hs
    exact absurd rfl hne
  · intro id s hs c hc
    obtain ⟨-, hs⟩ := hscope id s hs
    cases hs
    cases hc
  · intro id s hs
    obtain ⟨-, hs⟩ := hscope id s hs
    cases hs
    intro e he y hy
    have hindexed : ∀ e ∈ ((SymbolTable.start.scope? 1).map (·.index)).getD [], ∀ y ∈ e.2,
        y ∈ [2, 3, 4, 5] ∧ (SymbolTable.start.symbol? y).map (·.name) = some e.1 := by decide
    obtain ⟨hmem, hname⟩ := hindexed e he y hy
    obtain ⟨z, hz, hname⟩ := Option.map_eq_some_iff.mp hname
    exact ⟨hmem, by rintro rfl; revert hmem; decide, z, hz, hname⟩
  · intro id s hs
    obtain ⟨-, hs⟩ := hscope id s hs
    cases hs
    decide
  · intro y z hz
    have hy := hsymbol y z hz
    simp only [List.mem_cons, List.not_mem_nil, or_false] at hy
    rcases hy with rfl | rfl | rfl | rfl | rfl <;> cases hz <;> decide
  · intro y z hz
    have hy := hsymbol y z hz
    simp only [List.mem_cons, List.not_mem_nil, or_false] at hy
    rcases hy with rfl | rfl | rfl | rfl | rfl <;> cases hz
    · decide
    all_goals exact fun _ => ⟨_, rfl, by decide⟩

theorem kindFaults_eq_nil (h : t.IsValid) {id : Nat} {s : Scope} (hs : t.scope? id = some s) :
    kindFaults id s = [] := by
  obtain ⟨hk, ho⟩ := h.kind id s hs
  rw [kindFaults, if_neg hk]
  by_cases hp : s.parent = 0
  · simp [hp, ho.mpr hp]
  · have hne : s.kind ≠ .outermost := fun he => hp (ho.mp he)
    simp [hp, hne]

theorem scopeFaults_eq_nil (h : t.IsValid) {id : Nat} {s : Scope} (hs : t.scope? id = some s) :
    t.scopeFaults id s = [] := by
  have hinvalid : t.hasInvalidParent id s = false := by
    rw [hasInvalidParent]
    by_cases hp : s.parent = 0
    · simp [hp]
    · obtain ⟨hne, q, hq, -⟩ := h.parent id s hs hp
      have hle := (le_of_scope? hq).2
      simp [hne]
      omega
  have hparent : t.parentFaults id s = [] := by
    rw [parentFaults]
    by_cases hp : s.parent = 0
    · rw [if_pos hp]
    · obtain ⟨-, q, hq, hmem⟩ := h.parent id s hs hp
      rw [if_neg hp, hq]
      simp [hmem]
  have hchild : s.children.flatMap (t.childFaults id) = [] := by
    refine List.flatMap_eq_nil_iff.mpr fun c hc => ?_
    obtain ⟨hne, q, hq, hp⟩ := h.child id s hs c hc
    have hle := (le_of_scope? hq).2
    rw [childFaults, if_neg (by simp [hne]; omega), hq]
    simp [hp]
  have hindex : s.index.flatMap (fun e => e.2.flatMap (t.indexFaults id s e.1)) = [] := by
    refine List.flatMap_eq_nil_iff.mpr fun e he => List.flatMap_eq_nil_iff.mpr fun y hy => ?_
    obtain ⟨hmem, -, z, hz, hname⟩ := h.indexed id s hs e he y hy
    simp [indexFaults, hmem, hz, hname]
  have hlisted : (s.symbols.filter fun y => !(s.index.flatMap (·.2)).contains y) = [] := by
    refine List.filter_eq_nil_iff.mpr fun y hy => ?_
    have hmem := h.listed id s hs y hy
    simpa using hmem
  rw [scopeFaults, if_neg (by simp [hinvalid])]
  simp only [h.kindFaults_eq_nil hs, hparent, hchild, List.nil_append]
  rw [hlisted]
  simpa using hindex

theorem symbolFaults_eq_nil (h : t.IsValid) {id : Nat} {y : Symbol} (hy : t.symbol? id = some y) :
    t.symbolFaults id y = [] := by
  rw [symbolFaults]
  by_cases hk : y.kind = .error
  · obtain ⟨hid, hs⟩ := h.error id y hy hk
    rw [if_pos hk]
    simp [hid, hs]
  · obtain ⟨s, hs, hmem⟩ := h.placed id y hy hk
    rw [if_neg hk, hs]
    simp [hmem]

/-- Nothing in a valid table disagrees. -/
theorem faults_eq_nil (h : t.IsValid) : t.faults = [] := by
  rw [faults, List.append_eq_nil_iff]
  constructor
  · refine List.flatMap_eq_nil_iff.mpr fun e he => ?_
    obtain ⟨s, id⟩ := e
    have hmem := List.mem_zipIdx_iff_le_and_getElem?_sub.mp he
    refine h.scopeFaults_eq_nil ?_
    rw [scope?, if_neg (by omega)]
    exact hmem.2
  · refine List.flatMap_eq_nil_iff.mpr fun e he => ?_
    obtain ⟨y, id⟩ := e
    have hmem := List.mem_zipIdx_iff_le_and_getElem?_sub.mp he
    refine h.symbolFaults_eq_nil ?_
    rw [symbol?, if_neg (by omega)]
    exact hmem.2

end IsValid

end SymbolTable

end Craftlang
