import Craftlang.Proofs.Scope.Valid

/-!
# The order in a table

Scopes and symbols are numbered as they come. In a table that is built by opening scopes and declaring
symbols in them, a scope comes after the one around it; the scopes inside a scope, the symbols of a scope and
those under one name are listed as they came, each once and in one place.
-/

namespace Craftlang

/-- What is counted in parts whose keys are told apart is counted in those with one key alone. -/
theorem count_flatMap_of_key {α κ : Type} [BEq κ] {f : α → List Nat} {key : α → κ} {n : κ}
    {x k : Nat} (as : List α) (h : ∀ a ∈ as, (f a).count x = if key a == n then k else 0) :
    (as.flatMap f).count x = (as.map key).count n * k := by
  induction as with
  | nil => simp
  | cons a as ih =>
    have hrest := ih fun b hb => h b (List.mem_cons_of_mem _ hb)
    rw [List.flatMap_cons, List.count_append, h a List.mem_cons_self, hrest, List.map_cons, List.count_cons]
    split
    · rw [Nat.add_mul, Nat.one_mul, Nat.add_comm]
    · rw [Nat.zero_add, Nat.add_zero]

/-- If every part is told off by another, all the parts together are. -/
theorem count_flatMap_cons {f g : Nat → List Nat} {x y : Nat} (as : List Nat)
    (h : ∀ a ∈ as, (f a).count x = (g a).count y) :
    (as.flatMap fun a => a :: f a).count x = as.count x + (as.flatMap g).count y := by
  induction as with
  | nil => rfl
  | cons a as ih =>
    rw [List.flatMap_cons, List.cons_append, List.count_cons, List.count_append,
      ih fun b hb => h b (List.mem_cons_of_mem _ hb), h a List.mem_cons_self, List.count_cons, List.flatMap_cons,
      List.count_append]
    omega

/-- Up to the next number what is asked for is among the numbers before it, or is that one. -/
theorem filter_numbers_succ (p : Nat → Bool) (n : Nat) :
    (List.range' 1 (n + 1)).filter p = (List.range' 1 n).filter p ++ if p (n + 1) then [n + 1] else [] := by
  rw [List.range'_1_concat, List.filter_append, Nat.add_comm 1 n, List.filter_cons, List.filter_nil]

/-- Numbers that are singled out are in order. -/
theorem filter_numbers_lt (p : Nat → Bool) (n : Nat) : ((List.range' 1 n).filter p).Pairwise (· < ·) :=
  (List.pairwise_lt_range' ..).filter p

/-- Each of them is there once. -/
theorem count_filter_numbers (p : Nat → Bool) {n x : Nat} (h : 0 < x) (hn : x ≤ n) :
    ((List.range' 1 n).filter p).count x = if p x then 1 else 0 := by
  by_cases hp : p x = true
  · rw [if_pos hp, List.count_filter hp, List.Nodup.count (List.nodup_range' ..)]
    exact if_pos (List.mem_range'_1.mpr ⟨h, by omega⟩)
  · rw [if_neg hp, List.count_eq_zero]
    exact fun hm => hp (List.mem_filter.mp hm).2

namespace Scope

/-- Symbols by name: no name comes twice, and under it stand the symbols with that name. -/
structure IsIndex (nameOf : Nat → Bytes) (symbols : List Nat) (index : List (Bytes × List Nat)) : Prop where
  keys : (index.map (·.1)).Nodup
  bucket : ∀ e ∈ index, e.2 = symbols.filter fun y => nameOf y == e.1
  covers : ∀ y ∈ symbols, nameOf y ∈ index.map (·.1)

theorem addToIndex_of_notMem {name : Bytes} (y : Nat) {index : List (Bytes × List Nat)}
    (h : name ∉ index.map (·.1)) : addToIndex name y index = index ++ [(name, [y])] := by
  induction index with
  | nil => rfl
  | cons first rest ih =>
    rw [List.map_cons, List.mem_cons, not_or] at h
    rw [addToIndex, if_neg (by rw [beq_iff_eq]; exact fun heq => h.1 heq.symm), ih h.2, List.cons_append]

theorem addToIndex_of_mem {name : Bytes} (y : Nat) {index : List (Bytes × List Nat)}
    (hkeys : (index.map (·.1)).Nodup) (h : name ∈ index.map (·.1)) : addToIndex name y index
      = index.map fun e => if e.1 = name then (e.1, e.2 ++ [y]) else e := by
  induction index with
  | nil => cases h
  | cons first rest ih =>
    rw [List.map_cons, List.nodup_cons] at hkeys
    rw [addToIndex, List.map_cons]
    by_cases hfirst : first.1 = name
    · have hrest : rest.map (fun e => if e.1 = name then (e.1, e.2 ++ [y]) else e) = rest := by
        refine (List.map_congr_left fun e he => if_neg fun heq => ?_).trans (List.map_id rest)
        exact hkeys.1 (hfirst ▸ heq ▸ List.mem_map_of_mem he)
      rw [if_pos (beq_iff_eq.mpr hfirst), if_pos hfirst, hrest]
    · have hmem : name ∈ rest.map (·.1) := (List.mem_cons.mp h).resolve_left fun heq => hfirst heq.symm
      rw [if_neg (by rwa [beq_iff_eq]), if_neg hfirst, ih hkeys.2 hmem]

namespace IsIndex

variable {nameOf : Nat → Bytes} {symbols : List Nat} {index : List (Bytes × List Nat)}

theorem congr (h : IsIndex nameOf symbols index) {nameOf' : Nat → Bytes}
    (hsame : ∀ y ∈ symbols, nameOf' y = nameOf y) : IsIndex nameOf' symbols index := by
  refine ⟨h.keys, fun e he => ?_, fun y hy => hsame y hy ▸ h.covers y hy⟩
  rw [h.bucket e he]
  exact List.filter_congr fun y hy => by rw [hsame y hy]

/-- Another symbol is indexed behind those that are there. -/
theorem add (h : IsIndex nameOf symbols index) (y : Nat) :
    IsIndex nameOf (symbols ++ [y]) (addToIndex (nameOf y) y index) := by
  have hsnoc (name : Bytes) : (symbols ++ [y]).filter (fun z => nameOf z == name)
      = symbols.filter (fun z => nameOf z == name) ++ if nameOf y = name then [y] else [] := by
    rw [List.filter_append, List.filter_cons, List.filter_nil]
    by_cases hname : nameOf y = name <;> simp [hname]
  by_cases hmem : nameOf y ∈ index.map (·.1)
  · have hkeys : (index.map fun e => if e.1 = nameOf y then (e.1, e.2 ++ [y]) else e).map (·.1)
        = index.map (·.1) := by
      rw [List.map_map]
      refine List.map_congr_left fun e _ => ?_
      rw [Function.comp_apply]
      split <;> rfl
    rw [addToIndex_of_mem y h.keys hmem]
    refine ⟨hkeys ▸ h.keys, fun e he => ?_, fun z hz => ?_⟩
    · obtain ⟨e', he', rfl⟩ := List.mem_map.mp he
      by_cases hname : e'.1 = nameOf y
      · rw [if_pos hname]
        change e'.2 ++ [y] = (symbols ++ [y]).filter fun z => nameOf z == e'.1
        rw [hsnoc, if_pos hname.symm, ← h.bucket e' he']
      · rw [if_neg hname, hsnoc, if_neg (Ne.symm hname), List.append_nil, ← h.bucket e' he']
    · rw [hkeys]
      rcases List.mem_append.mp hz with hz | hz
      · exact h.covers z hz
      · exact List.mem_singleton.mp hz ▸ hmem
  · rw [addToIndex_of_notMem y hmem]
    refine ⟨?_, fun e he => ?_, fun z hz => ?_⟩
    · rw [List.map_append, List.map_singleton, List.nodup_append]
      refine ⟨h.keys, List.pairwise_singleton _ _, fun k hk k' hk' heq => hmem ?_⟩
      rwa [← show k = nameOf y from heq.trans (List.mem_singleton.mp hk')]
    · rw [hsnoc]
      rcases List.mem_append.mp he with he | he
      · have hother : nameOf y ≠ e.1 := fun heq => hmem (heq ▸ List.mem_map_of_mem he)
        rw [if_neg hother, List.append_nil, ← h.bucket e he]
      · have hnone : symbols.filter (fun z => nameOf z == nameOf y) = [] := by
          refine List.filter_eq_nil_iff.mpr fun z hz => ?_
          rw [beq_iff_eq]
          exact fun heq => hmem (heq ▸ h.covers z hz)
        rw [List.mem_singleton.mp he, if_pos rfl, hnone, List.nil_append]
    · rw [List.map_append, List.mem_append]
      rcases List.mem_append.mp hz with hz | hz
      · exact .inl (h.covers z hz)
      · exact .inr (by rw [List.mem_singleton.mp hz]; exact List.mem_singleton_self _)

/-- A symbol is indexed as often as it is listed. -/
theorem count (h : IsIndex nameOf symbols index) (y : Nat) :
    (index.flatMap (·.2)).count y = symbols.count y := by
  have hbucket : ∀ e ∈ index, e.2.count y = if e.1 == nameOf y then symbols.count y else 0 := by
    intro e he
    rw [h.bucket e he]
    by_cases hname : e.1 = nameOf y
    · rw [if_pos (beq_iff_eq.mpr hname), List.count_filter (by rw [hname, beq_self_eq_true])]
    · rw [if_neg (by rwa [beq_iff_eq]), List.count_eq_zero]
      exact fun hm => hname (beq_iff_eq.mp (List.mem_filter.mp hm).2).symm
  rw [count_flatMap_of_key index hbucket]
  by_cases hy : y ∈ symbols
  · have hcount : (index.map Prod.fst).count (nameOf y) = 1 := by
      rw [List.Nodup.count h.keys]
      exact if_pos (h.covers y hy)
    rw [hcount, Nat.one_mul]
  · rw [List.count_eq_zero_of_not_mem hy, Nat.mul_zero]

/-- It stands under its name. -/
theorem mem_bucket {s : Scope} (h : IsIndex nameOf s.symbols s.index) {y : Nat} (hy : y ∈ s.symbols) :
    y ∈ s.bucket (nameOf y) := by
  obtain ⟨e, he, hname⟩ := List.mem_map.mp (h.covers y hy)
  have hsome : (s.index.find? fun entry => entry.1 == nameOf y).isSome :=
    List.find?_isSome.mpr ⟨e, he, beq_iff_eq.mpr hname⟩
  obtain ⟨e', hfind⟩ := Option.isSome_iff_exists.mp hsome
  rw [Scope.bucket, hfind, Option.map_some, Option.getD_some, h.bucket e' (List.mem_of_find?_eq_some hfind)]
  have hname' : e'.1 = nameOf y := by simpa using List.find?_some hfind
  exact List.mem_filter.mpr ⟨hy, beq_iff_eq.mpr hname'.symm⟩

end IsIndex

end Scope

namespace SymbolTable

/-- The scopes directly inside a scope, in order. -/
def insideOf (t : SymbolTable) (id : Nat) : List Nat :=
  (List.range' 1 t.scopes.length).filter fun c => (t.scope? c).any fun s => s.parent == id

/-- The symbols of a scope, in order. -/
def declaredIn (t : SymbolTable) (id : Nat) : List Nat :=
  (List.range' 1 t.symbols.length).filter fun y => (t.symbol? y).any fun z => z.scope == id

/-- The scopes below a scope, each in front of those inside it, to a bounded depth. -/
def below (t : SymbolTable) : Nat → Nat → List Nat
  | 0, _ => []
  | bound + 1, id => (((t.scope? id).map (·.children)).getD []).flatMap fun c => c :: t.below bound c

/-- A table in which everything is listed as it came. -/
structure IsOrdered (t : SymbolTable) : Prop where
  parent : ∀ id s, t.scope? id = some s → s.parent < id
  root : ∀ id s, t.scope? id = some s → s.parent = 0 → id = outermost
  children : ∀ id s, t.scope? id = some s → s.children = t.insideOf id
  symbols : ∀ id s, t.scope? id = some s → s.symbols = t.declaredIn id
  index : ∀ id s, t.scope? id = some s → Scope.IsIndex t.nameOf s.symbols s.index
  placed : ∀ y z, t.symbol? y = some z → z.scope ≤ t.scopes.length

/-- A table is built from another by opening scopes inside scopes there are and by declaring symbols in
them. -/
inductive Builds (t : SymbolTable) : SymbolTable → Prop
  | refl : Builds t t
  | openScope {u : SymbolTable} (h : Builds t u) {kind : ScopeKind} {parent : Nat} (span : Span) {q : Scope}
      (hq : u.scope? parent = some q) : Builds t (u.openScope kind parent span).1
  | declare {u u' : SymbolTable} (h : Builds t u) {here : Nat} {y : Symbol} {new : Nat}
      (hd : u.declare? here y = some (u', new)) : Builds t u'

variable {t t' : SymbolTable}

theorem exists_scope? {id : Nat} (h : 0 < id) (hle : id ≤ t.scopes.length) : ∃ s, t.scope? id = some s := by
  rw [scope?, if_neg (by omega)]
  exact ⟨_, List.getElem?_eq_getElem (by omega)⟩

theorem length_scopes_openScope (t : SymbolTable) (kind : ScopeKind) (parent : Nat) (span : Span) :
    (t.openScope kind parent span).1.scopes.length = t.scopes.length + 1 := by
  rw [openScope, modifyScope]
  dsimp only
  split
  · exact List.length_append
  · rw [List.length_modify]
    exact List.length_append

theorem length_scopes_declare {here : Nat} {y : Symbol} {new : Nat} (h : t.declare? here y = some (t', new)) :
    t'.scopes.length = t.scopes.length := by
  rw [declare?] at h
  split at h
  · cases h
  · cases h
    rw [modifyScope]
    split
    · rfl
    · exact List.length_modify ..

namespace IsOrdered

theorem openScope (h : t.IsOrdered) {kind : ScopeKind} {parent : Nat} (span : Span) {q : Scope}
    (hq : t.scope? parent = some q) : (t.openScope kind parent span).1.IsOrdered := by
  have hp := le_of_scope? hq
  have hlength := t.length_scopes_openScope kind parent span
  have hinside : ∀ id, (t.openScope kind parent span).1.insideOf id
      = t.insideOf id ++ if parent = id then [t.scopes.length + 1] else [] := by
    intro id
    have hnew : (t.openScope kind parent span).1.scope? (t.scopes.length + 1) = some { kind, parent, span } := by
      rw [scope?_openScope t kind parent span hp.2, if_pos rfl]
    rw [insideOf, hlength, filter_numbers_succ, hnew, Option.any_some, insideOf]
    congr 1
    · refine List.filter_congr fun c hc => ?_
      have hc := List.mem_range'_1.mp hc
      rw [scope?_openScope t kind parent span hp.2, if_neg (by omega)]
      split
      · cases t.scope? c <;> rfl
      · rfl
    · by_cases hid : parent = id <;> simp [hid]
  have hsymbols : ∀ id, (t.openScope kind parent span).1.declaredIn id = t.declaredIn id := by
    intro id
    rw [declaredIn, symbols_openScope]
    refine List.filter_congr fun y _ => ?_
    rw [symbol?_openScope]
  have hnames : (t.openScope kind parent span).1.nameOf = t.nameOf := by
    funext y
    rw [nameOf, symbol?_openScope, nameOf]
  refine ⟨fun id s hs => ?_, fun id s hs hroot => ?_, fun id s hs => ?_, fun id s hs => ?_, fun id s hs => ?_,
    fun y z hz => ?_⟩
  · rcases openScope_cases hp.2 hs with ⟨rfl, rfl⟩ | ⟨s', hs', -, hparent, -⟩
    · exact Nat.lt_succ_of_le hp.2
    · exact hparent ▸ h.parent id s' hs'
  · rcases openScope_cases hp.2 hs with ⟨rfl, rfl⟩ | ⟨s', hs', -, hparent, -⟩
    · exact absurd hroot (by change parent ≠ 0; omega)
    · exact h.root id s' hs' (hparent ▸ hroot)
  · rw [hinside]
    rw [scope?_openScope t kind parent span hp.2] at hs
    split at hs
    · rename_i hid
      cases hs
      have hnone : t.insideOf id = [] := by
        refine List.filter_eq_nil_iff.mpr fun c hc => ?_
        cases hc' : t.scope? c with
        | none => simp
        | some s =>
          have := h.parent c s hc'
          have := le_of_scope? hc'
          simp only [Option.any_some, beq_iff_eq]
          omega
      rw [hnone, if_neg (by omega)]
      rfl
    · split at hs
      · rename_i hid
        obtain ⟨s', hs', rfl⟩ := Option.map_eq_some_iff.mp hs
        rw [if_pos hid.symm, ← h.children id s' hs']
      · rename_i hid
        rw [if_neg (Ne.symm hid), List.append_nil, h.children id s hs]
  · rw [hsymbols]
    rcases openScope_cases hp.2 hs with ⟨rfl, rfl⟩ | ⟨s', hs', -, -, hsame, -⟩
    · refine (List.filter_eq_nil_iff.mpr fun y hy => ?_).symm
      cases hz : t.symbol? y with
      | none => exact Bool.false_ne_true
      | some z =>
        have := h.placed y z hz
        rw [Option.any_some, beq_iff_eq]
        omega
    · exact hsame.trans (h.symbols id s' hs')
  · rw [hnames]
    rcases openScope_cases hp.2 hs with ⟨rfl, rfl⟩ | ⟨s', hs', -, -, hsame, hindex, -⟩
    · exact ⟨List.nodup_nil, fun e he => absurd he List.not_mem_nil, fun y hy => absurd hy List.not_mem_nil⟩
    · rw [hsame, hindex]
      exact h.index id s' hs'
  · rw [symbol?_openScope] at hz
    rw [hlength]
    exact Nat.le_succ_of_le (h.placed y z hz)

theorem declare (h : t.IsOrdered) {here : Nat} {y : Symbol} {new : Nat}
    (hd : t.declare? here y = some (t', new)) : t'.IsOrdered := by
  obtain ⟨hsymbols, rfl⟩ := symbols_declare hd
  have hlength := length_scopes_declare hd
  have hsymbol := symbol?_of_append hsymbols
  obtain ⟨q, hq⟩ : ∃ q, t.scope? here = some q := by
    rw [declare?] at hd
    split at hd
    · cases hd
    · exact ⟨_, ‹_›⟩
  have hnames : ∀ k ≠ t.symbols.length + 1, t'.nameOf k = t.nameOf k := fun k hk => by
    rw [nameOf, hsymbol, if_neg hk, nameOf]
  have hname : t'.nameOf (t.symbols.length + 1) = y.name := by
    rw [nameOf, hsymbol, if_pos rfl, Option.map_some, Option.getD_some]
  have hinside : ∀ id, t'.insideOf id = t.insideOf id := by
    intro id
    rw [insideOf, hlength]
    refine List.filter_congr fun c _ => ?_
    rw [scope?_declare hd]
    split
    · cases t.scope? c <;> rfl
    · rfl
  have hdeclared : ∀ id, t'.declaredIn id
      = t.declaredIn id ++ if here = id then [t.symbols.length + 1] else [] := by
    intro id
    rw [declaredIn, hsymbols, List.length_append, List.length_singleton, filter_numbers_succ, hsymbol, if_pos rfl,
      Option.any_some, declaredIn]
    congr 1
    · refine List.filter_congr fun k hk => ?_
      have hk := List.mem_range'_1.mp hk
      rw [hsymbol, if_neg (by omega)]
    · by_cases hid : here = id <;> simp [hid]
  have hold : ∀ id s, t.scope? id = some s → ∀ k ∈ s.symbols, k ≠ t.symbols.length + 1 := by
    intro id s hs k hk
    rw [h.symbols id s hs] at hk
    have hk := List.mem_range'_1.mp (List.mem_filter.mp hk).1
    omega
  refine ⟨fun id s hs => ?_, fun id s hs hroot => ?_, fun id s hs => ?_, fun id s hs => ?_, fun id s hs => ?_,
    fun k z hz => ?_⟩
  · obtain ⟨s', hs', rfl | ⟨-, rfl⟩⟩ := declare_cases hd hs
    · exact h.parent id s hs'
    · exact h.parent id s' hs'
  · obtain ⟨s', hs', rfl | ⟨-, rfl⟩⟩ := declare_cases hd hs
    · exact h.root id s hs' hroot
    · exact h.root id s' hs' hroot
  · rw [hinside]
    obtain ⟨s', hs', rfl | ⟨-, rfl⟩⟩ := declare_cases hd hs
    · exact h.children id s hs'
    · exact h.children id s' hs'
  · rw [hdeclared]
    rw [scope?_declare hd] at hs
    split at hs
    · rename_i hid
      obtain ⟨s', hs', rfl⟩ := Option.map_eq_some_iff.mp hs
      rw [if_pos hid.symm, ← h.symbols id s' hs', Scope.declare]
    · rename_i hid
      rw [if_neg (Ne.symm hid), List.append_nil, h.symbols id s hs]
  · obtain ⟨s', hs', rfl | ⟨-, rfl⟩⟩ := declare_cases hd hs
    · exact (h.index id s hs').congr fun k hk => hnames k (hold id s hs' k hk)
    · have hindex : Scope.IsIndex t'.nameOf s'.symbols s'.index :=
        (h.index id s' hs').congr fun k hk => hnames k (hold id s' hs' k hk)
      rw [Scope.declare, ← hname]
      exact hindex.add _
  · rw [hlength]
    rw [hsymbol] at hz
    split at hz
    · cases hz
      exact (le_of_scope? hq).2
    · exact h.placed k z hz

theorem start : start.IsOrdered := by
  have hscope : ∀ id s, SymbolTable.start.scope? id = some s → id = 1 ∧
      SymbolTable.start.scope? 1 = some s := by
    intro id s hs
    have hle := le_of_scope? hs
    have hlen : SymbolTable.start.scopes.length = 1 := rfl
    have hid : id = 1 := by omega
    exact ⟨hid, hid ▸ hs⟩
  refine ⟨fun id s hs => ?_, fun id s hs _ => (hscope id s hs).1, fun id s hs => ?_, fun id s hs => ?_,
    fun id s hs => ?_, fun y z hz => ?_⟩
  · obtain ⟨rfl, hs⟩ := hscope id s hs
    cases hs
    decide
  · obtain ⟨rfl, hs⟩ := hscope id s hs
    cases hs
    decide
  · obtain ⟨rfl, hs⟩ := hscope id s hs
    cases hs
    decide
  · obtain ⟨rfl, hs⟩ := hscope id s hs
    cases hs
    exact ⟨by decide, by decide, by decide⟩
  · have hle := le_of_symbol? hz
    have hlen : SymbolTable.start.symbols.length = 5 := rfl
    have hy : y = 1 ∨ y = 2 ∨ y = 3 ∨ y = 4 ∨ y = 5 := by omega
    rcases hy with rfl | rfl | rfl | rfl | rfl <;> cases hz <;> decide

theorem builds (h : t.IsOrdered) (hb : t.Builds t') : t'.IsOrdered := by
  induction hb with
  | refl => exact h
  | openScope _ span hq ih => exact ih.openScope span hq
  | declare _ hd ih => exact ih.declare hd

end IsOrdered

/-! ## What an ordered table lists -/

namespace IsOrdered

variable (h : t.IsOrdered)

include h

/-- A scope is a child of the one around it, and of no other. -/
theorem count_children {c : Nat} {q : Scope} (hc : t.scope? c = some q) {id : Nat} (hid : 0 < id) :
    (((t.scope? id).map (·.children)).getD []).count c = if q.parent = id then 1 else 0 := by
  have hle := le_of_scope? hc
  cases hs : t.scope? id with
  | some s =>
    rw [Option.map_some, Option.getD_some, h.children id s hs, insideOf, count_filter_numbers _ hle.1 hle.2, hc,
      Option.any_some]
    simp only [beq_iff_eq]
  | none =>
    rw [if_neg]
    · rfl
    · rintro rfl
      obtain ⟨s, hs'⟩ := exists_scope? hid (Nat.le_trans (Nat.le_of_lt (h.parent c q hc)) hle.2)
      cases hs.symm.trans hs'

/-- A child comes after the scope it is in. -/
theorem lt_of_mem_children {id c : Nat} (hc : c ∈ ((t.scope? id).map (·.children)).getD []) :
    id < c ∧ c ≤ t.scopes.length := by
  cases hs : t.scope? id with
  | none =>
    rw [hs] at hc
    cases hc
  | some s =>
    rw [hs, Option.map_some, Option.getD_some, h.children id s hs] at hc
    obtain ⟨hrange, hparent⟩ := List.mem_filter.mp hc
    have hrange := List.mem_range'_1.mp hrange
    cases hq : t.scope? c with
    | none =>
      rw [hq] at hparent
      cases hparent
    | some q =>
      have hbefore := h.parent c q hq
      rw [hq, Option.any_some, beq_iff_eq] at hparent
      omega

/-- So does everything below that. -/
theorem lt_of_mem_below {bound id c : Nat} (hc : c ∈ t.below bound id) : id < c ∧ c ≤ t.scopes.length := by
  induction bound generalizing id with
  | zero => cases hc
  | succ bound ih =>
    obtain ⟨child, hchild, hc⟩ := List.mem_flatMap.mp hc
    have hlt := h.lt_of_mem_children hchild
    rcases List.mem_cons.mp hc with rfl | hc
    · exact hlt
    · have := ih hc
      omega

/-- A scope is found below another where the scope around it is found, and once more if that is the other. -/
theorem count_below {c : Nat} {q : Scope} (hc : t.scope? c = some q) (bound : Nat) {id : Nat} (hid : 0 < id) :
    (t.below (bound + 1) id).count c = (if q.parent = id then 1 else 0) + (t.below bound id).count q.parent := by
  induction bound generalizing id with
  | zero =>
    have hnone (ids : List Nat) : (ids.flatMap fun _ => ([] : List Nat)).count q.parent = 0 :=
      List.count_eq_zero.mpr fun hm => by simp at hm
    have hcount := count_flatMap_cons (f := t.below 0) (g := fun _ => []) (x := c) (y := q.parent)
      (((t.scope? id).map (·.children)).getD []) fun _ _ => rfl
    rw [hnone, h.count_children hc hid] at hcount
    exact hcount
  | succ bound ih =>
    have hcount := count_flatMap_cons (f := t.below (bound + 1)) (g := fun child => child :: t.below bound child)
      (x := c) (y := q.parent) (((t.scope? id).map (·.children)).getD []) fun child hchild => by
        rw [ih (Nat.lt_of_le_of_lt (Nat.zero_le id) (h.lt_of_mem_children hchild).1), List.count_cons, Nat.add_comm]
        simp only [beq_iff_eq, @eq_comm _ child]
    rw [h.count_children hc hid] at hcount
    exact hcount

/-- Every scope but the outermost is found below that once. -/
theorem count_below_outermost {c : Nat} {q : Scope} (hc : t.scope? c = some q) (hne : c ≠ outermost) {bound : Nat}
    (hbound : c ≤ bound + 1) : (t.below bound outermost).count c = 1 := by
  induction c using Nat.strongRecOn generalizing q bound with
  | ind c ih =>
    have hle := le_of_scope? hc
    have hbefore := h.parent c q hc
    have hroot : q.parent ≠ 0 := fun heq => hne (h.root c q hc heq)
    have hlater : 1 < c := Nat.lt_of_le_of_ne hle.1 (Ne.symm hne)
    obtain ⟨bound, rfl⟩ : ∃ n, bound = n + 1 := ⟨bound - 1, by omega⟩
    have houtermost : 0 < outermost := Nat.zero_lt_one
    rw [h.count_below hc bound houtermost]
    by_cases hparent : q.parent = outermost
    · rw [if_pos hparent, List.count_eq_zero.mpr]
      exact fun hm => absurd hparent (Nat.ne_of_gt (h.lt_of_mem_below hm).1)
    · obtain ⟨q', hq'⟩ := exists_scope? (t := t) (Nat.pos_of_ne_zero hroot) (by omega)
      rw [if_neg hparent, Nat.zero_add]
      exact ih q.parent hbefore hq' hparent (by omega)

/-- From the outermost scope every other scope is reached, and in one way. -/
theorem below_perm : (t.below t.scopes.length outermost).Perm (List.range' 2 (t.scopes.length - 1)) := by
  refine List.perm_iff_count.mpr fun c => ?_
  rw [List.Nodup.count (List.nodup_range' ..)]
  by_cases hc : outermost < c ∧ c ≤ t.scopes.length
  · obtain ⟨q, hq⟩ := exists_scope? (Nat.lt_trans Nat.zero_lt_one hc.1) hc.2
    have hmem : c ∈ List.range' 2 (t.scopes.length - 1) := List.mem_range'_1.mpr (by rw [outermost] at hc; omega)
    rw [h.count_below_outermost hq (Nat.ne_of_gt hc.1) (Nat.le_succ_of_le hc.2), if_pos hmem]
  · have hnot : c ∉ List.range' 2 (t.scopes.length - 1) := fun hm => hc (by
      have := List.mem_range'_1.mp hm
      rw [outermost]
      omega)
    rw [if_neg hnot, List.count_eq_zero]
    exact fun hm => hc (h.lt_of_mem_below hm)

/-- The lists of all scopes together have a symbol once if its scope is there. -/
theorem count_symbols {y : Nat} {z : Symbol} (hz : t.symbol? y = some z) {s : Scope}
    (hs : t.scope? z.scope = some s) : (t.scopes.flatMap (·.symbols)).count y = 1 := by
  have hle := le_of_symbol? hz
  have hscope := le_of_scope? hs
  have hlists : t.scopes.map (·.symbols) = (List.range' 1 t.scopes.length).map t.declaredIn := by
    refine List.ext_getElem (by simp) fun i hi hi' => ?_
    have hi : i < t.scopes.length := by simpa using hi
    have hsome : t.scope? (1 + i) = some t.scopes[i] := by
      rw [scope?, if_neg (by omega), Nat.add_sub_cancel_left, List.getElem?_eq_getElem hi]
    simpa using h.symbols _ _ hsome
  have hplace : ∀ id ∈ List.range' 1 t.scopes.length, (t.declaredIn id).count y
      = if id == z.scope then 1 else 0 := by
    intro id _
    rw [declaredIn, count_filter_numbers _ hle.1 hle.2, hz, Option.any_some]
    simp only [beq_iff_eq, @eq_comm _ z.scope]
  rw [List.flatMap, hlists, ← List.flatMap, count_flatMap_of_key _ hplace, List.map_id', Nat.mul_one,
    List.Nodup.count (List.nodup_range' ..)]
  exact if_pos (List.mem_range'_1.mpr (by omega))

/-- So do the indexes. -/
theorem count_index {y : Nat} {z : Symbol} (hz : t.symbol? y = some z) {s : Scope}
    (hs : t.scope? z.scope = some s) : (t.scopes.flatMap fun s => s.index.flatMap (·.2)).count y = 1 := by
  rw [← h.count_symbols hz hs, List.count_flatMap, List.count_flatMap]
  refine congrArg List.sum (List.map_congr_left fun s' hs' => ?_)
  obtain ⟨i, hi, rfl⟩ := List.mem_iff_getElem.mp hs'
  have hsome : t.scope? (i + 1) = some t.scopes[i] := by
    rw [scope?, if_neg (Nat.succ_ne_zero i), Nat.add_sub_cancel, List.getElem?_eq_getElem hi]
  exact (h.index _ _ hsome).count y

theorem mem_symbols {y : Nat} {z : Symbol} (hz : t.symbol? y = some z) {s : Scope}
    (hs : t.scope? z.scope = some s) : y ∈ s.symbols ∧ y ∈ s.bucket z.name := by
  have hle := le_of_symbol? hz
  have hmem : y ∈ s.symbols := by
    rw [h.symbols _ s hs]
    exact List.mem_filter.mpr ⟨List.mem_range'_1.mpr (by omega), by rw [hz, Option.any_some, beq_self_eq_true]⟩
  have hname : t.nameOf y = z.name := by rw [nameOf, hz, Option.map_some, Option.getD_some]
  exact ⟨hmem, hname ▸ (h.index _ s hs).mem_bucket hmem⟩

/-- What is listed is listed in order. -/
theorem listed_lt {id : Nat} {s : Scope} (hs : t.scope? id = some s) :
    s.symbols.Pairwise (· < ·) ∧ ∀ e ∈ s.index, e.2.Pairwise (· < ·) := by
  have hsymbols : s.symbols.Pairwise (· < ·) := by
    rw [h.symbols id s hs]
    exact filter_numbers_lt _ _
  refine ⟨hsymbols, fun e he => ?_⟩
  rw [(h.index id s hs).bucket e he]
  exact hsymbols.filter _

end IsOrdered

end SymbolTable

end Craftlang
