import Craftlang.Proofs.Scope.Valid
import Craftlang.Proofs.Tree.Parts
import Craftlang.Scope.Resolution

/-!
# Resolving only adds

Resolving a piece of a program adds symbols, scopes, bindings and diagnostics to what is there, and
binds no node twice. `Extends` says what the pieces of a program have in common, whatever they are.
-/

namespace Craftlang

/-- Is a diagnostic about what a program means, and not about how it is written? -/
def Diagnostic.isSemantic (d : Diagnostic) : Bool := 3000 ≤ d.code.number && d.code.number < 4000

/-- What was listed under numbers became more: each number at most as often as `ids` has it. -/
def NewKeys {α : Type} (before after : List (Nat × α)) (ids : List Nat) : Prop :=
  ∀ x, (after.map (·.1)).count x ≤ (before.map (·.1)).count x + ids.count x

namespace NewKeys

variable {α : Type} {a b c : List (Nat × α)} {is js ks : List Nat}

theorem refl (a : List (Nat × α)) (is : List Nat) : NewKeys a a is := fun _ => by omega

theorem snoc (a : List (Nat × α)) (x : Nat) (v : α) : NewKeys a (a ++ [(x, v)]) [x] := by
  intro y
  rw [List.map_append, List.count_append]
  exact Nat.le_refl _

theorem trans (hab : NewKeys a b is) (hbc : NewKeys b c js)
    (h : ∀ x, is.count x + js.count x ≤ ks.count x) : NewKeys a c ks := by
  intro x
  have := hab x
  have := hbc x
  have := h x
  omega

theorem mono (hab : NewKeys a b is) (h : ∀ x, is.count x ≤ js.count x) : NewKeys a b js := by
  intro x
  have := hab x
  have := h x
  omega

theorem nodup (h : NewKeys [] a is) (his : is.Nodup) : (a.map (·.1)).Nodup := by
  refine List.nodup_iff_count.mpr fun x => ?_
  have := h x
  have := List.nodup_iff_count.mp his x
  simp only [List.map_nil, List.count_nil] at *
  omega

end NewKeys

/-- Under keys that are all different, what is listed is found. -/
theorem lookup_eq_some_of_mem {κ α : Type} [BEq κ] [LawfulBEq κ] {xs : List (κ × α)}
    (h : (xs.map (·.1)).Nodup) {x : κ} {v : α} (hm : (x, v) ∈ xs) : xs.lookup x = some v := by
  induction xs with
  | nil => cases hm
  | cons first rest ih =>
    rw [List.map_cons, List.nodup_cons] at h
    rcases List.mem_cons.mp hm with rfl | hrest
    · simp
    · obtain ⟨k, w⟩ := first
      have hne : x ≠ k := by
        rintro rfl
        exact h.1 (List.mem_map.mpr ⟨(x, v), hrest, rfl⟩)
      rw [List.lookup_cons, beq_false_of_ne hne]
      exact ih h.2 hrest

/-- Under keys that are all different, the first with a key is the only one. -/
theorem find?_eq_some_of_mem {α : Type} {xs : List α} {key : α → Nat} (h : (xs.map key).Nodup) {a : α}
    (ha : a ∈ xs) : xs.find? (fun x => key x == key a) = some a := by
  induction xs with
  | nil => cases ha
  | cons first rest ih =>
    rw [List.map_cons, List.nodup_cons] at h
    rcases List.mem_cons.mp ha with rfl | hrest
    · simp
    · have hne : key first ≠ key a := fun he => h.1 (he ▸ List.mem_map_of_mem hrest)
      rw [List.find?_cons_of_neg (by simpa using hne)]
      exact ih h.2 hrest

theorem mem_of_lookup_eq_some {α β : Type} [BEq α] [LawfulBEq α] {xs : List (α × β)} {x : α} {v : β}
    (h : xs.lookup x = some v) : (x, v) ∈ xs := by
  obtain ⟨before, after, rfl, -⟩ := List.lookup_eq_some_iff.mp h
  simp

/-- What is found stays found when more is listed behind it. -/
theorem lookup_of_isPrefix {α β : Type} [BEq α] {xs ys : List (α × β)} (h : xs <+: ys) {x : α} {v : β}
    (hx : xs.lookup x = some v) : ys.lookup x = some v := by
  obtain ⟨zs, rfl⟩ := h
  rw [List.lookup_append, hx]
  rfl

/-- If all that is listed under some keys is dropped, the rest is found as before. -/
theorem lookup_filter {α β : Type} [BEq α] [LawfulBEq α] (p : α → Bool) (xs : List (α × β)) (k : α) :
    (xs.filter fun e => p e.1).lookup k = if p k then xs.lookup k else none := by
  induction xs with
  | nil => split <;> rfl
  | cons x xs ih =>
    rw [List.filter_cons, List.lookup_cons]
    by_cases hk : k = x.1
    · subst hk
      by_cases hp : p x.1 = true
      · rw [if_pos hp, if_pos hp, List.lookup_cons, beq_self_eq_true]
      · rw [if_neg hp, if_neg hp, ih, if_neg hp]
    · have hne : (k == x.1) = false := beq_false_of_ne hk
      rw [hne, ← ih]
      split
      · rw [List.lookup_cons, hne]
      · rfl

namespace SymbolTable

/-- Symbols and scopes are added, and what a name means in a scope stays. -/
structure Grows (t t' : SymbolTable) : Prop where
  symbols : t.symbols <+: t'.symbols
  scope : ∀ id, (t.scope? id).isSome → (t'.scope? id).isSome
  found : ∀ id name y, t.findLocal? id name = some y → t'.findLocal? id name = some y

namespace Grows

variable {t t' t'' : SymbolTable}

theorem refl (t : SymbolTable) : t.Grows t := ⟨List.prefix_rfl, fun _ h => h, fun _ _ _ h => h⟩

theorem trans (h : t.Grows t') (h' : t'.Grows t'') : t.Grows t'' :=
  ⟨h.symbols.trans h'.symbols, fun id hs => h'.scope id (h.scope id hs),
    fun id name y hf => h'.found id name y (h.found id name y hf)⟩

theorem length_le (h : t.Grows t') : t.symbols.length ≤ t'.symbols.length := h.symbols.length_le

theorem symbol? (h : t.Grows t') {y : Nat} {z : Symbol} (hz : t.symbol? y = some z) :
    t'.symbol? y = some z := by
  rw [SymbolTable.symbol?] at hz ⊢
  split
  · rename_i hy
    rw [if_pos hy] at hz
    cases hz
  · rename_i hy
    rw [if_neg hy] at hz
    obtain ⟨ys, hys⟩ := h.symbols
    rw [← hys, List.getElem?_append_left (List.getElem?_eq_some_iff.mp hz).1]
    exact hz

theorem openScope (t : SymbolTable) {kind : ScopeKind} {parent : Nat} {span : Span}
    (hp : parent ≤ t.scopes.length) : t.Grows (t.openScope kind parent span).1 := by
  refine ⟨by simp only [symbols_openScope, List.prefix_refl], fun id hs => ?_, fun id name y hf => ?_⟩
  · obtain ⟨s, hs⟩ := Option.isSome_iff_exists.mp hs
    obtain ⟨s', hs', -⟩ := scope?_of_openScope kind span hp hs
    rw [hs']
    rfl
  · rw [findLocal?] at hf ⊢
    obtain ⟨s, hs, hfind⟩ := Option.bind_eq_some_iff.mp hf
    obtain ⟨s', hs', -, -, -, hindex, -⟩ := scope?_of_openScope kind span hp hs
    rw [hs']
    change s'.find? name = some y
    rw [Scope.find?, Scope.bucket, hindex]
    exact hfind

theorem declare {here : Nat} {y : Symbol} {new : Nat} (h : t.declare? here y = some (t', new)) :
    t.Grows t' := by
  refine ⟨?_, fun id hs => ?_, fun id name k hf => ?_⟩
  · rw [(symbols_declare h).1]
    exact List.prefix_append _ _
  · obtain ⟨s, hs⟩ := Option.isSome_iff_exists.mp hs
    obtain ⟨s', hs', -⟩ := scope?_of_declare h hs
    rw [hs']
    rfl
  · rw [findLocal?] at hf ⊢
    obtain ⟨s, hs, hfind⟩ := Option.bind_eq_some_iff.mp hf
    rw [scope?_declare h, hs]
    split
    · exact Scope.find?_declare hfind _ _
    · exact hfind

end Grows

end SymbolTable

end Craftlang
