import Craftlang.Typing.Program

/-!
# Aliases along their chain

The checker asks for the target of an alias while the alias itself waits for the answer. On the way out
nothing is recorded, so it goes along a chain of symbols whose types are not known; it ends at a type that is
known, or at a symbol that waits already. On the way back all of them get the same type. Here the chain is
followed in one walk, and the checker is shown to do what the walk says.
-/

namespace Craftlang

/-- Where a chain of aliases ends. -/
inductive AliasEnd where
  | type (t : Ty)
  | cycle (closesAt : Nat)
deriving DecidableEq, Repr

/-- Follows a chain from a symbol to a type that is known. The aliases, each with its target, are those
not met yet; the answer tells the aliases on the way. -/
def followAlias (known : Nat → Option Ty) (aliases : List (Nat × Nat)) (symbol : Nat) :
    List Nat × AliasEnd :=
  match known symbol with
  | some t => ([], .type t)
  | none =>
    match found : aliases.find? fun a => a.1 == symbol with
    | none => ([], .cycle symbol)
    | some a =>
      have fewer : (aliases.eraseP fun a => a.1 == symbol).length < aliases.length := by
        have member := List.mem_of_find?_eq_some found
        have erased := List.length_eraseP_of_mem member (List.find?_some found)
        have nonempty := List.length_pos_of_mem member
        omega
      let (met, last) := followAlias known (aliases.eraseP fun a => a.1 == symbol) a.2
      (symbol :: met, last)
termination_by aliases.length

namespace Typing

/-- Types of symbols that are the same. -/
def noteAll (t : Typing) (xs : List Nat) (info : TypeInfo) : Typing :=
  { t with symbols := t.symbols ++ xs.map fun x => (x, info) }

theorem lookup_map_pair {α : Type} (xs : List Nat) (v : α) (x : Nat) :
    (xs.map fun y => (y, v)).lookup x = if x ∈ xs then some v else none := by
  induction xs with
  | nil => rfl
  | cons y ys ih =>
    rw [List.map_cons, List.lookup_cons, ih]
    by_cases h : x = y
    · simp [h]
    · simp [h, beq_false_of_ne h]

theorem lookup_noteAll (t : Typing) (xs : List Nat) (info : TypeInfo) (x : Nat) :
    (t.noteAll xs info).symbols.lookup x =
      (t.symbols.lookup x).or (if x ∈ xs then some info else none) := by
  rw [noteAll, List.lookup_append, lookup_map_pair]

theorem foldl_noteSymbol (t : Typing) (xs : List Nat) (info : TypeInfo) :
    xs.foldl (fun t x => t.noteSymbol x info) t = t.noteAll xs info := by
  induction xs generalizing t with
  | nil => simp [noteAll]
  | cons x xs ih =>
    rw [List.foldl_cons, ih]
    simp [noteAll, noteSymbol]

@[simp] theorem noteAll_nil (t : Typing) (info : TypeInfo) : t.noteAll [] info = t := by
  simp [noteAll]

theorem noteAll_noteSymbol (t : Typing) (xs : List Nat) (info : TypeInfo) (x : Nat) :
    (t.noteAll xs info).noteSymbol x info = t.noteAll (xs ++ [x]) info := by
  simp [noteAll, noteSymbol]

variable {t : Typing} {r : Resolution} {symbol : Nat}

/-- A symbol whose type was not known has the type that was noted, or its type is still not known. -/
theorem namedType?_noteAll {xs : List Nat} {type : Ty} (h : t.namedType? r symbol = none) :
    (t.noteAll xs (.value type)).namedType? r symbol = none ∨
      symbol ∈ xs ∧ (t.noteAll xs (.value type)).namedType? r symbol = some type := by
  rw [namedType?] at h ⊢
  split at h
  · cases h
  · split at h
    · cases h
    · split at h
      · cases h
      · split at h
        · cases h
        · rename_i hkind hbuiltin _ hnone
          rw [if_neg hkind, if_neg hbuiltin, lookup_noteAll]
          cases hlookup : t.symbols.lookup symbol with
          | none =>
            rw [Option.none_or]
            by_cases hmem : symbol ∈ xs
            · rw [if_pos hmem]
              exact .inr ⟨hmem, rfl⟩
            · rw [if_neg hmem]
              exact .inl rfl
          | some info =>
            cases info with
            | value found => exact absurd hlookup (hnone found)
            | function s => exact .inl rfl

section

variable {unvisited : List (Nat × Nat)}

theorem resolveAlias_of_done {type : Ty} (h : t.aliasState r unvisited symbol = .done type) :
    t.resolveAlias r unvisited symbol = (t, type) := by
  rw [resolveAlias]
  split <;> simp_all

theorem resolveAlias_of_resolving (h : t.aliasState r unvisited symbol = .resolving) :
    t.resolveAlias r unvisited symbol = ((t.report (.aliasCycle (r.table.nameOf symbol))
      (r.spanOf symbol)).noteSymbol symbol (.value .invalid), .invalid) := by
  rw [resolveAlias]
  split <;> simp_all

theorem resolveAlias_of_unvisited {target : Nat} (h : t.aliasState r unvisited symbol = .unvisited target) :
    let answer := t.resolveAlias r (unvisited.eraseP fun a => a.1 == symbol) target
    t.resolveAlias r unvisited symbol = match answer.1.namedType? r symbol with
      | some closed => (answer.1, closed)
      | none => (answer.1.noteSymbol symbol (.value answer.2), answer.2) := by
  intro answer
  rw [resolveAlias]
  split
  · rename_i hdone
    rw [h] at hdone
    cases hdone
  · rename_i hresolving
    rw [h] at hresolving
    cases hresolving
  · rename_i hunvisited
    cases h.symm.trans hunvisited
    rfl

end

/-- What is recorded for a walk: one type for the symbols on it, or no type once the walk came to a symbol that waits,
which is reported. -/
inductive Records (t : Typing) (r : Resolution) : List Nat × AliasEnd → Typing × Ty → Prop
  | type {met xs : List Nat} {type : Ty} (h : ∀ x, x ∈ xs ↔ x ∈ met) :
    Records t r (met, .type type) (t.noteAll xs (.value type), type)
  | cycle {met xs : List Nat} {closesAt : Nat} (h : ∀ x, x ∈ xs ↔ x = closesAt ∨ x ∈ met) :
    Records t r (met, .cycle closesAt) ((t.report (.aliasCycle (r.table.nameOf closesAt))
      (r.spanOf closesAt)).noteAll xs (.value .invalid), .invalid)

/-- An alias whose target was looked up gets the type of the target, unless it has one by now. -/
theorem Records.step {walk : List Nat × AliasEnd} {answer : Typing × Ty} (h : Records t r walk answer)
    (hsymbol : t.namedType? r symbol = none) :
    Records t r (symbol :: walk.1, walk.2) (match answer.1.namedType? r symbol with
      | some closed => (answer.1, closed)
      | none => (answer.1.noteSymbol symbol (.value answer.2), answer.2)) := by
  cases h with
  | type h =>
    obtain hnone | ⟨hmem, hsome⟩ := namedType?_noteAll hsymbol
    · rw [hnone]
      dsimp only
      rw [noteAll_noteSymbol]
      exact .type fun x => by simp [h, or_comm]
    · rw [hsome]
      exact .type fun x => by simpa [h] using fun hx => hx ▸ (h symbol).mp hmem
  | @cycle met xs closesAt h =>
    have hreported : (t.report (.aliasCycle (r.table.nameOf closesAt)) (r.spanOf closesAt)).namedType? r symbol
        = none := hsymbol
    obtain hnone | ⟨hmem, hsome⟩ := namedType?_noteAll hreported
    · rw [hnone]
      dsimp only
      rw [noteAll_noteSymbol]
      exact .cycle fun x => by simp [h, or_comm, or_left_comm]
    · rw [hsome]
      refine .cycle fun x => ?_
      rw [List.mem_cons, h]
      refine ⟨Or.imp_right .inr, fun hx => ?_⟩
      obtain hx | rfl | hx := hx
      · exact .inl hx
      · exact (h x).mp hmem
      · exact .inr hx

/-- Looking up an alias records what the walk says. -/
theorem resolveAlias_records (t : Typing) (r : Resolution) (unvisited : List (Nat × Nat)) (symbol : Nat) :
    Records t r (followAlias (t.namedType? r) unvisited symbol) (t.resolveAlias r unvisited symbol) := by
  fun_induction followAlias (t.namedType? r) unvisited symbol with
  | case1 unvisited symbol type hknown =>
    have hstate : t.aliasState r unvisited symbol = .done type := by rw [aliasState, hknown]
    rw [resolveAlias_of_done hstate]
    have hnothing := @Records.type t r [] [] type fun _ => .rfl
    rwa [noteAll_nil] at hnothing
  | case2 unvisited symbol hnone hfind =>
    have hstate : t.aliasState r unvisited symbol = .resolving := by rw [aliasState, hnone, hfind]
    rw [resolveAlias_of_resolving hstate]
    exact @Records.cycle t r [] [symbol] symbol fun _ => by simp
  | case3 unvisited symbol hnone a hfind _ met last hmet ih =>
    have hstate : t.aliasState r unvisited symbol = .unvisited a.2 := by rw [aliasState, hnone, hfind]
    rw [resolveAlias_of_unvisited hstate]
    exact (hmet ▸ ih).step hnone

theorem namedType_records (t : Typing) (c : TypingContext) (symbol : Nat) :
    Records t c.resolution (followAlias (t.namedType? c.resolution) c.aliases symbol) (t.namedType c symbol) :=
  resolveAlias_records ..

end Typing

end Craftlang
