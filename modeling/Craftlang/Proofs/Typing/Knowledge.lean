import Craftlang.Proofs.Typing.Derivation
import Craftlang.Proofs.Typing.Growth

/-!
# The symbols that have types

Typing an expression gives types to the variables that it declares and to no other symbol. Symbols are
numbered as they are declared, so where the names of an expression are bound to the first `n` symbols and
`m` symbols are declared after it, the new types belong to variables behind `n` and up to `m`.
-/

namespace Craftlang

/-- A signature that can be declared: the parameters take values, and the result is a value or nothing. -/
structure Signature.IsProper (s : Signature) : Prop where
  params : ∀ ty ∈ s.params, ty.isValue = true ∨ ty = .any
  result : s.result.isValue = true ∨ s.result = .void

theorem Program.Denotes.isValue {p : Program} {q : Resolution} {y : Nat} {ty : Ty}
    (h : p.Denotes q y ty) : ty.isValue = true := by
  induction h with
  | synonym _ _ _ _ ih => exact ih
  | builtin _ _ _ hname =>
    rw [Ty.ofName?] at hname
    split at hname
    · cases hname
      rfl
    · split at hname
      · cases hname
        rfl
      · split at hname
        · cases hname
          rfl
        · cases hname

theorem Program.Writes.isValue {p : Program} {q : Resolution} {type : Name} {ty : Ty}
    (h : p.Writes q type ty) : ty.isValue = true := by
  obtain ⟨y, -, hd⟩ := h
  exact hd.isValue

/-- A function without a result type is void, and otherwise it gives a value. -/
theorem Program.WritesResult.void_or_isValue {p : Program} {q : Resolution} {type : Option Name} {ty : Ty}
    (h : p.WritesResult q type ty) :
    type = .none ∧ ty = .void ∨ type.isSome = true ∧ ty.isValue = true := by
  cases h with
  | none => exact .inl ⟨rfl, rfl⟩
  | some h => exact .inr ⟨rfl, h.isValue⟩

theorem Program.WritesResult.isValue {p : Program} {q : Resolution} {type : Option Name} {ty : Ty}
    (h : p.WritesResult q type ty) : ty.isValue = true ∨ ty = .void :=
  h.void_or_isValue.symm.imp (·.2) (·.2)

namespace Typing

/-- The variables among the first `n` symbols have types, and functions can be called. -/
structure Knows (q : Resolution) (n : Nat) (t : Typing) : Prop where
  values : ∀ y, y ≤ n → q.HasKind y .var ∨ q.HasKind y .param →
    ∃ ty, t.symbols.lookup y = some (.value ty) ∧ ty.isValue = true
  functions : ∀ y, q.HasKind y .function →
    ∃ s, t.symbols.lookup y = some (.function s) ∧ s.IsProper

/-- None of the symbols after the first `n` up to `m` is a variable with a type. -/
def Clear (q : Resolution) (n m : Nat) (t : Typing) : Prop :=
  ∀ e ∈ t.symbols, q.HasKind e.1 .var → e.1 ≤ n ∨ m < e.1

/-- What is recorded for a type is what it stands for. -/
def Names (p : Program) (q : Resolution) (e : Nat × TypeInfo) : Prop :=
  q.HasKind e.1 .type ∧ ∃ ty, e.2 = .value ty ∧ p.Denotes q e.1 ty

/-- Besides names of types, types were recorded only for variables after the first `n` symbols up to
`m`. -/
def Notes (p : Program) (q : Resolution) (n m : Nat) (t t' : Typing) : Prop :=
  ∀ e ∈ t'.symbols, e ∈ t.symbols ∨ Names p q e ∨ n < e.1 ∧ e.1 ≤ m ∧ q.HasKind e.1 .var

section

variable {p : Program} {q : Resolution} {n m o l : Nat} {t t' t'' : Typing}

theorem Knows.mono (h : Knows q n t) (ht : t.Precedes t') : Knows q n t' := by
  refine ⟨fun y hy hk => ?_, fun y hy => ?_⟩
  · obtain ⟨ty, hty, hv⟩ := h.values y hy hk
    exact ⟨ty, lookup_of_isPrefix ht.symbols hty, hv⟩
  · obtain ⟨s, hs, hproper⟩ := h.functions y hy
    exact ⟨s, lookup_of_isPrefix ht.symbols hs, hproper⟩

/-- Nothing has to be known about a symbol that is no variable. -/
theorem Knows.skip (h : Knows q n t)
    (hk : ∀ y, n < y → y ≤ m → q.HasKind y .var ∨ q.HasKind y .param →
      ∃ ty, t.symbols.lookup y = some (.value ty) ∧ ty.isValue = true) : Knows q m t := by
  refine ⟨fun y hy hkind => ?_, h.functions⟩
  by_cases hn : y ≤ n
  · exact h.values y hn hkind
  · exact hk y (by omega) hy hkind

theorem Clear.shrink (h : Clear q n o t) (hm : m ≤ o) : Clear q n m t := by
  intro e he hk
  have := h e he hk
  omega

theorem Clear.after (h : Clear q n o t) (hn : Notes p q n m t t') (hle : n ≤ m) : Clear q m o t' := by
  intro e he hk
  rcases hn e he with he | ⟨hkind, -⟩ | he
  · have := h e he hk
    omega
  · cases hk.unique hkind
  · omega

/-- What comes later leaves the symbols before it clear. -/
theorem Clear.before (h : Clear q n o t) (hn : Notes p q m o t t') (hle : m ≤ o) : Clear q n m t' := by
  intro e he hk
  rcases hn e he with he | ⟨hkind, -⟩ | he
  · exact h.shrink hle e he hk
  · cases hk.unique hkind
  · omega

/-- A variable that is declared next has no type yet. -/
theorem Clear.lookup_eq_none (h : Clear q n m t) {y : Nat} (hn : n < y) (hm : y ≤ m)
    (hk : q.HasKind y .var) : t.symbols.lookup y = none := by
  rw [List.lookup_eq_none_iff]
  intro e he
  refine bne_iff_ne.mpr fun heq => ?_
  have := h e he (heq ▸ hk)
  omega

theorem Clear.lookup_noteSymbol (h : Clear q n m t) {y : Nat} (hn : n < y) (hm : y ≤ m)
    (hk : q.HasKind y .var) (info : TypeInfo) :
    (t.noteSymbol y info).symbols.lookup y = some info := by
  rw [noteSymbol, List.lookup_append, h.lookup_eq_none hn hm hk]
  simp

/-- The next variable has a type. -/
theorem Knows.noteVar (h : Knows q n t) (hcl : Clear q n (n + 1) t) (hk : q.HasKind (n + 1) .var)
    {ty : Ty} (hv : ty.isValue = true) : Knows q (n + 1) (t.noteSymbol (n + 1) (.value ty)) := by
  refine (h.mono (extends_noteSymbol t _ _).toPrecedes).skip fun y hlt hle _ => ?_
  obtain rfl : y = n + 1 := by omega
  exact ⟨ty, hcl.lookup_noteSymbol hlt hle hk _, hv⟩

namespace Notes

theorem noteVar (hk : q.HasKind (n + 1) .var) (info : TypeInfo) :
    Notes p q n (n + 1) t (t.noteSymbol (n + 1) info) := by
  intro e he
  rcases List.mem_append.mp he with he | he
  · exact .inl he
  · rw [List.mem_singleton.mp he]
    exact .inr (.inr ⟨Nat.lt_succ_self n, Nat.le_refl _, hk⟩)

theorem refl (h : t'.symbols = t.symbols) : Notes p q n m t t' := fun _ he => .inl (h ▸ he)

theorem congr (h : Notes p q n m t t') (heq : t''.symbols = t'.symbols) : Notes p q n m t t'' :=
  fun e he => h e (heq ▸ he)

theorem widen (h : Notes p q n m t t') (hn : o ≤ n) (hm : m ≤ l) : Notes p q o l t t' := by
  intro e he
  rcases h e he with he | he | ⟨hlt, hle, hk⟩
  · exact .inl he
  · exact .inr (.inl he)
  · exact .inr (.inr ⟨by omega, by omega, hk⟩)

theorem trans (h : Notes p q n m t t') (h' : Notes p q n m t' t'') : Notes p q n m t t'' := by
  intro e he
  rcases h' e he with he | he
  · exact h e he
  · exact .inr he

/-- One piece after the other. -/
theorem seq (h : Notes p q n m t t') (h' : Notes p q m o t' t'') (hnm : n ≤ m) (hmo : m ≤ o) :
    Notes p q n o t t'' := (h.widen (Nat.le_refl _) hmo).trans (h'.widen hnm (Nat.le_refl _))

end Notes

end

section Symbols

variable (t : Typing) (c : TypingContext)

@[simp] theorem symbols_report (problem : TypeProblem) (span : Span) (notes : List Note) :
    (t.report problem span notes).symbols = t.symbols := rfl

@[simp] theorem symbols_settle (node : Node) (type : Ty) :
    (t.settle node type).1.symbols = t.symbols := rfl

@[simp] theorem symbols_checkRange (span : Span) (text : Bytes) (negated : Bool) :
    (t.checkRange span text negated).symbols = t.symbols := by
  rw [checkRange]
  generalize (if negated then largestInt + 1 else largestInt) = limit
  split
  · split <;> rfl
  · rfl

@[simp] theorem symbols_constant (node : Node) (value : Constant) (negated : Bool) :
    (t.constant node value negated).1.symbols = t.symbols := by
  cases value with
  | int text => exact symbols_checkRange t node.span text negated
  | bool b => rfl
  | string s => rfl

@[simp] theorem symbols_ident (i : Ident) : (ident c t i).1.symbols = t.symbols := by
  rw [ident]
  split
  · rfl
  · split <;> rfl

@[simp] theorem symbols_consumed (span : Span) (typed : Typing × Ty) :
    (consumed span typed).1.symbols = typed.1.symbols := by
  rw [consumed]
  split <;> rfl

@[simp] theorem symbols_applyUnary (node : Node) (op : UnaryOp) (operand : Ty) :
    (t.applyUnary node op operand).1.symbols = t.symbols := by
  rw [applyUnary]
  split
  · rfl
  · split <;> rfl

@[simp] theorem symbols_applyBinary (node : Node) (op : BinaryOp) (opSpan : Span) (left right : Ty) :
    (t.applyBinary node op opSpan left right).1.symbols = t.symbols := by
  rw [applyBinary]
  split
  · rfl
  · split <;> rfl

@[simp] theorem symbols_checkAssigned (op : AssignOp) (opSpan : Span) (name : Bytes)
    (target value : Ty) (valueSpan : Span) :
    (t.checkAssigned op opSpan name target value valueSpan).symbols = t.symbols := by
  rw [checkAssigned]
  split
  · rfl
  · split
    · split <;> rfl
    · split <;> rfl

@[simp] theorem symbols_namedCallee (i : Ident) : (namedCallee c t i).1.symbols = t.symbols := by
  rw [namedCallee]
  split
  · rfl
  · split
    · split <;> rfl
    · rfl

@[simp] theorem symbols_checkArguments (name : Bytes) (place : Nat) (params : List Ty)
    (args : List (Span × Ty)) : (t.checkArguments name place params args).symbols = t.symbols := by
  induction params generalizing t place args with
  | nil => rfl
  | cons param params ih =>
    cases args with
    | nil => rfl
    | cons arg args =>
      rw [checkArguments, ih]
      split <;> rfl

@[simp] theorem symbols_applyCall (node : Node) (callee : Option (Bytes × Signature))
    (args : List (Span × Ty)) : (t.applyCall node callee args).1.symbols = t.symbols := by
  unfold applyCall
  split
  · rfl
  · split
    · exact symbols_checkArguments t _ _ _ _
    · rfl

end Symbols

section

variable {p : Program} {c : TypingContext} {n m : Nat}

/-- A name that is bound is found. -/
theorem boundTo?_of_binds {i : Ident} {y : Nat} {z : Symbol} (h : c.resolution.Binds n i y z) :
    boundTo? c i = some (y, z) := by
  have hne : SymbolTable.isError y = false := beq_false_of_ne h.ne
  rw [boundTo?, h.ref]
  simp [hne, h.symbol]

/-- An assignment records a type only for a target that it declares. -/
theorem notes_assign {k : Node} {op : AssignOp} {span : Span} {i : Ident} {value : Expr}
    (hb : Expr.Bound c.resolution n (.assign k op span i value) m) (t : Typing) (ty : Ty)
    (vspan : Span) : Notes p c.resolution n m t (assign c t k op span i ty vspan).1 := by
  rw [assign]
  cases hb with
  | assign hvalue hi himp =>
    rw [boundTo?_of_binds hi]
    dsimp only
    rw [if_neg fun hl => himp (mem_of_lookup_eq_some hl)]
    split
    · exact .refl (by simp [noteExpr])
    · exact .refl (by simp)
  | declare hvalue hi hk himp =>
    rw [boundTo?_of_binds hi]
    dsimp only
    rw [if_pos himp]
    exact ((Notes.noteVar ⟨_, hi.symbol, hk⟩ _).widen hvalue.le (Nat.le_refl _)).congr rfl

mutual

theorem notes_expr {n m : Nat} (t : Typing) : (e : Expr) → Expr.Bound c.resolution n e m →
    Notes p c.resolution n m t (expr c t e).1
  | .error _, _ => by
    rw [expr]
    exact .refl rfl
  | .constant .., _ => by
    rw [expr]
    exact .refl (by simp)
  | .ident i, _ => by
    rw [expr]
    exact .refl (by simp)
  | .group _ inner, h => by
    cases h with
    | group hi =>
      rw [expr]
      exact notes_expr t inner hi
  | .unary _ op operand, h => by
    cases h with
    | unary ho =>
      have hn := notes_expr t operand ho
      rw [expr_unary]
      rcases operand_cases c t op operand with heq | ⟨k, text, -, -, heq⟩
      · rw [heq]
        exact hn.congr (by simp)
      · rw [heq]
        exact .refl (by simp)
  | .binary _ _ _ left right, h => by
    cases h with
    | binary hl hr =>
      have hnl := notes_expr t left hl
      have hnr := notes_expr (consumed left.span (expr c t left)).1 right hr
      rw [expr]
      exact (hnl.congr (symbols_consumed _ _)).seq (hnr.congr (by simp)) hl.le hr.le
  | .call _ target args, h => by
    cases h with
    | call ht ha =>
      -- The arguments come first here, but the symbols that the callee declares come before theirs.
      have hna := (notes_arguments t args ha).widen ht.le (Nat.le_refl _)
      by_cases hi : ∃ i, target = .ident i
      · obtain ⟨i, rfl⟩ := hi
        rw [expr]
        exact hna.congr (by simp)
      · have hnt := (notes_expr (arguments c t args).1 target ht).widen (Nat.le_refl _) ha.le
        rw [expr_call_other c t _ args fun i he => hi ⟨i, he⟩]
        refine hna.trans (hnt.congr ?_)
        dsimp only
        split <;> rfl
  | .assign _ _ _ i value, h => by
    have hv : ∃ o, Expr.Bound c.resolution n value o ∧ o ≤ m := by
      cases h with
      | assign hv _ _ => exact ⟨_, hv, Nat.le_refl _⟩
      | declare hv _ _ _ => exact ⟨_, hv, Nat.le_succ _⟩
    obtain ⟨o, hv, hom⟩ := hv
    have hnv := (notes_expr t value hv).congr (symbols_consumed value.span _)
    rw [expr]
    exact (hnv.widen (Nat.le_refl _) hom).trans (notes_assign h _ _ _)

theorem notes_arguments {n m : Nat} (t : Typing) : (es : List Expr) →
    Expr.AllBound c.resolution n es m → Notes p c.resolution n m t (arguments c t es).1
  | [], _ => by
    rw [arguments]
    exact .refl rfl
  | e :: es, h => by
    cases h with
    | cons he hes =>
      have hne := notes_expr t e he
      have hnes := notes_arguments (consumed e.span (expr c t e)).1 es hes
      rw [arguments]
      exact (hne.congr (symbols_consumed _ _)).seq hnes he.le hes.le

end

end

end Typing

end Craftlang
