import Craftlang.Proofs.Scope.Functions
import Craftlang.Typing.Program
import Mathlib.Data.List.Forall2
import Mathlib.Tactic.FinCases

/-!
# The type system

Which programs are well typed, said without the checker. A derivation assumes what the names of the
program stand for and which types its symbols have, and it gives a type to every expression, which it
lists by the numbers of the nodes. The rules say nothing of the order in which types are found, nor of
what happens when there are none.
-/

namespace Craftlang

/-- The table of binary operators: the types of the operands and of the result. -/
inductive BinaryOp.Takes : BinaryOp → Ty → Ty → Ty → Prop
  | logic {op} : op ∈ [.or, .xor, .and] → BinaryOp.Takes op .bool .bool .bool
  | equality {op ty} : op ∈ [.eq, .notEq] → ty ∈ [.int, .bool] → BinaryOp.Takes op ty ty .bool
  | order {op} : op ∈ [.less, .lessEq, .greater, .greaterEq] → BinaryOp.Takes op .int .int .bool
  | concat : BinaryOp.Takes .concat .string .string .string
  | arithmetic {op} : op ∈ [.add, .sub, .mul, .div, .mod] → BinaryOp.Takes op .int .int .int

/-- The table of prefix operators. -/
inductive UnaryOp.Takes : UnaryOp → Ty → Ty → Prop
  | sign {op} : op ∈ [.plus, .minus] → UnaryOp.Takes op .int .int
  | not : UnaryOp.Takes .not .bool .bool

/-- A value fits a parameter of its type, and a parameter that takes every value. -/
inductive Ty.Fits : Ty → Ty → Prop
  | same {ty} : ty.isValue = true → Ty.Fits ty ty
  | any {ty} : ty.isValue = true → Ty.Fits .any ty

/-- An integer is not beyond a limit; other literals are always in range. -/
def Constant.InRange (limit : Nat) : Constant → Prop
  | .int text => ∃ n, Literal.integer text = .ok n ∧ n ≤ limit
  | _ => True

/-- The symbol of a type stands for a type of values: the type comes with the language, or it is an alias
of what stands for one. Aliases in a cycle stand for nothing. -/
inductive Program.Denotes (p : Program) (q : Resolution) : Nat → Ty → Prop
  | builtin {y z ty} : q.table.symbol? y = some z → z.kind = .type → z.flags.builtin = true →
    Ty.ofName? z.name = some ty → Program.Denotes p q y ty
  | synonym {a i y ty} : Item.typeAlias a ∈ p.items → q.itemOf? a.node.id = some i →
    q.typeOf? a.target.span = some y → Program.Denotes p q y ty → Program.Denotes p q i.symbol ty

/-- What is written as a type stands for a type of values. -/
def Program.Writes (p : Program) (q : Resolution) (type : Name) (ty : Ty) : Prop :=
  ∃ y, q.typeOf? type.span = some y ∧ p.Denotes q y ty

/-- A function without a result type is void. -/
inductive Program.WritesResult (p : Program) (q : Resolution) : Option Name → Ty → Prop
  | none : Program.WritesResult p q none .void
  | some {type ty} : p.Writes q type ty → Program.WritesResult p q (some type) ty

/-- What a derivation assumes: the program with its aliases, what its names stand for, and the types of
its symbols. -/
structure Assumptions where
  program : Program
  names : Resolution
  types : Nat → TypeInfo

namespace Assumptions

/-- A symbol is a variable or a parameter whose values have a type. -/
structure IsVariable (Γ : Assumptions) (y : Nat) (ty : Ty) : Prop where
  kind : Γ.names.HasKind y .var ∨ Γ.names.HasKind y .param
  type : Γ.types y = .value ty
  isValue : ty.isValue = true

/-- A name refers to a variable. -/
def Holds (Γ : Assumptions) (i : Ident) (ty : Ty) : Prop :=
  ∃ y, Γ.names.refOf? i.node.id = some y ∧ Γ.IsVariable y ty

/-- A name refers to a function. -/
def Calls (Γ : Assumptions) (i : Ident) (s : Signature) : Prop :=
  ∃ y, Γ.names.refOf? i.node.id = some y ∧ Γ.names.HasKind y .function ∧ Γ.types y = .function s

end Assumptions

/-- The types that a derivation gives to nodes, the nodes of an expression before its own. -/
abbrev NodeTypes := List (Nat × TypeInfo)

mutual

/-- An expression has a type, or none if it is void. -/
inductive Expr.Derives (Γ : Assumptions) : Expr → Ty → NodeTypes → Prop
  | constant {n v} : v.InRange largestInt →
    Expr.Derives Γ (.constant n v) v.type [(n.id, .value v.type)]
  | ident {i ty} : Γ.Holds i ty → Expr.Derives Γ (.ident i) ty [(i.node.id, .value ty)]
  | group {n e ty js} : Expr.Derives Γ e ty js →
    Expr.Derives Γ (.group n e) ty (js ++ [(n.id, TypeInfo.value ty)])
  | unary {n op e s ty js} : Expr.Derives Γ e s js → op.Takes s ty →
    Expr.Derives Γ (.unary n op e) ty (js ++ [(n.id, TypeInfo.value ty)])
  /-- Directly under a minus sign a literal may be larger by one. -/
  | negative {n k text} : (Constant.int text).InRange (largestInt + 1) →
    Expr.Derives Γ (.unary n .minus (.constant k (.int text))) .int
      [(k.id, .value .int), (n.id, .value .int)]
  | binary {n op span l r s t ty js ks} : Expr.Derives Γ l s js → Expr.Derives Γ r t ks →
    op.Takes s t ty → Expr.Derives Γ (.binary n op span l r) ty (js ++ ks ++ [(n.id, TypeInfo.value ty)])
  | call {n i s args tys js} : Γ.Calls i s → Expr.AllDerive Γ args tys js →
    List.Forall₂ Ty.Fits s.params tys → Expr.Derives Γ (.call n (.ident i) args) s.result
      (js ++ [(i.node.id, TypeInfo.function s), (n.id, .value s.result)])
  | assign {n span i e ty js} : Γ.Holds i ty → Expr.Derives Γ e ty js →
    Expr.Derives Γ (.assign n .set span i e) ty
      (js ++ [(i.node.id, TypeInfo.value ty), (n.id, .value ty)])
  | update {n op b span i e s ty js} : op.binary? = some b → Γ.Holds i ty →
    Expr.Derives Γ e s js → b.Takes ty s ty → Expr.Derives Γ (.assign n op span i e) ty
      (js ++ [(i.node.id, TypeInfo.value ty), (n.id, .value ty)])

inductive Expr.AllDerive (Γ : Assumptions) : List Expr → List Ty → NodeTypes → Prop
  | nil : Expr.AllDerive Γ [] [] []
  | cons {e es ty tys js ks} : Expr.Derives Γ e ty js → Expr.AllDerive Γ es tys ks →
    Expr.AllDerive Γ (e :: es) (ty :: tys) (js ++ ks)

end

mutual

/-- A statement in a function with a result, or outside all functions; there is a loop around it or
there is none. -/
inductive Stmt.Derives (Γ : Assumptions) (result : Option Ty) : Bool → Stmt → NodeTypes → Prop
  | declared {b n name type y ty} : Γ.program.Writes Γ.names type ty → Γ.names.declOf? n.id = some y →
    Γ.types y = .value ty → Stmt.Derives Γ result b (.var n name (some type) none) []
  | annotated {b n name type e y ty js} : Γ.program.Writes Γ.names type ty → Expr.Derives Γ e ty js →
    Γ.names.declOf? n.id = some y → Γ.types y = .value ty →
    Stmt.Derives Γ result b (.var n name (some type) (some e)) js
  | inferred {b n name e y ty js} : Expr.Derives Γ e ty js → ty.isValue = true →
    Γ.names.declOf? n.id = some y → Γ.types y = .value ty →
    Stmt.Derives Γ result b (.var n name none (some e)) js
  | expr {b n e ty js} : Expr.Derives Γ e ty js → Stmt.Derives Γ result b (.expr n e) js
  | branch {b n cond body otherwise js ks ls} : Expr.Derives Γ cond .bool js →
    Block.Derives Γ result b body ks → Otherwise.Derives Γ result b otherwise ls →
    Stmt.Derives Γ result b (.branch n cond body otherwise) (js ++ ks ++ ls)
  | loopBefore {b n cond body js ks} : Expr.Derives Γ cond .bool js →
    Block.Derives Γ result true body ks → Stmt.Derives Γ result b (.loop n .before cond body) (js ++ ks)
  | loopAfter {b n cond body js ks} : Block.Derives Γ result true body js →
    Expr.Derives Γ cond .bool ks → Stmt.Derives Γ result b (.loop n .after cond body) (js ++ ks)
  | leave {b n} : b = true → Stmt.Derives Γ result b (.leave n) []
  | again {b n} : b = true → Stmt.Derives Γ result b (.again n) []
  | give {b n} : result = some .void → Stmt.Derives Γ result b (.give n none) []
  | giveValue {b n e ty js} : result = some ty → ty.isValue = true → Expr.Derives Γ e ty js →
    Stmt.Derives Γ result b (.give n (some e)) js
  | command {b n text} : Stmt.Derives Γ result b (.command n text) []

inductive Block.Derives (Γ : Assumptions) (result : Option Ty) : Bool → Block → NodeTypes → Prop
  | mk {b n stmts js} : Stmt.AllDerive Γ result b stmts js → Block.Derives Γ result b (.mk n stmts) js

inductive Stmt.AllDerive (Γ : Assumptions) (result : Option Ty) : Bool → List Stmt → NodeTypes → Prop
  | nil {b} : Stmt.AllDerive Γ result b [] []
  | cons {b s rest js ks} : Stmt.Derives Γ result b s js → Stmt.AllDerive Γ result b rest ks →
    Stmt.AllDerive Γ result b (s :: rest) (js ++ ks)

inductive Otherwise.Derives (Γ : Assumptions) (result : Option Ty) :
    Bool → Otherwise → NodeTypes → Prop
  | none {b} : Otherwise.Derives Γ result b .none []
  | block {b body js} : Block.Derives Γ result b body js → Otherwise.Derives Γ result b (.block body) js
  | chain {b s js} : Stmt.Derives Γ result b s js → Otherwise.Derives Γ result b (.chain s) js

end

mutual

/-- Some `break` in the statement ends the loop around it. -/
inductive Stmt.Breaks : Stmt → Prop
  | leave {n} : Stmt.Breaks (.leave n)
  | branch {n cond body otherwise} : Block.Breaks body → Stmt.Breaks (.branch n cond body otherwise)
  | otherwise {n cond body otherwise} : Otherwise.Breaks otherwise →
    Stmt.Breaks (.branch n cond body otherwise)

inductive Block.Breaks : Block → Prop
  | mk {n stmts s} : s ∈ stmts → Stmt.Breaks s → Block.Breaks (.mk n stmts)

inductive Otherwise.Breaks : Otherwise → Prop
  | block {body} : Block.Breaks body → Otherwise.Breaks (.block body)
  | chain {s} : Stmt.Breaks s → Otherwise.Breaks (.chain s)

end

mutual

/-- The statement returns on every path, as far as its form shows: a loop whose condition is the literal
`true` is not left but through `break`. -/
inductive Stmt.Returns : Stmt → Prop
  | give {n value} : Stmt.Returns (.give n value)
  | branch {n cond body otherwise} : Block.Returns body → Otherwise.Returns otherwise →
    Stmt.Returns (.branch n cond body otherwise)
  | forever {n kind cond body} : cond.isTrue = true → ¬ Block.Breaks body →
    Stmt.Returns (.loop n kind cond body)
  | once {n cond body} : Block.Returns body → ¬ Block.Breaks body →
    Stmt.Returns (.loop n .after cond body)

inductive Block.Returns : Block → Prop
  | mk {n stmts s} : s ∈ stmts → Stmt.Returns s → Block.Returns (.mk n stmts)

inductive Otherwise.Returns : Otherwise → Prop
  | block {body} : Block.Returns body → Otherwise.Returns (.block body)
  | chain {s} : Stmt.Returns s → Otherwise.Returns (.chain s)

end

/-- All parts of the name are resource names. -/
def DottedName.IsLocation (n : DottedName) : Prop :=
  ∀ part ∈ n.parts, ResourceName.normalize part = part

/-- A tag is a resource location, and a function with tags takes no parameters. -/
structure Function.TagsFit (f : Function) : Prop where
  locations : ∀ tag ∈ f.tags, tag.IsLocation
  params : f.tags ≠ [] → f.params = []

/-- The symbols of a function have the types that are written. -/
structure Function.Signed (Γ : Assumptions) (f : Function) (s : Signature) : Prop where
  symbol : Γ.types (Γ.names.namesOf f).symbol = .function s
  written : List.Forall₂ (fun x ty => Γ.program.Writes Γ.names (Param.type x) ty) f.params s.params
  params : (Γ.names.namesOf f).params.map Γ.types = s.params.map .value
  result : Γ.program.WritesResult Γ.names f.result s.result

inductive Item.Derives (Γ : Assumptions) : Item → NodeTypes → Prop
  | function {f s js} : f.Signed Γ s → f.TagsFit → Block.Derives Γ (some s.result) false f.body js →
    (s.result = .void ∨ f.body.Returns) → Item.Derives Γ (.function f) js
  | typeAlias {a i ty} : Γ.names.itemOf? a.node.id = some i →
    Γ.program.Denotes Γ.names i.symbol ty → Item.Derives Γ (.typeAlias a) []
  | stmt {n s js} : Stmt.Derives Γ none false s js → Item.Derives Γ (.stmt n s) js

inductive Item.AllDerive (Γ : Assumptions) : List Item → NodeTypes → Prop
  | nil : Item.AllDerive Γ [] []
  | cons {i is js ks} : Item.Derives Γ i js → Item.AllDerive Γ is ks →
    Item.AllDerive Γ (i :: is) (js ++ ks)

/-- A program is well typed: all its items are, if `print` takes every value and gives none. -/
structure Program.Derives (p : Program) (q : Resolution) (types : Nat → TypeInfo) (js : NodeTypes) :
    Prop where
  print : ∀ y, q.table.findLocal? SymbolTable.outermost "print" = some y →
    types y = .function ⟨[.any], .void⟩
  items : Item.AllDerive ⟨p, q, types⟩ p.items js

/-! The tables and the rule for returning are those of the checker. -/

theorem BinaryOp.takes_iff {op : BinaryOp} {s t ty : Ty} : op.Takes s t ty ↔ op.result? s t = some ty := by
  constructor
  · intro h
    cases h with
    | logic h => fin_cases h <;> rfl
    | equality h h' => fin_cases h <;> fin_cases h' <;> rfl
    | order h => fin_cases h <;> rfl
    | concat => rfl
    | arithmetic h => fin_cases h <;> rfl
  · intro h
    cases op <;> cases s <;> cases t <;> cases h
    all_goals first
      | exact .logic (by decide)
      | exact .equality (by decide) (by decide)
      | exact .order (by decide)
      | exact .concat
      | exact .arithmetic (by decide)

theorem UnaryOp.takes_iff {op : UnaryOp} {s ty : Ty} : op.Takes s ty ↔ op.result? s = some ty := by
  constructor
  · intro h
    cases h with
    | sign h => fin_cases h <;> rfl
    | not => rfl
  · intro h
    cases op <;> cases s <;> cases h
    all_goals first
      | exact .sign (by decide)
      | exact .not

mutual

theorem Stmt.breaks_iff : (s : Stmt) → (s.Breaks ↔ s.mayLeave = true)
  | .leave _ => ⟨fun _ => rfl, fun _ => .leave⟩
  | .branch _ _ body otherwise => by
    rw [Stmt.mayLeave, Bool.or_eq_true, ← Block.breaks_iff body, ← Otherwise.breaks_iff otherwise]
    constructor
    · intro h
      cases h with
      | branch h => exact .inl h
      | otherwise h => exact .inr h
    · rintro (h | h)
      · exact .branch h
      · exact .otherwise h
  | .error _ | .var .. | .expr .. | .loop .. | .again _ | .give .. | .command .. =>
    ⟨fun h => (by cases h), fun h => (by cases h)⟩

theorem Block.breaks_iff : (b : Block) → (b.Breaks ↔ b.mayLeave = true)
  | .mk _ stmts => by
    rw [Block.mayLeave, ← Stmt.anyBreaks_iff stmts]
    constructor
    · intro h
      cases h with
      | mk hs h => exact ⟨_, hs, h⟩
    · rintro ⟨s, hs, h⟩
      exact .mk hs h

theorem Stmt.anyBreaks_iff : (ss : List Stmt) → ((∃ s ∈ ss, s.Breaks) ↔ Stmt.anyMayLeave ss = true)
  | [] => ⟨fun ⟨_, h, _⟩ => (by cases h), fun h => (by cases h)⟩
  | s :: rest => by
    rw [Stmt.anyMayLeave, Bool.or_eq_true, ← Stmt.breaks_iff s, ← Stmt.anyBreaks_iff rest]
    exact List.exists_mem_cons_iff _ _ _

theorem Otherwise.breaks_iff : (o : Otherwise) → (o.Breaks ↔ o.mayLeave = true)
  | .none => ⟨fun h => (by cases h), fun h => (by cases h)⟩
  | .block body => by
    rw [Otherwise.mayLeave, ← Block.breaks_iff body]
    constructor
    · intro h
      cases h with
      | block h => exact h
    · exact .block
  | .chain s => by
    rw [Otherwise.mayLeave, ← Stmt.breaks_iff s]
    constructor
    · intro h
      cases h with
      | chain h => exact h
    · exact .chain

end

mutual

theorem Stmt.returns_iff : (s : Stmt) → (s.Returns ↔ s.isClosed = true)
  | .give .. => ⟨fun _ => rfl, fun _ => .give⟩
  | .branch _ _ body otherwise => by
    rw [Stmt.isClosed, Bool.and_eq_true, ← Block.returns_iff body, ← Otherwise.returns_iff otherwise]
    constructor
    · intro h
      cases h with
      | branch h h' => exact ⟨h, h'⟩
    · rintro ⟨h, h'⟩
      exact .branch h h'
  | .loop _ .before cond body => by
    rw [Stmt.isClosed, Bool.and_eq_true, Bool.not_eq_true', ← Bool.not_eq_true, ← Block.breaks_iff body]
    constructor
    · intro h
      cases h with
      | forever h h' => exact ⟨h, h'⟩
    · rintro ⟨h, h'⟩
      exact .forever h h'
  | .loop _ .after cond body => by
    rw [Stmt.isClosed, Bool.and_eq_true, Bool.or_eq_true, Bool.not_eq_true', ← Bool.not_eq_true,
      ← Block.breaks_iff body, ← Block.returns_iff body]
    constructor
    · intro h
      cases h with
      | forever h h' => exact ⟨h', .inr h⟩
      | once h h' => exact ⟨h', .inl h⟩
    · rintro ⟨h', h | h⟩
      · exact .once h h'
      · exact .forever h h'
  | .error _ | .var .. | .expr .. | .leave _ | .again _ | .command .. =>
    ⟨fun h => (by cases h), fun h => (by cases h)⟩

theorem Block.returns_iff : (b : Block) → (b.Returns ↔ b.isClosed = true)
  | .mk _ stmts => by
    rw [Block.isClosed, ← Stmt.anyReturns_iff stmts]
    constructor
    · intro h
      cases h with
      | mk hs h => exact ⟨_, hs, h⟩
    · rintro ⟨s, hs, h⟩
      exact .mk hs h

theorem Stmt.anyReturns_iff : (ss : List Stmt) → ((∃ s ∈ ss, s.Returns) ↔ Stmt.anyIsClosed ss = true)
  | [] => ⟨fun ⟨_, h, _⟩ => (by cases h), fun h => (by cases h)⟩
  | s :: rest => by
    rw [Stmt.anyIsClosed, Bool.or_eq_true, ← Stmt.returns_iff s, ← Stmt.anyReturns_iff rest]
    exact List.exists_mem_cons_iff _ _ _

theorem Otherwise.returns_iff : (o : Otherwise) → (o.Returns ↔ o.isClosed = true)
  | .none => ⟨fun h => (by cases h), fun h => (by cases h)⟩
  | .block body => by
    rw [Otherwise.isClosed, ← Block.returns_iff body]
    constructor
    · intro h
      cases h with
      | block h => exact h
    · exact .block
  | .chain s => by
    rw [Otherwise.isClosed, ← Stmt.returns_iff s]
    constructor
    · intro h
      cases h with
      | chain h => exact h
    · exact .chain

end

/-- A name is a location exactly if it makes a tag. -/
theorem DottedName.isLocation_iff {n : DottedName} : n.IsLocation ↔ ∃ tag, Tag.ofName n = .ok tag := by
  rw [Tag.ofName]
  constructor
  · intro h
    have hnone : n.parts.find? (fun part => ResourceName.normalize part != part) = none := by
      rw [List.find?_eq_none]
      intro part hpart
      simp [h part hpart]
    simp only [hnone]
    split <;> exact ⟨_, rfl⟩
  · rintro ⟨tag, h⟩
    split at h
    · cases h
    · rename_i hnone
      intro part hpart
      have := List.find?_eq_none.mp hnone part hpart
      simpa using this

end Craftlang
