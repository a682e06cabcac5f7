import Craftlang.Code.Program
import Mathlib.Data.List.Basic

/-!
# What code is emitted for

Not everything that is written becomes code: what stands behind a jump is left out, and so is what is
called. A unit joins strings where the first join is among the expressions that become code, and the
literals that cannot be joined are those among them.
-/

namespace Craftlang

def Expr.isJoin : Expr → Bool
  | .binary _ op _ _ _ => op = .concat
  | _ => false

/-- Is the expression a literal with quotes or backslashes? -/
def Expr.isQuoted : Expr → Bool
  | .constant _ (.string text) => text.any fun b => b == byte '"' || b == byte '\\'
  | _ => false

/-- Where an expression joins strings. -/
def Expr.joinAt? : Expr → Option Span
  | .binary _ op span _ _ => if op = .concat then some span else none
  | _ => none

/-- Where a literal with quotes or backslashes stands. -/
def Expr.quotedAt? (e : Expr) : Option Span := if e.isQuoted then some e.span else none

theorem Expr.isSome_joinAt? (e : Expr) : e.joinAt?.isSome = e.isJoin := by
  cases e with
  | binary n op span left right => by_cases h : op = .concat <;> simp [joinAt?, isJoin, h]
  | _ => rfl

theorem Expr.isSome_quotedAt? (e : Expr) : e.quotedAt?.isSome = e.isQuoted := by
  cases h : e.isQuoted <;> simp [quotedAt?, h]

mutual

/-- The parts of an expression that become code. -/
def Expr.lowered : Expr → List Expr
  | .error n => [.error n]
  | .constant n v => [.constant n v]
  | .ident i => [.ident i]
  | .group n inner => .group n inner :: inner.lowered
  | .unary n op operand => .unary n op operand :: operand.lowered
  | .binary n op span left right => .binary n op span left right :: (left.lowered ++ right.lowered)
  | .call n target args => .call n target args :: Expr.allLowered args
  | .assign n op span target value => .assign n op span target value :: value.lowered

def Expr.allLowered : List Expr → List Expr
  | [] => []
  | e :: es => e.lowered ++ Expr.allLowered es

end

def Expr.maybeLowered : Option Expr → List Expr
  | none => []
  | some e => e.lowered

mutual

/-- The expressions of a statement that become code. -/
def Stmt.lowered : Stmt → List Expr
  | .error _ | .leave _ | .again _ | .command .. => []
  | .var _ _ _ value => Expr.maybeLowered value
  | .expr _ e => e.lowered
  | .branch _ cond body otherwise => cond.lowered ++ (body.lowered ++ otherwise.lowered)
  | .loop _ .before cond body => cond.lowered ++ body.lowered
  | .loop _ .after cond body => body.lowered ++ cond.lowered
  | .give _ value => Expr.maybeLowered value

def Block.lowered : Block → List Expr
  | .mk _ stmts => Stmt.allLowered stmts

/-- Nothing behind a jump becomes code. -/
def Stmt.allLowered : List Stmt → List Expr
  | [] => []
  | first :: rest => first.lowered ++ if first.isJump then [] else Stmt.allLowered rest

def Otherwise.lowered : Otherwise → List Expr
  | .none => []
  | .block body => body.lowered
  | .chain s => s.lowered

end

/-- The expressions of a program that become code. -/
def Program.lowered (p : Program) : List Expr :=
  Stmt.allLowered p.topLevel ++ p.functions.flatMap fun f => Stmt.allLowered f.body.stmts

mutual

/-- The raw commands in a statement, whether they are reached or not. -/
def Stmt.texts : Stmt → List Bytes
  | .command _ text => [text]
  | .branch _ _ body otherwise => body.texts ++ otherwise.texts
  | .loop _ _ _ body => body.texts
  | _ => []

def Block.texts : Block → List Bytes
  | .mk _ stmts => Stmt.allTexts stmts

def Stmt.allTexts : List Stmt → List Bytes
  | [] => []
  | s :: ss => s.texts ++ Stmt.allTexts ss

def Otherwise.texts : Otherwise → List Bytes
  | .none => []
  | .block body => body.texts
  | .chain s => s.texts

end

theorem Stmt.mem_allTexts {v : Bytes} {ss : List Stmt} : v ∈ Stmt.allTexts ss ↔ ∃ s ∈ ss, v ∈ s.texts := by
  induction ss with
  | nil => simp [Stmt.allTexts]
  | cons s rest ih => simp [Stmt.allTexts, ih]

theorem Block.texts_eq (b : Block) : b.texts = Stmt.allTexts b.stmts := by
  cases b with
  | mk n ss => rfl

/-- The raw commands in a program. -/
def Program.texts (p : Program) : List Bytes :=
  Stmt.allTexts p.topLevel ++ p.functions.flatMap fun f => Stmt.allTexts f.body.stmts

/-!
## The literals and the calls that become code

Of the statements that become code, whole expressions are lowered. A literal among their parts becomes one
number, together with the signs before it, and a call of a declared function hands its arguments over.
-/

mutual

/-- The literals that become numbers in code, with the signs before them. -/
def Expr.literals (t : Typing) : Expr → List Expr
  | .error _ | .ident _ => []
  | .constant n v => if v.type.isScore then [.constant n v] else []
  | .group _ inner => inner.literals t
  | .unary n op operand =>
    if (Emission.foldConstant t (.unary n op operand)).isSome then [.unary n op operand]
    else operand.literals t
  | .binary _ _ _ left right => left.literals t ++ right.literals t
  | .call _ _ args => Expr.allLiterals t args
  | .assign _ _ _ _ value => value.literals t

def Expr.allLiterals (t : Typing) : List Expr → List Expr
  | [] => []
  | e :: es => e.literals t ++ Expr.allLiterals t es

end

/-- How many arguments a call of a declared function hands over. -/
def Expr.arity (c : EmissionContext) : Expr → Nat
  | .call _ target args =>
    let symbol := Emission.calleeOf c target
    if Emission.isPrint c symbol || (c.typing.functionOf? symbol).isNone then 0 else args.length
  | _ => 0

mutual

/-- The whole expressions of a statement that become code. -/
def Stmt.roots : Stmt → List Expr
  | .error _ | .leave _ | .again _ | .command .. => []
  | .var _ _ _ value => value.toList
  | .expr _ e => [e]
  | .branch _ cond body otherwise => cond :: (body.roots ++ otherwise.roots)
  | .loop _ .before cond body => cond :: body.roots
  | .loop _ .after cond body => body.roots ++ [cond]
  | .give _ value => value.toList

def Block.roots : Block → List Expr
  | .mk _ stmts => Stmt.allRoots stmts

def Stmt.allRoots : List Stmt → List Expr
  | [] => []
  | first :: rest => first.roots ++ if first.isJump then [] else Stmt.allRoots rest

def Otherwise.roots : Otherwise → List Expr
  | .none => []
  | .block body => body.roots
  | .chain s => s.roots

end

/-- The whole expressions of a program that become code. -/
def Program.roots (p : Program) : List Expr :=
  Stmt.allRoots p.topLevel ++ p.functions.flatMap fun f => Stmt.allRoots f.body.stmts

/-- The literals of a program that become numbers in its code. -/
def Program.literals (p : Program) (t : Typing) : List Expr := p.roots.flatMap (Expr.literals t)

theorem Expr.maybeLowered_eq (value : Option Expr) :
    Expr.maybeLowered value = value.toList.flatMap Expr.lowered := by
  cases value with
  | none => rfl
  | some e => simp [Expr.maybeLowered]

mutual

theorem Stmt.lowered_eq : (s : Stmt) → s.lowered = s.roots.flatMap Expr.lowered
  | .error _ | .leave _ | .again _ | .command .. => rfl
  | .var _ _ _ value | .give _ value => Expr.maybeLowered_eq value
  | .expr _ e => by simp [Stmt.lowered, Stmt.roots]
  | .branch _ cond body otherwise => by
    simp [Stmt.lowered, Stmt.roots, Block.lowered_eq body, Otherwise.lowered_eq otherwise]
  | .loop _ .before cond body => by simp [Stmt.lowered, Stmt.roots, Block.lowered_eq body]
  | .loop _ .after cond body => by simp [Stmt.lowered, Stmt.roots, Block.lowered_eq body]

theorem Block.lowered_eq : (b : Block) → b.lowered = b.roots.flatMap Expr.lowered
  | .mk _ stmts => Stmt.allLowered_eq stmts

theorem Stmt.allLowered_eq : (ss : List Stmt) →
    Stmt.allLowered ss = (Stmt.allRoots ss).flatMap Expr.lowered
  | [] => rfl
  | first :: rest => by
    rw [Stmt.allLowered, Stmt.allRoots, List.flatMap_append, Stmt.lowered_eq first]
    split
    · rfl
    · rw [Stmt.allLowered_eq rest]

theorem Otherwise.lowered_eq : (o : Otherwise) → o.lowered = o.roots.flatMap Expr.lowered
  | .none => rfl
  | .block body => Block.lowered_eq body
  | .chain s => Stmt.lowered_eq s

end

/-- What becomes code of a program are the parts of whole expressions. -/
theorem Program.lowered_eq (p : Program) : p.lowered = p.roots.flatMap Expr.lowered := by
  simp [Program.lowered, Program.roots, List.flatMap_assoc, Stmt.allLowered_eq]

theorem Expr.allLiterals_eq (t : Typing) (es : List Expr) :
    Expr.allLiterals t es = es.flatMap (Expr.literals t) := by
  induction es with
  | nil => rfl
  | cons e es ih => rw [Expr.allLiterals, ih, List.flatMap_cons]

theorem Expr.allLowered_eq (es : List Expr) : Expr.allLowered es = es.flatMap Expr.lowered := by
  induction es with
  | nil => rfl
  | cons e es ih => rw [Expr.allLowered, ih, List.flatMap_cons]

namespace Emission

/-- What is a number without being evaluated is a literal, in parentheses and behind minus signs. -/
@[elab_as_elim]
theorem foldConstant_induction {t : Typing}
    {motive : (e : Expr) → (v : Int) → foldConstant t e = some v → Prop}
    (group : ∀ n inner v (h : foldConstant t inner = some v), motive inner v h → motive (.group n inner) v h)
    (minus : ∀ n operand v w (hw : foldConstant t operand = some w)
      (h : foldConstant t (.unary n .minus operand) = some v), motive operand w hw →
      motive (.unary n .minus operand) v h)
    (bool : ∀ n b v (h : foldConstant t (.constant n (.bool b)) = some v), motive (.constant n (.bool b)) v h)
    (int : ∀ n text v (h : foldConstant t (.constant n (.int text)) = some v),
      motive (.constant n (.int text)) v h)
    (e : Expr) (v : Int) (h : foldConstant t e = some v) : motive e v h := by
  match e, h with
  | .group n inner, h => exact group n inner v h (foldConstant_induction group minus bool int inner v h)
  | .unary n .minus operand, h =>
    cases hw : foldConstant t operand with
    | none =>
      rw [foldConstant, hw] at h
      cases h
    | some w => exact minus n operand v w hw h (foldConstant_induction group minus bool int operand w hw)
  | .constant n (.bool b), h => exact bool n b v h
  | .constant n (.int text), h => exact int n text v h
  | .constant _ (.string _), h | .unary _ .plus _, h | .unary _ .not _, h | .error _, h | .ident _, h
  | .binary .., h | .call .., h | .assign .., h => cases h

/-- A literal that is a score is no join, and it is not quoted. -/
theorem lowered_of_foldConstant {t : Typing} (e : Expr) {v : Int} (h : foldConstant t e = some v) :
    e.lowered.findSome? Expr.joinAt? = none ∧ e.lowered.filterMap Expr.quotedAt? = [] := by
  induction e, v, h using foldConstant_induction with
  | group n inner v h ih => exact ih
  | minus n operand v w hw h ih => exact ih
  | bool n b v h => exact ⟨rfl, rfl⟩
  | int n text v h => exact ⟨rfl, rfl⟩

/-- What folds into a number is one literal, and calls nothing. -/
theorem literals_of_foldConstant {t : Typing} (e : Expr) {v : Int} (h : foldConstant t e = some v) :
    ∃ l, e.literals t = [l] ∧ foldConstant t l = some v := by
  induction e, v, h using foldConstant_induction with
  | group n inner v h ih => exact ih
  | minus n operand v w hw h ih => exact ⟨_, by simp [Expr.literals, h], h⟩
  | bool n b v h => exact ⟨_, rfl, h⟩
  | int n text v h => exact ⟨_, rfl, h⟩

theorem arity_of_foldConstant {c : EmissionContext} (e : Expr) {v : Int}
    (h : foldConstant c.typing e = some v) : ∀ part ∈ e.lowered, part.arity c = 0 := by
  induction e, v, h using foldConstant_induction with
  | group n inner v h ih => exact List.forall_mem_cons.mpr ⟨rfl, ih⟩
  | minus n operand v w hw h ih => exact List.forall_mem_cons.mpr ⟨rfl, ih⟩
  | bool n b v h => simp [Expr.lowered, Expr.arity]
  | int n text v h => simp [Expr.lowered, Expr.arity]

end Emission

/-! ## Marks -/

/-- What of an expression is left in its code: the number of a literal, a literal that is stored, a place where
strings are joined, and how many arguments are handed over. -/
inductive Mark where
  | number (v : Int)
  | text (span : Span) (value : Bytes)
  | join (span : Span)
  | pass (arguments : Nat)

namespace Mark

def joinAt? : Mark → Option Span
  | join span => some span
  | _ => none

/-- Where a literal with quotes or backslashes stands. -/
def quotedAt? : Mark → Option Span
  | text span value => if value.any (fun b => b == byte '"' || b == byte '\\') then some span else none
  | _ => none

/-- How many arguments are handed over. -/
def arity : Mark → Nat
  | pass arguments => arguments
  | _ => 0

end Mark

mutual

/-- The marks of an expression, in the order of its code. -/
def Expr.marks (c : EmissionContext) : Expr → List Mark
  | .error _ | .ident _ => []
  | .constant n (.string text) => [.text n.span text]
  | .constant n v => ((Emission.foldConstant c.typing (.constant n v)).map Mark.number).toList
  | .group _ inner => inner.marks c
  | .unary n op operand =>
    match Emission.foldConstant c.typing (.unary n op operand) with
    | some v => [.number v]
    | none => operand.marks c
  | .binary _ op span left right =>
    (if op = .concat then [.join span] else []) ++ (left.marks c ++ right.marks c)
  | .call n target args => Expr.allMarks c args ++ [.pass (Expr.arity c (.call n target args))]
  | .assign _ _ _ _ value => value.marks c

def Expr.allMarks (c : EmissionContext) : List Expr → List Mark
  | [] => []
  | e :: es => e.marks c ++ Expr.allMarks c es

end

theorem Expr.allMarks_eq (c : EmissionContext) (es : List Expr) :
    Expr.allMarks c es = es.flatMap (Expr.marks c) := by
  induction es with
  | nil => rfl
  | cons e es ih => rw [Expr.allMarks, ih, List.flatMap_cons]

/-- Parentheses leave no marks. -/
theorem Expr.marks_unwrap (c : EmissionContext) : (e : Expr) → e.unwrap.marks c = e.marks c
  | .group _ inner => inner.marks_unwrap c
  | .error _ | .constant .. | .ident _ | .unary .. | .binary .. | .call .. | .assign .. => rfl

/-- What folds into a number leaves that number. -/
theorem Expr.marks_of_foldConstant {c : EmissionContext} (e : Expr) {v : Int}
    (h : Emission.foldConstant c.typing e = some v) : e.marks c = [.number v] := by
  induction e, v, h using Emission.foldConstant_induction with
  | group n inner v h ih => exact ih
  | minus n operand v w hw h ih => simp only [marks, h]
  | bool n b v h => simp only [marks, h, Option.map_some, Option.toList_some]
  | int n text v h => simp only [marks, h, Option.map_some, Option.toList_some]

/-- The marks of expressions, by the parts of them that become code and the literals among these. -/
structure Leaves (c : EmissionContext) (ps ls : List Expr) (ms : List Mark) : Prop where
  joins : ms.findSome? Mark.joinAt? = ps.findSome? Expr.joinAt?
  quotes : ms.filterMap Mark.quotedAt? = ps.filterMap Expr.quotedAt?
  texts : ∀ span v, .text span v ∈ ms → ∃ n, .constant n (.string v) ∈ ps
  arities : ∀ k, 0 < k → ((∃ m ∈ ms, k ≤ m.arity) ↔ ∃ part ∈ ps, k ≤ part.arity c)
  numbers : ∀ v, .number v ∈ ms ↔ ∃ l ∈ ls, Emission.foldConstant c.typing l = some v

namespace Leaves

variable {c : EmissionContext} {ps qs ls ks : List Expr} {ms ns : List Mark}

theorem nil : Leaves c [] [] [] := ⟨rfl, rfl, nofun, fun _ _ => by simp, fun _ => by simp⟩

theorem append (h : Leaves c ps ls ms) (h' : Leaves c qs ks ns) : Leaves c (ps ++ qs) (ls ++ ks) (ms ++ ns) := by
  refine ⟨?_, ?_, fun span v hv => ?_, fun k hk => ?_, fun v => ?_⟩
  · rw [List.findSome?_append, List.findSome?_append, h.joins, h'.joins]
  · rw [List.filterMap_append, List.filterMap_append, h.quotes, h'.quotes]
  · rcases List.mem_append.mp hv with hv | hv
    · obtain ⟨n, hn⟩ := h.texts span v hv
      exact ⟨n, List.mem_append_left _ hn⟩
    · obtain ⟨n, hn⟩ := h'.texts span v hv
      exact ⟨n, List.mem_append_right _ hn⟩
  · simp only [List.mem_append, or_and_right, exists_or, h.arities k hk, h'.arities k hk]
  · simp only [List.mem_append, or_and_right, exists_or, h.numbers v, h'.numbers v]

/-- A part that joins nothing, is not quoted and hands nothing over leaves no mark. -/
theorem part (h : Leaves c ps ls ms) {e : Expr} (hj : e.joinAt? = none) (hq : e.quotedAt? = none)
    (ha : e.arity c = 0) : Leaves c (e :: ps) ls ms := by
  refine ⟨?_, ?_, fun span v hv => ?_, fun k hk => ?_, h.numbers⟩
  · rw [h.joins, List.findSome?_cons, hj]
  · rw [h.quotes, List.filterMap_cons_none hq]
  · obtain ⟨n, hn⟩ := h.texts span v hv
    exact ⟨n, List.mem_cons_of_mem _ hn⟩
  · have hself : ¬ k ≤ e.arity c := by omega
    rw [h.arities k hk, List.exists_mem_cons_iff]
    exact (or_iff_right hself).symm

/-- What folds into a number leaves no other mark. -/
theorem number {e : Expr} {v : Int} (h : Emission.foldConstant c.typing e = some v) :
    Leaves c e.lowered (e.literals c.typing) [.number v] := by
  obtain ⟨hj, hq⟩ := Emission.lowered_of_foldConstant e h
  obtain ⟨l, hl, hlv⟩ := Emission.literals_of_foldConstant e h
  refine ⟨hj.symm, hq.symm, fun span w hw => ?_, fun k hk => iff_of_false ?_ ?_, fun w => ?_⟩
  · cases List.mem_singleton.mp hw
  · rintro ⟨m, hm, hle⟩
    rw [List.mem_singleton.mp hm] at hle
    exact absurd hle (Nat.not_le_of_gt hk)
  · rintro ⟨part, hpart, hle⟩
    rw [Emission.arity_of_foldConstant e h part hpart] at hle
    exact absurd hle (Nat.not_le_of_gt hk)
  · rw [hl, List.mem_singleton, List.exists_mem_cons_iff, hlv]
    simp [eq_comm]

end Leaves

mutual

/-- The marks of an expression are those of its parts. -/
theorem Expr.leaves_marks (c : EmissionContext) : (e : Expr) → Leaves c e.lowered (e.literals c.typing) (e.marks c)
  | .error _ | .ident _ => Leaves.nil.part rfl rfl rfl
  | .constant n (.string text) => by
    refine ⟨rfl, ?_, fun span v hv => ?_, fun k hk => ?_, fun v => ?_⟩
    · simp [marks, lowered, quotedAt?, isQuoted, Mark.quotedAt?, Expr.span, Expr.node, List.filterMap_cons]
    · cases List.mem_singleton.mp hv
      exact ⟨n, List.mem_cons_self⟩
    · simp [marks, lowered, arity, Mark.arity]
    · simp [marks, literals, Constant.type, Ty.isScore]
  | .constant n (.int text) => by
    cases h : Emission.foldConstant c.typing (.constant n (.int text)) with
    | some v =>
      rw [marks_of_foldConstant _ h]
      exact .number h
    | none =>
      have hmarks : (Expr.constant n (.int text)).marks c = [] := by simp [marks, h]
      rw [hmarks]
      refine ⟨rfl, rfl, nofun, fun k hk => ?_, fun v => ?_⟩
      · simp [lowered, arity, Nat.pos_iff_ne_zero.mp hk]
      · simp [literals, Constant.type, Ty.isScore, h]
  | .constant n (.bool b) => .number rfl
  | .group n inner => (inner.leaves_marks c).part rfl rfl rfl
  | .unary n op operand => by
    have ho := operand.leaves_marks c
    cases h : Emission.foldConstant c.typing (.unary n op operand) with
    | some v =>
      rw [marks_of_foldConstant _ h]
      exact .number h
    | none =>
      have hmarks : (Expr.unary n op operand).marks c = operand.marks c := by simp only [marks, h]
      have hliterals : (Expr.unary n op operand).literals c.typing = operand.literals c.typing := by
        simp [literals, h]
      rw [hmarks, hliterals]
      exact ho.part rfl rfl rfl
  | .binary n op span left right => by
    have hboth := (left.leaves_marks c).append (right.leaves_marks c)
    rw [lowered, literals, marks]
    split
    · rename_i hop
      subst hop
      refine ⟨rfl, hboth.quotes, fun at' v hv => ?_, fun k hk => ?_, fun v => ?_⟩
      · rcases List.mem_cons.mp hv with hv | hv
        · cases hv
        · obtain ⟨m, hm⟩ := hboth.texts at' v hv
          exact ⟨m, List.mem_cons_of_mem _ hm⟩
      · rw [List.singleton_append, List.exists_mem_cons_iff, List.exists_mem_cons_iff, hboth.arities k hk]
        rfl
      · rw [List.singleton_append, List.mem_cons, hboth.numbers v]
        simp
    · rename_i hop
      exact hboth.part (by simp [joinAt?, hop]) rfl rfl
  | .call n target args => by
    have ha := Expr.leaves_allMarks c args
    rw [lowered, literals, marks]
    refine ⟨?_, ?_, fun span v hv => ?_, fun k hk => ?_, fun v => ?_⟩
    · rw [List.findSome?_append, ha.joins]
      exact Option.or_none
    · rw [List.filterMap_append, ha.quotes]
      exact List.append_nil _
    · rcases List.mem_append.mp hv with hv | hv
      · obtain ⟨m, hm⟩ := ha.texts span v hv
        exact ⟨m, List.mem_cons_of_mem _ hm⟩
      · cases List.mem_singleton.mp hv
    · rw [List.exists_mem_cons_iff, ← ha.arities k hk, or_comm]
      simp only [List.mem_append, or_and_right, exists_or, List.mem_singleton, exists_eq_left]
      rfl
    · rw [List.mem_append, ha.numbers v]
      simp
  | .assign n op span target value => (value.leaves_marks c).part rfl rfl rfl

theorem Expr.leaves_allMarks (c : EmissionContext) : (es : List Expr) →
    Leaves c (Expr.allLowered es) (Expr.allLiterals c.typing es) (Expr.allMarks c es)
  | [] => .nil
  | e :: es => (e.leaves_marks c).append (Expr.leaves_allMarks c es)

end

theorem Leaves.flatMap (c : EmissionContext) (es : List Expr) :
    Leaves c (es.flatMap Expr.lowered) (es.flatMap (Expr.literals c.typing)) (es.flatMap (Expr.marks c)) := by
  rw [← Expr.allLowered_eq, ← Expr.allLiterals_eq, ← Expr.allMarks_eq]
  exact Expr.leaves_allMarks c es

end Craftlang
