import Craftlang.Proofs.Code.Lowered
import Craftlang.Proofs.Refinement.Operand
import Craftlang.Proofs.Typing.Recorded

/-!
# The numbers of literals

A literal becomes a number together with the minus signs before it. Evaluated sign by sign it has the same
number, but reduced to 32 bits. Typing lets a literal be too large by one only directly under a minus sign,
so the two numbers differ for one literal only: the one that is too large, if the number of signs before it
is even.
-/

namespace Craftlang

/-- The number of an integer literal, behind how many minus signs it stands. -/
def Expr.signed? : Expr → Option (Nat × Nat)
  | .group _ inner => inner.signed?
  | .unary _ .minus operand => operand.signed?.map fun (signs, n) => (signs + 1, n)
  | .constant _ (.int text) => (Literal.integer text).toOption.map fun n => (0, n)
  | _ => none

/-- The number that is meant by a literal behind minus signs. -/
def negated (signs n : Nat) : Int := if signs % 2 = 0 then n else -n

/-- Is the expression the literal that is too large by one, behind signs that undo each other? -/
def Expr.Exceeds (l : Expr) : Prop := ∃ k, l.signed? = some (2 * (k + 1), largestInt + 1)

/-- A literal becomes a number, and it is evaluated to that number, reduced to 32 bits, at any time. -/
structure Expr.Becomes (p : Program) (c : EmissionContext) (l : Expr) (v : Int) : Prop where
  folds : Emission.foldConstant c.typing l = some v
  value : ∃ u : Value, u.cell = .number (Word.wrap v) ∧ ∃ enough, ∀ fuel, enough ≤ fuel → ∀ w,
    Evaluation.expr p c fuel w l = .ok (w, some u)

theorem Word.wrap_eq {n : Int} (hlow : -2147483648 ≤ n) (hhigh : n ≤ 2147483647) : wrap n = n :=
  Int.bmod_eq_of_le (by omega) (by omega)

theorem negated_succ (signs n : Nat) : negated (signs + 1) n = -negated signs n := by
  unfold negated
  split <;> split <;> omega

section

variable {p : Program} {c : EmissionContext}

/-- Literals are evaluated sign by sign. -/
theorem Expr.evaluates_of_signed? : (l : Expr) → {signs n : Nat} → l.signed? = some (signs, n) →
    ∃ enough, ∀ fuel, enough ≤ fuel → ∀ w,
      Evaluation.expr p c fuel w l = .ok (w, some (.int (Word.wrap (negated signs n))))
  | .group _ inner, signs, n, h => by
    obtain ⟨enough, hinner⟩ := evaluates_of_signed? inner h
    refine ⟨enough + 1, fun fuel hfuel w => ?_⟩
    obtain ⟨fuel, rfl⟩ := Nat.exists_eq_add_of_le' hfuel
    rw [← Nat.add_assoc, Evaluation.expr]
    exact hinner _ (Nat.le_add_left _ _) w
  | .unary _ .minus operand, signs, n, h => by
    rw [signed?, Option.map_eq_some_iff] at h
    obtain ⟨⟨k, m⟩, hm, heq⟩ := h
    cases heq
    obtain ⟨enough, hoperand⟩ := evaluates_of_signed? operand hm
    refine ⟨enough + 1, fun fuel hfuel w => ?_⟩
    obtain ⟨fuel, rfl⟩ := Nat.exists_eq_add_of_le' hfuel
    rw [← Nat.add_assoc, Evaluation.expr, hoperand _ (Nat.le_add_left _ _) w, negated_succ, ← Word.sub_zero_wrap]
    rfl
  | .constant _ (.int text), signs, n, h => by
    rw [signed?, Option.map_eq_some_iff] at h
    obtain ⟨m, hm, heq⟩ := h
    cases heq
    refine ⟨1, fun fuel hfuel w => ?_⟩
    obtain ⟨fuel, rfl⟩ := Nat.exists_eq_add_of_le' hfuel
    rw [Evaluation.expr, Constant.value?, hm]
    rfl

end

section

variable {Γ : Assumptions} {t : Typing}

/-- An integer literal in range becomes its number. -/
theorem Constant.InRange.folds {limit : Nat} {text : Bytes} (h : (Constant.int text).InRange limit)
    (hlimit : limit ≤ largestInt + 1) (k : Node) : ∃ n : Nat,
      (Expr.constant k (.int text)).signed? = some (0, n) ∧
        Emission.foldConstant t (.constant k (.int text)) = some (n : Int) ∧ n ≤ limit := by
  obtain ⟨n, hn, hle⟩ := h
  refine ⟨n, ?_, ?_, hle⟩
  · rw [Expr.signed?, hn]
    rfl
  · rw [Emission.foldConstant, hn]
    exact if_pos (hle.trans hlimit)

/-- The number of a literal that is typed is not too large, or it is behind a sign and too large by one. -/
theorem Expr.signed?_of_derives : (e : Expr) → {v : Int} → {js : NodeTypes} → e.Derives Γ .int js →
    Emission.foldConstant t e = some v → ∃ signs n, e.signed? = some (signs, n) ∧ v = negated signs n ∧
      n ≤ largestInt + 1 ∧ (signs = 0 → n ≤ largestInt)
  | .group _ inner, v, js, hd, hv => by
    cases hd with
    | group hd => exact signed?_of_derives inner hd hv
  | .unary _ .minus operand, v, js, hd, hv => by
    rw [Emission.foldConstant] at hv
    split at hv
    · rename_i w hw
      split at hv
      · rename_i htype
        cases hv
        suffices hoperand : ∃ signs n, operand.signed? = some (signs, n) ∧ w = negated signs n ∧ n ≤ largestInt + 1 by
          obtain ⟨signs, n, hsigned, rfl, hle⟩ := hoperand
          exact ⟨signs + 1, n, by rw [signed?, hsigned]; rfl, (negated_succ signs n).symm, hle,
            fun h => absurd h (Nat.succ_ne_zero _)⟩
        cases hd with
        | unary hd htakes =>
          cases htakes with
          | sign hop =>
            obtain ⟨signs, n, hsigned, heq, hle, -⟩ := signed?_of_derives operand hd hw
            exact ⟨signs, n, hsigned, heq, hle⟩
        | negative hrange =>
          rename_i k text
          obtain ⟨n, hsigned, hfolds, hle⟩ := hrange.folds (t := t) (Nat.le_refl _) k
          exact ⟨0, n, hsigned, Option.some.inj (hw.symm.trans hfolds), hle⟩
      · cases hv
    · cases hv
  | .constant k (.int text), v, js, hd, hv => by
    cases hd with
    | constant hrange =>
      obtain ⟨n, hsigned, hfolds, hle⟩ := hrange.folds (t := t) (Nat.le_succ _) k
      exact ⟨0, n, hsigned, Option.some.inj (hv.symm.trans hfolds), Nat.le_succ_of_le hle, fun _ => hle⟩

/-- The literals of a derived expression are booleans, or integers that become numbers. -/
def Expr.IsNumeral (Γ : Assumptions) (t : Typing) (l : Expr) : Prop :=
  (∃ n b, l = .constant n (.bool b)) ∨
    (Emission.foldConstant t l).isSome = true ∧ ∃ js, l.Derives Γ .int js

/-- A number behind signs is one of 32 bits if it is not too large, or if one sign remains. -/
theorem negated_mem_word {signs n : Nat} (hle : n ≤ largestInt + 1) (hsigns : signs = 0 → n ≤ largestInt) :
    (∃ k, (signs, n) = (2 * (k + 1), largestInt + 1)) ∧ negated signs n = 2147483648 ∨
      (¬ ∃ k, (signs, n) = (2 * (k + 1), largestInt + 1)) ∧
        -2147483648 ≤ negated signs n ∧ negated signs n ≤ 2147483647 := by
  unfold negated largestInt at *
  by_cases heven : signs % 2 = 0
  · rw [if_pos heven]
    by_cases hn : n = 2147483648
    · refine .inl ⟨⟨signs / 2 - 1, Prod.ext ?_ hn⟩, by rw [hn]; rfl⟩
      change signs = 2 * (signs / 2 - 1 + 1)
      omega
    · refine .inr ⟨?_, by omega, by omega⟩
      rintro ⟨k, heq⟩
      exact hn (congrArg Prod.snd heq)
  · rw [if_neg heven]
    refine .inr ⟨?_, by omega, by omega⟩
    rintro ⟨k, heq⟩
    have hsigns' : signs = 2 * (k + 1) := congrArg Prod.fst heq
    omega

theorem Expr.IsNumeral.becomes {p : Program} {c : EmissionContext} {l : Expr} (h : l.IsNumeral Γ c.typing) :
    ∃ v, l.Becomes p c v ∧ (l.Exceeds → v = 2147483648) ∧
      (¬ l.Exceeds → -2147483648 ≤ v ∧ v ≤ 2147483647) := by
  rcases h with ⟨n, b, rfl⟩ | ⟨hfolds, js, hd⟩
  · have hsmall : ¬ (Expr.constant n (.bool b)).Exceeds := nofun
    refine ⟨if b then 1 else 0, ⟨rfl, .bool b, ?_, 1, fun fuel hfuel w => ?_⟩, fun h => absurd h hsmall, fun _ => ?_⟩
    · cases b <;> rfl
    · obtain ⟨fuel, rfl⟩ := Nat.exists_eq_add_of_le' hfuel
      rfl
    · cases b <;> exact ⟨by decide, by decide⟩
  · obtain ⟨v, hv⟩ := Option.isSome_iff_exists.mp hfolds
    obtain ⟨signs, n, hsigned, rfl, hle, hsigns⟩ := signed?_of_derives l hd hv
    have hvalue : l.Becomes p c (negated signs n) := ⟨hv, _, rfl, l.evaluates_of_signed? hsigned⟩
    have hexceeds : l.Exceeds ↔ ∃ k, (signs, n) = (2 * (k + 1), largestInt + 1) := by
      rw [Exceeds, hsigned]
      simp only [Option.some.injEq]
    refine ⟨_, hvalue, ?_⟩
    rw [hexceeds]
    rcases negated_mem_word hle hsigns with ⟨hlarge, heq⟩ | ⟨hsmall, hrange⟩
    · exact ⟨fun _ => heq, fun hsmall => absurd hlarge hsmall⟩
    · exact ⟨fun hlarge => absurd hlarge hsmall, fun _ => hrange⟩

end

section

variable {p : Program} {q : Resolution} {u : Typing}

open Typing

mutual

theorem Expr.isNumeral_of_derives (hu : u.Settled q) {ty : Ty} {js : NodeTypes} : (e : Expr) →
    e.Derives ⟨p, q, u.types⟩ ty js → js ⊆ u.exprs → ∀ l ∈ e.literals u, l.IsNumeral ⟨p, q, u.types⟩ u
  | .error _, _, _ => nofun
  | .ident _, _, _ => nofun
  | .constant n (.bool b), hd, hj => by
    intro l hl
    obtain rfl := List.mem_singleton.mp hl
    exact .inl ⟨n, b, rfl⟩
  | .constant n (.string s), hd, hj => nofun
  | .constant n (.int text), hd, hj => by
    intro l hl
    obtain rfl := List.mem_singleton.mp hl
    cases hd with
    | constant hrange =>
      obtain ⟨k, -, hfolds, -⟩ := hrange.folds (t := u) (Nat.le_succ _) n
      exact .inr ⟨by rw [hfolds]; rfl, _, .constant hrange⟩
  | .group n inner, hd, hj => by
    cases hd with
    | group hd => exact isNumeral_of_derives hu inner hd (List.append_subset.mp hj).1
  | .unary n op operand, hd, hj => by
    intro l hl
    rw [Expr.literals] at hl
    split at hl
    · rename_i hsome
      obtain rfl := List.mem_singleton.mp hl
      cases op with
      | minus =>
        refine .inr ⟨hsome, js, ?_⟩
        cases hd with
        | unary hd htakes =>
          cases htakes with
          | sign hop => exact .unary hd (.sign hop)
        | negative hrange => exact .negative hrange
      | plus => cases hsome
      | not => cases hsome
    · rename_i hnone
      cases hd with
      | unary hd _ => exact isNumeral_of_derives hu operand hd (List.append_subset.mp hj).1 l hl
      | negative hrange =>
        rename_i k text
        -- a typed literal directly under a minus sign becomes a number together with the sign
        obtain ⟨i, -, hfolds, -⟩ := hrange.folds (t := u) (Nat.le_refl _) k
        have hrecord : u.typeOfExpr k.id = .int := hu.records hj List.mem_cons_self
        refine absurd ?_ hnone
        rw [Emission.foldConstant, hfolds]
        exact Option.isSome_iff_exists.mpr ⟨_, if_pos hrecord⟩
  | .binary n op span left right, hd, hj => by
    intro l hl
    cases hd with
    | binary hl' hr _ =>
      rw [List.append_subset, List.append_subset] at hj
      rcases List.mem_append.mp hl with hl | hl
      · exact isNumeral_of_derives hu left hl' hj.1.1 l hl
      · exact isNumeral_of_derives hu right hr hj.1.2 l hl
  | .call n target args, hd, hj => by
    cases hd with
    | call _ hd _ => exact isNumeral_of_allDerive hu args hd (List.append_subset.mp hj).1
  | .assign n op span i value, hd, hj => by
    cases hd with
    | assign _ hd => exact isNumeral_of_derives hu value hd (List.append_subset.mp hj).1
    | update _ _ hd _ => exact isNumeral_of_derives hu value hd (List.append_subset.mp hj).1

theorem Expr.isNumeral_of_allDerive (hu : u.Settled q) {tys : List Ty} {js : NodeTypes} : (es : List Expr) →
    Expr.AllDerive ⟨p, q, u.types⟩ es tys js → js ⊆ u.exprs →
    ∀ l ∈ Expr.allLiterals u es, l.IsNumeral ⟨p, q, u.types⟩ u
  | [], _, _ => nofun
  | e :: es, hd, hj => by
    intro l hl
    cases hd with
    | cons hd hds =>
      rw [List.append_subset] at hj
      rcases List.mem_append.mp hl with hl | hl
      · exact isNumeral_of_derives hu e hd hj.1 l hl
      · exact isNumeral_of_allDerive hu es hds hj.2 l hl

end

/-- Does an expression have a type by a derivation that is recorded? -/
def Expr.IsRecorded (p : Program) (q : Resolution) (u : Typing) (e : Expr) : Prop :=
  ∃ ty js, e.Derives ⟨p, q, u.types⟩ ty js ∧ js ⊆ u.exprs

mutual

theorem Stmt.recorded_roots {result : Option Ty} {b : Bool} {js : NodeTypes} : (s : Stmt) →
    s.Derives ⟨p, q, u.types⟩ result b js → js ⊆ u.exprs → ∀ e ∈ s.roots, e.IsRecorded p q u
  | .error _, _, _ => nofun
  | .var n name type value, hd, hj => by
    intro e he
    cases hd with
    | declared => cases he
    | annotated _ hd _ _ =>
      rw [List.mem_singleton.mp he]
      exact ⟨_, _, hd, hj⟩
    | inferred hd _ _ _ =>
      rw [List.mem_singleton.mp he]
      exact ⟨_, _, hd, hj⟩
  | .expr _ e, hd, hj => by
    intro e' he
    rw [List.mem_singleton.mp he]
    cases hd with
    | expr hd => exact ⟨_, _, hd, hj⟩
  | .branch _ cond body otherwise, hd, hj => by
    intro e he
    cases hd with
    | branch hc hb ho =>
      rw [List.append_subset, List.append_subset] at hj
      rcases List.mem_cons.mp he with rfl | he
      · exact ⟨_, _, hc, hj.1.1⟩
      · rcases List.mem_append.mp he with he | he
        · exact Block.recorded_roots body hb hj.1.2 e he
        · exact Otherwise.recorded_roots otherwise ho hj.2 e he
  | .loop _ .before cond body, hd, hj => by
    intro e he
    cases hd with
    | loopBefore hc hb =>
      rw [List.append_subset] at hj
      rcases List.mem_cons.mp he with rfl | he
      · exact ⟨_, _, hc, hj.1⟩
      · exact Block.recorded_roots body hb hj.2 e he
  | .loop _ .after cond body, hd, hj => by
    intro e he
    cases hd with
    | loopAfter hb hc =>
      rw [List.append_subset] at hj
      rcases List.mem_append.mp he with he | he
      · exact Block.recorded_roots body hb hj.1 e he
      · rw [List.mem_singleton.mp he]
        exact ⟨_, _, hc, hj.2⟩
  | .leave _, _, _ => nofun
  | .again _, _, _ => nofun
  | .give _ value, hd, hj => by
    intro e he
    cases hd with
    | give => cases he
    | giveValue _ _ hd =>
      rw [List.mem_singleton.mp he]
      exact ⟨_, _, hd, hj⟩
  | .command .., _, _ => nofun

theorem Block.recorded_roots {result : Option Ty} {b : Bool} {js : NodeTypes} : (body : Block) →
    body.Derives ⟨p, q, u.types⟩ result b js → js ⊆ u.exprs → ∀ e ∈ body.roots, e.IsRecorded p q u
  | .mk _ ss, hd, hj => by
    cases hd with
    | mk hd => exact Stmt.recorded_allRoots ss hd hj

theorem Stmt.recorded_allRoots {result : Option Ty} {b : Bool} {js : NodeTypes} : (ss : List Stmt) →
    Stmt.AllDerive ⟨p, q, u.types⟩ result b ss js → js ⊆ u.exprs →
    ∀ e ∈ Stmt.allRoots ss, e.IsRecorded p q u
  | [], _, _ => nofun
  | s :: rest, hd, hj => by
    intro e he
    cases hd with
    | cons hs hrest =>
      rw [List.append_subset] at hj
      rcases List.mem_append.mp he with he | he
      · exact Stmt.recorded_roots s hs hj.1 e he
      · split at he
        · cases he
        · exact Stmt.recorded_allRoots rest hrest hj.2 e he

theorem Otherwise.recorded_roots {result : Option Ty} {b : Bool} {js : NodeTypes} : (o : Otherwise) →
    o.Derives ⟨p, q, u.types⟩ result b js → js ⊆ u.exprs → ∀ e ∈ o.roots, e.IsRecorded p q u
  | .none, _, _ => nofun
  | .block body, hd, hj => by
    cases hd with
    | block hd => exact Block.recorded_roots body hd hj
  | .chain s, hd, hj => by
    cases hd with
    | chain hd => exact Stmt.recorded_roots s hd hj

end

theorem Block.roots_eq (b : Block) : b.roots = Stmt.allRoots b.stmts := by
  cases b
  rfl

theorem Stmt.mem_allRoots {ss : List Stmt} {e : Expr} (h : e ∈ Stmt.allRoots ss) : ∃ s ∈ ss, e ∈ s.roots := by
  induction ss with
  | nil => cases h
  | cons s ss ih =>
    rcases List.mem_append.mp h with h | h
    · exact ⟨s, List.mem_cons_self, h⟩
    · split at h
      · cases h
      · obtain ⟨s', hs', he⟩ := ih h
        exact ⟨s', List.mem_cons_of_mem _ hs', he⟩

/-- What becomes code of a program in which typing reports nothing has recorded types. -/
theorem Program.recorded_roots (hw : p.isWhole = true) (hids : p.ids.Nodup) (hq : q.Settles p)
    (hc : (p.typed q).IsClean) : ∀ e ∈ p.roots, e.IsRecorded p q (p.typed q) := by
  obtain ⟨⟨js, hderives⟩, -⟩ := Program.derives_of_clean hw hids hq hc
  obtain ⟨-, hexprs⟩ := hderives.accepted hids hq
  intro e he
  rcases List.mem_append.mp he with he | he
  · obtain ⟨s, hs, he⟩ := Stmt.mem_allRoots he
    obtain ⟨i, hi, hs⟩ := List.mem_filterMap.mp hs
    cases i with
    | stmt k s' =>
      cases hs
      obtain ⟨ks, hitem, hsub⟩ := hderives.items.exists_derives hi
      cases hitem with
      | stmt hd => exact s.recorded_roots hd (hexprs ▸ hsub) e he
    | error k => cases hs
    | function f => cases hs
    | typeAlias a => cases hs
  · obtain ⟨f, hf, he⟩ := List.mem_flatMap.mp he
    obtain ⟨ks, hitem, hsub⟩ := hderives.items.exists_derives (Item.mem_functionsOf.mp hf)
    cases hitem with
    | function _ _ hbody _ =>
      rw [← Block.roots_eq] at he
      exact f.body.recorded_roots hbody (hexprs ▸ hsub) e he

/-- The literals of a program in which typing reports nothing become numbers of 32 bits, but for those that
are too large by one behind signs that undo each other. -/
theorem Program.becomes_of_mem_literals (hw : p.isWhole = true) (hids : p.ids.Nodup) (hq : q.Settles p)
    (hc : (p.typed q).IsClean) : ∀ l ∈ p.literals (p.typed q), ∃ v, l.Becomes p ⟨q, p.typed q⟩ v ∧
      (l.Exceeds → v = 2147483648) ∧ (¬ l.Exceeds → -2147483648 ≤ v ∧ v ≤ 2147483647) := by
  intro l hl
  obtain ⟨e, he, hl⟩ := List.mem_flatMap.mp hl
  obtain ⟨ty, js, hd, hj⟩ := Program.recorded_roots hw hids hq hc e he
  exact (Expr.isNumeral_of_derives (Program.typed_settled hids hq hc) e hd hj l hl).becomes

end

end Craftlang
