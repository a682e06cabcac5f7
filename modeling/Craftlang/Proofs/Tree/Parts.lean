import Craftlang.Tree.Arena
import Craftlang.Tree.Basic
import Mathlib.Data.List.Nodup
import Mathlib.Data.List.Pairwise
import Mathlib.Data.List.Perm.Basic

/-!
# A tree as nodes and their parts

The nodes of a tree are its root and the parts of its nodes. So where all numbers are different a node is a
part of one node at most, and at one place there.
-/

/-!
## The numbers of nodes

The numbers of all nodes of a tree. Those of an expression come in the order in which expressions are
typed, each after the numbers below it.
-/

namespace Craftlang

mutual

def Expr.ids : Expr → List Nat
  | .error n | .constant n _ => [n.id]
  | .ident i => [i.node.id]
  | .binary n _ _ left right => left.ids ++ right.ids ++ [n.id]
  | .unary n _ operand => operand.ids ++ [n.id]
  | .call n target args => Expr.idsOf args ++ target.ids ++ [n.id]
  | .group n inner => inner.ids ++ [n.id]
  | .assign n _ _ target value => value.ids ++ [target.node.id] ++ [n.id]

def Expr.idsOf : List Expr → List Nat
  | [] => []
  | e :: es => e.ids ++ Expr.idsOf es

end

def Expr.idsOf? : Option Expr → List Nat
  | none => []
  | some e => e.ids

mutual

def Stmt.ids : Stmt → List Nat
  | .error n | .leave n | .again n | .command n _ => [n.id]
  | .var n _ _ value => Expr.idsOf? value ++ [n.id]
  | .expr n e => e.ids ++ [n.id]
  | .branch n cond body otherwise => cond.ids ++ body.ids ++ otherwise.ids ++ [n.id]
  | .loop n .before cond body => cond.ids ++ body.ids ++ [n.id]
  | .loop n .after cond body => body.ids ++ cond.ids ++ [n.id]
  | .give n value => Expr.idsOf? value ++ [n.id]

def Block.ids : Block → List Nat
  | .mk n stmts => Stmt.idsOf stmts ++ [n.id]

def Stmt.idsOf : List Stmt → List Nat
  | [] => []
  | s :: rest => s.ids ++ Stmt.idsOf rest

def Otherwise.ids : Otherwise → List Nat
  | .none => []
  | .block body => body.ids
  | .chain s => s.ids

end

def Item.ids : Item → List Nat
  | .error n => [n.id]
  | .function f => f.body.ids ++ [f.node.id]
  | .typeAlias a => [a.node.id]
  | .stmt n s => s.ids ++ [n.id]

def Program.ids (p : Program) : List Nat := p.items.flatMap Item.ids

/-- Numbers from `a` on and below `b`, each at most once. -/
structure Spread (a b : Nat) (ids : List Nat) : Prop where
  le : a ≤ b
  nodup : ids.Nodup
  range : ∀ i ∈ ids, a ≤ i ∧ i < b

namespace Spread

variable {a b c : Nat} {xs ys : List Nat}

theorem nil (h : a ≤ b) : Spread a b [] :=
  ⟨h, List.nodup_nil, fun _ hi => by cases hi⟩

theorem single (a : Nat) : Spread a (a + 1) [a] := by
  refine ⟨by omega, by simp, fun i hi => ?_⟩
  rw [List.mem_singleton] at hi
  omega

theorem append (hx : Spread a b xs) (hy : Spread b c ys) : Spread a c (xs ++ ys) := by
  have hab := hx.le
  have hbc := hy.le
  refine ⟨by omega, List.nodup_append.mpr ⟨hx.nodup, hy.nodup, ?_⟩, fun i hi => ?_⟩
  · intro i hi j hj
    have := hx.range i hi
    have := hy.range j hj
    omega
  · rcases List.mem_append.mp hi with hi | hi
    · have := hx.range i hi
      omega
    · have := hy.range i hi
      omega

/-- The order in which the numbers are listed does not matter. -/
theorem perm (hx : Spread a b xs) (hp : xs.Perm ys) : Spread a b ys :=
  ⟨hx.le, hp.nodup_iff.mp hx.nodup, fun i hi => hx.range i (hp.mem_iff.mpr hi)⟩

/-- A node gets the next number after those below it. -/
theorem snoc (hx : Spread a b xs) : Spread a (b + 1) (xs ++ [b]) := hx.append (single b)

theorem widen (hx : Spread a b xs) (h : b ≤ c) : Spread a c xs :=
  ⟨Nat.le_trans hx.le h, hx.nodup, fun i hi => ⟨(hx.range i hi).1, Nat.lt_of_lt_of_le (hx.range i hi).2 h⟩⟩

theorem after (hx : Spread b c xs) (h : a ≤ b) : Spread a c xs :=
  ⟨Nat.le_trans h hx.le, hx.nodup, fun i hi => ⟨Nat.le_trans h (hx.range i hi).1, (hx.range i hi).2⟩⟩

end Spread

/-! ## Nodes and their parts -/

namespace Made

/-- A part is a smaller piece of the tree. -/
theorem sizeOf_part_lt {m c : Made} (h : c ∈ m.parts) : sizeOf c < sizeOf m := by
  cases m with
  | item i =>
    cases i with
    | function f =>
      obtain rfl := List.mem_singleton.mp h
      cases f
      simp +arith
    | stmt n s =>
      obtain rfl := List.mem_singleton.mp h
      simp +arith
    | error n | typeAlias a => cases h
  | stmt s =>
    cases s with
    | error n | leave n | again n | command n text => cases h
    | var n name type value =>
      obtain ⟨e, he, rfl⟩ := List.mem_map.mp h
      obtain rfl := Option.mem_toList.mp he
      simp +arith
    | give n value =>
      obtain ⟨e, he, rfl⟩ := List.mem_map.mp h
      obtain rfl := Option.mem_toList.mp he
      simp +arith
    | expr n e =>
      obtain rfl := List.mem_singleton.mp h
      simp +arith
    | branch n cond body otherwise =>
      cases otherwise <;> simp [parts, Otherwise.parts] at h <;> rcases h with rfl | rfl | rfl <;> simp <;> omega
    | loop n kind cond body =>
      simp [parts] at h
      rcases h with rfl | rfl
      · simp +arith
      · simp +arith
  | block b =>
    obtain ⟨n, stmts⟩ := b
    obtain ⟨s, hs, rfl⟩ := List.mem_map.mp h
    have hlt : sizeOf s < sizeOf stmts := List.sizeOf_lt_of_mem hs
    simp
    omega
  | expr e =>
    cases e with
    | error n | constant n value | ident i => cases h
    | binary n op opSpan left right =>
      simp [parts] at h
      rcases h with rfl | rfl
      · simp +arith
      · simp +arith
    | unary n op operand =>
      obtain rfl := List.mem_singleton.mp h
      simp +arith
    | call n target args =>
      rcases List.mem_cons.mp h with rfl | h
      · simp +arith
      · obtain ⟨e, he, rfl⟩ := List.mem_map.mp h
        have := List.sizeOf_lt_of_mem he
        simp
        omega
    | group n inner =>
      obtain rfl := List.mem_singleton.mp h
      simp +arith
    | assign n op opSpan target value =>
      simp [parts] at h
      rcases h with rfl | rfl
      · cases n
        simp +arith
      · cases n
        simp +arith

/-- What holds of a node if it holds of its parts holds of all nodes. -/
theorem induction_parts {p : Made → Prop} (h : ∀ m : Made, (∀ c ∈ m.parts, p c) → p m) (m : Made) : p m :=
  h m fun c _ => induction_parts h c
termination_by sizeOf m
decreasing_by exact sizeOf_part_lt ‹_›

/-- A node with all nodes below it. -/
def nodes (m : Made) : List Made := m :: m.parts.attach.flatMap fun c => c.1.nodes
termination_by sizeOf m
decreasing_by exact sizeOf_part_lt c.2

theorem nodes_eq (m : Made) : m.nodes = m :: m.parts.flatMap nodes := by
  rw [nodes, ← List.flatMap_map Subtype.val nodes, List.attach_map_subtype_val]

/-- The nodes of trees are their roots and the parts of their nodes. -/
theorem flatMap_nodes_perm {ms : List Made} (h : ∀ m ∈ ms, m.nodes.Perm (m :: m.nodes.flatMap parts)) :
    (ms.flatMap nodes).Perm (ms ++ (ms.flatMap nodes).flatMap parts) := by
  induction ms with
  | nil => exact .refl _
  | cons m rest ih =>
    have hm := h m List.mem_cons_self
    have hrest := ih fun n hn => h n (List.mem_cons_of_mem _ hn)
    rw [List.flatMap_cons, List.flatMap_append]
    refine (hm.append hrest).trans ?_
    rw [List.cons_append, List.cons_append]
    refine .cons _ ?_
    rw [← List.append_assoc, ← List.append_assoc]
    exact List.perm_append_comm.append_right _

theorem nodes_perm (m : Made) : m.nodes.Perm (m :: m.nodes.flatMap parts) := by
  induction m using induction_parts with
  | h m ih =>
    rw [nodes_eq, List.flatMap_cons]
    exact .cons _ (flatMap_nodes_perm ih)

/-- The number of a node and those of the nodes below it. -/
def ids : Made → List Nat
  | item i => i.ids
  | stmt s => s.ids
  | block b => b.ids
  | expr e => e.ids

theorem idsOf_eq_flatMap (es : List Expr) : Expr.idsOf es = (es.map expr).flatMap ids := by
  induction es with
  | nil => rfl
  | cons e es ih => rw [Expr.idsOf, ih]; rfl

theorem stmtIdsOf_eq_flatMap (ss : List Stmt) : Stmt.idsOf ss = (ss.map stmt).flatMap ids := by
  induction ss with
  | nil => rfl
  | cons s ss ih => rw [Stmt.idsOf, ih]; rfl

theorem idsOf?_eq_flatMap (e : Option Expr) : Expr.idsOf? e = (Expr.part? e).flatMap ids := by
  cases e with
  | none => rfl
  | some e => exact (List.append_nil _).symm

theorem otherwiseIds_eq_flatMap (o : Otherwise) : o.ids = o.parts.flatMap ids := by
  cases o with
  | none => rfl
  | block body => exact (List.append_nil _).symm
  | chain s => exact (List.append_nil _).symm

/-- The numbers of a node are its own and those of its parts. -/
theorem ids_perm (m : Made) : m.ids.Perm (m.number :: m.parts.flatMap ids) := by
  have hlast : ∀ {xs ys : List Nat} (i : Nat), xs.Perm ys → (xs ++ [i]).Perm (i :: ys) :=
    fun i h => (List.perm_append_singleton i _).trans (h.cons i)
  have hone : ∀ xs : List Nat, xs.Perm (xs ++ []) := fun xs => by rw [List.append_nil]
  cases m with
  | item i =>
    cases i with
    | error n | typeAlias a => exact .refl _
    | function f => exact hlast f.node.id (hone f.body.ids)
    | stmt n s => exact hlast n.id (hone s.ids)
  | stmt s =>
    rw [ids]
    cases s with
    | error n | leave n | again n | command n text => exact .of_eq (by rw [Stmt.ids]; rfl)
    | var n name type value =>
      rw [Stmt.ids, idsOf?_eq_flatMap]
      exact hlast n.id (.refl _)
    | give n value =>
      rw [Stmt.ids, idsOf?_eq_flatMap]
      exact hlast n.id (.refl _)
    | expr n e =>
      rw [Stmt.ids]
      exact hlast n.id (hone e.ids)
    | branch n cond body otherwise =>
      rw [Stmt.ids, otherwiseIds_eq_flatMap]
      exact hlast n.id (.of_eq (List.append_assoc _ _ _))
    | loop n kind cond body =>
      cases kind with
      | before =>
        rw [Stmt.ids]
        exact hlast n.id ((hone body.ids).append_left cond.ids)
      | after =>
        rw [Stmt.ids]
        exact hlast n.id (List.perm_append_comm.trans ((hone body.ids).append_left cond.ids))
  | block b =>
    obtain ⟨n, stmts⟩ := b
    rw [ids, Block.ids, stmtIdsOf_eq_flatMap]
    exact hlast n.id (.refl _)
  | expr e =>
    rw [ids]
    cases e with
    | error n | constant n value | ident i => exact .of_eq (by rw [Expr.ids]; rfl)
    | binary n op opSpan left right =>
      rw [Expr.ids]
      exact hlast n.id ((hone right.ids).append_left left.ids)
    | unary n op operand =>
      rw [Expr.ids]
      exact hlast n.id (hone operand.ids)
    | call n target args =>
      rw [Expr.ids, idsOf_eq_flatMap]
      exact hlast n.id List.perm_append_comm
    | group n inner =>
      rw [Expr.ids]
      exact hlast n.id (hone inner.ids)
    | assign n op opSpan target value =>
      rw [Expr.ids]
      refine hlast n.id (List.perm_append_comm.trans ?_)
      have htarget : ids (expr (.ident target)) = [target.node.id] := by rw [ids, Expr.ids]
      rw [parts, List.flatMap_cons, htarget]
      exact (hone value.ids).append_left _

/-- The numbers of a node and of all nodes below it. -/
theorem numbers_nodes_perm (m : Made) : (m.nodes.map number).Perm m.ids := by
  induction m using induction_parts with
  | h m ih =>
    refine .trans ?_ m.ids_perm.symm
    rw [nodes_eq, List.map_cons, List.map_flatMap]
    exact .cons _ (List.Perm.flatMap_left m.parts ih)

end Made

namespace Program

/-- All nodes of a program. -/
def made (p : Program) : List Made := (p.items.map Made.item).flatMap Made.nodes

variable {p : Program} {m c : Made}

/-- The nodes of a program are its items and the parts of its nodes. -/
theorem made_perm (p : Program) : p.made.Perm (p.items.map .item ++ p.made.flatMap Made.parts) :=
  Made.flatMap_nodes_perm fun m _ => m.nodes_perm

theorem item_mem_made {i : Item} (h : i ∈ p.items) : .item i ∈ p.made :=
  p.made_perm.mem_iff.mpr (List.mem_append_left _ (List.mem_map_of_mem h))

theorem part_mem_made (hm : m ∈ p.made) (hc : c ∈ m.parts) : c ∈ p.made :=
  p.made_perm.mem_iff.mpr (List.mem_append_right _ (List.mem_flatMap.mpr ⟨m, hm, hc⟩))

/-- What holds of the items, and of the parts of what it holds of, holds of all nodes. -/
theorem made_induction {q : Made → Prop} (hitem : ∀ i ∈ p.items, q (.item i))
    (hpart : ∀ m c, q m → c ∈ m.parts → q c) (hm : m ∈ p.made) : q m := by
  have hbelow : ∀ m, q m → ∀ n ∈ m.nodes, q n := by
    intro m
    induction m using Made.induction_parts with
    | h m ih =>
      intro hq n hn
      rw [Made.nodes_eq] at hn
      rcases List.mem_cons.mp hn with rfl | hn
      · exact hq
      · obtain ⟨c, hc, hn⟩ := List.mem_flatMap.mp hn
        exact ih c hc (hpart m c hq hc) n hn
  obtain ⟨r, hr, hm⟩ := List.mem_flatMap.mp hm
  obtain ⟨i, hi, rfl⟩ := List.mem_map.mp hr
  exact hbelow _ (hitem i hi) m hm

theorem numbers_made_perm (p : Program) : (p.made.map Made.number).Perm p.ids := by
  rw [made, List.map_flatMap, ids, List.flatMap_map]
  exact List.Perm.flatMap_left p.items fun i _ => (Made.item i).numbers_nodes_perm

theorem made_nodup (h : p.ids.Nodup) : p.made.Nodup :=
  .of_map Made.number (p.numbers_made_perm.nodup_iff.mpr h)

/-- Where all numbers are different no node is a part twice. -/
theorem parts_nodup (h : p.ids.Nodup) : (p.made.flatMap Made.parts).Nodup :=
  (List.nodup_append.mp (p.made_perm.nodup_iff.mp (made_nodup h))).2.1

/-- Then a node is a part of one node at most. -/
theorem parent_unique (h : p.ids.Nodup) {m n : Made} (hm : m ∈ p.made) (hn : n ∈ p.made) (hcm : c ∈ m.parts)
    (hcn : c ∈ n.parts) : m = n := by
  by_contra hne
  have hsymm : Std.Symm (Function.onFun List.Disjoint Made.parts) := ⟨fun _ _ hd _ h h' => hd h' h⟩
  have hdisjoint := (List.nodup_flatMap.mp (parts_nodup h)).2.forall hm hn hne
  exact hdisjoint hcm hcn

end Program

end Craftlang

/-!
## Whole trees

A tree is whole if nothing in it stands for text that could not be read.
-/

namespace Craftlang

mutual

def Expr.isWhole : Expr → Bool
  | .error _ => false
  | .constant .. | .ident _ => true
  | .binary _ _ _ left right => left.isWhole && right.isWhole
  | .unary _ _ operand => operand.isWhole
  | .call _ target args => target.isWhole && Expr.areWhole args
  | .group _ inner => inner.isWhole
  | .assign _ _ _ _ value => value.isWhole

def Expr.areWhole : List Expr → Bool
  | [] => true
  | e :: es => e.isWhole && Expr.areWhole es

end

/-- An expression that is missing is whole. -/
def Expr.isWholeIfAny (e : Option Expr) : Bool := (e.map Expr.isWhole).getD true

mutual

def Stmt.isWhole : Stmt → Bool
  | .error _ => false
  | .var _ _ _ value => Expr.isWholeIfAny value
  | .expr _ e => e.isWhole
  | .branch _ cond body otherwise => cond.isWhole && body.isWhole && otherwise.isWhole
  | .loop _ _ cond body => cond.isWhole && body.isWhole
  | .give _ value => Expr.isWholeIfAny value
  | .leave _ | .again _ | .command .. => true

def Block.isWhole : Block → Bool
  | .mk _ stmts => Stmt.areWhole stmts

def Otherwise.isWhole : Otherwise → Bool
  | .none => true
  | .block body => body.isWhole
  | .chain s => s.isWhole

def Stmt.areWhole : List Stmt → Bool
  | [] => true
  | s :: ss => s.isWhole && Stmt.areWhole ss

end

def Item.isWhole : Item → Bool
  | .error _ => false
  | .function f => f.body.isWhole
  | .typeAlias _ => true
  | .stmt _ s => s.isWhole

def Program.isWhole (p : Program) : Bool := p.items.all Item.isWhole

end Craftlang
