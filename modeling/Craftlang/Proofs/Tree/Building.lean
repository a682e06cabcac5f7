import Craftlang.Tree.Arena

/-!
# Arenas hold what was made

What was made in order, each node with the next number and after its parts, is found in the arenas: every
node has an ID of its own there, which leads to what the node says. The nodes that are referred to there are
the parts, and a part of the same sort has a smaller ID.
-/

/-!
## Arenas only grow

What was added to an arena stays at its place, and a node is found at the ID it was given, with its payload.
-/

namespace Craftlang

namespace Arena

variable {α β : Type} {a b c : Arena α} {v w : α} {i : Nat}

/-- What is in the arena is at the same place in the other. -/
def Within (a b : Arena α) : Prop := ∀ i v, a.get? i = some v → b.get? i = some v

theorem Within.refl (a : Arena α) : a.Within a := fun _ _ h => h

/-- What is found in the arena is found in the other. -/
theorem Within.map (h : a.Within b) {f : α → β} {x : β} (hx : (a.get? i).map f = some x) :
    (b.get? i).map f = some x := by
  obtain ⟨v, hv, rfl⟩ := Option.map_eq_some_iff.mp hx
  rw [h i v hv, Option.map_some]

theorem get?_allocate (a : Arena α) (v : α) : (a.allocate v).1.get? (a.size + 1) = some v := by
  simp [allocate, get?, size]

theorem get?_allocate_of_ne (h : i ≠ a.size + 1) : (a.allocate v).1.get? i = a.get? i := by
  cases i with
  | zero => rfl
  | succ i =>
    have hne : i ≠ a.data.size := fun heq => h (congrArg (· + 1) heq)
    simp [allocate, get?, Array.getElem?_push, hne]

theorem get?_le (h : a.get? i = some v) : i ≤ a.size := by
  cases i with
  | zero => cases h
  | succ i =>
    obtain ⟨hlt, -⟩ := Array.getElem?_eq_some_iff.mp h
    exact hlt

theorem within_allocate (a : Arena α) (v : α) : a.Within (a.allocate v).1 := by
  intro i w h
  have hle := get?_le h
  rw [get?_allocate_of_ne (by omega)]
  exact h

@[simp] theorem size_allocate (a : Arena α) (v : α) : (a.allocate v).1.size = a.size + 1 :=
  Array.size_push v

end Arena

namespace Exprs

variable {e e' : Exprs} {id : ExprId} {data : ExprData}

/-- Each of the arenas is within its counterpart. -/
structure Within (e e' : Exprs) : Prop where
  nodes : e.nodes.Within e'.nodes
  idents : e.idents.Within e'.idents
  literals : e.literals.Within e'.literals
  binaries : e.binaries.Within e'.binaries
  unaries : e.unaries.Within e'.unaries
  calls : e.calls.Within e'.calls
  groups : e.groups.Within e'.groups
  assigns : e.assigns.Within e'.assigns

theorem Within.refl (e : Exprs) : e.Within e := by
  constructor <;> exact .refl _

theorem within_new (e : Exprs) (span : Span) (data : ExprData) : e.Within (e.new span data).1 := by
  have hnodes := fun entry => e.nodes.within_allocate entry
  cases data with
  | error => exact { Within.refl e with nodes := hnodes _ }
  | ident name => exact { Within.refl e with nodes := hnodes _, idents := e.idents.within_allocate name }
  | literal value => exact { Within.refl e with nodes := hnodes _, literals := e.literals.within_allocate value }
  | binary data => exact { Within.refl e with nodes := hnodes _, binaries := e.binaries.within_allocate data }
  | unary data => exact { Within.refl e with nodes := hnodes _, unaries := e.unaries.within_allocate data }
  | call data => exact { Within.refl e with nodes := hnodes _, calls := e.calls.within_allocate data }
  | group inner => exact { Within.refl e with nodes := hnodes _, groups := e.groups.within_allocate inner }
  | assign data => exact { Within.refl e with nodes := hnodes _, assigns := e.assigns.within_allocate data }

theorem Within.data? (h : e.Within e') (hd : e.data? id = some data) : e'.data? id = some data := by
  obtain ⟨⟨kind, span, payload⟩, hentry, hp⟩ := Option.bind_eq_some_iff.mp hd
  refine Option.bind_eq_some_iff.mpr ⟨_, h.nodes _ _ hentry, ?_⟩
  cases kind with
  | error => exact hp
  | ident => exact h.idents.map hp
  | literal => exact h.literals.map hp
  | binary => exact h.binaries.map hp
  | unary => exact h.unaries.map hp
  | call => exact h.calls.map hp
  | group => exact h.groups.map hp
  | assign => exact h.assigns.map hp

theorem new_id (e : Exprs) (span : Span) (data : ExprData) : (e.new span data).2 = e.nodes.size + 1 := by
  cases data <;> rfl

theorem size_new (e : Exprs) (span : Span) (data : ExprData) :
    (e.new span data).1.nodes.size = e.nodes.size + 1 := by
  cases data <;> exact Arena.size_allocate _ _

theorem data?_new (e : Exprs) (span : Span) (data : ExprData) :
    (e.new span data).1.data? (e.nodes.size + 1) = some data := by
  cases data <;> simp [new, add, data?, payload?, Arena.allocate, Arena.get?, Arena.size]

end Exprs

namespace Stmts

variable {s s' : Stmts} {id : StmtId} {data : StmtData}

/-- Each of the arenas is within its counterpart. -/
structure Within (s s' : Stmts) : Prop where
  nodes : s.nodes.Within s'.nodes
  blocks : s.blocks.Within s'.blocks
  vars : s.vars.Within s'.vars
  exprs : s.exprs.Within s'.exprs
  branches : s.branches.Within s'.branches
  loops : s.loops.Within s'.loops
  gives : s.gives.Within s'.gives
  commands : s.commands.Within s'.commands

theorem Within.refl (s : Stmts) : s.Within s := by
  constructor <;> exact .refl _

theorem within_new (s : Stmts) (span : Span) (data : StmtData) : s.Within (s.new span data).1 := by
  have hnodes := fun entry => s.nodes.within_allocate entry
  cases data with
  | error | leave | again => exact { Within.refl s with nodes := hnodes _ }
  | block stmts => exact { Within.refl s with nodes := hnodes _, blocks := s.blocks.within_allocate stmts }
  | var data => exact { Within.refl s with nodes := hnodes _, vars := s.vars.within_allocate data }
  | expr e => exact { Within.refl s with nodes := hnodes _, exprs := s.exprs.within_allocate e }
  | branch data => exact { Within.refl s with nodes := hnodes _, branches := s.branches.within_allocate data }
  | loop kind data => exact { Within.refl s with nodes := hnodes _, loops := s.loops.within_allocate data }
  | give value => exact { Within.refl s with nodes := hnodes _, gives := s.gives.within_allocate value }
  | command text => exact { Within.refl s with nodes := hnodes _, commands := s.commands.within_allocate text }

theorem Within.data? (h : s.Within s') (hd : s.data? id = some data) : s'.data? id = some data := by
  obtain ⟨⟨kind, span, payload⟩, hentry, hp⟩ := Option.bind_eq_some_iff.mp hd
  refine Option.bind_eq_some_iff.mpr ⟨_, h.nodes _ _ hentry, ?_⟩
  cases kind with
  | error | leave | again => exact hp
  | block => exact h.blocks.map hp
  | var => exact h.vars.map hp
  | expr => exact h.exprs.map hp
  | branch => exact h.branches.map hp
  | loop kind => exact h.loops.map hp
  | give => exact h.gives.map hp
  | command => exact h.commands.map hp

theorem new_id (s : Stmts) (span : Span) (data : StmtData) : (s.new span data).2 = s.nodes.size + 1 := by
  cases data <;> rfl

theorem size_new (s : Stmts) (span : Span) (data : StmtData) :
    (s.new span data).1.nodes.size = s.nodes.size + 1 := by
  cases data <;> exact Arena.size_allocate _ _

theorem data?_new (s : Stmts) (span : Span) (data : StmtData) :
    (s.new span data).1.data? (s.nodes.size + 1) = some data := by
  cases data <;> simp [new, add, data?, payload?, Arena.allocate, Arena.get?, Arena.size]

end Stmts

namespace Items

variable {i i' : Items} {id : ItemId} {data : ItemData}

/-- Each of the arenas is within its counterpart. -/
structure Within (i i' : Items) : Prop where
  nodes : i.nodes.Within i'.nodes
  functions : i.functions.Within i'.functions
  aliases : i.aliases.Within i'.aliases
  stmts : i.stmts.Within i'.stmts

theorem Within.refl (i : Items) : i.Within i := by
  constructor <;> exact .refl _

theorem within_new (i : Items) (span : Span) (data : ItemData) : i.Within (i.new span data).1 := by
  have hnodes := fun entry => i.nodes.within_allocate entry
  cases data with
  | error => exact { Within.refl i with nodes := hnodes _ }
  | function data => exact { Within.refl i with nodes := hnodes _, functions := i.functions.within_allocate data }
  | typeAlias data => exact { Within.refl i with nodes := hnodes _, aliases := i.aliases.within_allocate data }
  | stmt s => exact { Within.refl i with nodes := hnodes _, stmts := i.stmts.within_allocate s }

theorem Within.data? (h : i.Within i') (hd : i.data? id = some data) : i'.data? id = some data := by
  obtain ⟨⟨kind, span, payload⟩, hentry, hp⟩ := Option.bind_eq_some_iff.mp hd
  refine Option.bind_eq_some_iff.mpr ⟨_, h.nodes _ _ hentry, ?_⟩
  cases kind with
  | error => exact hp
  | function => exact h.functions.map hp
  | typeAlias => exact h.aliases.map hp
  | stmt => exact h.stmts.map hp

theorem new_id (i : Items) (span : Span) (data : ItemData) : (i.new span data).2 = i.nodes.size + 1 := by
  cases data <;> rfl

theorem size_new (i : Items) (span : Span) (data : ItemData) :
    (i.new span data).1.nodes.size = i.nodes.size + 1 := by
  cases data <;> exact Arena.size_allocate _ _

theorem data?_new (i : Items) (span : Span) (data : ItemData) :
    (i.new span data).1.data? (i.nodes.size + 1) = some data := by
  cases data <;> simp [new, add, data?, payload?, Arena.allocate, Arena.get?, Arena.size]

end Items


namespace Made

/-- The newest first: each node has the next number, and its parts were made before. -/
def InOrder : List Made → Prop
  | [] => True
  | m :: earlier => m.number = earlier.length + 1 ∧ (∀ c ∈ m.parts, c ∈ earlier) ∧ InOrder earlier

namespace InOrder

variable {log : List Made} {m c : Made}

theorem number_le (h : InOrder log) (hm : m ∈ log) : m.number ≤ log.length := by
  induction log with
  | nil => cases hm
  | cons n earlier ih =>
    rw [List.length_cons]
    rcases List.mem_cons.mp hm with rfl | hm
    · exact Nat.le_of_eq h.1
    · exact Nat.le_succ_of_le (ih h.2.2 hm)

theorem part_mem (h : InOrder log) (hm : m ∈ log) (hc : c ∈ m.parts) : c ∈ log := by
  induction log with
  | nil => cases hm
  | cons n earlier ih =>
    rcases List.mem_cons.mp hm with rfl | hm
    · exact List.mem_cons_of_mem _ (h.2.1 c hc)
    · exact List.mem_cons_of_mem _ (ih h.2.2 hm)

end InOrder

end Made

theorem Ref.ofId?_of_pos (sort : NodeSort) {id : Nat} (h : 0 < id) : ofId? sort id = [⟨sort, id⟩] :=
  if_neg (Nat.ne_of_gt h)

def NodeData.sort : NodeData → NodeSort
  | item _ => .item
  | stmt _ => .stmt
  | expr _ => .expr

namespace Builder

variable {b : Builder} {m n c : Made} {r : Ref} {log : List Made}

/-- Where a node is. -/
def refOf (b : Builder) (m : Made) : Ref := ⟨m.sort, b.idOf m.node⟩

theorem sort_dataOf (b : Builder) (m : Made) : (b.dataOf m).sort = m.sort := by
  cases m <;> rfl

/-- What a node says depends on the IDs of its parts only. -/
theorem dataOf_congr {b' : Builder} (h : ∀ c ∈ m.parts, b'.idOf c.node = b.idOf c.node) :
    b'.dataOf m = b.dataOf m := by
  cases m with
  | item i => cases i <;> simp_all [dataOf, itemData, Made.parts, Made.node]
  | stmt s =>
    cases s with
    | var n name type value =>
      cases value <;> simp_all [dataOf, stmtData, idOf?, Made.parts, Made.node, Expr.part?]
    | give n value => cases value <;> simp_all [dataOf, stmtData, idOf?, Made.parts, Made.node, Expr.part?]
    | branch n cond body otherwise =>
      cases otherwise <;>
        simp_all [dataOf, stmtData, otherwiseId, Made.parts, Made.node, Otherwise.parts]
    | _ => simp_all [dataOf, stmtData, Made.parts, Made.node]
  | block body => simp_all [dataOf, Made.parts, Made.node]
  | expr e => cases e <;> simp_all [dataOf, exprData, Made.parts, Made.node, Expr.node]

/-- The nodes that a node refers to are its parts. -/
theorem children_dataOf (h : ∀ c ∈ m.parts, 0 < b.idOf c.node) :
    (b.dataOf m).children = m.parts.map b.refOf := by
  cases m with
  | item i => cases i <;> rfl
  | stmt s =>
    cases s with
    | var n name type value =>
      cases value with
      | none => rfl
      | some e => exact Ref.ofId?_of_pos .expr (h (.expr e) (List.mem_singleton_self _))
    | give n value =>
      cases value with
      | none => rfl
      | some e => exact Ref.ofId?_of_pos .expr (h (.expr e) (List.mem_singleton_self _))
    | branch n cond body otherwise =>
      have htail : Ref.ofId? .stmt (b.otherwiseId otherwise) = otherwise.parts.map b.refOf := by
        cases otherwise with
        | none => rfl
        | block other => exact Ref.ofId?_of_pos .stmt (h (.block other) (by simp [Made.parts, Otherwise.parts]))
        | chain s => exact Ref.ofId?_of_pos .stmt (h (.stmt s) (by simp [Made.parts, Otherwise.parts]))
      exact congrArg (_ :: _ :: ·) htail
    | _ => rfl
  | block body => simp [dataOf, NodeData.children, StmtData.children, Made.parts, refOf, Made.sort, Made.node]
  | expr e =>
    cases e with
    | call n target args =>
      simp [dataOf, exprData, NodeData.children, ExprData.children, Made.parts, refOf, Made.sort, Made.node]
    | _ => rfl

/-! ### What adding a node changes -/

theorem given_new (b : Builder) (span : Span) (data : NodeData) : (b.new span data).1.given = b.given := by
  cases data <;> rfl

theorem new_id (b : Builder) (span : Span) (data : NodeData) :
    (b.new span data).2 = b.count data.sort + 1 := by
  cases data with
  | item data => exact b.items.new_id span data
  | stmt data => exact b.stmts.new_id span data
  | expr data => exact b.exprs.new_id span data

theorem given_add (b : Builder) (m : Made) :
    (b.add m).given = (b.given.allocate (b.count m.sort + 1)).1 := by
  change ((b.new m.node.span (b.dataOf m)).1.given.allocate (b.new m.node.span (b.dataOf m)).2).1 = _
  rw [new_id, given_new, sort_dataOf]

theorem data?_add_of_eq_some {data : NodeData} (h : b.data? r = some data) : (b.add m).data? r = some data := by
  obtain ⟨sort, id⟩ := r
  change (b.new m.node.span (b.dataOf m)).1.data? ⟨sort, id⟩ = some data
  cases b.dataOf m with
  | item new => cases sort with
    | item =>
      obtain ⟨d, hd, rfl⟩ := Option.map_eq_some_iff.mp h
      exact Option.map_eq_some_iff.mpr ⟨d, (b.items.within_new m.node.span new).data? hd, rfl⟩
    | stmt | expr => exact h
  | stmt new => cases sort with
    | stmt =>
      obtain ⟨d, hd, rfl⟩ := Option.map_eq_some_iff.mp h
      exact Option.map_eq_some_iff.mpr ⟨d, (b.stmts.within_new m.node.span new).data? hd, rfl⟩
    | item | expr => exact h
  | expr new => cases sort with
    | expr =>
      obtain ⟨d, hd, rfl⟩ := Option.map_eq_some_iff.mp h
      exact Option.map_eq_some_iff.mpr ⟨d, (b.exprs.within_new m.node.span new).data? hd, rfl⟩
    | item | stmt => exact h

theorem data?_add (b : Builder) (m : Made) :
    (b.add m).data? ⟨m.sort, b.count m.sort + 1⟩ = some (b.dataOf m) := by
  rw [← sort_dataOf b m]
  change (b.new m.node.span (b.dataOf m)).1.data? _ = _
  cases b.dataOf m with
  | item data => exact congrArg (·.map NodeData.item) (b.items.data?_new m.node.span data)
  | stmt data => exact congrArg (·.map NodeData.stmt) (b.stmts.data?_new m.node.span data)
  | expr data => exact congrArg (·.map NodeData.expr) (b.exprs.data?_new m.node.span data)

theorem count_add (b : Builder) (m : Made) (sort : NodeSort) :
    (b.add m).count sort = b.count sort + if m.sort = sort then 1 else 0 := by
  rw [← sort_dataOf b m]
  change (b.new m.node.span (b.dataOf m)).1.count sort = _
  cases b.dataOf m with
  | item data => cases sort with
    | item => exact b.items.size_new m.node.span data
    | stmt | expr => rfl
  | stmt data => cases sort with
    | stmt => exact b.stmts.size_new m.node.span data
    | item | expr => rfl
  | expr data => cases sort with
    | expr => exact b.exprs.size_new m.node.span data
    | item | stmt => rfl

theorem idOf_add (h : m.number = b.given.size + 1) : (b.add m).idOf m.node = b.count m.sort + 1 := by
  rw [idOf, given_add]
  change Option.getD (Arena.get? _ m.number) 0 = _
  rw [h, Arena.get?_allocate]
  rfl

theorem idOf_add_of_le {n : Node} (h : n.id ≤ b.given.size) : (b.add m).idOf n = b.idOf n := by
  rw [idOf, given_add, Arena.get?_allocate_of_ne (by omega)]
  rfl

/-! ### What the arenas hold -/

/-- The arenas hold what was made. -/
structure Holds (b : Builder) (log : List Made) : Prop where
  numbered : b.given.size = log.length
  /-- Every node has an ID. -/
  idOf_pos : ∀ m ∈ log, 0 < b.idOf m.node
  idOf_le : ∀ m ∈ log, b.idOf m.node ≤ b.count m.sort
  /-- It leads to what the node says. -/
  data : ∀ m ∈ log, b.data? (b.refOf m) = some (b.dataOf m)
  /-- No other node of the sort has it. -/
  inj : ∀ m ∈ log, ∀ n ∈ log, b.refOf m = b.refOf n → m = n
  /-- The parts have smaller ones. -/
  part_lt : ∀ m ∈ log, ∀ c ∈ m.parts, c.sort = m.sort → b.idOf c.node < b.idOf m.node

namespace Holds

theorem empty : Holds {} [] where
  numbered := rfl
  idOf_pos := nofun
  idOf_le := nofun
  data := nofun
  inj := nofun
  part_lt := nofun

/-- Adding one node. -/
theorem add (h : b.Holds log) (horder : Made.InOrder (m :: log)) : (b.add m).Holds (m :: log) := by
  obtain ⟨hnumber, hparts, hlog⟩ := horder
  rw [← h.numbered] at hnumber
  have hself : (b.add m).idOf m.node = b.count m.sort + 1 := idOf_add hnumber
  have hold : ∀ n ∈ log, (b.add m).idOf n.node = b.idOf n.node := fun n hn =>
    idOf_add_of_le (h.numbered ▸ hlog.number_le hn)
  have hdata : ∀ n, n ∈ m :: log → (b.add m).dataOf n = b.dataOf n := fun n hn =>
    dataOf_congr fun c hc => hold c <| by
      rcases List.mem_cons.mp hn with rfl | hn
      · exact hparts c hc
      · exact hlog.part_mem hn hc
  have hcount := fun sort => b.count_add m sort
  -- the new ID is beyond those of the sort
  have hnew : ∀ n ∈ log, n.sort = m.sort → (b.add m).idOf n.node < (b.add m).idOf m.node := by
    intro n hn hsort
    have hle := h.idOf_le n hn
    rw [hsort] at hle
    rw [hold n hn, hself]
    omega
  have hne : ∀ n ∈ log, (b.add m).refOf n ≠ (b.add m).refOf m := fun n hn heq =>
    Nat.ne_of_lt (hnew n hn (congrArg Ref.sort heq)) (congrArg Ref.id heq)
  refine ⟨?_, ?_, ?_, ?_, ?_, ?_⟩
  · rw [given_add, Arena.size_allocate, h.numbered, List.length_cons]
  · intro n hn
    rcases List.mem_cons.mp hn with rfl | hn
    · omega
    · rw [hold n hn]
      exact h.idOf_pos n hn
  · intro n hn
    rcases List.mem_cons.mp hn with rfl | hn
    · exact Nat.le_of_eq (by rw [hself, hcount, if_pos rfl])
    · rw [hold n hn, hcount]
      exact Nat.le_add_right_of_le (h.idOf_le n hn)
  · intro n hn
    rw [hdata n hn]
    rcases List.mem_cons.mp hn with rfl | hn
    · rw [refOf, hself]
      exact b.data?_add n
    · rw [refOf, hold n hn]
      exact data?_add_of_eq_some (h.data n hn)
  · intro n hn n' hn' heq
    rcases List.mem_cons.mp hn with rfl | hmem
    · rcases List.mem_cons.mp hn' with rfl | hmem'
      · rfl
      · exact absurd heq.symm (hne n' hmem')
    · rcases List.mem_cons.mp hn' with rfl | hmem'
      · exact absurd heq (hne n hmem)
      · refine h.inj n hmem n' hmem' ?_
        rwa [refOf, refOf, hold n hmem, hold n' hmem'] at heq
  · intro n hn c hc hsort
    rcases List.mem_cons.mp hn with rfl | hn
    · exact hnew c (hparts c hc) hsort
    · rw [hold n hn, hold c (hlog.part_mem hn hc)]
      exact h.part_lt n hn c hc hsort

/-- Adding all that was made in order. -/
theorem of {log : List Made} (h : Made.InOrder log) : (Builder.of log).Holds log := by
  induction log with
  | nil => exact empty
  | cons m earlier ih => exact (ih h.2.2).add h

theorem children (h : b.Holds log) (horder : Made.InOrder log) (hm : m ∈ log) :
    b.children (b.refOf m) = m.parts.map b.refOf := by
  rw [Builder.children, h.data m hm]
  exact children_dataOf fun c hc => h.idOf_pos c (horder.part_mem hm hc)

end Holds

end Builder

end Craftlang
