import Craftlang.Proofs.Syntax.Numbering

/-!
# The arenas of a file hold a tree

What one comes to from the items of a parsed file, by the IDs that nodes hold, are the nodes of its program,
each at an ID of its own. So a walk along IDs comes to an end, as a walk over the program does.
-/

namespace Craftlang

namespace Builder.Holds

variable {b : Builder} {log : List Made} {m : Made} {e : Expr}

theorem exprs_data? (h : b.Holds log) (he : .expr e ∈ log) :
    b.exprs.data? (b.idOf e.node) = some (b.exprData e) := by
  obtain ⟨data, hdata, heq⟩ := Option.map_eq_some_iff.mp (h.data _ he)
  obtain rfl := NodeData.expr.inj heq
  exact hdata

/-- What holds no parentheses is no group. -/
theorem group?_eq_none (h : b.Holds log) (he : .expr e ∈ log) (hne : ∀ n inner, e ≠ .group n inner) :
    b.exprs.group? (b.idOf e.node) = none := by
  rw [Exprs.group?, h.exprs_data? he]
  cases e with
  | group n inner => exact absurd rfl (hne n inner)
  | _ => rfl

/-- Skipping parentheses ends after fewer rounds than the ID of the outermost says, at the expression
inside. -/
theorem unwrapWithin (h : b.Holds log) (horder : Made.InOrder log) (he : .expr e ∈ log) {rounds : Nat}
    (hrounds : b.idOf e.node ≤ rounds) :
    b.exprs.unwrapWithin rounds (b.idOf e.node) = some (b.idOf e.unwrap.node) := by
  have hpos := h.idOf_pos _ he
  fun_induction Expr.unwrap e generalizing rounds with
  | case1 n inner ih =>
    obtain ⟨k, rfl⟩ : ∃ k, rounds = k + 1 := Nat.exists_eq_succ_of_ne_zero (by simp only [Made.node] at hpos; omega)
    have hinner : Made.expr inner ∈ log := horder.part_mem he List.mem_cons_self
    have hlt : b.idOf inner.node < b.idOf (Expr.group n inner).node := h.part_lt _ he _ List.mem_cons_self rfl
    have hgroup : b.exprs.group? (b.idOf (Expr.group n inner).node) = some (b.idOf inner.node) := by
      rw [Exprs.group?, h.exprs_data? he]
      rfl
    rw [Exprs.unwrapWithin, hgroup]
    exact ih hinner (by omega) (h.idOf_pos _ hinner)
  | case2 e hne =>
    obtain ⟨k, rfl⟩ : ∃ k, rounds = k + 1 := Nat.exists_eq_succ_of_ne_zero (by simp only [Made.node] at hpos; omega)
    rw [Exprs.unwrapWithin, h.group?_eq_none he hne]

/-- A walk that goes on from each node to those it refers to ends. -/
theorem acc (h : b.Holds log) (horder : Made.InOrder log) (hm : m ∈ log) :
    Acc (fun child parent => child ∈ b.children parent) (b.refOf m) := by
  induction m using Made.induction_parts with
  | h m ih =>
    refine ⟨_, fun child hchild => ?_⟩
    rw [h.children horder hm] at hchild
    obtain ⟨c, hc, rfl⟩ := List.mem_map.mp hchild
    exact ih c hc (horder.part_mem hm hc)

end Builder.Holds

namespace FileArenas

/-- What one comes to from the items of the file, from each node to those it refers to. -/
inductive Reaches (a : FileArenas) : Ref → Prop where
  | item {id : ItemId} (h : id ∈ a.items) : a.Reaches ⟨.item, id⟩
  | child {parent child : Ref} (h : a.Reaches parent) (hc : child ∈ a.builder.children parent) : a.Reaches child

/-- The arenas hold a program as a finite tree. -/
structure HoldsTree (a : FileArenas) (p : Program) : Prop where
  /-- The nodes that one comes to are those of the program, -/
  reaches_iff : ∀ r, a.Reaches r ↔ r ∈ p.made.map a.builder.refOf
  /-- and they say there what they say here. -/
  data : ∀ m ∈ p.made, a.builder.data? (a.builder.refOf m) = some (a.builder.dataOf m)
  /-- Each is in its arena, and its payload is in the arena of its kind. -/
  valid : ∀ r, a.Reaches r → 0 < r.id ∧ r.id ≤ a.builder.count r.sort ∧ (a.builder.data? r).isSome
  /-- In its own arena a node refers to earlier ones, -/
  child_lt : ∀ r child, a.Reaches r → child ∈ a.builder.children r → child.sort = r.sort → child.id < r.id
  /-- to none of them twice, -/
  children_nodup : ∀ r, a.Reaches r → (a.builder.children r).Nodup
  /-- and to none that another node refers to. -/
  parent_unique : ∀ r s child, a.Reaches r → a.Reaches s → child ∈ a.builder.children r →
    child ∈ a.builder.children s → r = s
  items_nodup : a.items.Nodup
  /-- Skipping parentheses ends, at what is none. -/
  unwraps : ∀ id, a.Reaches ⟨.expr, id⟩ → ∃ inner, a.Reaches ⟨.expr, inner⟩ ∧
    a.builder.exprs.group? inner = none ∧
    ∀ rounds, id ≤ rounds → a.builder.exprs.unwrapWithin rounds id = some inner
  /-- A walk that goes on from each node to those it refers to ends. -/
  walks : ∀ r, a.Reaches r → Acc (fun child parent => child ∈ a.builder.children parent) r

end FileArenas

theorem Expr.unwrap_ne_group (e : Expr) (n : Node) (inner : Expr) : e.unwrap ≠ .group n inner := by
  fun_induction Expr.unwrap e with
  | case1 n' inner' ih => exact ih
  | case2 e hne => exact hne n inner

/-- With an expression of a program the one inside its parentheses is a node, too. -/
theorem Program.unwrap_mem_made {p : Program} {e : Expr} (h : .expr e ∈ p.made) : .expr e.unwrap ∈ p.made := by
  fun_induction Expr.unwrap e with
  | case1 n inner ih => exact ih (part_mem_made h List.mem_cons_self)
  | case2 e hne => exact h

namespace Builder.Holds

variable {b : Builder} {log : List Made} {p : Program} {m n : Made} {r : Ref}

/-- All nodes of a program were made if its items were. -/
theorem mem_of_mem_made (horder : Made.InOrder log) (hitems : ∀ i ∈ p.items, .item i ∈ log) (hm : m ∈ p.made) :
    m ∈ log :=
  Program.made_induction hitems (fun _ _ hn hc => horder.part_mem hn hc) hm

/-- One comes to the nodes of the program. -/
theorem reaches_iff (hchildren : ∀ m ∈ p.made, b.children (b.refOf m) = m.parts.map b.refOf) :
    (b.file p.items).Reaches r ↔ ∃ m ∈ p.made, b.refOf m = r := by
  constructor
  · intro hr
    induction hr with
    | item hid =>
      obtain ⟨i, hi, rfl⟩ := List.mem_map.mp hid
      exact ⟨.item i, Program.item_mem_made hi, rfl⟩
    | child _ hchild ih =>
      obtain ⟨m, hm, rfl⟩ := ih
      rw [show (b.file p.items).builder = b from rfl, hchildren m hm] at hchild
      obtain ⟨c, hc, rfl⟩ := List.mem_map.mp hchild
      exact ⟨c, Program.part_mem_made hm hc, rfl⟩
  · rintro ⟨m, hm, rfl⟩
    refine (Program.made_induction (q := fun m => m ∈ p.made ∧ (b.file p.items).Reaches (b.refOf m)) ?_ ?_ hm).2
    · exact fun i hi => ⟨Program.item_mem_made hi, .item (List.mem_map_of_mem hi)⟩
    · rintro m c ⟨hm, hr⟩ hc
      refine ⟨Program.part_mem_made hm hc, .child hr ?_⟩
      rw [show (b.file p.items).builder = b from rfl, hchildren m hm]
      exact List.mem_map_of_mem hc

/-- Different nodes that were made have different IDs, so lists of nodes without repetition have. -/
theorem nodup_refs (h : b.Holds log) {ms : List Made} (hms : ms.Nodup) (hmade : ∀ m ∈ ms, m ∈ log) :
    (ms.map b.refOf).Nodup :=
  hms.map_on fun m hm n hn => h.inj m (hmade m hm) n (hmade n hn)

/-- Arenas that hold what was made in order hold a program of it as a tree, if its numbers are all
different. -/
theorem holdsTree (h : b.Holds log) (horder : Made.InOrder log) (hids : p.ids.Nodup)
    (hitems : ∀ i ∈ p.items, .item i ∈ log) : (b.file p.items).HoldsTree p := by
  have hlog : ∀ m ∈ p.made, m ∈ log := fun m hm => mem_of_mem_made horder hitems hm
  have hchildren : ∀ m ∈ p.made, b.children (b.refOf m) = m.parts.map b.refOf := fun m hm =>
    h.children horder (hlog m hm)
  have hparts : ∀ m ∈ p.made, ∀ c ∈ m.parts, c ∈ log := fun m hm c hc => horder.part_mem (hlog m hm) hc
  have hnode : ∀ r, (b.file p.items).Reaches r → ∃ m ∈ p.made, b.refOf m = r := fun r hr =>
    (reaches_iff hchildren).mp hr
  constructor
  case reaches_iff => exact fun r => (reaches_iff hchildren).trans List.mem_map.symm
  case data => exact fun m hm => h.data m (hlog m hm)
  case valid =>
    intro r hr
    obtain ⟨m, hm, rfl⟩ := hnode r hr
    exact ⟨h.idOf_pos m (hlog m hm), h.idOf_le m (hlog m hm), Option.isSome_of_eq_some (h.data m (hlog m hm))⟩
  case child_lt =>
    intro r child hr hchild hsort
    obtain ⟨m, hm, rfl⟩ := hnode r hr
    obtain ⟨c, hc, rfl⟩ := List.mem_map.mp (hchildren m hm ▸ hchild)
    exact h.part_lt m (hlog m hm) c hc hsort
  case children_nodup =>
    intro r hr
    obtain ⟨m, hm, rfl⟩ := hnode r hr
    have hdistinct := (List.nodup_flatMap.mp (Program.parts_nodup hids)).1 m hm
    exact (hchildren m hm).symm ▸ h.nodup_refs hdistinct (hparts m hm)
  case parent_unique =>
    intro r s child hr hs hcr hcs
    obtain ⟨m, hm, rfl⟩ := hnode r hr
    obtain ⟨n, hn, rfl⟩ := hnode s hs
    obtain ⟨c, hc, rfl⟩ := List.mem_map.mp (hchildren m hm ▸ hcr)
    obtain ⟨d, hd, heq⟩ := List.mem_map.mp (hchildren n hn ▸ hcs)
    obtain rfl := h.inj d (hparts n hn d hd) c (hparts m hm c hc) heq
    rw [Program.parent_unique hids hm hn hc hd]
  case items_nodup =>
    have hdistinct : (p.items.map Made.item).Nodup :=
      (List.nodup_append.mp (p.made_perm.nodup_iff.mp (Program.made_nodup hids))).1
    have hrefs := h.nodup_refs hdistinct fun m hm => by
      obtain ⟨i, hi, rfl⟩ := List.mem_map.mp hm
      exact hitems i hi
    rw [List.map_map] at hrefs
    exact .of_map (Ref.mk .item) (by rw [FileArenas.items, file, List.map_map]; exact hrefs)
  case unwraps =>
    intro id hr
    obtain ⟨m, hm, heq⟩ := hnode _ hr
    obtain ⟨e, rfl⟩ : ∃ e, m = .expr e := by
      cases m <;> cases congrArg Ref.sort heq
      exact ⟨_, rfl⟩
    obtain rfl : b.idOf e.node = id := congrArg Ref.id heq
    have hinner := Program.unwrap_mem_made hm
    refine ⟨b.idOf e.unwrap.node, (reaches_iff hchildren).mpr ⟨_, hinner, rfl⟩, ?_, fun rounds hrounds => ?_⟩
    · exact h.group?_eq_none (hlog _ hinner) e.unwrap_ne_group
    · exact h.unwrapWithin horder (hlog _ hm) hrounds
  case walks =>
    intro r hr
    obtain ⟨m, hm, rfl⟩ := hnode r hr
    exact h.acc horder (hlog m hm)

end Builder.Holds

/-- Whatever the source of a file is, the arenas that parsing it fills hold its program as a finite tree. -/
theorem File.arenas_holdsTree (file : File) : file.arenas.HoldsTree file.parse.program := by
  have hmakes := Parse.fileParts_makes file file.tokenize.dropLast
  have horder := hmakes.follows.counts.order
  refine (Builder.Holds.of horder).holdsTree horder (Parse.program_nodup file _) fun i hi => ?_
  exact hmakes.keeps.made (List.mem_map_of_mem hi)

/-- A statement whose line does not end stays in the arena, and the item refers to the error after it. -/
example : let a := (⟨0, "leave.craft", "break 1\n", {}⟩ : File).arenas
    a.builder.count .stmt = 2 ∧ a.items.flatMap (fun id => a.builder.children ⟨.item, id⟩) = [⟨.stmt, 2⟩] := by
  decide +kernel

end Craftlang
