import Craftlang.Diagnostic.Basic
import Craftlang.Tree.Spans

/-!
# Spans in rows

A node of a tree frames what it holds: the spans of the parts that are written in it stand in a row within
its own. `Program.frames` lists every node of a program with the spans it holds, in the order of the
source; a condition that is written below a body comes after it.
-/

namespace Craftlang

/-- A node's span, and the spans of what the node holds itself. -/
structure NodeFrame where
  span : Span
  held : List Span

namespace Span

/-- Spans of a file that are not empty and stand one after the other, from `lo` on and up to `hi`. -/
def Row (f : File) (lo hi : Nat) : List Span → Prop
  | [] => lo ≤ hi
  | x :: xs => x.file = f.id ∧ lo ≤ x.start ∧ x.start < x.stop ∧ Row f x.stop hi xs

namespace Row

variable {f : File} {lo mid hi lo' hi' : Nat} {x z : Span} {xs ys : List Span}

theorem le (h : Row f lo hi xs) : lo ≤ hi := by
  induction xs generalizing lo with
  | nil => exact h
  | cons x xs ih =>
    obtain ⟨-, hlo, hpos, hrest⟩ := h
    have := ih hrest
    omega

theorem mono (h : Row f lo hi xs) (hlo : lo' ≤ lo) (hhi : hi ≤ hi') : Row f lo' hi' xs := by
  induction xs generalizing lo lo' with
  | nil => exact Nat.le_trans hlo (Nat.le_trans h hhi)
  | cons x xs ih => exact ⟨h.1, Nat.le_trans hlo h.2.1, h.2.2.1, ih h.2.2.2 (Nat.le_refl _)⟩

theorem append (h : Row f lo mid xs) (h' : Row f mid hi ys) : Row f lo hi (xs ++ ys) := by
  induction xs generalizing lo with
  | nil => exact h'.mono h (Nat.le_refl _)
  | cons x xs ih => exact ⟨h.1, h.2.1, h.2.2.1, ih h.2.2.2⟩

/-- Some of the spans of a row are a row. -/
theorem sublist (h : Row f lo hi xs) (hsub : ys.Sublist xs) : Row f lo hi ys := by
  induction hsub generalizing lo with
  | slnil => exact h
  | cons x _ ih => exact (ih h.2.2.2).mono (by have := h.2.1; have := h.2.2.1; omega) (Nat.le_refl _)
  | cons_cons x _ ih => exact ⟨h.1, h.2.1, h.2.2.1, ih h.2.2.2⟩

theorem of_mem (h : Row f lo hi xs) (hx : x ∈ xs) : Row f lo hi [x] :=
  h.sublist (List.singleton_sublist.mpr hx)

/-- What a row covers goes from the start of its first span to the end of its last one. -/
theorem hull (h : Row f lo hi xs) (hx : xs.head? = some x) (hz : xs.getLast? = some z) :
    x.cover z = ⟨f.id, x.start, z.stop⟩ ∧ Row f lo hi [x.cover z] ∧ Row f x.start z.stop xs := by
  have hends : z.file = f.id ∧ x.start ≤ z.start ∧ x.stop ≤ z.stop ∧ z.stop ≤ hi ∧
      Row f x.start z.stop xs := by
    induction xs generalizing lo x with
    | nil => cases hx
    | cons y ys ih =>
      obtain rfl : y = x := Option.some.inj hx
      obtain ⟨hfile, hlo, hpos, hrest⟩ := h
      cases ys with
      | nil =>
        obtain rfl : y = z := Option.some.inj hz
        exact ⟨hfile, Nat.le_refl _, Nat.le_refl _, hrest, hfile, Nat.le_refl _, hpos, Nat.le_refl _⟩
      | cons w ws =>
        rw [List.getLast?_cons_cons] at hz
        obtain ⟨hz', hstart, hstop, hhi, hrow⟩ := ih hrest rfl hz
        have hle := hrest.2.1
        have hlt := hrest.2.2.1
        exact ⟨hz', by omega, by omega, hhi, hfile, Nat.le_refl _, hpos, hrow.mono hle (Nat.le_refl _)⟩
  obtain ⟨hfile, hstart, hstop, hhi, hrow⟩ := hends
  have hfirst := hrow.of_mem (List.mem_of_head? hx)
  have hlo := h.of_mem (List.mem_of_head? hx)
  have hcover : x.cover z = ⟨f.id, x.start, z.stop⟩ := by
    rw [cover, if_pos (hfirst.1.trans hfile.symm), hfirst.1, Nat.min_eq_left hstart, Nat.max_eq_right hstop]
  refine ⟨hcover, ?_, hrow⟩
  rw [hcover]
  exact ⟨rfl, hlo.2.1, Nat.lt_of_lt_of_le hlo.2.2.1 hstop, hhi⟩

end Row

end Span

open Craftlang.Span (Row)

/-- The span of a node is not empty and lies in the file, and what the node holds stands in a row in it. -/
structure NodeFrame.Sound (f : File) (fr : NodeFrame) : Prop where
  inFile : Row f 0 f.size [fr.span]
  row : Row f fr.span.start fr.span.stop fr.held

mutual

/-- The frames of an expression and of all below it. The target of an assignment is an expression. -/
def Expr.frames : Expr → List NodeFrame
  | .error n | .constant n _ => [⟨n.span, []⟩]
  | .ident i => [⟨i.node.span, []⟩]
  | .binary n _ opSpan left right =>
    ⟨n.span, [left.span, opSpan, right.span]⟩ :: (left.frames ++ right.frames)
  | .unary n _ operand => ⟨n.span, [operand.span]⟩ :: operand.frames
  | .call n target args =>
    ⟨n.span, target.span :: args.map Expr.span⟩ :: (target.frames ++ Expr.framesOf args)
  | .group n inner => ⟨n.span, [inner.span]⟩ :: inner.frames
  | .assign n _ opSpan target value =>
    ⟨n.span, [target.node.span, opSpan, value.span]⟩ :: ⟨target.node.span, []⟩ :: value.frames

def Expr.framesOf : List Expr → List NodeFrame
  | [] => []
  | e :: es => e.frames ++ Expr.framesOf es

end

/-- The span of what may be missing. -/
def Name.spans? (name : Option Name) : List Span := (name.map (·.span)).toList

def Expr.spans? (e : Option Expr) : List Span := (e.map Expr.span).toList

def Expr.frames? (e : Option Expr) : List NodeFrame := (e.map Expr.frames).getD []

/-- What stands after `else` is held by the branch. -/
def Otherwise.spans : Otherwise → List Span
  | .none => []
  | .block body => [body.span]
  | .chain s => [s.span]

mutual

/-- The frames of a statement and of all below it. -/
def Stmt.frames : Stmt → List NodeFrame
  | .error n | .leave n | .again n | .command n _ => [⟨n.span, []⟩]
  | .var n name type value =>
    ⟨n.span, name.span :: (Name.spans? type ++ Expr.spans? value)⟩ :: Expr.frames? value
  | .expr n e => ⟨n.span, [e.span]⟩ :: e.frames
  | .branch n cond body otherwise =>
    ⟨n.span, cond.span :: body.span :: otherwise.spans⟩ :: (cond.frames ++ body.frames ++ otherwise.frames)
  | .loop n .before cond body => ⟨n.span, [cond.span, body.span]⟩ :: (cond.frames ++ body.frames)
  | .loop n .after cond body => ⟨n.span, [body.span, cond.span]⟩ :: (body.frames ++ cond.frames)
  | .give n value => ⟨n.span, Expr.spans? value⟩ :: Expr.frames? value

def Block.frames : Block → List NodeFrame
  | .mk n stmts => ⟨n.span, stmts.map Stmt.span⟩ :: Stmt.framesOf stmts

def Otherwise.frames : Otherwise → List NodeFrame
  | .none => []
  | .block body => body.frames
  | .chain s => s.frames

def Stmt.framesOf : List Stmt → List NodeFrame
  | [] => []
  | s :: rest => s.frames ++ Stmt.framesOf rest

end

/-- A parameter is its name and its type. -/
def Param.spans (p : Param) : List Span := [p.name.span, p.type.span]

/-- What a function holds: its tags, its name, its parameters with their types, its result and its body. -/
def Function.spans (fn : Function) : List Span :=
  fn.tags.map (·.span) ++ fn.name.span :: (fn.params.flatMap Param.spans ++ Name.spans? fn.result
    ++ [fn.body.span])

/-- The frames of an item and of all below it. -/
def Item.frames : Item → List NodeFrame
  | .error n => [⟨n.span, []⟩]
  | .function fn => ⟨fn.node.span, fn.spans⟩ :: fn.body.frames
  | .typeAlias a => [⟨a.node.span, [a.name.span, a.target.span]⟩]
  | .stmt n s => ⟨n.span, [s.span]⟩ :: s.frames

/-- The frames of all items, statements and expressions of a program. -/
def Program.frames (p : Program) : List NodeFrame := p.items.flatMap Item.frames

/-- What a program holds: its header, and its items. -/
def Program.spans (p : Program) : List Span := (p.header.map (·.span)).toList ++ p.items.map Item.span

/-- Parts of a tree stand in a row, and everything below them is framed. -/
structure Framed (f : File) (lo hi : Nat) (row : List Span) (frames : List NodeFrame) : Prop where
  row : Row f lo hi row
  sound : ∀ fr ∈ frames, fr.Sound f

namespace Framed

variable {f : File} {lo mid hi lo' hi' : Nat} {row row' held : List Span}
  {frames frames' : List NodeFrame}
  {x z : Span}

theorem nil (h : lo ≤ hi) : Framed f lo hi [] [] := ⟨h, fun _ hmem => absurd hmem List.not_mem_nil⟩

theorem mono (h : Framed f lo hi row frames) (hlo : lo' ≤ lo) (hhi : hi ≤ hi') : Framed f lo' hi' row frames :=
  ⟨h.row.mono hlo hhi, h.sound⟩

theorem append (h : Framed f lo mid row frames) (h' : Framed f mid hi row' frames') :
    Framed f lo hi (row ++ row') (frames ++ frames') :=
  ⟨h.row.append h'.row, fun fr hfr => (List.mem_append.mp hfr).elim (h.sound fr) (h'.sound fr)⟩

/-- Spans that are no nodes. -/
theorem of_row (h : Row f lo hi row) : Framed f lo hi row [] := ⟨h, fun _ hmem => absurd hmem List.not_mem_nil⟩

/-- A node that lies between two places with what it holds. -/
theorem frame (h : Row f lo hi [x]) (hsize : hi ≤ f.size) (hheld : Framed f x.start x.stop held frames) :
    Framed f lo hi [x] (⟨x, held⟩ :: frames) := by
  refine ⟨h, fun fr hfr => ?_⟩
  rcases List.mem_cons.mp hfr with rfl | hfr
  · exact ⟨h.mono (Nat.zero_le _) hsize, hheld.row⟩
  · exact hheld.sound fr hfr

/-- A node that holds nothing. -/
theorem leaf (h : Row f lo hi [x]) (hsize : hi ≤ f.size) : Framed f lo hi [x] [⟨x, []⟩] :=
  .frame h hsize (.nil (Nat.le_of_lt h.2.2.1))

/-- A node that covers parts from the first to the last one, and holds some of them. -/
theorem node (h : Framed f lo hi row frames) (hx : row.head? = some x) (hz : row.getLast? = some z)
    (hheld : held.Sublist row) (hsize : hi ≤ f.size) :
    Framed f lo hi [x.cover z] (⟨x.cover z, held⟩ :: frames) := by
  obtain ⟨hcover, hnode, hrow⟩ := h.row.hull hx hz
  refine .frame hnode hsize ⟨?_, h.sound⟩
  rw [hcover]
  exact hrow.sublist hheld

end Framed

namespace Span.Row

variable {f : File} {lo hi : Nat} {x : Span} {xs : List Span}

/-- What stands in a row in a span lies in it. -/
theorem contains (h : Row f x.start x.stop xs) (hfile : x.file = f.id) {y : Span} (hy : y ∈ xs) :
    x.contains y = true := by
  obtain ⟨hy, hlo, -, hhi⟩ := h.of_mem hy
  have hhi : y.stop ≤ x.stop := hhi
  rw [Span.contains, hfile, hy]
  simp [hlo, hhi]

end Span.Row

/-- The names in the head of a function lie in it. -/
theorem Item.headFault?_eq_none {f : File} {i : Item} (h : ∀ fr ∈ i.frames, fr.Sound f) :
    i.headFault? = none := by
  cases i with
  | error | typeAlias | stmt => rfl
  | function fn =>
    obtain ⟨hfile, hrow⟩ := h ⟨fn.node.span, fn.spans⟩ List.mem_cons_self
    rw [Item.headFault?, if_neg, Option.map_eq_none_iff, List.find?_eq_none]
    · intro p hp
      rw [hrow.contains hfile.1]
      · decide
      · refine List.mem_append_right _ (List.mem_cons_of_mem _
          (List.mem_append_left _ (List.mem_append_left _ ?_)))
        exact List.mem_flatMap.mpr ⟨p, hp, List.mem_cons_self⟩
    · rw [hrow.contains hfile.1 (List.mem_append_right _ List.mem_cons_self)]
      decide

/-- Items in a row have no fault. -/
theorem firstItemFault?_eq_none {f : File} {whole : Span} {previous : Nat} {items : List Item}
    (hwhole : whole.file = f.id ∧ whole.start = 0) (h : Row f previous whole.stop (items.map Item.span))
    (hframes : ∀ i ∈ items, ∀ fr ∈ i.frames, fr.Sound f) :
    firstItemFault? f.id whole previous items = none := by
  induction items generalizing previous with
  | nil => rfl
  | cons i is ih =>
    obtain ⟨hfile, hlo, hpos, hrest⟩ := h
    have hinside : whole.contains i.span = true := by
      rw [Span.contains, hwhole.1, hwhole.2, hfile]
      simp [hrest.le]
    have hnone : i.spanFault? f.id whole previous = none := by
      rw [Item.spanFault?, if_neg (Nat.not_le.mpr hpos), if_neg (not_not_intro hfile), hinside,
        Bool.not_true, if_neg Bool.false_ne_true, if_neg (Nat.not_lt.mpr hlo)]
      exact Item.headFault?_eq_none (hframes i List.mem_cons_self)
    rw [firstItemFault?, hnone]
    exact ih hrest fun j hj => hframes j (List.mem_cons_of_mem _ hj)

/-- If a program spans a file that is not empty and what it holds stands in a row, its spans fit. -/
theorem Program.spanFault?_eq_none {p : Program} {f : File} (hspan : p.span = ⟨f.id, 0, f.size⟩)
    (hsize : 0 < f.size) (h : Framed f 0 f.size p.spans p.frames) : p.spanFault? f = none := by
  have hframes : ∀ i ∈ p.items, ∀ fr ∈ i.frames, fr.Sound f := fun i hi fr hfr =>
    h.sound fr (List.mem_flatMap.mpr ⟨i, hi, hfr⟩)
  have hrow := h.row
  rw [Program.spans] at hrow
  rw [Program.spanFault?, hspan]
  dsimp only
  rw [if_neg (Nat.not_le.mpr hsize), if_neg (not_not_intro rfl), if_neg (Nat.lt_irrefl _)]
  cases hp : p.header with
  | none =>
    rw [hp] at hrow
    exact firstItemFault?_eq_none ⟨rfl, rfl⟩ hrow hframes
  | some name =>
    rw [hp] at hrow
    obtain ⟨hfile, hlo, hpos, hrest⟩ := hrow
    have hinside : (⟨f.id, 0, f.size⟩ : Span).contains name.span = true := by
      rw [Span.contains, hfile]
      simp [hrest.le]
    dsimp only
    rw [hinside, Bool.not_true, if_neg Bool.false_ne_true]
    exact firstItemFault?_eq_none ⟨rfl, rfl⟩ hrest hframes

end Craftlang

/-!
## Places in a file

A span is shown in a file if it is a part of its text, an empty part at least. Whoever shows a diagnostic
cuts its spans out of the text: the span of the diagnostic and those of its notes.
-/

namespace Craftlang

/-- A span of the file that starts before it ends, or where it ends, and ends in the text. -/
structure File.Shows (f : File) (x : Span) : Prop where
  file : x.file = f.id
  ordered : x.start ≤ x.stop
  inside : x.stop ≤ f.size

namespace File.Shows

variable {f : File} {x y : Span} {lo hi : Nat}

theorem of_row (h : Span.Row f lo hi [x]) (hsize : hi ≤ f.size) : f.Shows x :=
  ⟨h.1, Nat.le_of_lt h.2.2.1, Nat.le_trans h.2.2.2 hsize⟩

theorem endPoint (h : f.Shows x) : f.Shows x.endPoint := ⟨h.file, Nat.le_refl _, h.inside⟩

/-- Nowhere, which is at the start of the first file. -/
theorem nowhere (hf : f.id = 0) : f.Shows ⟨0, 0, 0⟩ := ⟨hf.symm, Nat.le_refl _, Nat.zero_le _⟩

end File.Shows

/-- A node is shown in a file, and so is what it holds. -/
def NodeFrame.StandsIn (f : File) (fr : NodeFrame) : Prop := ∀ x ∈ fr.span :: fr.held, f.Shows x

theorem NodeFrame.Sound.standsIn {f : File} {fr : NodeFrame} (h : fr.Sound f) : fr.StandsIn f := by
  intro x hx
  rcases List.mem_cons.mp hx with rfl | hx
  · exact .of_row h.inFile (Nat.le_refl _)
  · exact .of_row (h.row.of_mem hx) h.inFile.2.2.2

/-- The places a diagnostic shows: its own and those of its notes. -/
def Diagnostic.spans (d : Diagnostic) : List Span := d.span :: d.notes.map (·.span)

/-- All that a diagnostic shows is shown in a file. -/
def Diagnostic.StandsIn (f : File) (d : Diagnostic) : Prop := ∀ x ∈ d.spans, f.Shows x

theorem Diagnostic.standsIn_of_notes {f : File} {d : Diagnostic} (hspan : f.Shows d.span)
    (hnotes : ∀ n ∈ d.notes, f.Shows n.span) : d.StandsIn f := by
  intro x hx
  rcases List.mem_cons.mp hx with rfl | hx
  · exact hspan
  · obtain ⟨n, hn, rfl⟩ := List.mem_map.mp hx
    exact hnotes n hn

end Craftlang
