import Craftlang.Proofs.Code.Program
import Craftlang.Proofs.Tree.Frames
import Craftlang.Proofs.Scope.Functions

/-!
# Where code remembers joins and literals

What becomes code stands in the tree. So where strings are joined first, and where the literals stand that
cannot be joined, is shown in the file that the tree was read from.
-/

namespace Craftlang

namespace Emission

/-- Emitting code for expressions remembers the first join and the quoted literals among them. -/
structure Sees (es : List Expr) (s s' : Emission) : Prop where
  joins : s'.joinedAt = s.joinedAt.or (es.findSome? Expr.joinAt?)
  quotes : s'.quoted = s.quoted ++ es.filterMap Expr.quotedAt?

namespace Sees

variable {es fs : List Expr} {s s' s'' : Emission}

theorem trans (h : Sees es s s') (h' : Sees fs s' s'') : Sees (es ++ fs) s s'' := by
  refine ⟨?_, ?_⟩
  · rw [h'.joins, h.joins, List.findSome?_append, Option.or_assoc]
  · rw [h'.quotes, h.quotes, List.filterMap_append, List.append_assoc]

theorem isSome_joinedAt (h : Sees es s s') :
    s'.joinedAt.isSome = (s.joinedAt.isSome || es.any Expr.isJoin) := by
  rw [h.joins, Option.isSome_or, List.isSome_findSome?]
  simp only [Expr.isSome_joinAt?]

theorem isEmpty_quoted (h : Sees es s s') :
    s'.quoted.isEmpty = (s.quoted.isEmpty && !es.any Expr.isQuoted) := by
  have hquoted : (es.filterMap Expr.quotedAt?).isEmpty = !es.any Expr.isQuoted := by
    clear h
    induction es with
    | nil => rfl
    | cons e es ih =>
      rw [List.any_cons, ← Expr.isSome_quotedAt?, List.filterMap_cons]
      cases e.quotedAt? with
      | none => exact ih
      | some x => rfl
  rw [h.quotes]
  cases s.quoted with
  | nil => exact hquoted
  | cons x xs => rfl

end Sees

/-- Code remembers what its marks say. -/
theorem Moves.remembers {L : Limits} {ms : List Mark} {s s' : Emission} (h : Moves L ms s s') :
    s'.joinedAt = s.joinedAt.or (ms.findSome? Mark.joinAt?) ∧ s'.quoted = s.quoted ++ ms.filterMap Mark.quotedAt? := by
  have hnothing : ∀ t : Emission, t.joinedAt = t.joinedAt.or none ∧ t.quoted = t.quoted ++ [] := fun t =>
    ⟨Option.or_none.symm, (List.append_nil _).symm⟩
  induction h with
  | stay s | fail s | newSlot s | commands s | number s | pass s => exact hnothing s
  | slotOf s y =>
    obtain ⟨slots, lastSlot, heq⟩ := slotOf_eq s y
    rw [heq]
    exact hnothing s
  | globalOf s y name isScore =>
    obtain ⟨globals, heq⟩ := globalOf_eq s y name isScore
    rw [heq]
    exact hnothing s
  | text s p value span =>
    unfold setText
    dsimp only
    rw [List.filterMap_cons, Mark.quotedAt?]
    split
    · exact ⟨Option.or_none.symm, rfl⟩
    · exact hnothing s
  | joinAt s span => exact ⟨rfl, (List.append_nil _).symm⟩
  | piece s _ _ ih => exact ih
  | trans _ _ ih ih' =>
    refine ⟨?_, ?_⟩
    · rw [ih'.1, ih.1, List.findSome?_append, Option.or_assoc]
    · rw [ih'.2, ih.2, List.filterMap_append, List.append_assoc]

theorem sees_function (c : EmissionContext) (s : Emission) (name : Bytes) (params : List Nat)
    (body : List Stmt) : Sees (Stmt.allLowered body) s (function c s name params body) := by
  obtain ⟨hjoins, hquotes⟩ :=
    (moves_function (Limits.free_admit c) s name params (fun _ _ => trivial) body fun _ _ => trivial).remembers
  have hleaves := Leaves.flatMap c (Stmt.allRoots body)
  rw [← Stmt.allLowered_eq] at hleaves
  rw [hleaves.joins] at hjoins
  rw [hleaves.quotes] at hquotes
  exact ⟨hjoins, hquotes⟩

theorem sees_declaredFunctions (c : EmissionContext) {fs : List Function}
    (h : ∀ f ∈ fs, (c.typing.functionOfItem? f.node.id).isSome = true) (s : Emission) :
    Sees (fs.flatMap fun f => Stmt.allLowered f.body.stmts) s
      (fs.foldl (declaredFunction c) s) := by
  induction fs generalizing s with
  | nil => exact ⟨(Option.or_none).symm, (List.append_nil _).symm⟩
  | cons f fs ih =>
    rw [List.forall_mem_cons] at h
    obtain ⟨info, hinfo⟩ := Option.isSome_iff_exists.mp h.1
    have hf : Sees (Stmt.allLowered f.body.stmts) s (declaredFunction c s f) := by
      rw [declaredFunction, hinfo]
      exact sees_function c s _ _ _
    rw [List.flatMap_cons]
    exact hf.trans (ih h.2 _)

end Emission

open Emission

/-- The code of a program joins strings first where what becomes code does, and holds its literals that
cannot be joined. -/
theorem Program.sees_emit {p : Program} (r : Resolution) {t : Typing}
    (h : ∀ f ∈ p.functions, (t.functionOfItem? f.node.id).isSome = true) :
    Sees p.lowered {} (p.emit r t) :=
  (sees_function ⟨r, t⟩ {} ResourceName.entry [] p.topLevel).trans
    (sees_declaredFunctions ⟨r, t⟩ h _)

variable {part : Expr}

mutual

/-- What becomes code of an expression stands in it, with all below. -/
theorem Expr.frames_subset_of_mem_lowered : (e : Expr) → part ∈ e.lowered → part.frames ⊆ e.frames
  | .error _, h | .constant .., h | .ident _, h => by
    rw [List.mem_singleton.mp h]
    exact List.Subset.refl _
  | .group _ inner, h => by
    rcases List.mem_cons.mp h with rfl | h
    · exact List.Subset.refl _
    · exact List.subset_cons_of_subset _ (Expr.frames_subset_of_mem_lowered inner h)
  | .unary _ _ operand, h => by
    rcases List.mem_cons.mp h with rfl | h
    · exact List.Subset.refl _
    · exact List.subset_cons_of_subset _ (Expr.frames_subset_of_mem_lowered operand h)
  | .binary _ _ _ left right, h => by
    rcases List.mem_cons.mp h with rfl | h
    · exact List.Subset.refl _
    · refine List.subset_cons_of_subset _ ?_
      rcases List.mem_append.mp h with h | h
      · exact List.subset_append_of_subset_left _ (Expr.frames_subset_of_mem_lowered left h)
      · exact List.subset_append_of_subset_right _ (Expr.frames_subset_of_mem_lowered right h)
  | .call _ target args, h => by
    rcases List.mem_cons.mp h with rfl | h
    · exact List.Subset.refl _
    · exact List.subset_cons_of_subset _ (List.subset_append_of_subset_right _
        (Expr.frames_subset_of_mem_allLowered args h))
  | .assign _ _ _ _ value, h => by
    rcases List.mem_cons.mp h with rfl | h
    · exact List.Subset.refl _
    · exact List.subset_cons_of_subset _ (List.subset_cons_of_subset _
        (Expr.frames_subset_of_mem_lowered value h))

theorem Expr.frames_subset_of_mem_allLowered : (es : List Expr) → part ∈ Expr.allLowered es →
    part.frames ⊆ Expr.framesOf es
  | [], h => absurd h List.not_mem_nil
  | e :: es, h => by
    rw [Expr.allLowered, List.mem_append] at h
    rcases h with h | h
    · exact List.subset_append_of_subset_left _ (Expr.frames_subset_of_mem_lowered e h)
    · exact List.subset_append_of_subset_right _ (Expr.frames_subset_of_mem_allLowered es h)

end

theorem Expr.frames_subset_of_mem_maybeLowered {value : Option Expr} (h : part ∈ Expr.maybeLowered value) :
    part.frames ⊆ Expr.frames? value := by
  cases value with
  | none => exact absurd h List.not_mem_nil
  | some e => exact Expr.frames_subset_of_mem_lowered e h

mutual

theorem Stmt.frames_subset_of_mem_lowered : (s : Stmt) → part ∈ s.lowered → part.frames ⊆ s.frames
  | .error _, h | .leave _, h | .again _, h | .command .., h => absurd h List.not_mem_nil
  | .var _ _ _ value, h | .give _ value, h =>
    List.subset_cons_of_subset _ (Expr.frames_subset_of_mem_maybeLowered h)
  | .expr _ e, h => List.subset_cons_of_subset _ (Expr.frames_subset_of_mem_lowered e h)
  | .branch _ cond body otherwise, h => by
    rw [Stmt.lowered, List.mem_append, List.mem_append] at h
    rw [Stmt.frames, List.append_assoc]
    refine List.subset_cons_of_subset _ ?_
    rcases h with h | h | h
    · exact List.subset_append_of_subset_left _ (Expr.frames_subset_of_mem_lowered cond h)
    · exact List.subset_append_of_subset_right _
        (List.subset_append_of_subset_left _ (body.frames_subset_of_mem_lowered h))
    · exact List.subset_append_of_subset_right _
        (List.subset_append_of_subset_right _ (otherwise.frames_subset_of_mem_lowered h))
  | .loop _ .before cond body, h => by
    rw [Stmt.lowered, List.mem_append] at h
    refine List.subset_cons_of_subset _ ?_
    rcases h with h | h
    · exact List.subset_append_of_subset_left _ (Expr.frames_subset_of_mem_lowered cond h)
    · exact List.subset_append_of_subset_right _ (body.frames_subset_of_mem_lowered h)
  | .loop _ .after cond body, h => by
    rw [Stmt.lowered, List.mem_append] at h
    refine List.subset_cons_of_subset _ ?_
    rcases h with h | h
    · exact List.subset_append_of_subset_left _ (body.frames_subset_of_mem_lowered h)
    · exact List.subset_append_of_subset_right _ (Expr.frames_subset_of_mem_lowered cond h)

theorem Block.frames_subset_of_mem_lowered : (b : Block) → part ∈ b.lowered → part.frames ⊆ b.frames
  | .mk _ stmts, h => List.subset_cons_of_subset _ (Stmt.frames_subset_of_mem_allLowered stmts h)

theorem Stmt.frames_subset_of_mem_allLowered : (ss : List Stmt) → part ∈ Stmt.allLowered ss →
    part.frames ⊆ Stmt.framesOf ss
  | [], h => absurd h List.not_mem_nil
  | s :: rest, h => by
    rw [Stmt.allLowered, List.mem_append] at h
    rcases h with h | h
    · exact List.subset_append_of_subset_left _ (s.frames_subset_of_mem_lowered h)
    · split at h
      · exact absurd h List.not_mem_nil
      · exact List.subset_append_of_subset_right _ (Stmt.frames_subset_of_mem_allLowered rest h)

theorem Otherwise.frames_subset_of_mem_lowered : (o : Otherwise) → part ∈ o.lowered →
    part.frames ⊆ o.frames
  | .none, h => absurd h List.not_mem_nil
  | .block body, h => body.frames_subset_of_mem_lowered h
  | .chain s, h => s.frames_subset_of_mem_lowered h

end

theorem Stmt.mem_framesOf {fr : NodeFrame} {ss : List Stmt} :
    fr ∈ Stmt.framesOf ss ↔ ∃ s ∈ ss, fr ∈ s.frames := by
  induction ss with
  | nil => simp [Stmt.framesOf]
  | cons s rest ih => rw [Stmt.framesOf, List.mem_append, ih, List.exists_mem_cons_iff]

theorem Program.mem_topLevel {p : Program} {s : Stmt} : s ∈ p.topLevel ↔ ∃ n, Item.stmt n s ∈ p.items := by
  rw [topLevel, List.mem_filterMap]
  constructor
  · rintro ⟨i, hi, heq⟩
    cases i with
    | stmt n s =>
      cases heq
      exact ⟨n, hi⟩
    | _ => cases heq
  · rintro ⟨n, hi⟩
    exact ⟨_, hi, rfl⟩

/-- An expression joins at its operator, which it holds. -/
theorem Expr.shows_joinAt? {g : File} {e : Expr} (h : ∀ fr ∈ e.frames, fr.StandsIn g) {x : Span}
    (hx : e.joinAt? = some x) : g.Shows x := by
  cases e with
  | binary n op span left right =>
    rw [joinAt?] at hx
    split at hx
    · obtain rfl := Option.some.inj hx
      exact h _ List.mem_cons_self _ (by simp)
    · cases hx
  | _ => cases hx

theorem Expr.shows_quotedAt? {g : File} {e : Expr} (h : ∀ fr ∈ e.frames, fr.StandsIn g) {x : Span}
    (hx : e.quotedAt? = some x) : g.Shows x := by
  rw [quotedAt?] at hx
  split at hx
  · rename_i hq
    obtain rfl := Option.some.inj hx
    cases e with
    | constant n v => exact h _ List.mem_cons_self _ List.mem_cons_self
    | _ => cases hq
  · cases hx

namespace Emission

/-- What code remembers is shown in a file. -/
structure StandsIn (g : File) (s : Emission) : Prop where
  joinedAt : ∀ x, s.joinedAt = some x → g.Shows x
  quoted : ∀ x ∈ s.quoted, g.Shows x

variable {g : File} {s s' : Emission}

/-- It stays so while code is emitted for what stands in the file. -/
theorem StandsIn.sees {es : List Expr} (hs : s.StandsIn g) (h : Sees es s s')
    (hes : ∀ e ∈ es, ∀ fr ∈ e.frames, fr.StandsIn g) : s'.StandsIn g := by
  refine ⟨fun x hx => ?_, fun x hx => ?_⟩
  · rw [h.joins, Option.or_eq_some_iff] at hx
    rcases hx with hx | ⟨-, hx⟩
    · exact hs.joinedAt x hx
    · obtain ⟨e, he, hx⟩ := List.exists_of_findSome?_eq_some hx
      exact Expr.shows_joinAt? (hes e he) hx
  · rw [h.quotes] at hx
    rcases List.mem_append.mp hx with hx | hx
    · exact hs.quoted x hx
    · obtain ⟨e, he, hx⟩ := List.mem_filterMap.mp hx
      exact Expr.shows_quotedAt? (hes e he) hx

theorem StandsIn.function (hs : s.StandsIn g) (c : EmissionContext) (name : Bytes) (params : List Nat)
    {body : List Stmt} (h : ∀ fr ∈ Stmt.framesOf body, fr.StandsIn g) :
    (function c s name params body).StandsIn g :=
  hs.sees (sees_function c s name params body) fun _ he fr hfr =>
    h fr (Stmt.frames_subset_of_mem_allLowered body he hfr)

theorem StandsIn.declaredFunction (hs : s.StandsIn g) (c : EmissionContext) {f : Function}
    (h : ∀ fr ∈ f.body.frames, fr.StandsIn g) : (declaredFunction c s f).StandsIn g := by
  have hbody : ∀ fr ∈ Stmt.framesOf f.body.stmts, fr.StandsIn g := by
    cases hb : f.body with
    | mk n body =>
      rw [hb, Block.frames, List.forall_mem_cons] at h
      exact h.2
  unfold Emission.declaredFunction
  split
  · exact hs
  · exact hs.function c _ _ hbody

end Emission

/-- Code for a program that stands in a file remembers places in that file. -/
theorem Program.emit_standsIn {p : Program} {g : File} (h : ∀ fr ∈ p.frames, fr.StandsIn g) (r : Resolution)
    (t : Typing) : (p.emit r t).StandsIn g := by
  have hitems : ∀ i ∈ p.items, ∀ fr ∈ i.frames, fr.StandsIn g := fun i hi fr hfr =>
    h fr (List.mem_flatMap.mpr ⟨i, hi, hfr⟩)
  have htop : ∀ fr ∈ Stmt.framesOf p.topLevel, fr.StandsIn g := by
    intro fr hfr
    obtain ⟨s, hs, hfr⟩ := Stmt.mem_framesOf.mp hfr
    obtain ⟨n, hi⟩ := Program.mem_topLevel.mp hs
    exact hitems _ hi fr (List.mem_cons_of_mem _ hfr)
  have hbody : ∀ f ∈ p.functions, ∀ fr ∈ f.body.frames, fr.StandsIn g := fun f hf fr hfr =>
    hitems _ (Item.mem_functionsOf.mp hf) fr (List.mem_cons_of_mem _ hfr)
  have hall : ∀ fs : List Function, (∀ f ∈ fs, ∀ fr ∈ f.body.frames, fr.StandsIn g) →
      ∀ s : Emission, s.StandsIn g → (fs.foldl (Emission.declaredFunction ⟨r, t⟩) s).StandsIn g := by
    intro fs
    induction fs with
    | nil => exact fun _ s hs => hs
    | cons f fs ih =>
      intro hfs s hs
      rw [List.forall_mem_cons] at hfs
      exact ih hfs.2 _ (hs.declaredFunction ⟨r, t⟩ hfs.1)
  have hstart : ({} : Emission).StandsIn g := ⟨nofun, nofun⟩
  exact hall p.functions hbody _ (hstart.function ⟨r, t⟩ ResourceName.entry [] htop)

end Craftlang
