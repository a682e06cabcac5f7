import Craftlang.Proofs.Code.Moves

/-!
# The moves of a program

Every piece of a program is walked once, and its code told by the moves that emit it. What emission keeps then
follows from what each move keeps.
-/

namespace Craftlang

namespace Emission

variable {L : Limits} {s : Emission}

/-! ## Expressions -/

mutual

/-- The moves of an expression, and its value. -/
theorem yields_expr {c : EmissionContext} (hA : L.Admit c) (s : Emission) :
    (e : Expr) → Yields L (e.marks c) s (expr c s e)
  | .error _ => by
    rw [expr]
    exact ⟨.stay s, nofun⟩
  | .constant n v => by
    rw [expr]
    exact yields_literal s c n v
  | .ident i => by
    rw [expr]
    exact yields_variablePlace s c _ false
  | .group _ inner => by
    rw [expr]
    exact yields_expr hA s inner
  | .unary n .plus operand => by
    rw [expr]
    exact yields_expr hA s operand
  | .unary n .minus operand => by
    have ho := yields_expr hA s operand
    rw [expr, Expr.marks]
    cases foldConstant c.typing (.unary n .minus operand) with
    | some v => exact yields_constantScore s v
    | none => exact ho.then (yields_negate _ ho.gives)
  | .unary n .not operand => by
    have ho := yields_expr hA s operand
    rw [expr]
    exact ho.then (yields_invert _ ho.gives)
  | .binary n op span left right => by
    rw [expr, Expr.marks]
    split
    · have hl := yields_expr hA (s.joinAt span) left
      have hown := hl.then (yields_ownText _ hl.gives)
      have hr := yields_expr hA ((expr c (s.joinAt span) left).1.ownText (expr c (s.joinAt span) left).2).1 right
      have hboth := hown.moves.trans hr.moves
      have hjoined : (s.joinAt span).joinedAt.isSome = true := by simp [joinAt]
      have hjoin := fun r => yields_join _ (hboth.grows.joined hjoined) (hown.gives.mono hr.moves.grows) r
      exact ⟨(Moves.joinAt s span).trans (hboth.before (hjoin _).moves), (hjoin _).gives⟩
    · have hl := yields_expr hA s left
      have hown := hl.then (yields_ownScore _ hl.gives)
      have hr := yields_expr hA ((expr c s left).1.ownScore (expr c s left).2).1 right
      have happly := yields_applyScores _ op (hown.gives.mono hr.moves.grows) hr.gives
      exact ⟨(hown.moves.trans hr.moves).before happly.moves, happly.gives⟩
  | .call n target args => by
    obtain ⟨hmoves, hgives, hlen⟩ := yields_arguments hA s args
    have hcall := yields_call (arguments c s args).1 hA n (calleeOf c target)
      ((args.head?.map fun e => c.typing.typeOfExpr e.id).getD .invalid) hgives
    rw [hlen] at hcall
    rw [expr, Expr.marks]
    exact hmoves.yields hcall
  | .assign _ op _ i value => by
    have hplace := yields_variablePlace (L := L) s c ((c.resolution.refOf? i.node.id).getD 0) false
    have hv := yields_expr hA (identPlace c s i).1 value
    rw [expr, Expr.marks]
    dsimp only
    split
    · have hstored := moves_store _ c hplace.gives value (fun s => expr c s value) hv
      exact ⟨hplace.moves.behind hstored, hplace.gives.mono hstored.grows⟩
    · rename_i binary hbinary
      have happly := yields_applyScores _ binary (hplace.gives.mono hv.moves.grows) hv.gives
      exact ⟨(hplace.moves.behind hv.moves).before happly.moves, happly.gives⟩

theorem yields_arguments {c : EmissionContext} (hA : L.Admit c) (s : Emission) : (es : List Expr) →
    Moves L (Expr.allMarks c es) s (arguments c s es).1 ∧
      (∀ x ∈ (arguments c s es).2, (arguments c s es).1.Gives L.scores x) ∧
        (arguments c s es).2.length = es.length
  | [] => by
    rw [arguments]
    exact ⟨.stay s, List.forall_mem_nil _, rfl⟩
  | e :: es => by
    have he := yields_expr hA s e
    have hkeep := he.then (yields_keep _ he.gives (es.any Expr.hasEffects))
    obtain ⟨hmoves, hgives, hlen⟩ := yields_arguments hA _ es
    rw [arguments]
    refine ⟨hkeep.moves.trans hmoves, List.forall_mem_cons.mpr ⟨?_, hgives⟩, congrArg Nat.succ hlen⟩
    exact hkeep.gives.mono hmoves.grows

end

/-! ## Statements -/

mutual

/-- The moves of a statement. -/
theorem moves_stmt {c : EmissionContext} {L : Limits} (hA : L.Admit c) (s : Emission) : (st : Stmt) →
    (∀ v ∈ st.texts, L.texts v) → Moves L (st.roots.flatMap (Expr.marks c)) s (stmt c s st)
  | .error _, _ => by
    rw [stmt]
    exact .stay s
  | .leave _, _ | .again _, _ => by
    rw [stmt]
    exact moves_raise s _
  | .command _ text, ht => by
    rw [stmt]
    exact moves_emit s (.raw (ht text (List.mem_singleton_self _)))
  | .var n _ _ value, _ => by
    have hplace := yields_variablePlace (L := L) s c ((c.resolution.declOf? n.id).getD 0) false
    rw [stmt]
    dsimp only
    cases value with
    | some e =>
      have he := yields_expr hA (variablePlace c s ((c.resolution.declOf? n.id).getD 0)).1 e
      rw [Stmt.roots, Option.toList_some, List.flatMap_singleton]
      exact hplace.moves.behind (moves_store _ c hplace.gives e (fun s => expr c s e) he)
    | none => exact hplace.moves.before (moves_setDefault _ hplace.gives)
  | .expr _ e, _ => by
    rw [stmt, Stmt.roots, List.flatMap_singleton]
    exact (yields_expr hA s e).moves
  | .branch _ cond body otherwise, ht => by
    obtain ⟨htbody, htother⟩ := List.forall_mem_append.mp ht
    have hc := yields_expr hA s cond
    have hbranches : ∀ tested : Emission × Operand, Yields L (cond.marks c) s tested →
        Moves L (cond.marks c ++ (body.roots.flatMap (Expr.marks c) ++ otherwise.roots.flatMap (Expr.marks c))) s
          (alternative c ((tested.1.newPiece.1.callIf tested.2 1 tested.1.newPiece.2).inPiece
            tested.1.newPiece.2 fun s => block c s body) tested.2 otherwise) := by
      intro tested h
      have hbody := moves_pieceIf _ h.gives 1 fun t => moves_block (hA.opening _) t body htbody
      exact h.moves.trans (hbody.trans (moves_alternative hA _ (h.gives.mono hbody.grows) otherwise htother))
    rw [stmt, Stmt.roots, List.flatMap_cons, List.flatMap_append]
    dsimp only
    cases hasOtherwise otherwise with
    | true => exact hbranches _ (hc.then (yields_ownScore _ hc.gives))
    | false => exact hbranches _ hc
  | .loop _ .before cond body, ht => by
    rw [stmt, Stmt.roots, List.flatMap_cons]
    refine (moves_piece s (.call (L.opened _)) fun t => ?_).before (moves_consume _ _ _)
    have hc := yields_expr (hA.opening s.newPiece.2) t cond
    refine hc.moves.trans (moves_pieceIf _ hc.gives 1 fun u => ?_)
    -- the head of the loop may still be called in the piece for its body
    have hbody := moves_block ((hA.opening s.newPiece.2).opening (expr c t cond).1.newPiece.2) u body ht
    exact (hbody.before (moves_consume _ _ _)).before (moves_callUnlessPending _ _ (.inl (L.opened _)))
  | .loop _ .after cond body, ht => by
    have hcheck : ∀ {L' : Limits}, L'.Admit c → L'.functions s.newPiece.2 → ∀ t : Emission,
        Moves L' (cond.marks c) t ((expr c t cond).1.callIf (expr c t cond).2 1 s.newPiece.2) := fun hA' hp t =>
      have hc := yields_expr hA' t cond
      hc.moves.before (moves_callIf _ hc.gives 1 hp)
    rw [stmt, Stmt.roots, List.flatMap_append, List.flatMap_singleton]
    refine (moves_piece s (.call (L.opened _)) fun t => ?_).before (moves_consume _ _ _)
    have hbody := (moves_block (hA.opening s.newPiece.2) t body ht).before (moves_consume _ .again body.mayRepeat)
    dsimp only
    split
    · have hround := (hA.opening s.newPiece.2).opening ((block c t body).consume .again body.mayRepeat).newPiece.2
      exact hbody.trans (moves_piece _ (fits_isPending _ .none (Limits.opened _ _))
        (hcheck hround (.inl (L.opened _))))
    · exact hbody.trans (hcheck (hA.opening _) (L.opened _) _)
  | .give _ value, _ => by
    cases value with
    | none =>
      rw [stmt]
      exact moves_raise s .give
    | some e =>
      have he := yields_expr hA s e
      rw [stmt, Stmt.roots, Option.toList_some, List.flatMap_singleton]
      exact (he.moves.before (moves_giveBack _ he.gives)).before (moves_raise _ .give)

theorem moves_block {c : EmissionContext} {L : Limits} (hA : L.Admit c) (s : Emission) : (b : Block) →
    (∀ v ∈ b.texts, L.texts v) → Moves L (b.roots.flatMap (Expr.marks c)) s (block c s b)
  | .mk _ ss, ht => by
    rw [block]
    exact moves_stmts hA s ss ht

theorem moves_stmts {c : EmissionContext} {L : Limits} (hA : L.Admit c) (s : Emission) : (ss : List Stmt) →
    (∀ v ∈ Stmt.allTexts ss, L.texts v) → Moves L ((Stmt.allRoots ss).flatMap (Expr.marks c)) s (stmts c s ss)
  | [], _ => by
    rw [stmts]
    exact .stay s
  | first :: rest, ht => by
    obtain ⟨htfirst, htrest⟩ := List.forall_mem_append.mp ht
    have hf := moves_stmt hA s first htfirst
    rw [stmts, Stmt.allRoots, List.flatMap_append]
    dsimp only
    cases hj : first.isJump with
    | true =>
      rw [if_pos rfl, Bool.true_or, if_pos rfl]
      exact hf.trans (.stay _)
    | false =>
      rw [if_neg Bool.false_ne_true]
      split
      · rename_i hrest
        obtain rfl : rest = [] := by simpa using hrest
        exact hf.trans (.stay _)
      · split
        · exact hf.trans (moves_piece _ (fits_isPending _ .none (L.opened _)) fun t =>
            moves_stmts (hA.opening _) t rest htrest)
        · exact hf.trans (moves_stmts hA _ rest htrest)

theorem moves_alternative {c : EmissionContext} {L : Limits} (hA : L.Admit c) (s : Emission) {x : Operand}
    (hx : s.Gives L.scores x) : (o : Otherwise) → (∀ v ∈ o.texts, L.texts v) →
    Moves L (o.roots.flatMap (Expr.marks c)) s (alternative c s x o)
  | .none, _ => by
    rw [alternative]
    exact .stay s
  | .block body, ht => by
    rw [alternative]
    exact moves_pieceIf s hx 0 fun t => moves_block (hA.opening _) t body ht
  | .chain other, ht => by
    rw [alternative]
    exact moves_pieceIf s hx 0 fun t => moves_stmt (hA.opening _) t other ht

end

/-- Parameters are taken from arguments that may be named. -/
theorem moves_takeParams (c : EmissionContext) (s : Emission) (place : Nat) (params : List Nat)
    (h : ∀ i < params.length, L.scores ⟨.machine, .argument (place + i)⟩) :
    Moves L [] s (takeParams c s place params) := by
  induction params generalizing s place with
  | nil => exact .stay s
  | cons param params ih =>
    have hplace := yields_variablePlace (L := L) s c param false
    have hrest : ∀ i < params.length, L.scores ⟨.machine, .argument (place + 1 + i)⟩ := fun i hi => by
      rw [Nat.add_assoc, Nat.add_comm 1]
      exact h (i + 1) (Nat.succ_lt_succ hi)
    rw [takeParams]
    refine (hplace.moves.before ?_).before (ih _ _ hrest)
    split
    · rename_i t ht
      exact moves_emit _ (.operate (hplace.gives t (congrArg some ht)) _ (.allowed (h 0 (Nat.succ_pos _))))
    · exact moves_emit _ (.copyText _ _)

/-! ## Growth -/

section

variable (s)

theorem grows_ownScore (x : Operand) : s.Grows (s.ownScore x).1 := (yields_ownScore s (gives_free s x)).moves.grows

theorem grows_ownText (x : Operand) : s.Grows (s.ownText x).1 := (yields_ownText s (gives_free s x)).moves.grows

theorem grows_keep (x : Operand) (b : Bool) : s.Grows (if b then s.own x else (s, x)).1 :=
  (yields_keep s (gives_free s x) b).moves.grows

theorem grows_variablePlace (c : EmissionContext) (y : Nat) : s.Grows (variablePlace c s y).1 :=
  (yields_variablePlace (L := .free) s c y false).moves.grows

theorem grows_negate (x : Operand) : s.Grows (s.negate x).1 := (yields_negate s (gives_free s x)).moves.grows

theorem grows_invert (x : Operand) : s.Grows (s.invert x).1 := (yields_invert s (gives_free s x)).moves.grows

theorem grows_applyScores (op : BinaryOp) (l r : Operand) : s.Grows (s.applyScores op l r).1 :=
  (yields_applyScores s op (gives_free s l) (gives_free s r)).moves.grows

theorem grows_join (l r : Operand) : s.Grows (s.join l r).1 :=
  ((moves_textOf (L := .free) s l).before (moves_textOf _ r)).grows.trans (grows_emitAll _ _)

theorem grows_passArguments (place : Nat) (xs : List Operand) : s.Grows (s.passArguments place xs) := by
  induction xs generalizing s place with
  | nil => exact .refl s
  | cons x xs ih =>
    rw [passArguments]
    refine Grows.trans ?_ (ih _ _)
    split
    · exact grows_emit s _
    · exact grows_emit s _
    · exact .refl s

theorem grows_call (c : EmissionContext) (n : Node) (y : Nat) (ty : Ty) (xs : List Operand) :
    s.Grows (call c s n y ty xs).1 :=
  (yields_call s (Limits.free_admit c) n y ty fun x _ => gives_free s x).moves.grows

theorem grows_callIf (x : Operand) (value : Nat) (piece : FunctionName) : s.Grows (s.callIf x value piece) :=
  (moves_callIf s (gives_free s x) value trivial).grows

theorem grows_consume (signal : Signal) (raised : Bool) : s.Grows (s.consume signal raised) :=
  (moves_consume (L := .free) s signal raised).grows

theorem grows_giveBack (x : Operand) : s.Grows (s.giveBack x) := (moves_giveBack s (gives_free s x)).grows

theorem grows_setDefault (l : Location) : s.Grows (s.setDefault l) :=
  (moves_setDefault s (gives_free s ⟨some l, false⟩)).grows

end

section

variable (c : EmissionContext) (s : Emission)

theorem expr_grows (e : Expr) : s.Grows (expr c s e).1 := (yields_expr (Limits.free_admit c) s e).moves.grows

theorem arguments_grows (es : List Expr) : s.Grows (arguments c s es).1 :=
  (yields_arguments (Limits.free_admit c) s es).1.grows

theorem grows_store (target : Location) (e : Expr) : s.Grows (store c s target e fun s => expr c s e) :=
  (moves_store s c (gives_free s ⟨some target, false⟩) e _ (yields_expr (Limits.free_admit c) s e)).grows

theorem stmt_grows (st : Stmt) : s.Grows (stmt c s st) :=
  (moves_stmt (Limits.free_admit c) s st fun _ _ => trivial).grows

theorem block_grows (b : Block) : s.Grows (block c s b) :=
  (moves_block (Limits.free_admit c) s b fun _ _ => trivial).grows

theorem stmts_grows (ss : List Stmt) : s.Grows (stmts c s ss) :=
  (moves_stmts (Limits.free_admit c) s ss fun _ _ => trivial).grows

theorem alternative_grows (x : Operand) (o : Otherwise) : s.Grows (alternative c s x o) :=
  (moves_alternative (Limits.free_admit c) s (gives_free s x) o fun _ _ => trivial).grows

theorem grows_takeParam (l : Location) (place : Nat) :
    s.Grows (match l with
      | .score target => s.emit (.operate target .copy ⟨.machine, .argument place⟩)
      | .text target => s.emit (.copyText target (.argument place))) := by
  cases l <;> exact grows_emit s _

theorem grows_takeParams (place : Nat) (params : List Nat) : s.Grows (takeParams c s place params) :=
  (moves_takeParams (L := .free) c s place params fun _ _ => trivial).grows

end

/-- A piece that is called if a boolean has a value. -/
theorem grows_pieceIf (s : Emission) (x : Operand) (value : Nat) {body : Emission → Emission}
    (h : ∀ t : Emission, t.Grows (body t)) :
    s.Grows ((s.newPiece.1.callIf x value s.newPiece.2).inPiece s.newPiece.2 body) := by
  have hpiece : s.newPiece.2 = (s.scoreOf x).1.newPiece.2 := piece_scoreOf s x
  rw [callIf_newPiece, hpiece]
  exact (moves_scoreOf (L := .free) s x).grows.trans (.piece _ _ (h _))

end Emission

end Craftlang
