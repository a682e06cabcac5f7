import Craftlang.Proofs.Refinement.Piece

/-!
# Code of statements does what they do

A statement goes on to the next one or ends in another way, and its code ends with the signal that stands
for that. By induction on the fuel of evaluation, together with expressions and calls: whatever is
evaluated, its code does.
-/

namespace Craftlang

open Machine Emission

/-- A variable that is declared without a value holds zero or no text. -/
theorem Value.cell_of_default? {ty : Ty} {v : Value} (h : Value.default? ty = some v) :
    v.cell = if ty.isScore then .number 0 else .text [] := by
  cases ty <;> cases h <;> rfl

section

variable {p : Program} {fuel : Nat} {t : Layout} {s : Emission} {w w' : World} {m : Machine}
  {result : Option Ty} {b : Bool} {ending : Ending}

/-- A statement that goes on and hands nothing back. -/
theorem Layout.Reaches.performs {s' : Emission} {m' : Machine}
    (h : t.Reaches s.lastSlot s s' w' .none m m') : t.Performs s s' w' .next m m' :=
  ⟨⟨_, rfl, h⟩, .none _⟩

theorem var_refines (ih : Refines p fuel) (hs : t.Starts p s w m) {n : Node} {name : Name}
    {type : Option Name} {value : Option Expr} (hst : Stmt.Typed t.context result b (.var n name type value))
    (heval : Evaluation.stmt p t.context (fuel + 1) w (.var n name type value) = .ok (w', ending))
    (hlinks : t.Links (stmt t.context s (.var n name type value))) :
    ∃ m', t.Performs s (stmt t.context s (.var n name type value)) w' ending m m' := by
  have ht := hs.hosts.sound
  cases hst with
  | var hd hv htype =>
    rename_i y
    rw [stmt] at hlinks ⊢
    rw [hd, Option.getD_some] at hlinks ⊢
    dsimp only at hlinks ⊢
    have hgrows := grows_variablePlace s t.context y
    have hs₁ : t.Starts p (variablePlace t.context s y).1 w m := hs.after hgrows hs.typed hs.agrees
    cases htype with
    | some he =>
      rename_i e
      obtain ⟨w₁, u, hu, rfl, rfl⟩ := Evaluation.stmt_var heval
      rw [hd, Option.getD_some]
      have hplace := (hlinks.before (grows_store t.context _ _ e)).variablePlace
      obtain ⟨m₁, hm₁⟩ := hs.agrees.store ht he hu (type_of_expr hs he hu) hplace hlinks
        fun hlinks => ih.expr hs₁ he hu hlinks
      exact ⟨m₁, ((hs.agrees.reaches (commands_variablePlace ..)).trans
        (hm₁.mono hgrows.lastSlot)).performs⟩
    | none =>
      obtain ⟨u, hu, rfl, rfl⟩ := Evaluation.stmt_var_default heval
      rw [hd, Option.getD_some] at hu ⊢
      dsimp only at hlinks ⊢
      have hplace := (hlinks.before (grows_setDefault _ _)).variablePlace
      have hholds := ht.holds hplace
      have hreached : t.Reaches s.lastSlot s (variablePlace t.context s y).1 w .none m m :=
        hs.agrees.reaches (commands_variablePlace ..)
      generalize variablePlace t.context s y = placed at hplace hholds hreached ⊢
      obtain ⟨s₁, l⟩ := placed
      cases l with
      | score target =>
        obtain ⟨m₁, hruns, hupdate⟩ := hs.agrees.inCall.runs_set t.code (ht.isData hplace) 0
        have hcell : u.cell = .number (Word.wrap 0) :=
          (Value.cell_of_default? hu).trans (if_pos hholds)
        rw [← hcell] at hupdate
        exact ⟨m₁, (hreached.write ht rfl hruns hplace hupdate).performs⟩
      | text target =>
        obtain ⟨m₁, hruns, hupdate⟩ := hs.agrees.inCall.runs_setText t.code target []
        have hcell : u.cell = .text (Bytes.withoutReturns []) :=
          (Value.cell_of_default? hu).trans (if_neg (Bool.eq_false_iff.mp hholds))
        rw [← hcell] at hupdate
        exact ⟨m₁, (hreached.write ht rfl hruns hplace hupdate).performs⟩

theorem expr_stmt_refines (ih : Refines p fuel) (hs : t.Starts p s w m) {n : Node} {e : Expr}
    (hst : Stmt.Typed t.context result b (.expr n e))
    (heval : Evaluation.stmt p t.context (fuel + 1) w (.expr n e) = .ok (w', ending))
    (hlinks : t.Links (stmt t.context s (.expr n e))) :
    ∃ m', t.Performs s (stmt t.context s (.expr n e)) w' ending m m' := by
  cases hst with
  | expr he =>
    obtain ⟨v, hv, rfl⟩ := Evaluation.stmt_expr heval
    rw [stmt] at hlinks ⊢
    obtain ⟨m₁, hm₁⟩ := ih.expr hs he hv hlinks
    exact ⟨m₁, hm₁.reaches.performs⟩

/-- What follows `else` is passed by when the condition held. -/
theorem alternative_skipped {g : Signal} {low high d : Nat} {x : Operand} {o : Otherwise}
    (h : t.Agrees w g m) (hx : hasOtherwise o = true → t.Carries w m low high x (.bool true)) :
    t.Reaches d s (alternative t.context s x o) w g m m := by
  cases o with
  | none =>
    rw [alternative]
    exact h.reaches rfl
  | block body =>
    obtain ⟨score, hscore, -, htest⟩ := (hx rfl).exists_test h
    rw [alternative]
    exact h.skipsIf hscore htest
  | chain other =>
    obtain ⟨score, hscore, -, htest⟩ := (hx rfl).exists_test h
    rw [alternative]
    exact h.skipsIf hscore htest

theorem branch_refines (ih : Refines p fuel) (hs : t.Starts p s w m) {n : Node} {cond : Expr}
    {body : Block} {otherwise : Otherwise}
    (hst : Stmt.Typed t.context result b (.branch n cond body otherwise))
    (heval : Evaluation.stmt p t.context (fuel + 1) w (.branch n cond body otherwise) = .ok (w', ending))
    (hlinks : t.Links (stmt t.context s (.branch n cond body otherwise))) :
    ∃ m', t.Performs s (stmt t.context s (.branch n cond body otherwise)) w' ending m m' := by
  have ht := hs.hosts.sound
  cases hst with
  | branch hcond hbody hotherwise =>
    obtain ⟨w₁, test, htest, hrest⟩ := Evaluation.stmt_branch heval
    rw [stmt] at hlinks ⊢
    dsimp only at hlinks ⊢
    have hge := expr_grows t.context s cond
    have hgkept : (expr t.context s cond).1.Grows (if hasOtherwise otherwise then
        (expr t.context s cond).1.ownScore (expr t.context s cond).2 else expr t.context s cond).1 := by
      split
      · exact grows_ownScore _ _
      · exact .refl _
    generalize hkept : (if hasOtherwise otherwise then _ else _ : Emission × Operand) = kept
      at hlinks hgkept ⊢
    have hpiece := hlinks.before (alternative_grows t.context _ _ otherwise)
    have hlinks₂ := hpiece.before (grows_pieceIf _ _ 1 fun u => block_grows t.context u body)
    obtain ⟨m₁, hm₁⟩ := ih.expr hs hcond htest (hlinks₂.before hgkept)
    have hs₁ := hm₁.starts hs hcond htest
    -- The condition is still needed for `else` when the branch was run, so it is out of reach of it.
    obtain ⟨m₂, hreaches, hcarries, hown⟩ : ∃ m₂,
        t.Reaches s.lastSlot (expr t.context s cond).1 kept.1 w₁ .none m₁ m₂ ∧
        t.Carries w₁ m₂ s.lastSlot kept.1.lastSlot kept.2 (.bool test) ∧
        (hasOtherwise otherwise = true → kept.2.isOwn = true) := by
      subst hkept
      cases ho : hasOtherwise otherwise with
      | true =>
        rw [ho, if_pos rfl] at hlinks₂
        obtain ⟨m₂, hm₂⟩ := hs₁.agrees.ownScore ht hs₁.tidy hlinks₂ (hm₁.carries _ rfl) rfl
          hge.lastSlot
        exact ⟨m₂, hm₂.reaches, hm₂.carries, fun _ => hm₂.own⟩
      | false => exact ⟨m₁, hs₁.agrees.reaches rfl, hm₁.carries _ rfl, fun h => absurd h Bool.false_ne_true⟩
    have hreached := hm₁.reaches.trans hreaches
    have hs₂ := hs₁.after hgkept hs₁.typed hreaches.agrees
    have hle : s.lastSlot ≤ kept.1.lastSlot := (hge.trans hgkept).lastSlot
    obtain ⟨score, hscore, hholds, -⟩ := hcarries.exists_test hreaches.agrees
    cases test with
    | true =>
      obtain ⟨m₃, hm₃⟩ := hs₂.pieceIf (d := kept.1.lastSlot) hscore hholds hpiece
        fun inner hinner hlast hlinks => by
          rw [block_eq] at hlinks ⊢
          obtain ⟨m₃, hm₃⟩ := ih.stmts hinner hbody.stmts hrest hlinks
          exact ⟨m₃, hm₃.mono (Nat.le_of_eq hlast.symm)⟩
      obtain ⟨g, hg, hreaches₃⟩ := hm₃.exists_signal
      refine ⟨m₃, ⟨g, hg, (hreached.trans (hreaches₃.mono hle)).trans
        (alternative_skipped hreaches₃.agrees fun ho =>
          hcarries.later hreaches₃.keeps (.inl (hown ho)) (Nat.le_refl _))⟩, hm₃.gives⟩
    | false =>
      have hskipped : t.Reaches kept.1.lastSlot kept.1 ((kept.1.newPiece.1.callIf kept.2 1
          kept.1.newPiece.2).inPiece kept.1.newPiece.2 fun s => block t.context s body) w₁ .none m₂ m₂ :=
        hreaches.agrees.skipsIf hscore hholds
      have hgpiece := grows_pieceIf kept.1 kept.2 1 fun u => block_grows t.context u body
      obtain ⟨m₃, hm₃⟩ := ih.alternative (hs₂.after hgpiece hs₂.typed hreaches.agrees) hotherwise
        hcarries hrest hlinks
      exact ⟨m₃, (hm₃.mono (Nat.le_trans hle hgpiece.lastSlot)).after
        (hreached.trans (hskipped.mono hle))⟩

theorem give_refines (ih : Refines p fuel) (hs : t.Starts p s w m) {n : Node} {value : Option Expr}
    (hst : Stmt.Typed t.context result b (.give n value))
    (heval : Evaluation.stmt p t.context (fuel + 1) w (.give n value) = .ok (w', ending))
    (hlinks : t.Links (stmt t.context s (.give n value))) :
    ∃ m', t.Performs s (stmt t.context s (.give n value)) w' ending m m' := by
  have ht := hs.hosts.sound
  cases hst with
  | give _ =>
    cases heval
    rw [stmt]
    obtain ⟨m₁, hm₁, -⟩ := hs.agrees.raise (s := s) ht .give
    exact ⟨m₁, ⟨_, rfl, hm₁⟩, .none _⟩
  | giveValue _ _ he =>
    obtain ⟨u, hu, rfl⟩ := Evaluation.stmt_give heval
    rw [stmt] at hlinks ⊢
    dsimp only at hlinks ⊢
    obtain ⟨m₁, hm₁⟩ := ih.expr hs he hu ((hlinks.before (grows_emit _ _)).before (grows_giveBack _ _))
    obtain ⟨cs, m₂, hcs, hruns, hupdate⟩ := hm₁.reaches.agrees.hand (s := (expr t.context s _).1)
      (hm₁.carries u rfl) (q := ⟨.machine, .result⟩) ⟨nofun, nofun⟩ .result
    obtain ⟨hagrees, hkeeps⟩ := hm₁.reaches.agrees.pass ht hupdate (isPassing_resultPlace _)
    obtain ⟨m₃, hm₃, hsame⟩ := hagrees.raise (d := s.lastSlot)
      (s := (expr t.context s _).1.giveBack (expr t.context s _).2) ht .give
    refine ⟨m₃, ⟨_, rfl, (hm₁.reaches.trans ⟨⟨cs, hcs, hruns⟩, hagrees, hkeeps _⟩).trans hm₃⟩, ?_⟩
    intro u' hu'
    cases hu'
    exact (hsame _).trans hupdate.here

/-- What may be pending when the body of a loop has ended and its next round may start. -/
def Ending.afterRound (round : Ending) : Signal := if round.repeats then .none else round.signal

/-- The body of a loop is run, and the signal that starts the next round is taken back. -/
theorem round_refines (ih : Refines p fuel) (hs : t.Starts p s w m) {body : Block} {round : Ending}
    (hbody : body.Typed t.context result true)
    (heval : Evaluation.stmts p t.context fuel w body.stmts = .ok (w', round))
    (hlinks : t.Links ((block t.context s body).consume .again body.mayRepeat)) :
    ∃ m', t.Reaches s.lastSlot s ((block t.context s body).consume .again body.mayRepeat) w'
      round.afterRound m m' ∧ m'.Gives round.result? := by
  have hflows := (Evaluation.flows p t.context fuel).body heval
  have hlinks₁ := hlinks.before (grows_consume _ _ _)
  rw [block_eq] at hlinks₁ ⊢
  obtain ⟨m₁, ⟨_, rfl, hm₁⟩, hgives⟩ := ih.stmts hs hbody.stmts heval hlinks₁
  obtain ⟨m₂, hm₂, hsame⟩ := hm₁.agrees.consume (d := s.lastSlot) (s := stmts t.context s body.stmts)
    hs.hosts.sound .again body.mayRepeat
  have hsignal : (if body.mayRepeat = true ∧ round.signal = .again then .none else round.signal)
      = round.afterRound := by
    cases round with
    | next => exact if_neg fun h => nomatch h.2
    | leave => exact if_neg fun h => nomatch h.2
    | again => exact if_pos ⟨hflows, rfl⟩
    | give v => exact if_neg fun h => nomatch h.2
  rw [hsignal] at hm₂
  exact ⟨m₂, hm₁.trans hm₂, hgives.congr hsame⟩

/-- A round that does not repeat ends the loop with a signal that its body may raise. -/
theorem Ending.afterRound_of_not_repeats {round : Ending} {l r g : Bool} (hr : round.repeats = false)
    (h : round.IsAmong l r g) :
    round.afterRound ≠ .none ∧ (g || l || r) = true ∧ round.afterLoop.EndsLoop l round.afterRound ∧
      round.afterLoop.result? = round.result? := by
  cases round with
  | next => cases hr
  | again => cases hr
  | leave =>
    obtain rfl : l = true := h
    exact ⟨nofun, by simp, .inr ⟨rfl, rfl, rfl⟩, rfl⟩
  | give v =>
    obtain rfl : g = true := h
    exact ⟨nofun, rfl, .inl rfl, rfl⟩

theorem loop_before_refines (ih : Refines p fuel) (hs : t.Starts p s w m) {n : Node} {cond : Expr}
    {body : Block} (hcond : cond.HasType t.context .bool) (hbody : body.Typed t.context result true)
    (heval : Evaluation.stmt p t.context (fuel + 1) w (.loop n .before cond body) = .ok (w', ending))
    (hlinks : t.Links (stmt t.context s (.loop n .before cond body))) :
    ∃ m', t.Yields s.lastSlot s (s.emit (.call s.newPiece.2)) w' (ending.EndsLoop body.mayLeave)
      ending.result? m m' := by
  obtain ⟨w₁, test, htest, hrounds⟩ := Evaluation.stmt_loop_before heval
  have hloop := hlinks
  rw [stmt] at hlinks
  refine hs.piece rfl (hlinks.before (grows_consume _ _ _)) rfl fun inner hinner hlast hlinks => ?_
  dsimp only at hlinks ⊢
  have hgrows := expr_grows t.context inner cond
  obtain ⟨m₁, hm₁⟩ := ih.expr hinner hcond htest (hlinks.before (grows_pieceIf _ _ 1 fun u =>
    ((block_grows t.context u body).trans (grows_consume _ _ _)).trans (grows_emit _ _)))
  have hs₁ := hm₁.starts hinner hcond htest
  have hreaches := hm₁.reaches
  rw [hlast] at hreaches
  obtain ⟨score, hscore, hholds, -⟩ := (hm₁.carries _ rfl).exists_test hm₁.reaches.agrees
  obtain ⟨rfl, rfl, rfl⟩ | ⟨rfl, w₂, round, hround, hnext⟩ := hrounds
  · exact ⟨m₁, ⟨_, .inl rfl, hreaches.trans (hs₁.agrees.skipsIf hscore hholds)⟩, .none _⟩
  · suffices h : ∃ m', t.Yields s.lastSlot (expr t.context inner cond).1 _ w'
        (ending.EndsLoop body.mayLeave) ending.result? m₁ m' by
      obtain ⟨m', hm'⟩ := h
      exact ⟨m', hm'.after hreaches⟩
    have hle : s.lastSlot ≤ (expr t.context inner cond).1.lastSlot := hlast ▸ hgrows.lastSlot
    refine hs₁.pieceIf hscore hholds hlinks fun piece hpiece hlast' hlinks => ?_
    have hlinks₁ := hlinks.before (grows_emit _ _)
    obtain ⟨m₂, hm₂, hgives⟩ := round_refines ih hpiece hbody hround hlinks₁
    have hm₂ := hm₂.mono (hlast' ▸ hle)
    have hgrows' := (block_grows t.context piece body).trans (grows_consume _ .again body.mayRepeat)
    have htyped := (((Evaluation.sound hs.hosts.typed fuel).stmts hs₁.typed hbody.stmts).of_ok hround).1
    obtain ⟨hr, hrest⟩ | ⟨hr, rfl, rfl⟩ := hnext
    · rw [Ending.afterRound, if_pos hr] at hm₂
      obtain ⟨m₃, hm₃⟩ := ih.loop ⟨hs.hosts, hs.tidy, htyped, hm₂.agrees⟩ hcond hbody hrest hloop
      exact ⟨m₃, (hm₃.calls (hm₂.agrees.called?_unlessPending body.mayJump _) rfl).after hm₂⟩
    · have hflows := (Evaluation.flows p t.context fuel).body hround
      obtain ⟨hne, hmay, hends, hresult⟩ := Ending.afterRound_of_not_repeats hr hflows
      refine ⟨m₂, ⟨_, hends, hm₂.trans (hm₂.agrees.skipsPending hne s.newPiece.2 ?_)⟩,
        hresult ▸ hgives⟩
      have hjump : body.mayJump = true := hmay
      rw [callUnlessPending, hjump]
      rfl

/-- At the end of a round of a loop its condition is evaluated, and the next round starts if it holds. -/
theorem check_refines (ih : Refines p fuel) {s₁ : Emission} (hs : t.Starts p s₁ w m)
    {cond : Expr} {body : Block} {test : Bool} {w₁ : World} {d : Nat}
    (hcond : cond.HasType t.context .bool)
    (htest : Evaluation.expr p t.context fuel w cond = .ok (w₁, some (.bool test)))
    (hnext : test = true ∧ (∀ m₁, t.Agrees w₁ .none m₁ → w₁.Typed t.context →
        ∃ m', t.Yields d s (s.emit (.call s.newPiece.2)) w' (ending.EndsLoop body.mayLeave)
          ending.result? m₁ m') ∨
      test = false ∧ w' = w₁ ∧ ending = .next)
    (hlinks : t.Links ((expr t.context s₁ cond).1.callIf (expr t.context s₁ cond).2 1 s.newPiece.2))
    (hd : d ≤ s₁.lastSlot) :
    ∃ m', t.Yields d s₁ ((expr t.context s₁ cond).1.callIf (expr t.context s₁ cond).2 1 s.newPiece.2)
      w' (ending.EndsLoop body.mayLeave) ending.result? m m' := by
  obtain ⟨m₁, hm₁⟩ := ih.expr hs hcond htest (hlinks.before (grows_callIf _ _ _ _))
  have hs₁ := hm₁.starts hs hcond htest
  have hreaches := hm₁.reaches.mono hd
  obtain ⟨score, hscore, hholds, -⟩ := (hm₁.carries _ rfl).exists_test hm₁.reaches.agrees
  rw [callIf_eq hscore]
  obtain ⟨rfl, hround⟩ | ⟨rfl, rfl, rfl⟩ := hnext
  · obtain ⟨m', hm'⟩ := hround m₁ hs₁.agrees hs₁.typed
    exact ⟨m', (hm'.calls (by rw [hs₁.agrees.inCall.called?_callIf hholds, if_pos rfl]) rfl).after hreaches⟩
  · exact ⟨m₁, ⟨_, .inl rfl, hreaches.trans (hs₁.agrees.skips (runs_callIf_of_not hholds _) rfl)⟩, .none _⟩

theorem loop_after_refines (ih : Refines p fuel) (hs : t.Starts p s w m) {n : Node} {cond : Expr}
    {body : Block} (hcond : cond.HasType t.context .bool) (hbody : body.Typed t.context result true)
    (heval : Evaluation.stmt p t.context (fuel + 1) w (.loop n .after cond body) = .ok (w', ending))
    (hlinks : t.Links (stmt t.context s (.loop n .after cond body))) :
    ∃ m', t.Yields s.lastSlot s (s.emit (.call s.newPiece.2)) w' (ending.EndsLoop body.mayLeave)
      ending.result? m m' := by
  obtain ⟨w₁, round, hround, hnext⟩ := Evaluation.stmt_loop_after heval
  have hloop := hlinks
  rw [stmt] at hlinks
  refine hs.piece rfl (hlinks.before (grows_consume _ _ _)) rfl fun inner hinner hlast hlinks => ?_
  dsimp only at hlinks ⊢
  have hgrows := (block_grows t.context inner body).trans (grows_consume _ .again body.mayRepeat)
  have hlinks₁ : t.Links ((block t.context inner body).consume .again body.mayRepeat) := by
    refine hlinks.before ?_
    split
    · exact .piece _ _ ((expr_grows t.context _ cond).trans (grows_callIf _ _ _ _))
    · exact (expr_grows t.context _ cond).trans (grows_callIf _ _ _ _)
  obtain ⟨m₁, hm₁, hgives⟩ := round_refines ih hinner hbody hround hlinks₁
  have htyped := (((Evaluation.sound hs.hosts.typed fuel).stmts hs.typed hbody.stmts).of_ok hround).1
  rw [hlast] at hm₁
  generalize (block t.context inner body).consume .again body.mayRepeat = rounded at hlinks hm₁ hgrows ⊢
  have hle : s.lastSlot ≤ rounded.lastSlot := hlast ▸ hgrows.lastSlot
  obtain ⟨hr, rfl, rfl⟩ | ⟨hr, w₂, test, htest, hrest⟩ := hnext
  · have hflows := (Evaluation.flows p t.context fuel).body hround
    obtain ⟨hne, hmay, hends, hresult⟩ := Ending.afterRound_of_not_repeats hr hflows
    have hjump : body.mayJump = true := hmay
    rw [if_pos hjump]
    exact ⟨m₁, ⟨_, hends, hm₁.trans (hm₁.agrees.skipsPending hne rounded.newPiece.2 rfl)⟩,
      hresult ▸ hgives⟩
  · rw [Ending.afterRound, if_pos hr] at hm₁
    have hs₁ : t.Starts p rounded w₁ m₁ := hinner.after hgrows htyped hm₁.agrees
    have hrest' : test = true ∧ (∀ m₂, t.Agrees w₂ .none m₂ → w₂.Typed t.context →
        ∃ m', t.Yields s.lastSlot s (s.emit (.call s.newPiece.2)) w' (ending.EndsLoop body.mayLeave)
          ending.result? m₂ m') ∨ test = false ∧ w' = w₂ ∧ ending = .next :=
      hrest.imp_left fun ⟨h, hrounds⟩ =>
        ⟨h, fun m₂ hm₂ hw₂ => ih.loop ⟨hs.hosts, hs.tidy, hw₂, hm₂⟩ hcond hbody hrounds hloop⟩
    suffices h : ∃ m', t.Yields s.lastSlot rounded _ w' (ending.EndsLoop body.mayLeave)
        ending.result? m₁ m' by
      obtain ⟨m', hm'⟩ := h
      exact ⟨m', hm'.after hm₁⟩
    cases hjump : body.mayJump with
    | true =>
      rw [hjump, if_pos rfl] at hlinks
      rw [if_pos rfl]
      exact hs₁.piece (hs₁.agrees.called?_unlessPending true _) hlinks rfl
        fun tail htail hlast' hlinks => check_refines ih htail hcond htest hrest' hlinks (hlast' ▸ hle)
    | false =>
      rw [hjump, if_neg Bool.false_ne_true] at hlinks
      rw [if_neg Bool.false_ne_true]
      exact check_refines ih hs₁ hcond htest hrest' hlinks hle

theorem loop_refines (ih : Refines p fuel) (hs : t.Starts p s w m) {n : Node} {kind : LoopKind}
    {cond : Expr} {body : Block} (hcond : cond.HasType t.context .bool)
    (hbody : body.Typed t.context result true)
    (heval : Evaluation.stmt p t.context (fuel + 1) w (.loop n kind cond body) = .ok (w', ending))
    (hlinks : t.Links (stmt t.context s (.loop n kind cond body))) :
    ∃ m', t.Yields s.lastSlot s (s.emit (.call s.newPiece.2)) w' (ending.EndsLoop body.mayLeave)
      ending.result? m m' := by
  cases kind with
  | before => exact loop_before_refines ih hs hcond hbody heval hlinks
  | after => exact loop_after_refines ih hs hcond hbody heval hlinks

theorem loop_stmt_refines (ih : Refines p fuel) (hs : t.Starts p s w m) {n : Node} {kind : LoopKind}
    {cond : Expr} {body : Block} (hst : Stmt.Typed t.context result b (.loop n kind cond body))
    (heval : Evaluation.stmt p t.context (fuel + 1) w (.loop n kind cond body) = .ok (w', ending))
    (hlinks : t.Links (stmt t.context s (.loop n kind cond body))) :
    ∃ m', t.Performs s (stmt t.context s (.loop n kind cond body)) w' ending m m' := by
  cases hst with
  | loop hcond hbody =>
    have hflows : ending.IsAmong false false body.mayGive := (Evaluation.flows p t.context _).stmt heval
    obtain ⟨m₁, hm₁⟩ := loop_refines ih hs hcond hbody heval hlinks
    obtain ⟨g, hg, hreaches⟩ := hm₁.exists_signal
    obtain ⟨called, hcalled, hstmt⟩ : ∃ called : Emission,
        called.commands = s.commands ++ [.call s.newPiece.2] ∧
        stmt t.context s (.loop n kind cond body) = called.consume .leave body.mayLeave := by
      cases kind <;> rw [stmt] <;> exact ⟨_, rfl, rfl⟩
    have hreaches : t.Reaches s.lastSlot s called w' g m m₁ := by
      obtain ⟨cs, hcs, hruns⟩ := hreaches.emits
      exact ⟨⟨cs, hcalled.trans hcs, hruns⟩, hreaches.agrees, hreaches.keeps⟩
    obtain ⟨m₂, hm₂, hsame⟩ := hreaches.agrees.consume (d := s.lastSlot) (s := called) hs.hosts.sound
      .leave body.mayLeave
    -- Only the signal that left the loop is taken back.
    have hsignal : (if body.mayLeave = true ∧ g = .leave then .none else g) = ending.signal := by
      obtain rfl | ⟨rfl, hmay, rfl⟩ := hg
      · refine if_neg fun h => ?_
        cases ending with
        | next => cases h.2
        | leave => cases hflows
        | again => cases hflows
        | give v => cases h.2
      · exact if_pos ⟨hmay, rfl⟩
    rw [hsignal] at hm₂
    rw [hstmt]
    exact ⟨m₂, ⟨_, rfl, hreaches.trans hm₂⟩, hm₁.gives.congr hsame⟩

/-- Code of statements does what they do, if it does so with less fuel. -/
theorem stmt_refines (ih : Refines p fuel) (hs : t.Starts p s w m) {st : Stmt}
    (hst : st.Typed t.context result b)
    (heval : Evaluation.stmt p t.context (fuel + 1) w st = .ok (w', ending))
    (hlinks : t.Links (stmt t.context s st)) :
    ∃ m', t.Performs s (stmt t.context s st) w' ending m m' := by
  have ht := hs.hosts.sound
  cases st with
  | error n => cases heval
  | var n name type value => exact var_refines ih hs hst heval hlinks
  | expr n e => exact expr_stmt_refines ih hs hst heval hlinks
  | branch n cond body otherwise => exact branch_refines ih hs hst heval hlinks
  | loop n kind cond body => exact loop_stmt_refines ih hs hst heval hlinks
  | leave n =>
    cases heval
    rw [stmt]
    obtain ⟨m₁, hm₁, -⟩ := hs.agrees.raise (s := s) ht .leave
    exact ⟨m₁, ⟨_, rfl, hm₁⟩, .none _⟩
  | again n =>
    cases heval
    rw [stmt]
    obtain ⟨m₁, hm₁, -⟩ := hs.agrees.raise (s := s) ht .again
    exact ⟨m₁, ⟨_, rfl, hm₁⟩, .none _⟩
  | give n value => exact give_refines ih hs hst heval hlinks
  | command n text =>
    cases heval
    rw [stmt]
    exact ⟨_, Layout.Reaches.performs
      ⟨⟨[.raw text], rfl, .perform rfl⟩, hs.agrees.act _, .act t _ m _⟩⟩

/-- A jump does not go on to the next statement. -/
theorem Evaluation.ne_next_of_isJump {st : Stmt} (hj : st.isJump = true)
    (h : Evaluation.stmt p t.context fuel w st = .ok (w', ending)) : ending ≠ .next := by
  cases fuel with
  | zero => cases h
  | succ fuel =>
    cases st with
    | leave n => cases h; nofun
    | again n => cases h; nofun
    | give n value =>
      cases value with
      | none => cases h; nofun
      | some e =>
        obtain ⟨u, -, rfl⟩ := Evaluation.stmt_give h
        nofun
    | error _ | var _ _ _ _ | expr _ _ | branch _ _ _ _ | loop _ _ _ _ | command _ _ => cases hj

theorem stmts_refine (ih : Refines p fuel) (hs : t.Starts p s w m) {ss : List Stmt}
    (hss : Stmt.AllTyped t.context result b ss)
    (heval : Evaluation.stmts p t.context (fuel + 1) w ss = .ok (w', ending))
    (hlinks : t.Links (stmts t.context s ss)) :
    ∃ m', t.Performs s (stmts t.context s ss) w' ending m m' := by
  cases hss with
  | nil =>
    cases heval
    rw [stmts]
    exact ⟨m, (hs.agrees.reaches rfl).performs⟩
  | cons hst hrest =>
    rename_i st rest
    obtain ⟨w₁, first, hfirst, hnext⟩ := Evaluation.stmts_cons heval
    have hgrows := stmt_grows t.context s st
    have htyped := (((Evaluation.sound hs.hosts.typed fuel).stmt hs.typed hst).of_ok hfirst).1
    rw [stmts] at hlinks ⊢
    dsimp only at hlinks ⊢
    have hlinks₁ : t.Links (stmt t.context s st) := by
      refine hlinks.before ?_
      split
      · exact .refl _
      · split
        · exact .piece _ _ (stmts_grows t.context _ rest)
        · exact stmts_grows t.context _ rest
    obtain ⟨m₁, hm₁⟩ := ih.stmt hs hst hfirst hlinks₁
    obtain ⟨_, rfl, hreaches⟩ := hm₁.exists_signal
    obtain ⟨rfl, hrest'⟩ | ⟨hne, rfl, rfl⟩ := hnext
    · -- The first statement goes on to the others.
      have hs₁ := hs.after hgrows htyped hreaches.agrees
      by_cases hstop : (st.isJump || rest.isEmpty) = true
      · rw [if_pos hstop]
        rcases Bool.or_eq_true_iff.mp hstop with hj | hempty
        · exact absurd rfl (Evaluation.ne_next_of_isJump hj hfirst)
        · obtain rfl := List.isEmpty_iff.mp hempty
          cases fuel with
          | zero => cases hrest'
          | succ fuel =>
            cases hrest'
            exact ⟨m₁, hm₁⟩
      · rw [if_neg hstop] at hlinks ⊢
        cases hmay : st.mayJump with
        | true =>
          rw [hmay, if_pos rfl] at hlinks
          rw [if_pos rfl]
          suffices h : ∃ m₂, t.Yields s.lastSlot (stmt t.context s st) _ w' (· = ending.signal)
              ending.result? m₁ m₂ by
            obtain ⟨m₂, hm₂⟩ := h
            exact ⟨m₂, hm₂.after hreaches⟩
          refine hs₁.piece (hs₁.agrees.called?_unlessPending true _) hlinks rfl
            fun inner hinner hlast hlinks => ?_
          obtain ⟨m₂, hm₂⟩ := ih.stmts hinner hrest hrest' hlinks
          exact ⟨m₂, hm₂.mono (hlast ▸ hgrows.lastSlot)⟩
        | false =>
          rw [hmay, if_neg Bool.false_ne_true] at hlinks
          rw [if_neg Bool.false_ne_true]
          obtain ⟨m₂, hm₂⟩ := ih.stmts hs₁ hrest hrest' hlinks
          exact ⟨m₂, (hm₂.mono hgrows.lastSlot).after hreaches⟩
    · -- The first statement leaves; the others are passed by.
      split
      · exact ⟨m₁, hm₁⟩
      · have hflows := (Evaluation.flows p t.context fuel).stmt hfirst
        have hmay : st.mayJump = true := by
          rw [Stmt.mayJump]
          cases ending with
          | next => exact absurd rfl hne
          | leave => rw [show st.mayLeave = true from hflows, Bool.or_true, Bool.true_or]
          | again => rw [show st.mayRepeat = true from hflows, Bool.or_true]
          | give v => rw [show st.mayGive = true from hflows, Bool.true_or, Bool.true_or]
        have hpending : ending.signal ≠ .none := by
          cases ending with
          | next => exact absurd rfl hne
          | leave => nofun
          | again => nofun
          | give v => nofun
        rw [if_pos hmay]
        exact ⟨m₁, ⟨_, rfl, hreaches.trans (hreaches.agrees.skipsPending hpending _ rfl)⟩, hm₁.gives⟩

theorem alternative_refines (ih : Refines p fuel) (hs : t.Starts p s w m) {x : Operand} {low high : Nat}
    {o : Otherwise} (ho : o.Typed t.context result b) (hx : t.Carries w m low high x (.bool false))
    (heval : Evaluation.alternative p t.context (fuel + 1) w o = .ok (w', ending))
    (hlinks : t.Links (alternative t.context s x o)) :
    ∃ m', t.Performs s (alternative t.context s x o) w' ending m m' := by
  obtain ⟨score, hscore, -, hholds⟩ := hx.exists_test hs.agrees
  cases ho with
  | none =>
    cases heval
    rw [alternative]
    exact ⟨m, (hs.agrees.reaches rfl).performs⟩
  | block hbody =>
    rw [Evaluation.alternative] at heval
    rw [alternative] at hlinks ⊢
    refine hs.pieceIf hscore hholds hlinks fun inner hinner hlast hlinks => ?_
    rw [block_eq] at hlinks ⊢
    rw [← hlast]
    exact ih.stmts hinner hbody.stmts heval hlinks
  | chain hother =>
    rw [Evaluation.alternative] at heval
    rw [alternative] at hlinks ⊢
    refine hs.pieceIf hscore hholds hlinks fun inner hinner hlast hlinks => ?_
    rw [← hlast]
    exact ih.stmt hinner hother heval hlinks

end

/-- Whatever is evaluated, its code does. -/
theorem refines (p : Program) (fuel : Nat) : Refines p fuel := by
  induction fuel with
  | zero => exact ⟨nofun, nofun, nofun, nofun, nofun, nofun, nofun⟩
  | succ fuel ih =>
    refine ⟨?_, ?_, ?_, ?_, ?_, ?_, ?_⟩
    · exact fun hs he heval hlinks => expr_refines ih hs he heval hlinks
    · exact fun hs he htys heval hlinks => arguments_refine ih hs he htys heval hlinks
    · exact fun hosts hw h hhands hprint hf htypes heval =>
        call_refines ih hosts hw h hhands hprint hf htypes heval
    · exact fun hs hst heval hlinks => stmt_refines ih hs hst heval hlinks
    · exact fun hs hss heval hlinks => stmts_refine ih hs hss heval hlinks
    · exact fun hs ho hx heval hlinks => alternative_refines ih hs ho hx heval hlinks
    · exact fun hs hcond hbody heval hlinks => loop_refines ih hs hcond hbody heval hlinks

end Craftlang
