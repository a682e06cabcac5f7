import Craftlang.Proofs.Code.Growth
import Craftlang.Proofs.Code.Lowered

/-!
# The moves of emission

Whatever code is emitted for, it grows by a few moves only: a slot is given out, a variable gets its place, what
leaves a mark is remembered, commands are added that name what there is, or a piece is called and finished. The
parts of emission are told by their moves here.
-/

namespace Craftlang

/-- The scores that a test compares. -/
def Test.scores : Test → List Score
  | is t _ | positive t => [t]
  | compare _ t u => [t, u]

namespace Emission

/-- What code is held to: the raw commands in it, the scores that it may name besides those that it has itself, and
the functions that it may call. -/
structure Limits where
  texts : Bytes → Prop
  scores : Score → Prop
  functions : FunctionName → Prop

namespace Limits

/-- Limits on calls only. -/
def calling (A : FunctionName → Prop) : Limits := ⟨fun _ => True, fun _ => True, A⟩

def free : Limits := .calling fun _ => True

/-- While a piece is emitted it may be called. -/
def opening (L : Limits) (piece : FunctionName) : Limits :=
  { L with functions := fun f => L.functions f ∨ f = piece }

/-- The declared functions may be called. -/
def Admit (L : Limits) (c : EmissionContext) : Prop :=
  ∀ y f, c.typing.functionOf? y = some f → L.functions (.declared (ResourceName.normalize f.name))

theorem free_admit (c : EmissionContext) : free.Admit c := fun _ _ _ => trivial

theorem opened (L : Limits) (piece : FunctionName) : (L.opening piece).functions piece := .inr rfl

theorem Admit.opening {L : Limits} {c : EmissionContext} (h : L.Admit c) (piece : FunctionName) :
    (L.opening piece).Admit c := fun y f hf => .inl (h y f hf)

end Limits

/-- The scores that code may name: slots that were given out, those of variables, global variables, what every
program has, and some more. -/
inductive Reaches (A : Score → Prop) (s : Emission) : Score → Prop
  | slot {n : Nat} (pos : 0 < n) (le : n ≤ s.lastSlot) : Reaches A s ⟨.frame, .slot n⟩
  | symbol {y n : Nat} (mem : (y, n) ∈ s.slots) : Reaches A s ⟨.frame, .slot n⟩
  | global {y : Nat} {t : Score} (mem : (y, .score t) ∈ s.globals) : Reaches A s t
  | pending : Reaches A s Emission.pending
  | printed : Reaches A s ⟨.machine, .printed⟩
  | result : Reaches A s ⟨.machine, .result⟩
  | allowed {t : Score} (h : A t) : Reaches A s t

/-- The score of an operand may be named. -/
def Gives (A : Score → Prop) (s : Emission) (x : Operand) : Prop :=
  ∀ t, x.location = some (.score t) → s.Reaches A t

/-- The numbers that do not come from literals: those of signals, and the start of other values. -/
def IsFixed (v : Int) : Prop := 0 ≤ v ∧ v ≤ 3

theorem isFixed_signal (signal : Signal) : IsFixed signal.number := by
  cases signal <;> exact ⟨by decide, by decide⟩

/-- Commands within limits that leave no mark. -/
inductive Fits (L : Limits) (s : Emission) : Command → Prop
  | raw {text : Bytes} (h : L.texts text) : Fits L s (.raw text)
  | frame {d : Command}
    (h : d ∈ [.summonFrame, .numberFrame, .pushTexts, .removeFrame, .leaveFrame, .popTexts]) : Fits L s d
  | set {t : Score} (ht : s.Reaches L.scores t) {v : Int} (hv : IsFixed v) : Fits L s (.set t v)
  | takeBack (signal : Signal) : Fits L s (.setIf (isPending signal) Emission.pending Signal.none.number)
  | operate {t u : Score} (ht : s.Reaches L.scores t) (op : ScoreOp) (hu : s.Reaches L.scores u) :
    Fits L s (.operate t op u)
  | hand {n : Nat} (pos : 0 < n) (le : n ≤ s.argumentCount) {u : Score} (hu : s.Reaches L.scores u) :
    Fits L s (.operate ⟨.machine, .argument n⟩ .copy u)
  | storeTest {t : Score} (ht : s.Reaches L.scores t) {test : Test}
    (htest : ∀ u ∈ test.scores, s.Reaches L.scores u) : Fits L s (.storeTest t test)
  | noText (p : TextPlace) : Fits L s (.setText p [])
  | copyText (p q : TextPlace) : Fits L s (.copyText p q)
  | joinTexts (h : s.joinedAt.isSome = true) : Fits L s .joinTexts
  | call {f : FunctionName} (hf : L.functions f) : Fits L s (.call f)
  | callIf {test : Test} (htest : ∀ u ∈ test.scores, s.Reaches L.scores u) {f : FunctionName}
    (hf : L.functions f) : Fits L s (.callIf test f)
  | tellText (p : TextPlace) : Fits L s (.tellText p)
  | tellBool (b : Bool) : Fits L s (.tellBool b)
  | tellNumber : Fits L s .tellNumber

/-- Moves within limits, one after the other, and the marks that they leave. -/
inductive Moves : Limits → List Mark → Emission → Emission → Prop
  | stay {L : Limits} (s : Emission) : Moves L [] s s
  | fail {L : Limits} (s : Emission) (f : EmissionFault) : Moves L [] s (s.fail f)
  | newSlot {L : Limits} (s : Emission) : Moves L [] s s.newSlot.1
  | slotOf {L : Limits} (s : Emission) (y : Nat) : Moves L [] s (s.slotOf y).1
  | globalOf {L : Limits} (s : Emission) (y : Nat) (name : Bytes) (isScore : Bool) :
    Moves L [] s (s.globalOf y name isScore).1
  | commands {L : Limits} (s : Emission) {cs : List Command} (h : ∀ d ∈ cs, s.Fits L d) :
    Moves L [] s (s.emitAll cs)
  | number {L : Limits} (s : Emission) {t : Score} (ht : s.Reaches L.scores t) (v : Int) :
    Moves L [.number v] s (s.emit (.set t v))
  | text {L : Limits} (s : Emission) (p : TextPlace) (value : Bytes) (span : Span) :
    Moves L [.text span value] s (s.setText p value span)
  | joinAt {L : Limits} (s : Emission) (span : Span) : Moves L [.join span] s (s.joinAt span)
  | pass {L : Limits} (s : Emission) (n : Nat) :
    Moves L [.pass n] s { s with argumentCount := max s.argumentCount n }
  | piece {L : Limits} {ms : List Mark} (s : Emission) {d : Command} (hd : s.Fits (L.opening s.newPiece.2) d)
    {body : Emission → Emission}
    (h : Moves (L.opening s.newPiece.2) ms { s.newPiece.1.emit d with commands := [] }
      (body { s.newPiece.1.emit d with commands := [] })) :
    Moves L ms s ((s.newPiece.1.emit d).inPiece s.newPiece.2 body)
  | trans {L : Limits} {ms ns : List Mark} {s t u : Emission} (first : Moves L ms s t) (second : Moves L ns t u) :
    Moves L (ms ++ ns) s u

variable {L : Limits} {ms ns : List Mark} {s s' s'' : Emission} {x : Operand}

theorem Moves.grows (h : Moves L ms s s') : s.Grows s' := by
  induction h with
  | stay s => exact .refl s
  | fail s f => exact .same rfl (Nat.le_refl _) rfl rfl (Nat.le_refl _) rfl rfl
  | newSlot s => exact grows_newSlot s
  | slotOf s y => exact grows_slotOf s y
  | globalOf s y name isScore => exact grows_globalOf s y name isScore
  | commands s _ => exact grows_emitAll s _
  | number s _ v => exact grows_emit s _
  | text s p value span => exact grows_setText s p value span
  | joinAt s span => exact grows_joinAt s span
  | pass s n => exact .same rfl (Nat.le_refl _) rfl rfl (Nat.le_refl _) rfl rfl
  | piece s _ _ ih => exact .piece s _ ih
  | trans _ _ ih ih' => exact ih.trans ih'

/-- Moves that leave no mark can stand before or behind others. -/
theorem Moves.before (h : Moves L ms s s') (h' : Moves L [] s' s'') : Moves L ms s s'' := by
  have := h.trans h'
  rwa [List.append_nil] at this

theorem Moves.behind (h : Moves L [] s s') (h' : Moves L ms s' s'') : Moves L ms s s'' := h.trans h'

theorem Reaches.mono {A : Score → Prop} {t : Score} (h : s.Reaches A t) (hg : s.Grows s') : s'.Reaches A t := by
  obtain ⟨slots, hslots, -⟩ := hg.slots
  obtain ⟨globals, hglobals, -⟩ := hg.globals
  cases h with
  | slot pos le => exact .slot pos (Nat.le_trans le hg.lastSlot)
  | symbol mem => exact .symbol (hslots ▸ List.mem_append_left _ mem)
  | global mem => exact .global (hglobals ▸ List.mem_append_left _ mem)
  | pending => exact .pending
  | printed => exact .printed
  | result => exact .result
  | allowed h => exact .allowed h

theorem Gives.mono {A : Score → Prop} (h : s.Gives A x) (hg : s.Grows s') : s'.Gives A x :=
  fun t ht => (h t ht).mono hg

theorem gives_score {A : Score → Prop} {t : Score} (h : s.Reaches A t) (own : Bool) :
    s.Gives A ⟨some (.score t), own⟩ := by
  rintro _ ⟨⟩
  exact h

theorem gives_text {A : Score → Prop} (p : TextPlace) (own : Bool) : s.Gives A ⟨some (.text p), own⟩ := nofun

theorem gives_free (s : Emission) (x : Operand) : s.Gives Limits.free.scores x := fun _ _ => .allowed trivial

/-- Moves, and a value that may be named in the end. -/
structure Yields (L : Limits) (ms : List Mark) (s : Emission) (r : Emission × Operand) : Prop where
  moves : Moves L ms s r.1
  gives : r.1.Gives L.scores r.2

theorem Moves.yields {r : Emission × Operand} (h : Moves L ms s s') (h' : Yields L ns s' r) :
    Yields L (ms ++ ns) s r := ⟨h.trans h'.moves, h'.gives⟩

theorem Yields.then {r q : Emission × Operand} (h : Yields L ms s r) (h' : Yields L [] r.1 q) : Yields L ms s q :=
  ⟨h.moves.before h'.moves, h'.gives⟩

/-! ## Parts of expressions -/

section

variable (s)

theorem moves_emit {d : Command} (h : s.Fits L d) : Moves L [] s (s.emit d) :=
  .commands s (List.forall_mem_singleton.mpr h)

theorem moves_scoreOf (x : Operand) : Moves L [] s (s.scoreOf x).1 := by
  rw [scoreOf]
  split
  · exact .stay s
  · exact .fail s _

theorem moves_textOf (x : Operand) : Moves L [] s (s.textOf x).1 := by
  rw [textOf]
  split
  · exact .stay s
  · exact .fail s _

/-- The score of an operand, or the one that stands in for it, may be named. -/
theorem reaches_scoreOf {A : Score → Prop} (hx : s.Gives A x) : (s.scoreOf x).1.Reaches A (s.scoreOf x).2 := by
  rw [scoreOf]
  split
  · rename_i t ht
    exact hx t ht
  · exact .result

theorem reaches_newSlot {A : Score → Prop} : s.newSlot.1.Reaches A ⟨.frame, .slot s.newSlot.2⟩ :=
  .slot (Nat.succ_pos _) (Nat.le_refl _)

/-- A new score that is set by some commands. -/
theorem yields_newScore (h : Moves L [] s.newSlot.1 s') {cs : List Command} (hcs : ∀ d ∈ cs, s'.Fits L d) :
    Yields L [] s (s'.emitAll cs, ⟨some (.score ⟨.frame, .slot s.newSlot.2⟩), true⟩) := by
  have hset := h.before (.commands s' hcs)
  exact ⟨(Moves.newSlot s).behind hset, gives_score ((reaches_newSlot s).mono hset.grows) _⟩

theorem yields_copyScore (hx : s.Gives L.scores x) : Yields L [] s (s.copyScore x) := by
  have hscore : Moves L [] s.newSlot.1 (s.newSlot.1.scoreOf x).1 := moves_scoreOf _ x
  refine yields_newScore s hscore (List.forall_mem_singleton.mpr (.operate ?_ _ ?_))
  · exact (reaches_newSlot s).mono hscore.grows
  · exact reaches_scoreOf _ (hx.mono (grows_newSlot s))

theorem yields_copyText (x : Operand) : Yields L [] s (s.copyText x) :=
  ⟨((Moves.newSlot s).before (moves_textOf _ x)).before (moves_emit _ (.copyText _ _)), gives_text _ _⟩

theorem yields_ownScore (hx : s.Gives L.scores x) : Yields L [] s (s.ownScore x) := by
  rw [ownScore]
  split
  · exact ⟨.stay s, hx⟩
  · exact yields_copyScore s hx

theorem yields_ownText (hx : s.Gives L.scores x) : Yields L [] s (s.ownText x) := by
  rw [ownText]
  split
  · exact ⟨.stay s, hx⟩
  · exact yields_copyText s x

theorem yields_keep (hx : s.Gives L.scores x) (b : Bool) : Yields L [] s (if b then s.own x else (s, x)) := by
  cases b with
  | false => exact ⟨.stay s, hx⟩
  | true =>
    change Yields L [] s (s.own x)
    rw [own]
    split
    · exact yields_ownScore s hx
    · exact yields_ownText s hx
    · exact ⟨.stay s, hx⟩

theorem mem_globalOf (y : Nat) (name : Bytes) (isScore : Bool) :
    (y, (s.globalOf y name isScore).2) ∈ (s.globalOf y name isScore).1.globals := by
  rw [globalOf]
  split
  · rename_i l hl
    obtain ⟨before, after, heq, -⟩ := List.lookup_eq_some_iff.mp hl
    rw [heq]
    exact List.mem_append_right _ List.mem_cons_self
  · exact List.mem_append_right _ List.mem_cons_self

theorem mem_slotOf (y : Nat) : (y, (s.slotOf y).2) ∈ (s.slotOf y).1.slots := by
  rw [slotOf]
  split
  · rename_i n hn
    obtain ⟨before, after, heq, -⟩ := List.lookup_eq_some_iff.mp hn
    rw [heq]
    exact List.mem_append_right _ List.mem_cons_self
  · exact List.mem_append_right _ List.mem_cons_self

/-- A variable is kept in its slot, or with the global variables. -/
theorem yields_variablePlace (c : EmissionContext) (y : Nat) (own : Bool) :
    Yields L [] s ((variablePlace c s y).1, ⟨some (variablePlace c s y).2, own⟩) := by
  unfold variablePlace
  dsimp only
  split
  · refine ⟨.globalOf s y _ _, fun t ht => ?_⟩
    have hmem := mem_globalOf s y (c.resolution.table.nameOf y) (c.typing.typeOfSymbol y).isScore
    rw [Option.some.inj ht] at hmem
    exact .global hmem
  · refine ⟨.slotOf s y, ?_⟩
    split
    · exact gives_score (.symbol (mem_slotOf s y)) own
    · exact gives_text _ own

/-- A score is set to a number that leaves a mark. -/
theorem yields_constantScore (v : Int) : Yields L [.number v] s (s.constantScore v) := by
  have hset : Moves L [.number v] s.newSlot.1 (s.constantScore v).1 := .number _ (reaches_newSlot s) v
  exact ⟨(Moves.newSlot s).behind hset, gives_score ((reaches_newSlot s).mono hset.grows) _⟩

theorem yields_literal (c : EmissionContext) (n : Node) (v : Constant) :
    Yields L ((Expr.constant n v).marks c) s (literal c s n v) := by
  have hzero : Yields L [] s (s.constantScore 0) :=
    yields_newScore s (.stay _) (List.forall_mem_singleton.mpr (.set (reaches_newSlot s) ⟨Int.le_refl 0, by decide⟩))
  cases v with
  | string text => exact ⟨(Moves.newSlot s).behind (.text _ _ text n.span), gives_text _ _⟩
  | bool b => exact yields_constantScore s _
  | int text =>
    change Yields L ((foldConstant c.typing (.constant n (.int text))).map Mark.number).toList s
      (s.constantScore ((foldConstant c.typing (.constant n (.int text))).getD 0))
    -- a number that is too large stands for none
    cases foldConstant c.typing (.constant n (.int text)) with
    | none => exact hzero
    | some w => exact yields_constantScore s w

theorem moves_print (ty : Ty) (hx : s.Gives L.scores x) : Moves L [] s (s.print ty x) := by
  have hscore : Moves L [] s (s.scoreOf x).1 := moves_scoreOf s x
  have hshown : (s.scoreOf x).1.Fits L (.operate ⟨.machine, .printed⟩ .copy (s.scoreOf x).2) :=
    .operate .printed _ (reaches_scoreOf s hx)
  unfold print
  cases ty with
  | string => exact (moves_textOf s x).before (moves_emit _ (.tellText _))
  | bool =>
    refine hscore.before (.commands _ (List.forall_mem_cons.mpr ⟨hshown, List.forall_mem_cons.mpr ⟨?_, ?_⟩⟩))
    · exact .tellBool true
    · exact List.forall_mem_singleton.mpr (.tellBool false)
  | _ =>
    exact hscore.before (.commands _ (List.forall_mem_cons.mpr ⟨hshown, List.forall_mem_singleton.mpr .tellNumber⟩))

/-- The commands that hand arguments over name the places of the arguments. -/
theorem moves_passArguments (place : Nat) (hp : 0 < place) (xs : List Operand)
    (hle : place + xs.length ≤ s.argumentCount + 1) (hxs : ∀ x ∈ xs, s.Gives L.scores x) :
    Moves L [] s (s.passArguments place xs) := by
  induction xs generalizing s place with
  | nil => exact .stay s
  | cons x xs ih =>
    rw [List.length_cons] at hle
    rw [List.forall_mem_cons] at hxs
    have hfirst : Moves L [] s (s.passArguments place [x]) ∧
        (s.passArguments place [x]).argumentCount = s.argumentCount := by
      rw [passArguments, passArguments]
      split
      · rename_i score hscore
        exact ⟨moves_emit s (.hand hp (by omega) (hxs.1 score hscore)), rfl⟩
      · exact ⟨moves_emit s (.copyText _ _), rfl⟩
      · exact ⟨.stay s, rfl⟩
    change Moves L [] s ((s.passArguments place [x]).passArguments (place + 1) xs)
    refine hfirst.1.before (ih _ _ (Nat.succ_pos _) ?_ fun y hy => (hxs.2 y hy).mono hfirst.1.grows)
    rw [hfirst.2]
    omega

end

/-- The number of arguments may be taken into account before they are handed over. -/
theorem counted_passArguments (s : Emission) (k place : Nat) (xs : List Operand) :
    { s.passArguments place xs with argumentCount := max (s.passArguments place xs).argumentCount k }
      = passArguments { s with argumentCount := max s.argumentCount k } place xs := by
  induction xs generalizing s place with
  | nil => rfl
  | cons x xs ih =>
    rw [passArguments, passArguments, ih]
    split <;> rfl

section

variable (s)

theorem yields_takeResult (ty : Ty) : Yields L [] s (s.takeResult ty) := by
  cases ty with
  | int | bool =>
    exact yields_newScore s (.stay _) (List.forall_mem_singleton.mpr (.operate (reaches_newSlot s) _ .result))
  | string => exact ⟨(Moves.newSlot s).before (moves_emit _ (.copyText _ _)), gives_text _ _⟩
  | _ => exact ⟨.stay s, nofun⟩

/-- What hands nothing over counts as handing over no arguments. -/
theorem moves_pass_zero : Moves L [.pass 0] s s := by
  have h : Moves L [.pass 0] s _ := .pass s 0
  rwa [Nat.max_zero] at h

/-- A call of a declared function hands its arguments over. -/
theorem yields_call {c : EmissionContext} (hA : L.Admit c) (n : Node) (y : Nat) (ty : Ty) {xs : List Operand}
    (hxs : ∀ x ∈ xs, s.Gives L.scores x) :
    Yields L [.pass (if isPrint c y || (c.typing.functionOf? y).isNone then 0 else xs.length)] s
      (call c s n y ty xs) := by
  unfold call
  cases hprint : isPrint c y with
  | true =>
    rw [Bool.true_or, if_pos rfl, if_pos rfl]
    split
    · exact ⟨(moves_pass_zero s).before (moves_print s ty (hxs _ List.mem_cons_self)), nofun⟩
    · exact ⟨(moves_pass_zero s).before (.fail s _), nofun⟩
  | false =>
    rw [Bool.false_or, if_neg Bool.false_ne_true]
    cases hf : c.typing.functionOf? y with
    | none => exact ⟨(moves_pass_zero s).before (.fail s _), nofun⟩
    | some f =>
      rw [Option.isNone_some, if_neg Bool.false_ne_true]
      dsimp only
      rw [counted_passArguments]
      have hcount : s.Grows { s with argumentCount := max s.argumentCount xs.length } := (Moves.pass (L := L) s _).grows
      have hpassed : Moves L [] { s with argumentCount := max s.argumentCount xs.length } _ :=
        moves_passArguments _ 1 Nat.one_pos xs (by dsimp only; omega) fun x hx => (hxs x hx).mono hcount
      have hcalled := ((Moves.pass s xs.length).before hpassed).before (moves_emit _ (.call (hA y f hf)))
      exact hcalled.yields (yields_takeResult _ _)

/-- Strings are joined where a join is remembered. -/
theorem yields_join (hj : s.joinedAt.isSome = true) {l : Operand} (hl : s.Gives L.scores l) (r : Operand) :
    Yields L [] s (s.join l r) := by
  have htexts : Moves L [] s ((s.textOf l).1.textOf r).1 := (moves_textOf s l).before (moves_textOf _ r)
  have hjoin : Moves L [] s (s.join l r).1 := by
    refine htexts.before (.commands _ fun d hd => ?_)
    simp only [List.mem_cons, List.not_mem_nil, or_false] at hd
    rcases hd with rfl | rfl | rfl | rfl
    · exact .copyText _ _
    · exact .copyText _ _
    · exact .joinTexts (htexts.grows.joined hj)
    · exact .copyText _ _
  exact ⟨hjoin, hl.mono hjoin.grows⟩

theorem fits_applyOp {t u : Score} (ht : s.Reaches L.scores t) (hu : s.Reaches L.scores u) (op : BinaryOp) :
    ∀ d ∈ applyOp t u op, s.Fits L d := by
  have hsum : s.Fits L (.operate t .add u) := .operate ht _ hu
  have hpositive : s.Fits L (.storeTest t (.positive t)) := .storeTest ht (List.forall_mem_singleton.mpr ht)
  have hone : s.Fits L (.storeTest t (.is t 1)) := .storeTest ht (List.forall_mem_singleton.mpr ht)
  have hcompare : ∀ op, s.Fits L (.storeTest t (.compare op t u)) := fun op =>
    .storeTest ht (List.forall_mem_cons.mpr ⟨ht, List.forall_mem_singleton.mpr hu⟩)
  cases op <;> simp [applyOp, hsum, hpositive, hone, hcompare, Fits.operate ht _ hu]

theorem yields_applyScores (op : BinaryOp) {l r : Operand} (hl : s.Gives L.scores l) (hr : s.Gives L.scores r) :
    Yields L [] s (s.applyScores op l r) := by
  have hleft : Moves L [] s (s.scoreOf l).1 := moves_scoreOf s l
  have hright : Moves L [] (s.scoreOf l).1 ((s.scoreOf l).1.scoreOf r).1 := moves_scoreOf _ r
  have happly : Moves L [] s (s.applyScores op l r).1 := by
    refine (hleft.before hright).before (.commands _ (fits_applyOp _ ?_ ?_ op))
    · exact (reaches_scoreOf s hl).mono hright.grows
    · exact reaches_scoreOf _ (hr.mono hleft.grows)
  exact ⟨happly, hl.mono happly.grows⟩

theorem yields_negate (hx : s.Gives L.scores x) : Yields L [] s (s.negate x) := by
  have hscore : Moves L [] s.newSlot.1 (s.newSlot.1.scoreOf x).1 := moves_scoreOf _ x
  have htarget := (reaches_newSlot (A := L.scores) s).mono hscore.grows
  refine yields_newScore s hscore (List.forall_mem_cons.mpr ⟨?_, List.forall_mem_singleton.mpr ?_⟩)
  · exact .set htarget ⟨Int.le_refl 0, by decide⟩
  · exact .operate htarget _ (reaches_scoreOf _ (hx.mono (grows_newSlot s)))

theorem yields_invert (hx : s.Gives L.scores x) : Yields L [] s (s.invert x) := by
  have hscore : Moves L [] s.newSlot.1 (s.newSlot.1.scoreOf x).1 := moves_scoreOf _ x
  refine yields_newScore s hscore (List.forall_mem_singleton.mpr (.storeTest ?_ (List.forall_mem_singleton.mpr ?_)))
  · exact (reaches_newSlot s).mono hscore.grows
  · exact reaches_scoreOf _ (hx.mono (grows_newSlot s))

/-- A literal is stored at once; all else is evaluated and copied, unless it is there already. -/
theorem moves_store (c : EmissionContext) {target : Location} {own : Bool} (ht : s.Gives L.scores ⟨some target, own⟩)
    (value : Expr) (emitted : Emission → Emission × Operand) (he : Yields L (value.marks c) s (emitted s)) :
    Moves L (value.marks c) s (store c s target value emitted) := by
  cases target with
  | score t =>
    have htarget : s.Reaches L.scores t := ht t rfl
    rw [store]
    dsimp only
    split
    · rename_i v hv
      rw [value.marks_of_foldConstant hv]
      exact .number s htarget v
    · split
      · rename_i source hsource
        split
        · exact he.moves
        · exact he.moves.before (moves_emit _ (.operate (htarget.mono he.moves.grows) _ (he.gives source hsource)))
      · exact he.moves
  | text t =>
    rw [store]
    dsimp only
    split
    · rename_i n text hv
      rw [← value.marks_unwrap, hv]
      exact .text s t text n.span
    · split
      · split
        · exact he.moves
        · exact he.moves.before (moves_emit _ (.copyText _ _))
      · exact he.moves

end

/-! ## Parts of statements -/

section

variable (s)

/-- The score of an operand may be tested. -/
theorem reaches_test {A : Score → Prop} (hx : s.Gives A x) (value : Nat) :
    ∀ u ∈ (Test.is (s.scoreOf x).2 value).scores, (s.scoreOf x).1.Reaches A u :=
  List.forall_mem_singleton.mpr (reaches_scoreOf s hx)

theorem moves_callIf (hx : s.Gives L.scores x) (value : Nat) {piece : FunctionName} (hp : L.functions piece) :
    Moves L [] s (s.callIf x value piece) :=
  (moves_scoreOf s x).before (moves_emit _ (.callIf (reaches_test s hx value) hp))

theorem fits_isPending (signal : Signal) {piece : FunctionName} (hp : L.functions piece) :
    s.Fits L (.callIf (isPending signal) piece) := by
  have htest : ∀ u ∈ (isPending signal).scores, s.Reaches L.scores u := List.forall_mem_singleton.mpr .pending
  exact .callIf htest hp

theorem moves_raise (signal : Signal) : Moves L [] s (s.raise signal) :=
  moves_emit s (.set .pending (isFixed_signal signal))

theorem moves_consume (signal : Signal) (raised : Bool) : Moves L [] s (s.consume signal raised) := by
  rw [consume]
  split
  · exact moves_emit s (.takeBack signal)
  · exact .stay s

theorem moves_callUnlessPending (b : Bool) {piece : FunctionName} (hp : L.functions piece) :
    Moves L [] s (s.callUnlessPending b piece) := by
  cases b with
  | true => exact moves_emit s (fits_isPending s .none hp)
  | false => exact moves_emit s (.call hp)

theorem moves_giveBack (hx : s.Gives L.scores x) : Moves L [] s (s.giveBack x) := by
  rw [giveBack]
  split
  · rename_i score hscore
    exact moves_emit s (.operate .result _ (hx score hscore))
  · exact moves_emit s (.copyText _ _)
  · exact .stay s

theorem moves_setDefault {l : Location} {own : Bool} (hl : s.Gives L.scores ⟨some l, own⟩) :
    Moves L [] s (s.setDefault l) := by
  cases l with
  | score t => exact moves_emit s (.set (hl t rfl) ⟨Int.le_refl 0, by decide⟩)
  | text p => exact moves_emit s (.noText p)

/-- A new piece is called by some command. -/
theorem moves_piece {d : Command} (hd : s.Fits (L.opening s.newPiece.2) d) {body : Emission → Emission}
    (h : ∀ t : Emission, Moves (L.opening s.newPiece.2) ms t (body t)) :
    Moves L ms s ((s.newPiece.1.emit d).inPiece s.newPiece.2 body) := .piece s hd (h _)

theorem callIf_newPiece (x : Operand) (value : Nat) : s.newPiece.1.callIf x value s.newPiece.2
    = (s.scoreOf x).1.newPiece.1.emit (.callIf (.is (s.scoreOf x).2 value) (s.scoreOf x).1.newPiece.2) := by
  cases hx : x.location with
  | none => simp only [callIf, scoreOf, hx]; rfl
  | some l =>
    cases l with
    | score t => simp only [callIf, scoreOf, hx]
    | text p => simp only [callIf, scoreOf, hx]; rfl

theorem piece_scoreOf (x : Operand) : s.newPiece.2 = (s.scoreOf x).1.newPiece.2 := by
  unfold scoreOf
  split <;> rfl

/-- A piece that is called if a boolean has a value. -/
theorem moves_pieceIf (hx : s.Gives L.scores x) (value : Nat) {body : Emission → Emission}
    (h : ∀ t : Emission, Moves (L.opening s.newPiece.2) ms t (body t)) :
    Moves L ms s ((s.newPiece.1.callIf x value s.newPiece.2).inPiece s.newPiece.2 body) := by
  have hpiece := piece_scoreOf s x
  rw [callIf_newPiece, hpiece]
  rw [hpiece] at h
  have hcall : (s.scoreOf x).1.Fits (L.opening (s.scoreOf x).1.newPiece.2)
      (.callIf (.is (s.scoreOf x).2 value) (s.scoreOf x).1.newPiece.2) :=
    .callIf (L := L.opening _) (reaches_test s hx value) (L.opened _)
  exact (moves_scoreOf s x).behind (moves_piece _ hcall h)

end

end Emission

end Craftlang
