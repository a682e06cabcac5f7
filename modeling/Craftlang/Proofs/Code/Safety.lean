import Craftlang.Proofs.Typing.Rules

/-!
# Code of well-typed programs

No code is missing for a well-typed program: an operand has a score or a string, as its type says, every
name that is called is a function, and what prints has something to print.
-/

namespace Craftlang

/-- Values of a type are kept at such a place. -/
def Location.Holds : Location → Ty → Prop
  | .score _, ty => ty.isScore = true
  | .text _, ty => ty.isScore = false

/-- An operand has a value of a type, if there are any. -/
def Operand.Holds (x : Operand) (ty : Ty) : Prop :=
  ty.isValue = true → ∃ l, x.location = some l ∧ l.Holds ty

theorem Operand.Holds.score {x : Operand} {ty : Ty} (h : x.Holds ty) (hty : ty.isScore = true) :
    ∃ s, x.location = some (.score s) := by
  obtain ⟨l, hl, hholds⟩ := h (by cases ty <;> first | rfl | cases hty)
  cases l with
  | score s => exact ⟨s, hl⟩
  | text p =>
    rw [Location.Holds, hty] at hholds
    cases hholds

theorem Operand.Holds.text {x : Operand} (h : x.Holds .string) : ∃ p, x.location = some (.text p) := by
  obtain ⟨l, hl, hholds⟩ := h rfl
  cases l with
  | score s => cases hholds
  | text p => exact ⟨p, hl⟩

theorem Operand.holds_score {ty : Ty} (h : ty.isScore = true) (s : Score) (own : Bool) :
    Operand.Holds ⟨some (.score s), own⟩ ty := fun _ => ⟨_, rfl, h⟩

theorem Operand.holds_text (p : TextPlace) (own : Bool) :
    Operand.Holds ⟨some (.text p), own⟩ .string := fun _ => ⟨_, rfl, rfl⟩

namespace Emission

/-- Nothing went wrong, and global variables are kept as their types say. -/
structure Safe (c : EmissionContext) (s : Emission) : Prop where
  fault : s.fault = none
  globals : ∀ e ∈ s.globals, e.2.Holds (c.typing.typeOfSymbol e.1)

section

variable {c : EmissionContext} {s : Emission}

theorem Safe.congr {s' : Emission} (h : s.Safe c) (hf : s'.fault = s.fault)
    (hg : s'.globals = s.globals) : s'.Safe c := ⟨hf.trans h.fault, fun e he => h.globals e (hg ▸ he)⟩

theorem Safe.inPiece (h : s.Safe c) (name : FunctionName) {body : Emission → Emission}
    (hb : ∀ s : Emission, s.Safe c → (body s).Safe c) : (s.inPiece name body).Safe c :=
  (hb { s with commands := [] } (h.congr rfl rfl)).congr rfl rfl

theorem scoreOf_of_holds {x : Operand} {ty : Ty} (hx : x.Holds ty) (hty : ty.isScore = true) :
    (s.scoreOf x).1 = s := by
  obtain ⟨t, ht⟩ := hx.score hty
  rw [scoreOf, ht]

theorem textOf_of_holds {x : Operand} (hx : x.Holds .string) : (s.textOf x).1 = s := by
  obtain ⟨t, ht⟩ := hx.text
  rw [textOf, ht]

theorem Safe.setText (h : s.Safe c) (target : TextPlace) (value : Bytes) (span : Span) :
    (s.setText target value span).Safe c := by
  unfold Emission.setText
  dsimp only
  split
  · exact h.congr rfl rfl
  · exact h.congr rfl rfl

theorem Safe.constantScore (h : s.Safe c) (v : Int) : (s.constantScore v).1.Safe c := h.congr rfl rfl

theorem Safe.literal (h : s.Safe c) (n : Node) (v : Constant) :
    (literal c s n v).1.Safe c ∧ (literal c s n v).2.Holds v.type := by
  cases v with
  | int text => exact ⟨h.constantScore _, Operand.holds_score rfl _ _⟩
  | bool b => exact ⟨h.constantScore _, Operand.holds_score rfl _ _⟩
  | string text =>
    have hs : s.newText.1.Safe c := h.congr rfl rfl
    exact ⟨hs.setText _ _ _, Operand.holds_text _ _⟩

/-- A variable is kept as its type says. -/
theorem Safe.variablePlace (h : s.Safe c) (y : Nat) :
    (variablePlace c s y).1.Safe c ∧ (variablePlace c s y).2.Holds (c.typing.typeOfSymbol y) := by
  unfold Emission.variablePlace
  dsimp only
  split
  · rw [globalOf]
    split
    · rename_i l hl
      obtain ⟨before, after, heq, -⟩ := List.lookup_eq_some_iff.mp hl
      exact ⟨h, h.globals (y, l) (by rw [heq]; simp)⟩
    · dsimp only
      generalize hnew : (if (c.typing.typeOfSymbol y).isScore then _ else _ : Location) = l
      have hholds : l.Holds (c.typing.typeOfSymbol y) := by
        rw [← hnew]
        cases hty : (c.typing.typeOfSymbol y).isScore with
        | true => exact hty
        | false => exact hty
      refine ⟨⟨h.fault, fun e he => ?_⟩, hholds⟩
      rcases List.mem_append.mp he with he | he
      · exact h.globals e he
      · rw [List.mem_singleton.mp he]
        exact hholds
  · have hslot : (s.slotOf y).1.Safe c := by
      rw [slotOf]
      split
      · exact h
      · exact h.congr rfl rfl
    refine ⟨hslot, ?_⟩
    cases hty : (c.typing.typeOfSymbol y).isScore with
    | true => exact hty
    | false => exact hty

theorem Safe.identPlace (h : s.Safe c) {i : Ident} {y : Nat} {ty : Ty} (hi : c.IsVariable i y ty) :
    (identPlace c s i).1.Safe c ∧ (identPlace c s i).2.Holds ty := by
  obtain ⟨href, hty, -⟩ := hi
  rw [Emission.identPlace, href, ← hty]
  exact h.variablePlace y

theorem Safe.ownScore (h : s.Safe c) {x : Operand} (ty : Ty) (hx : x.Holds ty)
    (hty : ty.isScore = true) : (s.ownScore x).1.Safe c ∧ (s.ownScore x).2.Holds ty := by
  rw [Emission.ownScore]
  split
  · exact ⟨h, hx⟩
  · unfold copyScore
    dsimp only
    rw [scoreOf_of_holds hx hty]
    exact ⟨h.congr rfl rfl, Operand.holds_score hty _ _⟩

theorem Safe.ownText (h : s.Safe c) {x : Operand} (hx : x.Holds .string) :
    (s.ownText x).1.Safe c ∧ (s.ownText x).2.Holds .string := by
  rw [Emission.ownText]
  split
  · exact ⟨h, hx⟩
  · unfold copyText
    dsimp only
    rw [textOf_of_holds hx]
    exact ⟨h.congr rfl rfl, Operand.holds_text _ _⟩

/-- Whatever an operand holds can be copied. -/
theorem Safe.own (h : s.Safe c) (x : Operand) : (s.own x).1.Safe c := by
  rw [Emission.own]
  split
  · rename_i t ht
    exact (h.ownScore .int (fun _ => ⟨_, ht, rfl⟩) rfl).1
  · rename_i t ht
    exact (h.ownText (fun _ => ⟨_, ht, rfl⟩)).1
  · exact h

theorem Safe.join (h : s.Safe c) {l r : Operand} (hl : l.Holds .string) (hr : r.Holds .string) :
    (s.join l r).1.Safe c := by
  unfold Emission.join
  dsimp only
  rw [textOf_of_holds hl, textOf_of_holds hr]
  exact h.congr rfl rfl

theorem Safe.applyScores (h : s.Safe c) (op : BinaryOp) {l r : Operand} {tl tr : Ty} (hl : l.Holds tl)
    (hr : r.Holds tr) (htl : tl.isScore = true) (htr : tr.isScore = true) :
    (s.applyScores op l r).1.Safe c := by
  unfold Emission.applyScores
  dsimp only
  rw [scoreOf_of_holds hl htl, scoreOf_of_holds hr htr]
  exact h.congr rfl rfl

theorem Safe.print (h : s.Safe c) {x : Operand} {ty : Ty} (hv : ty.isValue = true) (hx : x.Holds ty) :
    (s.print ty x).Safe c := by
  unfold Emission.print
  cases ty with
  | string =>
    dsimp only
    rw [textOf_of_holds hx]
    exact h.congr rfl rfl
  | bool =>
    dsimp only
    rw [scoreOf_of_holds hx rfl]
    exact h.congr rfl rfl
  | int =>
    dsimp only
    rw [scoreOf_of_holds hx rfl]
    exact h.congr rfl rfl
  | invalid => cases hv
  | void => cases hv
  | any => cases hv

theorem Safe.passArguments (h : s.Safe c) (place : Nat) (xs : List Operand) :
    (s.passArguments place xs).Safe c := by
  induction xs generalizing s place with
  | nil => exact h
  | cons x xs ih =>
    rw [Emission.passArguments]
    refine ih ?_ _
    split
    · exact h.congr rfl rfl
    · exact h.congr rfl rfl
    · exact h

theorem Safe.takeResult (h : s.Safe c) (ty : Ty) :
    (s.takeResult ty).1.Safe c ∧ (s.takeResult ty).2.Holds ty := by
  cases ty with
  | int => exact ⟨h.congr rfl rfl, Operand.holds_score rfl _ _⟩
  | bool => exact ⟨h.congr rfl rfl, Operand.holds_score rfl _ _⟩
  | string => exact ⟨h.congr rfl rfl, Operand.holds_text _ _⟩
  | invalid => exact ⟨h, nofun⟩
  | void => exact ⟨h, nofun⟩
  | any => exact ⟨h, nofun⟩

theorem Safe.negate (h : s.Safe c) {x : Operand} (hx : x.Holds .int) : (s.negate x).1.Safe c := by
  unfold Emission.negate
  dsimp only
  rw [scoreOf_of_holds hx rfl]
  exact h.congr rfl rfl

theorem Safe.invert (h : s.Safe c) {x : Operand} (hx : x.Holds .bool) : (s.invert x).1.Safe c := by
  unfold Emission.invert
  dsimp only
  rw [scoreOf_of_holds hx rfl]
  exact h.congr rfl rfl

theorem Safe.store (h : s.Safe c) (target : Location) (value : Expr)
    {emitted : Emission → Emission × Operand} (he : ∀ s : Emission, s.Safe c → (emitted s).1.Safe c) :
    (store c s target value emitted).Safe c := by
  cases target with
  | score t =>
    rw [Emission.store]
    dsimp only
    split
    · exact h.congr rfl rfl
    · have hs := he s h
      split
      · split
        · exact hs
        · exact hs.congr rfl rfl
      · exact hs
  | text t =>
    rw [Emission.store]
    dsimp only
    split
    · exact h.setText _ _ _
    · have hs := he s h
      split
      · split
        · exact hs
        · exact hs.congr rfl rfl
      · exact hs

end

/-- A minus sign folds into a literal, or its operand is evaluated. -/
theorem expr_minus (c : EmissionContext) (s : Emission) (n : Node) (e : Expr) :
    expr c s (.unary n .minus e) = match foldConstant c.typing (.unary n .minus e) with
      | some v => s.constantScore v
      | none => (expr c s e).1.negate (expr c s e).2 := by
  cases h : foldConstant c.typing (.unary n .minus e) <;> simp only [expr, h]

theorem result?_unary {op : UnaryOp} {s ty : Ty} (h : op.result? s = some ty) :
    op = .not ∧ s = .bool ∧ ty = .bool ∨ op ≠ .not ∧ s = .int ∧ ty = .int := by
  cases op <;> cases s <;> cases h <;> decide

theorem isScore_of_result? {op : BinaryOp} {s t ty : Ty} (hop : op ≠ .concat)
    (h : op.result? s t = some ty) :
    s.isScore = true ∧ t.isScore = true ∧ ty.isScore = true := by
  cases op with
  | concat => exact absurd rfl hop
  | _ => cases s <;> cases t <;> cases h <;> decide

theorem result?_concat {s t ty : Ty} (h : BinaryOp.result? .concat s t = some ty) :
    s = .string ∧ t = .string ∧ ty = .string := by
  cases s <;> cases t <;> cases h
  decide

theorem ne_concat_of_binary? {op : AssignOp} {b : BinaryOp} (h : op.binary? = some b) : b ≠ .concat := by
  cases op <;> cases h <;> decide

theorem calleeOf_ident {c : EmissionContext} {i : Ident} {y : Nat}
    (h : c.resolution.refOf? i.node.id = some y) : calleeOf c (.ident i) = y := by
  change (c.resolution.refOf? i.node.id).getD 0 = y
  rw [h]
  rfl

mutual

/-- A well-typed expression is evaluated without a fault. -/
theorem expr_safe {c : EmissionContext} {s : Emission} (hs : s.Safe c) : (e : Expr) → {ty : Ty} →
    e.HasType c ty → (expr c s e).1.Safe c ∧ (expr c s e).2.Holds ty
  | .error _, _, h => by cases h
  | .constant n v, _, h => by
    cases h
    rw [expr]
    exact hs.literal n v
  | .ident i, _, h => by
    cases h with
    | ident hi _ =>
      obtain ⟨hsafe, hholds⟩ := hs.identPlace hi
      rw [expr]
      exact ⟨hsafe, fun _ => ⟨_, rfl, hholds⟩⟩
  | .group _ inner, _, h => by
    cases h with
    | group hi _ =>
      rw [expr]
      exact expr_safe hs inner hi
  | .unary n op operand, _, h => by
    cases h with
    | unary ho hresult _ =>
      have hx := expr_safe hs operand ho
      rcases result?_unary hresult with ⟨rfl, rfl, rfl⟩ | ⟨hop, rfl, rfl⟩
      · rw [expr]
        exact ⟨hx.1.invert hx.2, Operand.holds_score rfl _ _⟩
      · cases op with
        | not => exact absurd rfl hop
        | plus =>
          rw [expr]
          exact hx
        | minus =>
          rw [expr_minus]
          split
          · exact ⟨hs.constantScore _, Operand.holds_score rfl _ _⟩
          · exact ⟨hx.1.negate hx.2, Operand.holds_score rfl _ _⟩
  | .binary n op span left right, _, h => by
    cases h with
    | binary hl hr hresult _ =>
      rw [expr]
      by_cases hop : op = .concat
      · rw [if_pos hop]
        subst hop
        obtain ⟨rfl, rfl, rfl⟩ := result?_concat hresult
        have hjoin : (s.joinAt span).Safe c := hs.congr rfl rfl
        obtain ⟨hls, hlx⟩ := expr_safe hjoin left hl
        obtain ⟨hos, hox⟩ := hls.ownText hlx
        obtain ⟨hrs, hrx⟩ := expr_safe hos right hr
        exact ⟨hrs.join hox hrx, hox⟩
      · rw [if_neg hop]
        obtain ⟨hsl, hsr, hty⟩ := isScore_of_result? hop hresult
        obtain ⟨hls, hlx⟩ := expr_safe hs left hl
        obtain ⟨hos, hox⟩ := hls.ownScore _ hlx hsl
        obtain ⟨hrs, hrx⟩ := expr_safe hos right hr
        refine ⟨hrs.applyScores op hox hrx hsl hsr, ?_⟩
        obtain ⟨t, ht⟩ := hox.score hsl
        exact fun _ => ⟨_, ht, hty⟩
  | .call n target args, _, h => by
    cases h with
    | print hi hprint he hv hn =>
      rename_i i y e t
      have hx := expr_safe hs e he
      rw [expr, calleeOf_ident hi]
      have harguments : arguments c s [e] = ((expr c s e).1, [(expr c s e).2]) := rfl
      rw [harguments]
      have hcall : call c (expr c s e).1 n y t [(expr c s e).2]
          = ((expr c s e).1.print t (expr c s e).2, {}) := by
        rw [call, if_pos hprint]
      have hfirst : (([e].head?.map fun e => c.typing.typeOfExpr e.id).getD .invalid) = t := he.recorded
      rw [hfirst]
      dsimp only
      rw [hcall]
      exact ⟨hx.1.print hv hx.2, nofun⟩
    | call hi hprint hf hargs hn =>
      rename_i i y f
      have ha := arguments_safe hs args hargs
      rw [expr, calleeOf_ident hi]
      dsimp only
      unfold call
      rw [if_neg (by simp [hprint]), hf]
      dsimp only
      have hpassed := ha.passArguments 1 (arguments c s args).2
      have hn : c.typing.typeOfExpr n.id = f.result := hn
      rw [hn]
      refine Safe.takeResult ?_ _
      exact hpassed.congr rfl rfl
  | .assign n op span i value, _, h => by
    cases h with
    | assign hv hi _ =>
      obtain ⟨hsafe, hholds⟩ := hs.identPlace hi
      rw [expr]
      exact ⟨hsafe.store _ value fun s hs => (expr_safe hs value hv).1, fun _ => ⟨_, rfl, hholds⟩⟩
    | update hb hv hi hresult hn =>
      rename_i b y t
      obtain ⟨hsafe, hholds⟩ := hs.identPlace hi
      obtain ⟨hvs, hvx⟩ := expr_safe hsafe value hv
      obtain ⟨hty, ht, -⟩ := isScore_of_result? (ne_concat_of_binary? hb) hresult
      have hplace : Operand.Holds ⟨some (identPlace c s i).2, false⟩ _ := fun _ => ⟨_, rfl, hholds⟩
      rw [expr]
      dsimp only
      rw [hb]
      exact ⟨hvs.applyScores b hplace hvx hty ht, hplace⟩

theorem arguments_safe {c : EmissionContext} {s : Emission} (hs : s.Safe c) : (es : List Expr) →
    {tys : List Ty} → Expr.HaveTypes c es tys → (arguments c s es).1.Safe c
  | [], _, _ => by
    rw [arguments]
    exact hs
  | e :: es, _, h => by
    cases h with
    | cons he hes =>
      have hfirst := (expr_safe hs e he).1
      rw [arguments]
      dsimp only
      split
      · exact arguments_safe (hfirst.own _) es hes
      · exact arguments_safe hfirst es hes

end

theorem Safe.callIf {c : EmissionContext} {s : Emission} (h : s.Safe c) {x : Operand}
    (hx : x.Holds .bool) (value : Nat) (piece : FunctionName) : (s.callIf x value piece).Safe c := by
  unfold Emission.callIf
  dsimp only
  rw [scoreOf_of_holds hx rfl]
  exact h.congr rfl rfl

theorem Safe.consume {c : EmissionContext} {s : Emission} (h : s.Safe c) (signal : Signal)
    (raised : Bool) : (s.consume signal raised).Safe c := by
  rw [Emission.consume]
  split
  · exact h.congr rfl rfl
  · exact h

theorem Safe.giveBack {c : EmissionContext} {s : Emission} (h : s.Safe c) (x : Operand) :
    (s.giveBack x).Safe c := by
  rw [Emission.giveBack]
  split
  · exact h.congr rfl rfl
  · exact h.congr rfl rfl
  · exact h

mutual

/-- A well-typed statement is emitted without a fault. -/
theorem stmt_safe {c : EmissionContext} {result : Option Ty} {b : Bool} {s : Emission} (hs : s.Safe c) :
    (st : Stmt) → st.Typed c result b → (stmt c s st).Safe c
  | .error _, h => by cases h
  | .var n name type value, h => by
    cases h with
    | var hd hv htype =>
      obtain ⟨hsafe, hholds⟩ := hs.variablePlace ((c.resolution.declOf? n.id).getD 0)
      rw [stmt]
      dsimp only
      cases htype with
      | some he => exact hsafe.store _ _ fun s hs => (expr_safe hs _ he).1
      | none =>
        dsimp only
        generalize variablePlace c s ((c.resolution.declOf? n.id).getD 0) = placed at hsafe
        cases hl : placed.2 <;> exact hsafe.congr rfl rfl
  | .expr _ e, h => by
    cases h with
    | expr he =>
      rw [stmt]
      exact (expr_safe hs e he).1
  | .branch _ cond body otherwise, h => by
    cases h with
    | branch hc hb ho =>
      obtain ⟨hcs, hcx⟩ := expr_safe hs cond hc
      have htest : ∀ tested : Emission × Operand, tested.1.Safe c → tested.2.Holds .bool →
          (alternative c (((tested.1.newPiece).1.callIf tested.2 1 (tested.1.newPiece).2).inPiece
            (tested.1.newPiece).2 fun s => block c s body) tested.2 otherwise).Safe c := by
        intro tested hts htx
        have hpiece : tested.1.newPiece.1.Safe c := hts.congr rfl rfl
        exact alternative_safe ((hpiece.callIf htx 1 _).inPiece _ fun s hs => block_safe hs body hb)
          htx otherwise ho
      rw [stmt]
      dsimp only
      cases hasOtherwise otherwise with
      | true =>
        obtain ⟨hos, hox⟩ := hcs.ownScore _ hcx rfl
        exact htest ((expr c s cond).1.ownScore (expr c s cond).2) hos hox
      | false => exact htest (expr c s cond) hcs hcx
  | .loop _ .before cond body, h => by
    cases h with
    | loop hc hb =>
      have hpiece : (s.newPiece.1.emit (.call s.newPiece.2)).Safe c := hs.congr rfl rfl
      rw [stmt]
      dsimp only
      refine Safe.consume (hpiece.inPiece _ fun s hs => ?_) _ _
      obtain ⟨hcs, hcx⟩ := expr_safe hs cond hc
      have hbody : (expr c s cond).1.newPiece.1.Safe c := hcs.congr rfl rfl
      refine (hbody.callIf hcx 1 _).inPiece _ fun s hs => ?_
      exact ((block_safe hs body hb).consume .again body.mayRepeat).congr rfl rfl
  | .loop _ .after cond body, h => by
    cases h with
    | loop hc hb =>
      have hpiece : (s.newPiece.1.emit (.call s.newPiece.2)).Safe c := hs.congr rfl rfl
      rw [stmt]
      dsimp only
      refine Safe.consume (hpiece.inPiece _ fun s' hs => ?_) _ _
      have hbody := (block_safe hs body hb).consume .again body.mayRepeat
      have hcheck : ∀ t : Emission, t.Safe c →
          ((expr c t cond).1.callIf (expr c t cond).2 1 s.newPiece.2).Safe c := by
        intro t ht
        obtain ⟨hcs, hcx⟩ := expr_safe ht cond hc
        exact hcs.callIf hcx 1 _
      split
      · refine Safe.inPiece ?_ _ hcheck
        exact hbody.congr rfl rfl
      · exact hcheck _ hbody
  | .leave _, _ => by
    rw [stmt]
    exact hs.congr rfl rfl
  | .again _, _ => by
    rw [stmt]
    exact hs.congr rfl rfl
  | .command .., _ => by
    rw [stmt]
    exact hs.congr rfl rfl
  | .give _ value, h => by
    cases h with
    | give _ =>
      rw [stmt]
      exact hs.congr rfl rfl
    | giveValue _ _ he =>
      rw [stmt]
      exact ((expr_safe hs _ he).1.giveBack _).congr rfl rfl

theorem block_safe {c : EmissionContext} {result : Option Ty} {b : Bool} {s : Emission}
    (hs : s.Safe c) : (body : Block) → body.Typed c result b → (block c s body).Safe c
  | .mk _ ss, h => by
    cases h with
    | mk hss =>
      rw [block]
      exact stmts_safe hs ss hss

theorem stmts_safe {c : EmissionContext} {result : Option Ty} {b : Bool} {s : Emission}
    (hs : s.Safe c) : (ss : List Stmt) → Stmt.AllTyped c result b ss → (stmts c s ss).Safe c
  | [], _ => by
    rw [stmts]
    exact hs
  | first :: rest, h => by
    cases h with
    | cons hf hr =>
      have hfirst := stmt_safe hs first hf
      rw [stmts]
      dsimp only
      split
      · exact hfirst
      · split
        · have hpiece : ((stmt c s first).newPiece.1.emit
              (.callIf (isPending .none) (stmt c s first).newPiece.2)).Safe c := hfirst.congr rfl rfl
          exact hpiece.inPiece _ fun s hs => stmts_safe hs rest hr
        · exact stmts_safe hfirst rest hr

theorem alternative_safe {c : EmissionContext} {result : Option Ty} {b : Bool} {s : Emission}
    (hs : s.Safe c) {x : Operand} (hx : x.Holds .bool) : (o : Otherwise) → o.Typed c result b →
    (alternative c s x o).Safe c
  | .none, _ => by
    rw [alternative]
    exact hs
  | .block body, h => by
    cases h with
    | block hb =>
      have hpiece : s.newPiece.1.Safe c := hs.congr rfl rfl
      rw [alternative]
      exact (hpiece.callIf hx 0 _).inPiece _ fun s hs => block_safe hs body hb
  | .chain other, h => by
    cases h with
    | chain ho =>
      have hpiece : s.newPiece.1.Safe c := hs.congr rfl rfl
      rw [alternative]
      exact (hpiece.callIf hx 0 _).inPiece _ fun s hs => stmt_safe hs other ho

end

theorem Safe.takeParams {c : EmissionContext} {s : Emission} (h : s.Safe c) (place : Nat)
    (params : List Nat) : (takeParams c s place params).Safe c := by
  induction params generalizing s place with
  | nil => exact h
  | cons param params ih =>
    have hp := (h.variablePlace param).1
    rw [Emission.takeParams]
    dsimp only
    refine ih ?_ _
    split
    · exact hp.congr rfl rfl
    · exact hp.congr rfl rfl

theorem Safe.function {c : EmissionContext} {s : Emission} (h : s.Safe c) (name : Bytes)
    (params : List Nat) {body : List Stmt} {result : Option Ty} (hb : Stmt.AllTyped c result false body) :
    (function c s name params body).Safe c := by
  have hstart : Safe c (Emission.emitAll
      { s with owner := name, slots := [], lastSlot := 0, lastPiece := 0, commands := [] }
      [.summonFrame, .numberFrame, .set pending Signal.none.number, .pushTexts]) := h.congr rfl rfl
  exact (stmts_safe (hstart.takeParams 1 params) body hb).congr rfl rfl

theorem Safe.declaredFunction {c : EmissionContext} {s : Emission} (h : s.Safe c) {f : Function}
    {info : FunctionInfo} (hf : f.Typed c info) : (declaredFunction c s f).Safe c := by
  rw [Emission.declaredFunction]
  split
  · exact h
  · have hb : Stmt.AllTyped c (some info.result) false f.body.stmts := by
      have hbody := hf.body
      cases hmk : f.body with
      | mk k ss =>
        rw [hmk] at hbody
        cases hbody with
        | mk hss => exact hss
    exact h.function _ _ hb

end Emission

open Emission

/-- Code is emitted for a well-typed program without a fault. -/
theorem Program.emit_safe {p : Program} {r : Resolution} {t : Typing} (h : p.Typed ⟨r, t⟩) :
    (p.emit r t).Safe ⟨r, t⟩ := by
  have hentry : Safe ⟨r, t⟩ (function ⟨r, t⟩ {} ResourceName.entry [] p.topLevel) :=
    Safe.function ⟨rfl, fun e he => (by cases he)⟩ _ _ h.topLevel
  have hrun : ∀ (fs : List Function) (infos : List FunctionInfo) (s : Emission), s.Safe ⟨r, t⟩ →
      List.Forall₂ (Function.Typed ⟨r, t⟩) fs infos →
      (fs.foldl (declaredFunction ⟨r, t⟩) s).Safe ⟨r, t⟩ := by
    intro fs infos s hs hfs
    induction hfs generalizing s with
    | nil => exact hs
    | cons hf _ ih => exact ih _ (hs.declaredFunction hf)
  exact hrun p.functions t.functions _ hentry h.functions

end Craftlang
