import Craftlang.Proofs.Meaning.Flow
import Craftlang.Proofs.Refinement.Agreement

/-!
# Code of single operations

What the code of a literal, a variable, an operator and a store computes, when its operands have their
values.
-/

namespace Craftlang

open Machine Emission

namespace Word

theorem sub_zero_wrap (n : Int) : sub 0 (wrap n) = wrap (-n) := by
  rw [sub, Int.zero_sub]
  exact Int.bmod_neg_bmod

end Word

theorem isData_slot (n : Nat) : IsData ⟨.frame, .slot n⟩ := ⟨nofun, nofun⟩

theorem isData_pending : IsData Emission.pending := ⟨nofun, nofun⟩

/-- A literal that is a score is evaluated to what it stands for. -/
theorem foldConstant_value {p : Program} {c : EmissionContext} {fuel : Nat} {w w' : World}
    {v : Option Value} : (e : Expr) → {n : Int} → {ty : Ty} → foldConstant c.typing e = some n →
    e.HasType c ty → Evaluation.expr p c fuel w e = .ok (w', v) →
    w' = w ∧ ∃ u, v = some u ∧ u.cell = .number (Word.wrap n) := by
  induction fuel generalizing w w' v with
  | zero =>
    intro e n ty _ _ h
    cases h
  | succ fuel ih =>
    intro e n ty hn he h
    cases e with
    | group k inner =>
      rw [foldConstant] at hn
      rw [Evaluation.expr] at h
      cases he with
      | group he _ => exact ih inner hn he h
    | unary k op operand =>
      cases op with
      | minus =>
        rw [foldConstant] at hn
        split at hn
        · rename_i i hi
          split at hn
          · obtain ⟨a, u, ha, happly, rfl⟩ := Evaluation.expr_unary h
            cases he with
            | unary he hresult _ =>
              obtain ⟨hw, b, hb, hcell⟩ := ih operand hi he ha
              cases hb
              cases hn
              cases a with
              | int j =>
                cases happly
                obtain rfl : j = Word.wrap i := by
                  injection hcell
                exact ⟨hw, _, rfl, congrArg Cell.number (Word.sub_zero_wrap i)⟩
              | bool b => cases happly
              | string s => cases happly
          · cases hn
        · cases hn
      | plus => cases hn
      | not => cases hn
    | constant k value =>
      obtain ⟨hw, hv⟩ := Evaluation.expr_constant h
      cases value with
      | bool b =>
        cases hn
        refine ⟨hw, _, hv, ?_⟩
        cases b <;> rfl
      | int text =>
        rw [foldConstant] at hn
        split at hn
        · rename_i i hi
          split at hn
          · cases hn
            rw [Constant.value?, hi] at hv
            exact ⟨hw, _, hv, rfl⟩
          · cases hn
        · cases hn
      | string text => cases hn
    | error k => cases hn
    | ident i => cases hn
    | binary k op span l r => cases hn
    | call k target args => cases hn
    | assign k op span i value => cases hn

theorem BinaryOp.isScore_of_eval? {op : BinaryOp} {a b u : Value} (hop : op ≠ .concat)
    (h : op.eval? a b = some u) : a.type.isScore = true ∧ b.type.isScore = true := by
  cases op with
  | concat => exact absurd rfl hop
  | _ => cases a <;> cases b <;> cases h <;> exact ⟨rfl, rfl⟩

theorem BinaryOp.eval?_concat {a b u : Value} (h : BinaryOp.eval? .concat a b = some u) :
    ∃ s s', a = .string s ∧ b = .string s' ∧ u = .string (s ++ s') := by
  cases a <;> cases b <;> cases h
  exact ⟨_, _, rfl, rfl, rfl⟩

namespace Machine

variable (code : FunctionName → Option (List Command)) {m : Machine}

theorem holds_is {s : Score} {n : Int} (h : m.at? (.score s) = some (.number n)) (k : Nat) :
    m.holds (.is s k) = (n == (k : Int)) := by
  rw [holds, at?_score.mp h, Option.some_beq_some]

theorem holds_positive {s : Score} {n : Int} (h : m.at? (.score s) = some (.number n)) :
    m.holds (.positive s) = decide (0 < n) := by
  rw [holds, at?_score.mp h, Option.any_some]

theorem holds_compare {l r : Score} {a b : Int} (hl : m.at? (.score l) = some (.number a))
    (hr : m.at? (.score r) = some (.number b)) (op : Comparison) :
    m.holds (.compare op l r) = op.holds a b := by
  rw [holds, at?_score.mp hl, at?_score.mp hr]

/-- An operation whose target holds a number. -/
theorem InCall.runs_operate_numbers (h : m.InCall) {t s : Score} (ht : IsData t) (op : ScoreOp)
    {a b : Int} (hl : m.at? (.score t) = some (.number a)) (hr : m.at? (.score s) = some (.number b)) :
    ∃ m', Runs code [.operate t op s] m m' ∧ Updates (.score t) (.number (op.apply a b)) m m' := by
  have hrun := h.runs_operate code ht op hr
  rwa [at?_score.mp hl, Option.getD_some] at hrun

/-- Two numbers are compared. -/
theorem InCall.runs_compare (h : m.InCall) {t s : Score} (ht : IsData t) (op : Comparison) {a b : Int}
    (hl : m.at? (.score t) = some (.number a)) (hr : m.at? (.score s) = some (.number b)) :
    ∃ m', Runs code [.storeTest t (.compare op t s)] m m' ∧
      Updates (.score t) (Value.bool (op.holds a b)).cell m m' := by
  have hrun := h.runs_storeTest code ht (.compare op t s)
  rwa [holds_compare hl hr] at hrun

/-- The sum of two booleans is tested. -/
theorem InCall.runs_sum (h : m.InCall) {t s : Score} (ht : IsData t) {a b : Bool} (test : Test)
    {f : Bool} (hl : m.at? (.score t) = some (Value.bool a).cell)
    (hr : m.at? (.score s) = some (Value.bool b).cell)
    (hf : ∀ m' : Machine, m'.at? (.score t) = some (.number (Word.add (if a then 1 else 0)
      (if b then 1 else 0))) → m'.holds test = f) :
    ∃ m', Runs code [.operate t .add s, .storeTest t test] m m' ∧
      Updates (.score t) (Value.bool f).cell m m' := by
  obtain ⟨m₁, hruns₁, hu₁⟩ := h.runs_operate_numbers code ht .add hl hr
  obtain ⟨m₂, hruns₂, hu₂⟩ := hu₁.inCall.runs_storeTest code ht test
  refine ⟨m₂, hruns₁.append hruns₂, ?_⟩
  rw [hf m₁ hu₁.here] at hu₂
  exact hu₁.trans hu₂

/-- The commands of an operator leave its value where the left operand is. -/
theorem InCall.runs_applyOp (h : m.InCall) {op : BinaryOp} {t s : Score} (ht : IsData t)
    {a b u : Value} (hop : op ≠ .concat) (hu : op.eval? a b = some u)
    (hl : m.at? (.score t) = some a.cell) (hr : m.at? (.score s) = some b.cell) :
    ∃ m', Runs code (applyOp t s op) m m' ∧ Updates (.score t) u.cell m m' := by
  cases op with
  | concat => exact absurd rfl hop
  | add =>
    cases a <;> cases b <;> cases hu
    exact h.runs_operate_numbers _ ht .add hl hr
  | sub =>
    cases a <;> cases b <;> cases hu
    exact h.runs_operate_numbers _ ht .sub hl hr
  | mul =>
    cases a <;> cases b <;> cases hu
    exact h.runs_operate_numbers _ ht .mul hl hr
  | div =>
    cases a <;> cases b <;> cases hu
    exact h.runs_operate_numbers _ ht .div hl hr
  | mod =>
    cases a <;> cases b <;> cases hu
    exact h.runs_operate_numbers _ ht .mod hl hr
  | and =>
    cases a <;> cases b <;> cases hu
    rename_i a b
    have hrun := h.runs_operate_numbers code ht .mul hl hr
    have hproduct : Word.mul (if a then 1 else 0) (if b then 1 else 0) = if a && b then 1 else 0 := by
      cases a <;> cases b <;> rfl
    rw [ScoreOp.apply, hproduct] at hrun
    exact hrun
  | or =>
    cases a <;> cases b <;> cases hu
    rename_i a b
    refine h.runs_sum _ ht _ hl hr fun m' hm' => ?_
    rw [holds_positive hm']
    cases a <;> cases b <;> rfl
  | xor =>
    cases a <;> cases b <;> cases hu
    rename_i a b
    refine h.runs_sum _ ht _ hl hr fun m' hm' => ?_
    rw [holds_is hm']
    cases a <;> cases b <;> rfl
  | eq =>
    cases a <;> cases b <;> cases hu
    · exact h.runs_compare _ ht .eq hl hr
    · rename_i a b
      have hrun := h.runs_compare code ht .eq hl hr
      have hequal : Comparison.eq.holds (if a then 1 else 0) (if b then 1 else 0) = (a == b) := by
        cases a <;> cases b <;> rfl
      rw [hequal] at hrun
      exact hrun
  | notEq =>
    cases a <;> cases b <;> cases hu
    · exact h.runs_compare _ ht .notEq hl hr
    · rename_i a b
      have hrun := h.runs_compare code ht .notEq hl hr
      have hdiffer : Comparison.notEq.holds (if a then 1 else 0) (if b then 1 else 0) = (a != b) := by
        cases a <;> cases b <;> rfl
      rw [hdiffer] at hrun
      exact hrun
  | less =>
    cases a <;> cases b <;> cases hu
    exact h.runs_compare _ ht .less hl hr
  | lessEq =>
    cases a <;> cases b <;> cases hu
    exact h.runs_compare _ ht .lessEq hl hr
  | greater =>
    cases a <;> cases b <;> cases hu
    exact h.runs_compare _ ht .greater hl hr
  | greaterEq =>
    cases a <;> cases b <;> cases hu
    exact h.runs_compare _ ht .greaterEq hl hr

end Machine

namespace Emission

theorem commands_setText (s : Emission) (p : TextPlace) (text : Bytes) (span : Span) :
    (s.setText p text span).commands = s.commands ++ [Command.setText p text] := by
  unfold setText
  dsimp only
  split <;> rfl

theorem slots_setText (s : Emission) (p : TextPlace) (text : Bytes) (span : Span) :
    (s.setText p text span).slots = s.slots := by
  unfold setText
  dsimp only
  split <;> rfl

theorem lastSlot_setText (s : Emission) (p : TextPlace) (text : Bytes) (span : Span) :
    (s.setText p text span).lastSlot = s.lastSlot := by
  unfold setText
  dsimp only
  split <;> rfl

end Emission

namespace Layout

variable {t : Layout} {w : World} {s : Emission} {m : Machine}

theorem Agrees.constantScore (ht : t.Sound) (h : t.Agrees w .none m) (hs : s.Tidy) {n : Int}
    (hlinks : t.Links (s.constantScore n).1) {v : Value} (hv : v.cell = .number (Word.wrap n)) :
    ∃ m', t.Computes s (s.constantScore n) w (some v) m m' := by
  refine h.computes ht hs hlinks rfl rfl rfl (b := true) ?_
  rw [hv]
  exact h.inCall.runs_set _ (isData_slot _) n

theorem Agrees.setText {g : Signal} (h : t.Agrees w g m) (p : TextPlace) (text : Bytes) (span : Span) :
    ∃ cs m', (s.setText p text span).commands = s.commands ++ cs ∧ Runs t.code cs m m' ∧
      Updates (.text p) (Value.string text.withoutReturns).cell m m' := by
  obtain ⟨m', hruns, hu⟩ := h.inCall.runs_setText t.code p text
  exact ⟨_, m', commands_setText s p text span, hruns, hu⟩

/-- The value of a literal is computed into a slot. -/
theorem Agrees.literal (ht : t.Sound) (h : t.Agrees w .none m) (hs : s.Tidy) {n : Node} {k : Constant}
    (hlinks : t.Links (literal t.context s n k).1) (hk : k.Fits) {v : Value} (hv : k.value? = some v) :
    ∃ m', t.Computes s (literal t.context s n k) w (some v) m m' := by
  cases k with
  | string text =>
    cases hv
    obtain ⟨cs, m', hcs, hrun⟩ := h.setText (s := s.newText.1) s.newText.2 text n.span
    exact h.computes ht hs hlinks (slots_setText s.newText.1 ..) (lastSlot_setText s.newText.1 ..) hcs
      (b := false) ⟨m', hrun⟩
  | bool b =>
    cases hv
    refine h.constantScore ht hs hlinks ?_
    cases b <;> rfl
  | int text =>
    obtain ⟨i, hi, hle⟩ := hk
    rw [Constant.value?, hi] at hv
    cases hv
    refine h.constantScore ht hs hlinks ?_
    rw [foldConstant, hi]
    dsimp only
    rw [if_pos hle]
    rfl

end Layout

namespace Emission

theorem commands_variablePlace (c : EmissionContext) (s : Emission) (y : Nat) :
    (variablePlace c s y).1.commands = s.commands := by
  rw [variablePlace_eq]
  split
  · unfold globalOf
    split <;> rfl
  · unfold slotOf
    split <;> rfl

theorem scoreOf_eq {s : Emission} {x : Operand} {score : Score} (h : x.location = some (.score score)) :
    s.scoreOf x = (s, score) := by
  rw [scoreOf, h]

theorem textOf_eq {s : Emission} {x : Operand} {p : TextPlace} (h : x.location = some (.text p)) :
    s.textOf x = (s, p) := by
  rw [textOf, h]

end Emission

namespace Layout

variable {t : Layout} {w : World} {g : Signal} {s : Emission} {m : Machine}

/-- A variable is used where it is kept. -/
theorem Agrees.variableOperand (h : t.Agrees w .none m) {y : Nat} {v : Value}
    (hlinks : t.Links (variablePlace t.context s y).1)
    (hv : w.read? t.context.resolution y = some v) :
    t.Computes s (variableOperand (variablePlace t.context s y)) w (some v) m m := by
  refine ⟨h.reaches (commands_variablePlace ..), fun u hu => ?_⟩
  cases hu
  exact .shared hlinks.variablePlace hv

/-- Code runs from one machine to another, where a value has a slot of its own. -/
structure Owns (t : Layout) (low : Nat) (s : Emission) (out : Emission × Operand) (w : World) (v : Value)
    (m m' : Machine) : Prop where
  reaches : t.Reaches low s out.1 w .none m m'
  own : out.2.isOwn = true
  carries : t.Carries w m' low out.1.lastSlot out.2 v

theorem Computes.owns {out : Emission × Operand} {v : Value} {low : Nat} {m' : Machine}
    (h : t.Computes s out w (some v) m m') (ho : out.2.isOwn = true) (hle : low ≤ s.lastSlot) :
    t.Owns low s out w v m m' :=
  ⟨h.reaches.mono hle, ho, (h.carries v rfl).mono hle⟩

theorem Agrees.owns (h : t.Agrees w .none m) {x : Operand} {v : Value} {low : Nat} (ho : x.isOwn = true)
    (hx : t.Carries w m low s.lastSlot x v) : t.Owns low s (s, x) w v m m :=
  ⟨h.reaches rfl, ho, hx⟩

theorem Agrees.ownScore (ht : t.Sound) (h : t.Agrees w .none m) (hs : s.Tidy) {x : Operand} {v : Value}
    {low : Nat} (hlinks : t.Links (s.ownScore x).1) (hx : t.Carries w m low s.lastSlot x v)
    (hv : v.type.isScore = true) (hle : low ≤ s.lastSlot) :
    ∃ m', t.Owns low s (s.ownScore x) w v m m' := by
  rw [Emission.ownScore] at hlinks ⊢
  cases ho : x.isOwn with
  | true => exact ⟨m, h.owns ho hx⟩
  | false =>
    rw [ho, if_neg Bool.false_ne_true] at hlinks
    rw [if_neg Bool.false_ne_true]
    obtain ⟨score, hscore, hat⟩ := hx.exists_score h hv
    obtain ⟨n, hn⟩ := Value.exists_number hv
    have hcopy : s.copyScore x = (s.newScore.1.emit (.operate s.newScore.2 .copy score),
        ⟨some (.score s.newScore.2), true⟩) := by
      unfold copyScore
      dsimp only
      rw [scoreOf_eq hscore]
    rw [hcopy] at hlinks ⊢
    obtain ⟨m', hm'⟩ := h.computes ht hs hlinks rfl rfl rfl (b := true) (v := v) (by
      rw [hn] at hat ⊢
      exact h.inCall.runs_operate _ (isData_slot _) .copy hat)
    exact ⟨m', hm'.owns rfl hle⟩

theorem Agrees.ownText (ht : t.Sound) (h : t.Agrees w .none m) (hs : s.Tidy) {x : Operand}
    {text : Bytes} {low : Nat} (hlinks : t.Links (s.ownText x).1)
    (hx : t.Carries w m low s.lastSlot x (.string text)) (hle : low ≤ s.lastSlot) :
    ∃ m', t.Owns low s (s.ownText x) w (.string text) m m' := by
  rw [Emission.ownText] at hlinks ⊢
  cases ho : x.isOwn with
  | true => exact ⟨m, h.owns ho hx⟩
  | false =>
    rw [ho, if_neg Bool.false_ne_true] at hlinks
    rw [if_neg Bool.false_ne_true]
    obtain ⟨p, hp, hat⟩ := hx.exists_text h
    have hcopy : s.copyText x = (s.newText.1.emit (.copyText s.newText.2 p),
        ⟨some (.text s.newText.2), true⟩) := by
      unfold Emission.copyText
      dsimp only
      rw [textOf_eq hp]
    rw [hcopy] at hlinks ⊢
    obtain ⟨m', hm'⟩ := h.computes ht hs hlinks rfl rfl rfl (b := false) (v := .string text)
      (h.inCall.runs_copyText _ hat)
    exact ⟨m', hm'.owns rfl hle⟩

theorem Agrees.own (ht : t.Sound) (h : t.Agrees w .none m) (hs : s.Tidy) {x : Operand} {v : Value}
    {low : Nat} (hlinks : t.Links (s.own x).1) (hx : t.Carries w m low s.lastSlot x v)
    (hle : low ≤ s.lastSlot) : ∃ m', t.Owns low s (s.own x) w v m m' := by
  cases v with
  | string text =>
    obtain ⟨p, hp, -⟩ := hx.exists_text h
    have hown : s.own x = s.ownText x := by rw [Emission.own, hp]
    rw [hown] at hlinks ⊢
    exact h.ownText ht hs hlinks hx hle
  | int n =>
    obtain ⟨score, hscore, -⟩ := hx.exists_score h rfl
    have hown : s.own x = s.ownScore x := by rw [Emission.own, hscore]
    rw [hown] at hlinks ⊢
    exact h.ownScore ht hs hlinks hx rfl hle
  | bool b =>
    obtain ⟨score, hscore, -⟩ := hx.exists_score h rfl
    have hown : s.own x = s.ownScore x := by rw [Emission.own, hscore]
    rw [hown] at hlinks ⊢
    exact h.ownScore ht hs hlinks hx rfl hle

/-- The place of a slot holds a score if it holds a number. -/
theorem eq_slot_of_score {b : Bool} {n : Nat} {score : Score}
    (h : slotPlace b n = .score score) : score = ⟨.frame, .slot n⟩ := by
  cases b <;> cases h
  rfl

/-- An operator is applied where the left operand has its slot. -/
theorem Agrees.applyScores (ht : t.Sound) (h : t.Agrees w .none m) {op : BinaryOp} {l r : Operand}
    {a b u : Value} {low low' high' : Nat} (hop : op ≠ .concat) (hu : op.eval? a b = some u)
    (hl : t.Carries w m low s.lastSlot l a) (hown : l.isOwn = true)
    (hr : t.Carries w m low' high' r b) :
    ∃ m', t.Owns low s (s.applyScores op l r) w u m m' := by
  obtain ⟨ha, hb⟩ := BinaryOp.isScore_of_eval? hop hu
  obtain ⟨left, hleft, hla⟩ := hl.exists_score h ha
  obtain ⟨right, hright, hrb⟩ := hr.exists_score h hb
  have hemit : s.applyScores op l r = (s.emitAll (applyOp left right op), l) := by
    unfold Emission.applyScores
    rw [scoreOf_eq hleft]
    dsimp only
    rw [scoreOf_eq hright]
  rw [hemit]
  cases hl with
  | shared _ _ => cases hown
  | own hlow hhigh hf hv =>
    rename_i place n
    obtain rfl := eq_slot_of_score (Option.some.inj hleft)
    have hplace := Option.some.inj hleft
    obtain ⟨m', hruns, hupdate⟩ := h.inCall.runs_applyOp t.code (isData_slot n) hop hu hla hrb
    rw [← hplace] at hupdate
    exact ⟨m', h.reaches_scratch rfl hruns hupdate (ht.isScratch_slot hf place) (.later hupdate hlow),
      rfl, .own hlow hhigh hf hupdate.here⟩

/-- A score that is a variable's says nothing about frames. -/
theorem Sound.isData (ht : t.Sound) {y : Nat} {score : Score} (hy : t.place? y = some (.score score)) :
    IsData score := by
  rcases place?_cases hy with ⟨-, hy⟩ | ⟨-, n, -, hl⟩
  · obtain ⟨k, name, rfl⟩ := ht.isGlobal hy
    exact ⟨nofun, nofun⟩
  · rw [eq_slot_of_score hl.symm]
    exact isData_slot n

/-- An operator is applied where a variable is kept. -/
theorem Agrees.updateScore (ht : t.Sound) (h : t.Agrees w .none m) {op : BinaryOp} {r : Operand}
    {y : Nat} {place : Location} {a b u : Value} {low high d : Nat} (hop : op ≠ .concat)
    (hu : op.eval? a b = some u) (hy : t.place? y = some place)
    (ha : w.read? t.context.resolution y = some a) (hr : t.Carries w m low high r b) :
    ∃ m', t.Reaches d s (s.applyScores op ⟨some place, false⟩ r).1
      (w.write t.context.resolution y u) .none m m' := by
  obtain ⟨hascore, hbscore⟩ := BinaryOp.isScore_of_eval? hop hu
  have hl : t.Carries w m low high ⟨some place, false⟩ a := .shared hy ha
  obtain ⟨left, hleft, hla⟩ := hl.exists_score h hascore
  obtain ⟨right, hright, hrb⟩ := hr.exists_score h hbscore
  have hemit : (s.applyScores op ⟨some place, false⟩ r).1 = s.emitAll (applyOp left right op) := by
    unfold Emission.applyScores
    rw [scoreOf_eq hleft]
    dsimp only
    rw [scoreOf_eq hright]
  obtain rfl := Option.some.inj hleft
  obtain ⟨m', hruns, hupdate⟩ := h.inCall.runs_applyOp t.code (ht.isData hy) hop hu hla hrb
  rw [hemit]
  exact ⟨m', ⟨_, rfl, hruns⟩, h.write ht hy hupdate, .place ht hy hupdate⟩

/-- Two strings are joined where the left one has its slot. -/
theorem Agrees.join (ht : t.Sound) (h : t.Agrees w .none m) {l r : Operand} {a b : Bytes}
    {low low' high' : Nat} (hj : t.code .joiner = some [.joinedText])
    (hl : t.Carries w m low s.lastSlot l (.string a)) (hown : l.isOwn = true)
    (hr : t.Carries w m low' high' r (.string b)) :
    ∃ m', t.Owns low s (s.join l r) w (.string (a ++ b)) m m' := by
  obtain ⟨lp, hlp, hla⟩ := hl.exists_text h
  obtain ⟨m₁, hruns₁, hu₁⟩ := h.inCall.runs_copyText t.code (p := .left) hla
  obtain ⟨h₁, hk₁⟩ := h.pass ht hu₁ trivial
  obtain ⟨rp, hrp, hrb⟩ := (hr.later (hk₁ _) (.inr rfl) (Nat.le_refl _)).exists_text h₁
  obtain ⟨m₂, hruns₂, hu₂⟩ := h₁.inCall.runs_copyText t.code (p := .right) hrb
  obtain ⟨h₂, hk₂⟩ := h₁.pass ht hu₂ trivial
  have hleft : m₂.at? (.text .left) = some (.text a) := (hu₂.there (.text .left) nofun).trans hu₁.here
  obtain ⟨m₃, hruns₃, hu₃⟩ := h₂.inCall.runs_joinTexts hj hleft hu₂.here
  obtain ⟨h₃, hk₃⟩ := h₂.pass ht hu₃ trivial
  obtain ⟨m₄, hruns₄, hu₄⟩ := h₃.inCall.runs_copyText t.code (p := lp) hu₃.here
  have hemit : s.join l r = (s.emitAll [.copyText .left lp, .copyText .right rp, .joinTexts,
      .copyText lp .result], l) := by
    unfold Emission.join
    rw [textOf_eq hlp]
    dsimp only
    rw [textOf_eq hrp]
  rw [hemit]
  cases hl with
  | shared _ _ => cases hown
  | own hlow hhigh hf hv =>
    rename_i place n
    rw [← Option.some.inj hlp] at hu₄
    have hkeeps : t.Keeps low m m₃ := ((hk₁ low).trans (hk₂ low)).trans (hk₃ low)
    exact ⟨m₄, ⟨⟨_, rfl, hruns₁.append (hruns₂.append (hruns₃.append hruns₄))⟩,
      h₃.scratch (ht.isScratch_slot hf place) hu₄, hkeeps.trans (.later hu₄ hlow)⟩, rfl,
      .own hlow hhigh hf hu₄.here⟩

/-- A number is negated into a slot. -/
theorem Agrees.negate (ht : t.Sound) (h : t.Agrees w .none m) (hs : s.Tidy) {x : Operand} {n : Int}
    {low : Nat} (hlinks : t.Links (s.negate x).1) (hx : t.Carries w m low s.lastSlot x (.int n)) :
    ∃ m', t.Computes s (s.negate x) w (some (.int (Word.sub 0 n))) m m' := by
  obtain ⟨score, hscore, -⟩ := hx.exists_score h rfl
  have hemit : s.negate x = (s.newScore.1.emitAll [.set s.newScore.2 0, .operate s.newScore.2 .sub score],
      ⟨some (.score s.newScore.2), true⟩) := by
    unfold Emission.negate
    dsimp only
    rw [scoreOf_eq hscore]
  rw [hemit] at hlinks ⊢
  have hfree : t.IsFree (s.lastSlot + 1) :=
    hlinks.isFree hs rfl (Nat.lt_succ_self _) (Nat.le_refl _)
  refine h.computes ht hs hlinks rfl rfl rfl (b := true) ?_
  obtain ⟨m₁, hruns₁, hu₁⟩ := h.inCall.runs_set t.code (isData_slot (s.lastSlot + 1)) 0
  have h₁ : t.Agrees w .none m₁ := h.scratch (ht.isScratch_slot hfree true) hu₁
  -- The new slot is none that the operand could be in.
  have hkeeps : t.Keeps s.lastSlot m m₁ := .later (b := true) hu₁ (Nat.lt_succ_self _)
  have hx₁ := hx.later hkeeps (.inr rfl) (Nat.le_refl _)
  obtain ⟨score', hscore', hat⟩ := hx₁.exists_score h₁ rfl
  obtain rfl : score' = score := by
    rw [hscore] at hscore'
    cases hscore'
    rfl
  obtain ⟨m₂, hruns₂, hu₂⟩ := hu₁.inCall.runs_operate_numbers t.code
    (isData_slot (s.lastSlot + 1)) .sub hu₁.here hat
  exact ⟨m₂, hruns₁.append hruns₂, hu₁.trans hu₂⟩

/-- A boolean is inverted into a slot. -/
theorem Agrees.invert (ht : t.Sound) (h : t.Agrees w .none m) (hs : s.Tidy) {x : Operand} {b : Bool}
    {low high : Nat} (hlinks : t.Links (s.invert x).1) (hx : t.Carries w m low high x (.bool b)) :
    ∃ m', t.Computes s (s.invert x) w (some (.bool !b)) m m' := by
  obtain ⟨score, hscore, hat⟩ := hx.exists_score h rfl
  have hemit : s.invert x = (s.newScore.1.emit (.storeTest s.newScore.2 (.is score 0)),
      ⟨some (.score s.newScore.2), true⟩) := by
    unfold Emission.invert
    dsimp only
    rw [scoreOf_eq hscore]
  rw [hemit] at hlinks ⊢
  refine h.computes ht hs hlinks rfl rfl rfl (b := true) ?_
  have hrun := h.inCall.runs_storeTest t.code (isData_slot (s.lastSlot + 1)) (.is score 0)
  rw [holds_is hat] at hrun
  cases b <;> exact hrun

end Layout

/-- A string literal is evaluated to what it stands for. -/
theorem unwrap_value {p : Program} {c : EmissionContext} {fuel : Nat} {w w' : World} {v : Option Value} :
    (e : Expr) → {n : Node} → {text : Bytes} → e.unwrap = .constant n (.string text) →
    Evaluation.expr p c fuel w e = .ok (w', v) → w' = w ∧ v = some (.string text.withoutReturns) := by
  induction fuel generalizing w w' v with
  | zero =>
    intro e n text _ h
    cases h
  | succ fuel ih =>
    intro e n text he h
    cases e with
    | group k inner =>
      rw [Evaluation.expr] at h
      exact ih inner he h
    | constant k value =>
      obtain ⟨hw, hv⟩ := Evaluation.expr_constant h
      cases he
      exact ⟨hw, hv⟩
    | error k => cases he
    | ident i => cases he
    | unary k op operand => cases he
    | binary k op span l r => cases he
    | call k target args => cases he
    | assign k op span i value => cases he

theorem Machine.Updates.same {m : Machine} {l : Location} {cell : Cell} (h : m.InCall)
    (hl : m.at? l = some cell) : Updates l cell m m :=
  ⟨h, hl, fun _ _ => rfl, rfl, rfl, rfl⟩

namespace Layout

variable {t : Layout} {w w' : World} {s s' : Emission} {m m' : Machine}

/-- The value at a place becomes the value of a variable. -/
theorem Reaches.write (ht : t.Sound) {bound : Nat} {y : Nat} {l : Location} {v : Value} {m'' : Machine}
    {s'' : Emission} {cs : List Command} (h : t.Reaches bound s s' w .none m m')
    (hc : s''.commands = s'.commands ++ cs) (hr : Runs t.code cs m' m'') (hy : t.place? y = some l)
    (hu : Updates l v.cell m' m'') :
    t.Reaches bound s s'' (w.write t.context.resolution y v) .none m m'' :=
  h.trans ⟨⟨cs, hc, hr⟩, h.agrees.write ht hy hu, .place ht hy hu⟩

/-- A value is stored at the place of a variable: a literal at once, all else when it is evaluated. -/
theorem Agrees.store (ht : t.Sound) (h : t.Agrees w .none m) {p : Program} {fuel : Nat} {e : Expr}
    {ty : Ty} {y : Nat} {l : Location} {v : Value} {emitted : Emission → Emission × Operand}
    (he : e.HasType t.context ty)
    (heval : Evaluation.expr p t.context fuel w e = .ok (w', some v))
    (hv : v.type = t.context.typing.typeOfSymbol y) (hy : t.place? y = some l)
    (hlinks : t.Links (store t.context s l e emitted))
    (hx : t.Links (emitted s).1 → ∃ m', t.Computes s (emitted s) w' (some v) m m') :
    ∃ m', t.Reaches s.lastSlot s (store t.context s l e emitted)
      (w'.write t.context.resolution y v) .none m m' := by
  have hholds := ht.holds hy
  rw [← hv] at hholds
  cases l with
  | score target =>
    rw [Emission.store] at hlinks ⊢
    dsimp only at hlinks ⊢
    split at hlinks
    · rename_i n hn
      obtain ⟨rfl, u, hu, hcell⟩ := foldConstant_value e hn he heval
      cases hu
      obtain ⟨m', hruns, hupdate⟩ := h.inCall.runs_set t.code (ht.isData hy) n
      rw [← hcell] at hupdate
      exact ⟨m', (h.reaches rfl).write ht rfl hruns hy hupdate⟩
    · have hbefore : t.Links (emitted s).1 := by
        refine hlinks.before ?_
        split
        · split
          · exact .refl _
          · exact grows_emit _ _
        · exact .refl _
      obtain ⟨m₁, hm₁⟩ := hx hbefore
      obtain ⟨source, hsource, hat⟩ := (hm₁.carries v rfl).exists_score hm₁.reaches.agrees hholds
      rw [hsource]
      dsimp only
      split
      · rename_i heq
        subst heq
        exact ⟨m₁, hm₁.reaches.write ht (List.append_nil _).symm (.nil m₁) hy
          (.same hm₁.reaches.agrees.inCall hat)⟩
      · obtain ⟨n, hn⟩ := Value.exists_number hholds
        rw [hn] at hat
        obtain ⟨m', hruns, hupdate⟩ := hm₁.reaches.agrees.inCall.runs_operate t.code
          (ht.isData hy) .copy hat
        rw [ScoreOp.apply, ← hn] at hupdate
        exact ⟨m', hm₁.reaches.write ht rfl hruns hy hupdate⟩
  | text target =>
    obtain ⟨text, rfl⟩ := Value.exists_string hholds
    rw [Emission.store] at hlinks ⊢
    dsimp only at hlinks ⊢
    split at hlinks
    · rename_i n literal hn
      obtain ⟨rfl, hu⟩ := unwrap_value e hn heval
      cases hu
      obtain ⟨cs, m', hcs, hruns, hupdate⟩ := h.setText (s := s) target literal n.span
      exact ⟨m', (h.reaches rfl).write ht hcs hruns hy hupdate⟩
    · have hbefore : t.Links (emitted s).1 := by
        refine hlinks.before ?_
        split
        · split
          · exact .refl _
          · exact grows_emit _ _
        · exact .refl _
      obtain ⟨m₁, hm₁⟩ := hx hbefore
      obtain ⟨source, hsource, hat⟩ := (hm₁.carries _ rfl).exists_text hm₁.reaches.agrees
      rw [hsource]
      dsimp only
      split
      · rename_i heq
        subst heq
        exact ⟨m₁, hm₁.reaches.write ht (List.append_nil _).symm (.nil m₁) hy
          (.same hm₁.reaches.agrees.inCall hat)⟩
      · obtain ⟨m', hruns, hupdate⟩ := hm₁.reaches.agrees.inCall.runs_copyText t.code
          (p := target) hat
        exact ⟨m', hm₁.reaches.write ht rfl hruns hy hupdate⟩

end Layout

end Craftlang
