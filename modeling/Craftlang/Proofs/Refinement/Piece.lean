import Craftlang.Proofs.Refinement.Expr

/-!
# Pieces and signals

A piece runs when it is called, and is passed by when the test of the call does not hold. A signal is
raised, tested and taken back without any variable being touched.
-/

namespace Craftlang

open Machine Emission

/-- A piece before anything is emitted for it. -/
def Emission.blank (s : Emission) : Emission := { s with commands := [] }

/-- A command that calls a function does what a plain call of it does. -/
theorem Machine.Runs.of_call {code : FunctionName → Option (List Command)} {m m' : Machine}
    {f : FunctionName} {c : Command} (h : Runs code [.call f] m m') (hc : m.called? c = some f) :
    Runs code [c] m m' := by
  obtain ⟨fuel, h⟩ := h
  cases fuel with
  | zero => cases h
  | succ fuel =>
    refine ⟨fuel + 1, ?_⟩
    rw [run] at h ⊢
    rw [hc]
    exact h

theorem Machine.InCall.called?_callIf {m : Machine} (h : m.InCall) {test : Test} {b : Bool}
    (ht : m.holds test = b) (f : FunctionName) :
    m.called? (.callIf test f) = if b then some f else none := by
  rw [called?, h.isSome_running?, ht, Bool.true_and]

theorem Emission.block_eq (c : EmissionContext) (s : Emission) (b : Block) :
    block c s b = stmts c s b.stmts := by
  cases b with
  | mk n body => rw [block, Block.stmts]

theorem Emission.callIf_eq {s : Emission} {x : Operand} {score : Score}
    (h : x.location = some (.score score)) (value : Nat) (piece : FunctionName) :
    s.callIf x value piece = s.emit (.callIf (.is score value) piece) := by
  unfold callIf
  rw [scoreOf_eq h]

namespace Layout

section

variable {t : Layout} {w w' : World} {g : Signal} {s s' called : Emission} {m m' : Machine} {d : Nat}
  {name : FunctionName} {body : Emission → Emission} {c : Command} {ends : Signal → Prop}
  {v : Option Value}

/-- The code of a piece is there, and fits the layout itself. -/
theorem Links.inPiece (h : t.Links (called.inPiece name body)) :
    t.Links (body called.blank) ∧ t.code name = some (body called.blank).commands := by
  refine ⟨⟨h.slots, h.globals, fun e he => h.functions e ?_, h.joiner⟩, h.functions (name, _) ?_⟩
  · exact List.mem_append_left _ he
  · exact List.mem_append_right _ (List.mem_singleton_self _)

/-- The code of a piece is all that is emitted for it. -/
theorem Reaches.runs (h : t.Reaches d called.blank s' w g m m') : Runs t.code s'.commands m m' := by
  obtain ⟨cs, hcs, hruns⟩ := h.emits
  rw [hcs]
  exact hruns

/-- A piece that is called does what its code does. -/
theorem Yields.piece (h : t.Yields d called.blank (body called.blank) w' ends v m m')
    (hcode : t.code name = some (body called.blank).commands) (hcall : m.called? c = some name)
    (hcs : s'.commands = s.commands ++ [c]) : t.Yields d s s' w' ends v m m' := by
  obtain ⟨g, hg, hreaches⟩ := h.exists_signal
  exact ⟨⟨g, hg, ⟨[c], hcs, .call hcall hcode hreaches.runs⟩, hreaches.agrees, hreaches.keeps⟩, h.gives⟩

/-- A piece that is not called does nothing. -/
theorem Agrees.skips (h : t.Agrees w g m) (hrun : Runs t.code [c] m m)
    (hcs : s'.commands = s.commands ++ [c]) : t.Reaches d s s' w g m m :=
  ⟨⟨[c], hcs, hrun⟩, h, .refl t _ m⟩

theorem Yields.after {s₁ : Emission} {w₁ : World} {m₁ : Machine}
    (h : t.Yields d s₁ s' w' ends v m₁ m') (hr : t.Reaches d s s₁ w₁ g m m₁) :
    t.Yields d s s' w' ends v m m' := by
  obtain ⟨k, hk, hreaches⟩ := h.exists_signal
  exact ⟨⟨k, hk, hr.trans hreaches⟩, h.gives⟩

/-- Another command that calls the same function does the same. -/
theorem Yields.calls {s₁ s₂ : Emission} (h : t.Yields d s (s.emit (.call name)) w' ends v m m')
    (hcall : m.called? c = some name) (hcs : s₂.commands = s₁.commands ++ [c]) :
    t.Yields d s₁ s₂ w' ends v m m' := by
  obtain ⟨g, hg, hreaches⟩ := h.exists_signal
  obtain ⟨cs, hemit, hruns⟩ := hreaches.emits
  obtain rfl : [.call name] = cs := List.append_cancel_left hemit
  exact ⟨⟨g, hg, ⟨[c], hcs, hruns.of_call hcall⟩, hreaches.agrees, hreaches.keeps⟩, h.gives⟩

theorem Yields.mono {d' : Nat} (h : t.Yields d s s' w' ends v m m') (hle : d' ≤ d) :
    t.Yields d' s s' w' ends v m m' := by
  obtain ⟨g, hg, hreaches⟩ := h.exists_signal
  exact ⟨⟨g, hg, hreaches.mono hle⟩, h.gives⟩

/-- A boolean is tested where its operand is kept. -/
theorem Carries.exists_test {low high : Nat} {x : Operand} {b : Bool}
    (hx : t.Carries w m low high x (.bool b)) (h : t.Agrees w g m) :
    ∃ score, x.location = some (.score score) ∧ m.holds (.is score 1) = b ∧
      m.holds (.is score 0) = !b := by
  obtain ⟨score, hscore, hat⟩ := hx.exists_score h rfl
  refine ⟨score, hscore, ?_⟩
  rw [holds_is hat, holds_is hat]
  cases b <;> decide

/-- The signal that is pending is the one that is found pending. -/
theorem Agrees.holds_isPending (h : t.Agrees w g m) (k : Signal) :
    m.holds (isPending k) = decide (g = k) := by
  rw [isPending, holds_is h.pending]
  cases g <;> cases k <;> rfl

/-- Another signal is pending; nothing else is changed. -/
theorem Agrees.signal (ht : t.Sound) (h : t.Agrees w g m) {k : Signal}
    (hu : Updates (.score Emission.pending) (.number k.number) m m') :
    t.Agrees w k m' ∧ (∀ d, t.Keeps d m m') ∧ ∀ b, m'.at? (resultPlace b) = m.at? (resultPlace b) := by
  refine ⟨⟨hu.inCall, fun y v hv => ?_, fun y l hg hl hnone => ?_, hu.here, hu.actions.trans h.actions⟩,
    fun d => .update hu fun n _ _ b heq => ?_, fun b => hu.there _ ?_⟩
  · obtain ⟨l, hl, hv⟩ := h.holds y v hv
    exact ⟨l, hl, (hu.there l (ht.ne_pending hl)).trans hv⟩
  · have hplace : t.place? y = some l := by rw [place?, if_pos hg, hl]
    exact (hu.there l (ht.ne_pending hplace)).trans (h.untouched y l hg hl hnone)
  · cases b <;> cases heq
  · exact resultPlace_ne_pending b

theorem Signal.wrap_number (k : Signal) : Word.wrap k.number = k.number := by
  cases k <;> rfl

/-- A signal is raised. -/
theorem Agrees.raise (ht : t.Sound) (h : t.Agrees w g m) (k : Signal) :
    ∃ m', t.Reaches d s (s.raise k) w k m m' ∧ ∀ b, m'.at? (resultPlace b) = m.at? (resultPlace b) := by
  obtain ⟨m', hruns, hu⟩ := h.inCall.runs_set t.code isData_pending k.number
  rw [Signal.wrap_number] at hu
  obtain ⟨hagrees, hkeeps, hresult⟩ := h.signal ht hu
  exact ⟨m', ⟨⟨_, rfl, hruns⟩, hagrees, hkeeps d⟩, hresult⟩

/-- A signal that a loop may take back is gone afterwards; every other one stays. -/
theorem Agrees.consume (ht : t.Sound) (h : t.Agrees w g m) (k : Signal) (raised : Bool) :
    ∃ m', t.Reaches d s (s.consume k raised) w (if raised = true ∧ g = k then .none else g) m m' ∧
      ∀ b, m'.at? (resultPlace b) = m.at? (resultPlace b) := by
  rw [Emission.consume]
  cases raised with
  | false => exact ⟨m, h.reaches rfl, fun _ => rfl⟩
  | true =>
    simp only [if_true, true_and]
    by_cases hk : g = k
    · have htest : m.holds (isPending k) = true := by rw [h.holds_isPending, decide_eq_true hk]
      obtain ⟨m', hruns, hu⟩ := h.inCall.runs_setIf t.code htest isData_pending Signal.none.number
      rw [Signal.wrap_number] at hu
      obtain ⟨hagrees, hkeeps, hresult⟩ := h.signal ht hu
      rw [if_pos hk]
      exact ⟨m', ⟨⟨_, rfl, hruns⟩, hagrees, hkeeps d⟩, hresult⟩
    · have htest : m.holds (isPending k) = false := by rw [h.holds_isPending, decide_eq_false hk]
      have hruns : Runs t.code [.setIf (isPending k) Emission.pending Signal.none.number] m m :=
        h.inCall.runs_setIf_of_not htest _ _
      rw [if_neg hk]
      exact ⟨m, ⟨⟨_, rfl, hruns⟩, h, .refl t d m⟩, fun _ => rfl⟩

end

section

variable {t : Layout} {p : Program} {s s' : Emission} {w w' : World} {g : Signal} {m : Machine} {d : Nat}
  {body : Emission → Emission} {c : Command} {ends : Signal → Prop} {v : Option Value} {x : Operand}
  {score : Score} {value : Nat}

theorem Starts.blank (h : t.Starts p s w m) : t.Starts p s.blank w m :=
  ⟨h.hosts, h.tidy, h.typed, h.agrees⟩

/-- A new piece is called, and does what its code does. -/
theorem Starts.piece (hs : t.Starts p s w m) (hcall : m.called? c = some s.newPiece.2)
    (hlinks : t.Links ((s.newPiece.1.emit c).inPiece s.newPiece.2 body))
    (hcs : s'.commands = s.commands ++ [c])
    (hbody : ∀ inner, t.Starts p inner w m → inner.lastSlot = s.lastSlot → t.Links (body inner) →
      ∃ m', t.Yields d inner (body inner) w' ends v m m') :
    ∃ m', t.Yields d s s' w' ends v m m' := by
  obtain ⟨hinner, hcode⟩ := hlinks.inPiece
  have hcalled : t.Starts p (s.newPiece.1.emit c) w m :=
    hs.after ((grows_newPiece s).trans (grows_emit _ _)) hs.typed hs.agrees
  obtain ⟨m', hm'⟩ := hbody _ hcalled.blank rfl hinner
  exact ⟨m', hm'.piece hcode hcall hcs⟩

/-- A new piece is called because a boolean has a value. -/
theorem Starts.pieceIf (hs : t.Starts p s w m) (hx : x.location = some (.score score))
    (htest : m.holds (.is score value) = true)
    (hlinks : t.Links ((s.newPiece.1.callIf x value s.newPiece.2).inPiece s.newPiece.2 body))
    (hbody : ∀ inner, t.Starts p inner w m → inner.lastSlot = s.lastSlot → t.Links (body inner) →
      ∃ m', t.Yields d inner (body inner) w' ends v m m') :
    ∃ m', t.Yields d s ((s.newPiece.1.callIf x value s.newPiece.2).inPiece s.newPiece.2 body)
      w' ends v m m' := by
  rw [callIf_eq hx] at hlinks ⊢
  exact hs.piece (by rw [hs.agrees.inCall.called?_callIf htest, if_pos rfl]) hlinks rfl hbody

/-- A new piece is passed by because a boolean has another value. -/
theorem Agrees.skipsIf (h : t.Agrees w g m) (hx : x.location = some (.score score))
    (htest : m.holds (.is score value) = false) :
    t.Reaches d s ((s.newPiece.1.callIf x value s.newPiece.2).inPiece s.newPiece.2 body) w g m m := by
  rw [callIf_eq hx]
  exact h.skips (runs_callIf_of_not htest _) rfl

/-- What is called unless a signal is pending. -/
theorem Agrees.called?_unlessPending (h : t.Agrees w .none m) (b : Bool) (f : FunctionName) :
    m.called? (if b then .callIf (isPending .none) f else .call f) = some f := by
  cases b with
  | true =>
    refine (h.inCall.called?_callIf (h.holds_isPending .none) f).trans (if_pos ?_)
    rfl
  | false => rfl

/-- Nothing is called while a signal is pending. -/
theorem Agrees.skipsPending (h : t.Agrees w g m) (hg : g ≠ .none) (f : FunctionName)
    (hcs : s'.commands = s.commands ++ [.callIf (isPending .none) f]) : t.Reaches d s s' w g m m :=
  h.skips (runs_callIf_of_not (by rw [h.holds_isPending, decide_eq_false hg]) f) hcs

end

end Layout

end Craftlang
