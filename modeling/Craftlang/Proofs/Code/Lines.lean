import Craftlang.Proofs.Code.Names
import Craftlang.Proofs.Code.Walks

/-!
# What lines of code are made of

The commands that are added for a statement name slots that were given out, arguments that its calls hand
over, and otherwise objectives that every program has. The numbers that they set scores to are those of its
literals and a few fixed ones.
-/

namespace Craftlang

namespace Emission

/-- All commands so far. -/
def lines (s : Emission) : List Command := s.functions.flatMap (·.2) ++ s.commands

/-- Is an objective one that every program has, a slot that was given out, or an argument of a call? -/
def Provides (s : Emission) : Objective → Prop
  | .slot n => 0 < n ∧ n ≤ s.lastSlot
  | .argument n => 0 < n ∧ n ≤ s.argumentCount
  | _ => True

/-- Variables have slots that were given out, or places of global variables. -/
structure Placed (s : Emission) : Prop where
  slots : ∀ e ∈ s.slots, 0 < e.2 ∧ e.2 ≤ s.lastSlot
  globals : ∀ e ∈ s.globals, ∃ n, e.2.IsGlobal n

/-- The number is that of a literal in some expressions. -/
def IsLiteral (t : Typing) (es : List Expr) (v : Int) : Prop :=
  ∃ l ∈ es.flatMap (Expr.literals t), foldConstant t l = some v

/-- Some call among the parts of some expressions hands over so many arguments. -/
def IsPassed (c : EmissionContext) (es : List Expr) (k : Nat) : Prop :=
  ∃ part ∈ es.flatMap Expr.lowered, k ≤ part.arity c

/-- Commands are added that leave some marks. -/
structure Adds (ms : List Mark) (s s' : Emission) : Prop where
  lastSlot : s.lastSlot ≤ s'.lastSlot
  slotCount : s'.slotCount = s.slotCount
  arguments : ∀ k, k ≤ s'.argumentCount ↔ k ≤ s.argumentCount ∨ ∃ m ∈ ms, k ≤ m.arity
  kept : s.lines ⊆ s'.lines
  added : ∀ d ∈ s'.lines, d ∈ s.lines ∨ (∀ x ∈ d.objectives, s'.Provides x) ∧
    ∀ v, d.constant? = some v → IsFixed v ∨ .number v ∈ ms
  numbers : ∀ v, .number v ∈ ms → ∃ d ∈ s'.lines, d.constant? = some v

variable {c : EmissionContext} {es fs : List Expr} {ms ns : List Mark} {s s' s'' : Emission}

theorem Provides.mono {x : Objective} (h : s.Provides x) (hslot : s.lastSlot ≤ s'.lastSlot)
    (hcount : s.argumentCount ≤ s'.argumentCount) : s'.Provides x := by
  cases x with
  | slot n => exact ⟨h.1, Nat.le_trans h.2 hslot⟩
  | argument n => exact ⟨h.1, Nat.le_trans h.2 hcount⟩
  | _ => trivial

theorem isLiteral_append {t : Typing} {v : Int} :
    IsLiteral t (es ++ fs) v ↔ IsLiteral t es v ∨ IsLiteral t fs v := by
  simp only [IsLiteral, List.flatMap_append, List.mem_append, or_and_right, exists_or]

theorem isPassed_append {k : Nat} : IsPassed c (es ++ fs) k ↔ IsPassed c es k ∨ IsPassed c fs k := by
  simp only [IsPassed, List.flatMap_append, List.mem_append, or_and_right, exists_or]

theorem not_isLiteral_nil {t : Typing} {v : Int} : ¬ IsLiteral t [] v := by simp [IsLiteral]

theorem not_isPassed_nil {k : Nat} : ¬ IsPassed c [] k := by simp [IsPassed]

theorem Grows.placed (h : s.Grows s') (hs : s.Placed) : s'.Placed := by
  obtain ⟨slots, hslots, -, hbounds⟩ := h.slots
  obtain ⟨globals, hglobals, hnumbered⟩ := h.globals
  refine ⟨fun e he => ?_, fun e he => ?_⟩
  · rw [hslots] at he
    rcases List.mem_append.mp he with he | he
    · exact ⟨(hs.slots e he).1, Nat.le_trans (hs.slots e he).2 h.lastSlot⟩
    · have := hbounds e he
      omega
  · rw [hglobals] at he
    rcases List.mem_append.mp he with he | he
    · exact hs.globals e he
    · obtain ⟨n, -, hn⟩ := hnumbered.exists_number he
      exact ⟨n, hn⟩

/-- The marks of expressions are the numbers of their literals, and what their calls hand over. -/
theorem number_mem_marks {v : Int} : .number v ∈ es.flatMap (Expr.marks c) ↔ IsLiteral c.typing es v :=
  (Leaves.flatMap c es).numbers v

theorem exists_le_arity_marks {k : Nat} (hk : 0 < k) :
    (∃ m ∈ es.flatMap (Expr.marks c), k ≤ m.arity) ↔ IsPassed c es k := (Leaves.flatMap c es).arities k hk

namespace Adds

theorem argumentCount_le (h : Adds ms s s') : s.argumentCount ≤ s'.argumentCount :=
  (h.arguments _).mpr (.inl (Nat.le_refl _))

theorem provides (h : Adds ms s s') {x : Objective} (hx : s.Provides x) : s'.Provides x :=
  hx.mono h.lastSlot h.argumentCount_le

theorem trans (h : Adds ms s s') (h' : Adds ns s' s'') : Adds (ms ++ ns) s s'' := by
  refine ⟨Nat.le_trans h.lastSlot h'.lastSlot, h'.slotCount.trans h.slotCount, fun k => ?_,
    List.Subset.trans h.kept h'.kept, fun d hd => ?_, fun v hv => ?_⟩
  · simp only [h'.arguments, h.arguments, List.mem_append, or_and_right, exists_or, or_assoc]
  · rcases h'.added d hd with hd | ⟨hx, hv⟩
    · rcases h.added d hd with hd | ⟨hx, hv⟩
      · exact .inl hd
      · refine .inr ⟨fun x hmem => h'.provides (hx x hmem), fun v hd => (hv v hd).imp_right ?_⟩
        exact List.mem_append_left _
    · exact .inr ⟨hx, fun v hd => (hv v hd).imp_right (List.mem_append_right _)⟩
  · rcases List.mem_append.mp hv with hv | hv
    · obtain ⟨d, hd, heq⟩ := h.numbers v hv
      exact ⟨d, h'.kept hd, heq⟩
    · exact h'.numbers v hv

/-- A piece is finished: its commands are added, and those around it stay. -/
theorem inPiece {called : Emission} (h : Adds ms s called) {piece : FunctionName} {body : Emission → Emission}
    (hinner : Adds ns { called with commands := [] } (body { called with commands := [] })) :
    Adds (ms ++ ns) s (called.inPiece piece body) := by
  have hstart : ∀ d, d ∈ called.lines ↔ d ∈ ({ called with commands := [] } : Emission).lines ∨ d ∈ called.commands :=
    fun d => by simp [lines]
  have hlines : ∀ d, d ∈ (called.inPiece piece body).lines ↔
      d ∈ (body { called with commands := [] }).lines ∨ d ∈ called.commands := by
    intro d
    rw [← List.mem_append]
    change d ∈ (_ ++ [(piece, _)]).flatMap (·.2) ++ _ ↔ _
    rw [List.flatMap_append, List.flatMap_singleton]
    rfl
  refine h.trans ⟨hinner.lastSlot, hinner.slotCount, hinner.arguments, fun d hd => ?_, fun d hd => ?_,
    fun v hv => ?_⟩
  · rw [hlines]
    exact ((hstart d).mp hd).imp_left fun hd => hinner.kept hd
  · rw [hstart]
    rcases (hlines d).mp hd with hd | hd
    · exact (hinner.added d hd).imp_left .inl
    · exact .inl (.inr hd)
  · obtain ⟨d, hd, heq⟩ := hinner.numbers v hv
    exact ⟨d, (hlines d).mpr (.inl hd), heq⟩

end Adds

section

variable (s)

theorem lines_emitAll (cs : List Command) : (s.emitAll cs).lines = s.lines ++ cs :=
  (List.append_assoc ..).symm

/-- No commands are added. -/
theorem adds_same (hl : s.lastSlot ≤ s'.lastSlot) (hn : s'.slotCount = s.slotCount)
    (ha : s'.argumentCount = s.argumentCount) (hf : s'.functions = s.functions)
    (hc : s'.commands = s.commands) : Adds [] s s' := by
  have hlines : s'.lines = s.lines := by rw [lines, lines, hf, hc]
  refine ⟨hl, hn, fun k => by simp [ha], ?_, fun d hd => .inl (hlines ▸ hd), nofun⟩
  rw [hlines]
  exact List.Subset.refl _

/-- Commands are added that name objectives that there are, and hold the numbers that are marked. -/
theorem adds_commands {cs : List Command} (hx : ∀ d ∈ cs, ∀ x ∈ d.objectives, s.Provides x)
    (hv : ∀ d ∈ cs, ∀ v, d.constant? = some v → IsFixed v ∨ .number v ∈ ms)
    (hn : ∀ v, .number v ∈ ms → ∃ d ∈ cs, d.constant? = some v)
    (ha : ∀ k, (∃ m ∈ ms, k ≤ m.arity) → k = 0) : Adds ms s (s.emitAll cs) := by
  refine ⟨Nat.le_refl _, rfl, fun k => ?_, ?_, fun d hd => ?_, fun v h => ?_⟩
  · refine (or_iff_left_of_imp fun hk => ?_).symm
    rw [ha k hk]
    exact Nat.zero_le _
  · rw [lines_emitAll]
    exact List.subset_append_left _ _
  · rw [lines_emitAll] at hd
    exact (List.mem_append.mp hd).imp_right fun hd => ⟨hx d hd, hv d hd⟩
  · obtain ⟨d, hd, heq⟩ := hn v h
    rw [lines_emitAll]
    exact ⟨d, List.mem_append_right _ hd, heq⟩

end

/-- Limits for code that names no scores but its own. -/
def Limits.own : Limits := { free with scores := fun _ => False }

theorem Limits.own_admit (c : EmissionContext) : own.Admit c := fun _ _ _ => trivial

theorem provides_selection {x : Objective} (h : x ∈ Objective.ofSelection) : s.Provides x := by
  rcases List.mem_pair.mp h with rfl | rfl
  · trivial
  · trivial

theorem provides_pending : s.Provides pending.objective := trivial

/-- A score that code may name of its own is counted for an objective that there is. -/
theorem Reaches.provides {A : Score → Prop} {t : Score} (h : s.Reaches A t) (hA : ∀ u, ¬ A u) (hs : s.Placed) :
    s.Provides t.objective := by
  cases h with
  | slot pos le => exact ⟨pos, le⟩
  | symbol mem => exact hs.slots _ mem
  | global mem =>
    obtain ⟨n, name, rfl⟩ := hs.globals _ mem
    trivial
  | pending | printed | result => trivial
  | allowed h => exact absurd h (hA t)

theorem Test.provides_scores {test : Test} {x : Objective} (h : ∀ u ∈ test.scores, s.Provides u.objective)
    (hx : x ∈ test.objectives) : s.Provides x := by
  have hobjectives : test.objectives = test.scores.map Score.objective := by cases test <;> rfl
  rw [hobjectives] at hx
  obtain ⟨u, hu, rfl⟩ := List.mem_map.mp hx
  exact h u hu

namespace Fits

variable {L : Limits} {d : Command}

/-- Commands name objectives that there are. -/
theorem provides (h : s.Fits L d) (hL : ∀ t, ¬ L.scores t) (hs : s.Placed) : ∀ x ∈ d.objectives, s.Provides x := by
  have hscore : ∀ {t : Score}, s.Reaches L.scores t → s.Provides t.objective := fun ht => ht.provides hL hs
  have htest : ∀ {test : Test}, (∀ u ∈ test.scores, s.Reaches L.scores u) → ∀ x ∈ test.objectives, s.Provides x :=
    fun htest x hx => Test.provides_scores (fun u hu => hscore (htest u hu)) hx
  have hselected : ∀ {xs : List Objective}, (∀ x ∈ xs, s.Provides x) →
      ∀ x ∈ Objective.ofSelection ++ xs, s.Provides x := fun hxs =>
    List.forall_mem_append.mpr ⟨fun _ hx => provides_selection hx, hxs⟩
  cases h with
  | raw _ | noText _ | copyText _ _ | joinTexts _ | call _ | tellText _ => exact List.forall_mem_nil _
  | frame hd =>
    simp only [List.mem_cons, List.not_mem_nil, or_false] at hd
    rcases hd with rfl | rfl | rfl | rfl | rfl | rfl
    · exact List.forall_mem_nil _
    · exact fun x hx => provides_selection hx
    · exact List.forall_mem_nil _
    · exact fun x hx => provides_selection hx
    · exact List.forall_mem_singleton.mpr trivial
    · exact List.forall_mem_nil _
  | set ht _ => exact hselected (List.forall_mem_singleton.mpr (hscore ht))
  | takeBack signal =>
    exact hselected (List.forall_mem_cons.mpr ⟨provides_pending, List.forall_mem_singleton.mpr provides_pending⟩)
  | operate ht op hu =>
    exact hselected (List.forall_mem_cons.mpr ⟨hscore ht, List.forall_mem_singleton.mpr (hscore hu)⟩)
  | hand pos le hu =>
    exact hselected (List.forall_mem_cons.mpr ⟨⟨pos, le⟩, List.forall_mem_singleton.mpr (hscore hu)⟩)
  | storeTest ht h => exact hselected (List.forall_mem_cons.mpr ⟨hscore ht, htest h⟩)
  | callIf h _ => exact hselected (htest h)
  | tellBool _ | tellNumber => exact List.forall_mem_singleton.mpr trivial

/-- Commands that leave no mark set scores to fixed numbers. -/
theorem constant (h : s.Fits L d) {v : Int} (hv : d.constant? = some v) : IsFixed v := by
  cases h with
  | set _ h =>
    cases hv
    exact h
  | takeBack signal =>
    cases hv
    exact isFixed_signal .none
  | frame hd =>
    simp only [List.mem_cons, List.not_mem_nil, or_false] at hd
    rcases hd with rfl | rfl | rfl | rfl | rfl | rfl <;> cases hv
  | _ => cases hv

end Fits

/-- What is added by moves that name nothing from outside. -/
theorem Moves.adds {L : Limits} (h : Moves L ms s s') : (∀ t, ¬ L.scores t) → s.Placed → Adds ms s s' := by
  induction h with
  | stay s => exact fun _ _ => adds_same s (Nat.le_refl _) rfl rfl rfl rfl
  | fail s f => exact fun _ _ => adds_same s (Nat.le_refl _) rfl rfl rfl rfl
  | newSlot s => exact fun _ _ => adds_same s (Nat.le_succ _) rfl rfl rfl rfl
  | slotOf s y =>
    have hle := (grows_slotOf s y).lastSlot
    obtain ⟨slots, lastSlot, heq⟩ := slotOf_eq s y
    rw [heq] at hle ⊢
    exact fun _ _ => adds_same s hle rfl rfl rfl rfl
  | globalOf s y name isScore =>
    obtain ⟨globals, heq⟩ := globalOf_eq s y name isScore
    rw [heq]
    exact fun _ _ => adds_same s (Nat.le_refl _) rfl rfl rfl rfl
  | commands s hcs =>
    intro hL hs
    exact adds_commands s (fun d hd => (hcs d hd).provides hL hs) (fun d hd v hv => .inl ((hcs d hd).constant hv))
      nofun (by simp)
  | @number L s t ht v =>
    intro hL hs
    change Adds _ s (s.emitAll [.set t v])
    refine adds_commands s ?_ ?_ ?_ ?_
    · have hset : ∀ x ∈ Objective.ofSelection ++ [t.objective], s.Provides x :=
        List.forall_mem_append.mpr ⟨fun _ hx => provides_selection hx, List.forall_mem_singleton.mpr (ht.provides hL hs)⟩
      exact List.forall_mem_singleton.mpr hset
    · simp [Command.constant?]
    · simp [Command.constant?]
    · simp [Mark.arity]
  | text s p value span =>
    intro _ _
    obtain ⟨quoted, heq⟩ := setText_eq s p value span
    have htext : Adds [.text span value] s (s.emitAll [.setText p value]) :=
      adds_commands s (by simp [Command.objectives]) (by simp [Command.constant?]) (by simp) (by simp [Mark.arity])
    rw [heq]
    exact ⟨htext.lastSlot, htext.slotCount, htext.arguments, htext.kept, htext.added, htext.numbers⟩
  | joinAt s span =>
    intro _ _
    refine ⟨Nat.le_refl _, rfl, fun k => ?_, List.Subset.refl _, fun d hd => .inl hd, by simp⟩
    change k ≤ s.argumentCount ↔ _
    simp only [List.mem_singleton, exists_eq_left, Mark.arity]
    omega
  | pass s n =>
    intro _ _
    refine ⟨Nat.le_refl _, rfl, fun k => ?_, List.Subset.refl _, fun d hd => .inl hd, by simp⟩
    change k ≤ max s.argumentCount n ↔ _
    simp only [List.mem_singleton, exists_eq_left, Mark.arity]
    omega
  | @piece L ms s d hd body h ih =>
    intro hL hs
    have hnew : Adds [] s s.newPiece.1 := adds_same s (Nat.le_refl _) rfl rfl rfl rfl
    have hcalled : Adds [] s (s.newPiece.1.emitAll [d]) :=
      hnew.trans (adds_commands _ (List.forall_mem_singleton.mpr (hd.provides hL hs))
        (List.forall_mem_singleton.mpr fun v hv => .inl (hd.constant hv)) nofun (by simp))
    exact hcalled.inPiece (ih hL ⟨hs.slots, hs.globals⟩)
  | trans h h' ih ih' =>
    intro hL hs
    exact (ih hL hs).trans (ih' hL (h.grows.placed hs))

end Emission

end Craftlang
