import Craftlang.Proofs.Code.Lines
import Craftlang.Proofs.Code.Program
import Craftlang.Proofs.Code.Safety

/-!
# What the code of a program is made of

Function by function the code of a program names slots, arguments and the objectives that every program
has. Its loader creates the slots of the largest function and the arguments of the largest call. A function
takes its parameters from the arguments, whether it is called or not.
-/

namespace Craftlang

/-- The objectives from which parameters that are scores are taken, counted from a place. -/
def Typing.scoreArguments (t : Typing) : Nat → List Nat → List Objective
  | _, [] => []
  | place, param :: params =>
    if (t.typeOfSymbol param).isScore then .argument place :: t.scoreArguments (place + 1) params
    else t.scoreArguments (place + 1) params

theorem Typing.mem_scoreArguments {t : Typing} {place : Nat} {params : List Nat} {x : Objective} :
    x ∈ t.scoreArguments place params ↔
      ∃ i y, params[i]? = some y ∧ (t.typeOfSymbol y).isScore = true ∧ x = .argument (place + i) := by
  induction params generalizing place with
  | nil => simp [scoreArguments]
  | cons param params ih =>
    have hrest : x ∈ t.scoreArguments (place + 1) params ↔ ∃ i y, params[i]? = some y ∧
        (t.typeOfSymbol y).isScore = true ∧ x = .argument (place + (i + 1)) := by
      simp only [ih, Nat.add_assoc, Nat.add_comm 1]
    rw [scoreArguments]
    constructor
    · intro hx
      split at hx
      · rename_i hscore
        rcases List.mem_cons.mp hx with rfl | hx
        · exact ⟨0, param, rfl, hscore, rfl⟩
        · obtain ⟨i, y, hy, hrest⟩ := hrest.mp hx
          exact ⟨i + 1, y, hy, hrest⟩
      · obtain ⟨i, y, hy, hrest⟩ := hrest.mp hx
        exact ⟨i + 1, y, hy, hrest⟩
    · rintro ⟨i, y, hy, hscore, rfl⟩
      cases i with
      | zero =>
        obtain rfl : param = y := Option.some.inj hy
        rw [if_pos hscore]
        exact List.mem_cons_self
      | succ i =>
        have hmem := hrest.mpr ⟨i, y, hy, hscore, rfl⟩
        split
        · exact List.mem_cons_of_mem _ hmem
        · exact hmem

namespace Emission

variable {c : EmissionContext} {es fs : List Expr} {s s' s'' : Emission}

/-- Commands are added that take parameters from some arguments. -/
structure Takes (xs : List Objective) (s s' : Emission) : Prop where
  lastSlot : s.lastSlot ≤ s'.lastSlot
  slotCount : s'.slotCount = s.slotCount
  argumentCount : s'.argumentCount = s.argumentCount
  kept : s.lines ⊆ s'.lines
  added : ∀ d ∈ s'.lines, d ∈ s.lines ∨
    (∀ x ∈ d.objectives, s'.Provides x ∨ x ∈ xs) ∧ ∀ v, d.constant? = some v → IsFixed v
  named : ∀ x ∈ xs, ∃ d ∈ s'.lines, x ∈ d.objectives

namespace Takes

variable {xs ys : List Objective}

theorem of_adds (h : Adds [] s s') : Takes [] s s' := by
  have hcount : ∀ k, k ≤ s'.argumentCount ↔ k ≤ s.argumentCount := fun k =>
    (h.arguments k).trans (or_iff_left (by simp))
  refine ⟨h.lastSlot, h.slotCount, ?_, h.kept, fun d hd => ?_, nofun⟩
  · exact Nat.le_antisymm ((hcount _).mp (Nat.le_refl _)) h.argumentCount_le
  · refine (h.added d hd).imp_right fun ⟨hx, hv⟩ => ⟨fun x hmem => .inl (hx x hmem), fun v heq => ?_⟩
    exact (hv v heq).resolve_right List.not_mem_nil

theorem refl (s : Emission) : Takes [] s s := of_adds (adds_same s (Nat.le_refl _) rfl rfl rfl rfl)

theorem trans (h : Takes xs s s') (h' : Takes ys s' s'') : Takes (xs ++ ys) s s'' := by
  refine ⟨h.lastSlot.trans h'.lastSlot, h'.slotCount.trans h.slotCount,
    h'.argumentCount.trans h.argumentCount, List.Subset.trans h.kept h'.kept, fun d hd => ?_, fun x hx => ?_⟩
  · rcases h'.added d hd with hd | ⟨hx, hv⟩
    · refine (h.added d hd).imp_right fun ⟨hx, hv⟩ => ⟨fun x hmem => ?_, hv⟩
      rcases hx x hmem with hx | hx
      · exact .inl (hx.mono h'.lastSlot (Nat.le_of_eq h'.argumentCount.symm))
      · exact .inr (List.mem_append_left _ hx)
    · exact .inr ⟨fun x hmem => (hx x hmem).imp_right (List.mem_append_right _), hv⟩
  · rcases List.mem_append.mp hx with hx | hx
    · obtain ⟨d, hd, hx⟩ := h.named x hx
      exact ⟨d, h'.kept hd, hx⟩
    · exact h'.named x hx

end Takes

/-- A score is taken from an argument. -/
theorem takes_score (s : Emission) {target : Score} (ht : s.Provides target.objective) (place : Nat) :
    Takes [.argument place] s (s.emit (.operate target .copy ⟨.machine, .argument place⟩)) := by
  let taken : Command := .operate target .copy ⟨.machine, .argument place⟩
  have hlines : (s.emit taken).lines = s.lines ++ [taken] := lines_emitAll s [taken]
  refine ⟨Nat.le_refl _, rfl, rfl, ?_, fun d hd => ?_, fun x hx => ?_⟩
  · rw [hlines]
    exact List.subset_append_left _ _
  · rw [hlines] at hd
    refine (List.mem_append.mp hd).imp_right fun hd => ?_
    rw [List.mem_singleton.mp hd]
    refine ⟨fun x hx => ?_, nofun⟩
    rcases List.mem_append.mp hx with hx | hx
    · exact .inl (provides_selection hx)
    · rcases List.mem_cons.mp hx with rfl | hx
      · exact .inl ht
      · exact .inr hx
  · rw [hlines, List.mem_singleton.mp hx]
    exact ⟨taken, by simp, by simp [taken, Command.objectives]⟩

/-- A parameter is taken from an argument that is a score if the parameter is one. -/
theorem takes_param (c : EmissionContext) (hs : s.Placed) (hsafe : s.Safe c) (place param : Nat) :
    Takes (c.typing.scoreArguments place [param]) s (takeParams c s place [param]) := by
  have hplace := yields_variablePlace (L := .own) s c param false
  have hholds := (hsafe.variablePlace param).2
  have hquiet := Takes.of_adds (hplace.moves.adds (fun _ => id) hs)
  rw [Typing.scoreArguments, Typing.scoreArguments]
  cases hl : (variablePlace c s param).2 with
  | score t =>
    rw [hl, Location.Holds] at hholds
    rw [if_pos hholds]
    have htaken : takeParams c s place [param]
        = (variablePlace c s param).1.emit (.operate t .copy ⟨.machine, .argument place⟩) := by
      simp only [takeParams, hl]
    rw [htaken]
    have hgives := (hplace.gives t (congrArg some hl)).provides (fun _ => id) (hplace.moves.grows.placed hs)
    exact hquiet.trans (takes_score _ hgives place)
  | text p =>
    rw [hl, Location.Holds] at hholds
    have htaken : takeParams c s place [param]
        = (variablePlace c s param).1.emit (.copyText p (.argument place)) := by
      simp only [takeParams, hl]
    rw [if_neg (by simp [hholds]), htaken]
    have hcopy : Moves .own [] (variablePlace c s param).1 _ := moves_emit _ (.copyText p (.argument place))
    exact hquiet.trans (.of_adds (hcopy.adds (fun _ => id) (hplace.moves.grows.placed hs)))

theorem takes_takeParams (c : EmissionContext) (hs : s.Placed) (hsafe : s.Safe c) (place : Nat)
    (params : List Nat) : Takes (c.typing.scoreArguments place params) s (takeParams c s place params) := by
  induction params generalizing s place with
  | nil => exact .refl s
  | cons param params ih =>
    have hfirst := takes_param c hs hsafe place param
    have hrest := ih ((grows_takeParams c s place [param]).placed hs) (hsafe.takeParams place [param]) (place + 1)
    have happend : c.typing.scoreArguments place (param :: params)
        = c.typing.scoreArguments place [param] ++ c.typing.scoreArguments (place + 1) params := by
      rw [Typing.scoreArguments, Typing.scoreArguments, Typing.scoreArguments]
      split <;> rfl
    rw [happend]
    exact hfirst.trans hrest

/-- All finished commands. -/
def finishedLines (s : Emission) : List Command := s.functions.flatMap (·.2)

theorem lines_entered (s : Emission) (name : Bytes) : (s.entered name).lines = s.finishedLines := List.append_nil _

/-- The objectives that the loader creates. -/
def Creates (s : Emission) : Objective → Prop
  | .slot n => 0 < n ∧ n ≤ s.slotCount
  | .argument n => 0 < n ∧ n ≤ s.argumentCount
  | _ => True

theorem Creates.mono {x : Objective} (h : s.Creates x) {t : Emission} (hslots : s.slotCount ≤ t.slotCount)
    (harguments : s.argumentCount ≤ t.argumentCount) : t.Creates x := by
  cases x with
  | slot n => exact ⟨h.1, h.2.trans hslots⟩
  | argument n => exact ⟨h.1, h.2.trans harguments⟩
  | _ => trivial

theorem finishedLines_closed (s : Emission) (name : Bytes) :
    (s.closed name).finishedLines = (s.emitAll [.removeFrame, .leaveFrame, .popTexts]).lines := by
  rw [Emission.closed, finishedLines, List.flatMap_append, List.flatMap_singleton]
  rfl

/-- The slots and the arguments of a function are created once it is finished. -/
theorem creates_closed {x : Objective} (h : s.Provides x) (name : Bytes) : (s.closed name).Creates x := by
  cases x with
  | slot n => exact ⟨h.1, h.2.trans (Nat.le_max_right _ _)⟩
  | argument n => exact h
  | _ => trivial

/-- The finished commands are those for some expressions, in functions whose parameters are taken from
some arguments. -/
structure Lists (c : EmissionContext) (es : List Expr) (xs : List Objective) (s : Emission) : Prop where
  globals : ∀ e ∈ s.globals, ∃ n, e.2.IsGlobal n
  arguments : ∀ k, 0 < k → (k ≤ s.argumentCount ↔ IsPassed c es k)
  created : ∀ d ∈ s.finishedLines, ∀ x ∈ d.objectives, s.Creates x ∨ x ∈ xs
  named : ∀ x ∈ xs, ∃ d ∈ s.finishedLines, x ∈ d.objectives
  constants : ∀ d ∈ s.finishedLines, ∀ v, d.constant? = some v → IsFixed v ∨ IsLiteral c.typing es v
  literals : ∀ v, IsLiteral c.typing es v → ∃ d ∈ s.finishedLines, d.constant? = some v

variable {xs ys : List Objective}

theorem Lists.start (c : EmissionContext) : Lists c [] [] {} where
  globals := List.forall_mem_nil _
  arguments _ hk := iff_of_false (Nat.not_le_of_gt hk) not_isPassed_nil
  created := List.forall_mem_nil _
  named := List.forall_mem_nil _
  constants := List.forall_mem_nil _
  literals _ hv := absurd hv not_isLiteral_nil

/-- The code of a function, which is finished with `t`, is added to what is finished. -/
theorem Lists.closed (h : Lists c es xs s) {start taken t : Emission} (hcode : start.lines = s.finishedLines)
    (hslots : start.slotCount = s.slotCount) (hcount : start.argumentCount = s.argumentCount)
    (htaken : Takes ys start taken)
    (hbody : Adds (fs.flatMap (Expr.marks c)) taken (t.emitAll [.removeFrame, .leaveFrame, .popTexts]))
    (hglobals : ∀ e ∈ t.globals, ∃ n, e.2.IsGlobal n) (name : Bytes) :
    Lists c (es ++ fs) (xs ++ ys) (t.closed name) := by
  have hlines := finishedLines_closed t name
  have hkept : ∀ d ∈ taken.lines, d ∈ (t.closed name).finishedLines := fun d hd => hlines ▸ hbody.kept hd
  have hold : ∀ d ∈ s.finishedLines, d ∈ (t.closed name).finishedLines := fun d hd => hkept d (htaken.kept (hcode ▸ hd))
  have harguments : ∀ k, 0 < k → (k ≤ (t.closed name).argumentCount ↔ k ≤ s.argumentCount ∨ IsPassed c fs k) := by
    intro k hk
    rw [← hcount, ← htaken.argumentCount, ← exists_le_arity_marks hk]
    exact hbody.arguments k
  have hslotCount : s.slotCount ≤ (t.closed name).slotCount := by
    rw [← hslots, ← htaken.slotCount, ← hbody.slotCount]
    exact Nat.le_max_left _ _
  have hstill : ∀ x, s.Creates x → (t.closed name).Creates x := fun x hx => hx.mono hslotCount <| by
    rcases Nat.eq_zero_or_pos s.argumentCount with hzero | hpos
    · exact hzero ▸ Nat.zero_le _
    · exact (harguments _ hpos).mpr (.inl (Nat.le_refl _))
  -- a command was there before, or it takes a parameter, or it belongs to the body
  have hcases : ∀ d ∈ (t.closed name).finishedLines, d ∈ s.finishedLines ∨
      (∀ x ∈ d.objectives, (t.closed name).Creates x ∨ x ∈ ys) ∧
        ∀ v, d.constant? = some v → IsFixed v ∨ IsLiteral c.typing fs v := by
    intro d hd
    rw [hlines] at hd
    rcases hbody.added d hd with hd | ⟨hx, hv⟩
    · rw [← hcode]
      refine (htaken.added d hd).imp_right fun ⟨hx, hv⟩ => ⟨fun x hmem => ?_, fun v heq => .inl (hv v heq)⟩
      exact (hx x hmem).imp_left fun hprovided => creates_closed (hbody.provides hprovided) name
    · exact .inr ⟨fun x hmem => .inl (creates_closed (hx x hmem) name), fun v heq => (hv v heq).imp_right number_mem_marks.mp⟩
  refine ⟨hglobals, fun k hk => ?_, fun d hd x hx => ?_, fun x hx => ?_, fun d hd v hv => ?_, fun v hv => ?_⟩
  · rw [harguments k hk, h.arguments k hk, isPassed_append]
  · rcases hcases d hd with hd | ⟨hnew, -⟩
    · exact (h.created d hd x hx).imp (hstill x) (List.mem_append_left _)
    · exact (hnew x hx).imp_right (List.mem_append_right _)
  · rcases List.mem_append.mp hx with hx | hx
    · obtain ⟨d, hd, hmem⟩ := h.named x hx
      exact ⟨d, hold d hd, hmem⟩
    · obtain ⟨d, hd, hmem⟩ := htaken.named x hx
      exact ⟨d, hkept d hd, hmem⟩
  · rw [isLiteral_append]
    rcases hcases d hd with hd | ⟨-, hnew⟩
    · exact (h.constants d hd v hv).imp_right .inl
    · exact (hnew v hv).imp_right .inr
  · rcases isLiteral_append.mp hv with hv | hv
    · obtain ⟨d, hd, heq⟩ := h.literals v hv
      exact ⟨d, hold d hd, heq⟩
    · rw [hlines]
      exact hbody.numbers v (number_mem_marks.mpr hv)

/-- The commands of a function are added to what is finished. -/
theorem Lists.function (h : Lists c es xs s) (hsafe : s.Safe c) (name : Bytes) (params : List Nat)
    (body : List Stmt) : Lists c (es ++ Stmt.allRoots body) (xs ++ c.typing.scoreArguments 1 params)
      (function c s name params body) := by
  have hplaced : (s.entered name).Placed := ⟨nofun, h.globals⟩
  have hopen : Moves .own [] (s.entered name) (s.opened name) := moves_opened s name
  have hopened := hopen.grows.placed hplaced
  have hsafe' : (s.opened name).Safe c := hsafe.congr rfl rfl
  have htaken := (Takes.of_adds (hopen.adds (fun _ => id) hplaced)).trans (takes_takeParams c hopened hsafe' 1 params)
  have hbody := (moves_stmts (Limits.own_admit c) (takeParams c (s.opened name) 1 params) body fun _ _ => trivial).before
    (moves_farewell _)
  have hadds := hbody.adds (fun _ => id) ((grows_takeParams c (s.opened name) 1 params).placed hopened)
  exact h.closed (s.lines_entered name) rfl rfl htaken hadds ((s.opened_grows c name params body).placed hopened).globals name

/-! The loader creates the objectives of slots and arguments, and those that every program has. -/

theorem mem_loader {d : Command} : d ∈ s.loader ↔ d ∈ [.unlimitedChain, .removeAllFrames, .noFrame, .noTexts,
    .call (.declared ResourceName.entry)] ∨ ∃ x, d = .addObjective x ∧ s.Creates x := by
  have hnumbered : ∀ (n : Nat) (o : Nat → Objective), (d ∈ (List.range n).map fun i => .addObjective (o (i + 1))) ↔
      ∃ k, d = .addObjective (o k) ∧ 0 < k ∧ k ≤ n := by
    intro n o
    simp only [List.mem_map, List.mem_range]
    constructor
    · rintro ⟨i, hi, rfl⟩
      exact ⟨i + 1, rfl, Nat.succ_pos i, hi⟩
    · rintro ⟨k, rfl, hpos, hle⟩
      exact ⟨k - 1, by omega, by rw [Nat.sub_add_cancel hpos]⟩
  simp only [loader, List.mem_append, hnumbered, List.mem_cons, List.map_cons, List.map_nil, List.not_mem_nil,
    or_false]
  constructor
  · rintro (((((rfl | rfl) | rfl | rfl | rfl | rfl | rfl) | ⟨k, rfl, hk⟩) | ⟨k, rfl, hk⟩) |
      rfl | rfl | rfl | rfl)
    all_goals first
      | exact .inr ⟨_, rfl, trivial⟩
      | exact .inr ⟨_, rfl, hk⟩
      | simp
  · rintro ((rfl | rfl | rfl | rfl | rfl) | ⟨x, rfl, hx⟩)
    · simp
    · simp
    · simp
    · simp
    · simp
    · cases x with
      | argument k => exact .inl (.inl (.inr ⟨k, rfl, hx⟩))
      | slot k => exact .inl (.inr ⟨k, rfl, hx⟩)
      | _ => simp

theorem addObjective_mem_loader {x : Objective} : .addObjective x ∈ s.loader ↔ s.Creates x := by
  rw [mem_loader]
  simp

/-- The commands of the loader name what it creates, and set no score to the number of a literal. -/
theorem created_of_mem_loader {d : Command} (hd : d ∈ s.loader) :
    (∀ x ∈ d.objectives, s.Creates x) ∧ ∀ v, d.constant? = some v → IsFixed v := by
  rcases mem_loader.mp hd with hd | ⟨x, rfl, hx⟩
  · simp only [List.mem_cons, List.not_mem_nil, or_false] at hd
    rcases hd with rfl | rfl | rfl | rfl | rfl
    · exact ⟨nofun, nofun⟩
    · exact ⟨nofun, nofun⟩
    · refine ⟨fun x hx => ?_, fun v hv => ?_⟩
      · rw [List.mem_singleton.mp hx]
        trivial
      · cases hv
        exact ⟨Int.le_refl 0, by decide⟩
    · exact ⟨nofun, nofun⟩
    · exact ⟨nofun, nofun⟩
  · refine ⟨fun y hy => ?_, nofun⟩
    rw [List.mem_singleton.mp hy]
    exact hx

theorem mem_finished {d : Command} : (∃ e ∈ s.finished, d ∈ e.2) ↔
    d ∈ s.finishedLines ∨ (s.joinedAt.isSome = true ∧ d = .joinedText) ∨ d ∈ s.loader := by
  simp only [finished, List.mem_append, List.mem_singleton, or_and_right, exists_or, exists_eq_left, finishedLines,
    List.mem_flatMap, or_assoc]
  cases s.joinedAt.isSome <;> simp

end Emission

section

variable {p : Program} {r : Resolution} {t : Typing}

open Emission

/-- The code of a well-typed program is the code for its expressions, in functions that take their
parameters from arguments. -/
theorem Program.Typed.lists (h : p.Typed ⟨r, t⟩) :
    Lists ⟨r, t⟩ p.roots (t.functions.flatMap fun info => t.scoreArguments 1 info.params) (p.emit r t) := by
  have hrun : ∀ (fs : List Function) (infos : List FunctionInfo) {es : List Expr} {xs : List Objective}
      (s : Emission), (∀ f ∈ fs, f ∈ p.functions) → List.Forall₂ (Function.Typed ⟨r, t⟩) fs infos →
      s.Safe ⟨r, t⟩ → Lists ⟨r, t⟩ es xs s →
      Lists ⟨r, t⟩ (es ++ fs.flatMap fun f => Stmt.allRoots f.body.stmts)
        (xs ++ infos.flatMap fun info => t.scoreArguments 1 info.params)
        (fs.foldl (declaredFunction ⟨r, t⟩) s) := by
    intro fs infos es xs s hmem hfs hsafe hs
    induction hfs generalizing s es xs with
    | nil =>
      rw [List.flatMap_nil, List.flatMap_nil, List.append_nil, List.append_nil]
      exact hs
    | @cons f info fs infos hf _ ih =>
      rw [List.forall_mem_cons] at hmem
      have hfirst := hs.function hsafe (ResourceName.normalize info.name) info.params f.body.stmts
      rw [← h.declaredFunction_eq hmem.1 hf] at hfirst
      rw [List.flatMap_cons, List.flatMap_cons, ← List.append_assoc, ← List.append_assoc]
      exact ih _ hmem.2 (hsafe.declaredFunction hf) hfirst
  have hsafe : ({} : Emission).Safe ⟨r, t⟩ := ⟨rfl, List.forall_mem_nil _⟩
  have hentry := (Lists.start ⟨r, t⟩).function hsafe ResourceName.entry [] p.topLevel
  exact hrun p.functions t.functions _ (fun _ hf => hf) h.functions
    (hsafe.function ResourceName.entry [] h.topLevel) hentry

end

end Craftlang
