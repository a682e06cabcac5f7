import Craftlang.Proofs.Code.Program
import Craftlang.Proofs.Machine.Runs

/-!
# Calls in the code of a program

Every call in the code of a program is a call of something that is there in the end: a declared function,
a piece of the same function, or the function that joins strings. A piece may be called before it is
finished, also by itself; while a piece is emitted its name counts as known.
-/

namespace Craftlang

/-- The function that a command names. -/
def Command.callee? : Command → Option FunctionName
  | .call f | .callIf _ f => some f
  | .joinTexts => some .joiner
  | _ => none

namespace Emission

/-- Is a function known: by assumption, as it is finished, or as strings are joined? -/
def Knows (A : FunctionName → Prop) (s : Emission) (f : FunctionName) : Prop :=
  A f ∨ f ∈ s.functions.map (·.1) ∨ (f = .joiner ∧ s.joinedAt.isSome = true)

/-- Some commands name known functions only. -/
def Calls (A : FunctionName → Prop) (s : Emission) (cs : List Command) : Prop :=
  ∀ c ∈ cs, ∀ f, c.callee? = some f → s.Knows A f

/-- All commands so far name known functions only. -/
structure Closed (A : FunctionName → Prop) (s : Emission) : Prop where
  commands : s.Calls A s.commands
  functions : ∀ e ∈ s.functions, s.Calls A e.2

variable {A : FunctionName → Prop} {s s' : Emission}

theorem Knows.of_extends {f : FunctionName} (h : s.Knows A f) (hext : s.Extends s') : s'.Knows A f := by
  rcases h with h | h | ⟨rfl, h⟩
  · exact .inl h
  · exact .inr (.inl ((hext.functions.map _).subset h))
  · exact .inr (.inr ⟨rfl, hext.joined h⟩)

theorem Calls.of_extends {cs : List Command} (h : s.Calls A cs) (hext : s.Extends s') : s'.Calls A cs :=
  fun c hc f hf => (h c hc f hf).of_extends hext

theorem Calls.append {cs ds : List Command} (h : s.Calls A cs) (h' : s.Calls A ds) :
    s.Calls A (cs ++ ds) := fun c hc =>
  (List.mem_append.mp hc).elim (h c) (h' c)

theorem Closed.nothing (A : FunctionName → Prop) : ({} : Emission).Closed A :=
  ⟨List.forall_mem_nil _, List.forall_mem_nil _⟩

/-- Nothing is added but what calls nothing. -/
theorem Closed.of_same (hs : s.Closed A) (hf : s'.functions = s.functions) (hc : s'.commands = s.commands)
    (hj : s.joinedAt.isSome = true → s'.joinedAt.isSome = true) : s'.Closed A := by
  have hknown : ∀ {cs}, s.Calls A cs → s'.Calls A cs := fun hcs c hc f hf' =>
    (hcs c hc f hf').imp_right (Or.imp (hf ▸ id) (And.imp_right hj))
  exact ⟨hc ▸ hknown hs.commands, fun e he => hknown (hs.functions e (hf ▸ he))⟩

/-- Commands that name known functions may be added. -/
theorem Closed.emitAll (hs : s.Closed A) {cs : List Command} (hcs : s.Calls A cs) : (s.emitAll cs).Closed A :=
  ⟨Calls.append hs.commands hcs, hs.functions⟩

/-- When a piece is finished its name need no longer be assumed. -/
theorem Closed.inPiece {piece : FunctionName} (hs : s.Closed fun f => A f ∨ f = piece)
    {body : Emission → Emission} (hgrows : Grows { s with commands := [] } (body { s with commands := [] }))
    (hbody : (body { s with commands := [] }).Closed fun f => A f ∨ f = piece) :
    (s.inPiece piece body).Closed A := by
  have hin : (body { s with commands := [] }).Extends (s.inPiece piece body) :=
    ⟨List.prefix_append _ _, List.prefix_rfl, id⟩
  have hpiece : piece ∈ (s.inPiece piece body).functions.map (·.1) := by
    rw [Emission.inPiece]
    simp
  have hfinal : ∀ {cs}, (body { s with commands := [] }).Calls (fun f => A f ∨ f = piece) cs →
      (s.inPiece piece body).Calls A cs := by
    intro cs hcs c hc f hf
    rcases (hcs c hc f hf).of_extends hin with (hknown | rfl) | hknown
    · exact .inl hknown
    · exact .inr (.inl hpiece)
    · exact .inr hknown
  refine ⟨hfinal (Calls.of_extends (s := { s with commands := [] }) hs.commands hgrows.extends), fun e he => ?_⟩
  rcases List.mem_append.mp he with he | he
  · exact hfinal (hbody.functions e he)
  · rw [List.mem_singleton.mp he]
    exact hfinal hbody.commands

/-- Commands within limits call what the limits allow, or join strings where that was remembered. -/
theorem Fits.knows {L : Limits} {d : Command} (h : s.Fits L d) {f : FunctionName} (hf : d.callee? = some f) :
    s.Knows L.functions f := by
  cases h with
  | call h => exact .inl (Option.some.inj hf ▸ h)
  | callIf _ h => exact .inl (Option.some.inj hf ▸ h)
  | joinTexts hj => exact .inr (.inr ⟨(Option.some.inj hf).symm, hj⟩)
  | frame hd =>
    simp only [List.mem_cons, List.not_mem_nil, or_false] at hd
    rcases hd with rfl | rfl | rfl | rfl | rfl | rfl <;> cases hf
  | _ => cases hf

/-- Code within limits calls what the limits allow, and what it emits itself. -/
theorem Moves.closed {L : Limits} {ms : List Mark} (h : Moves L ms s s') (hs : s.Closed L.functions) :
    s'.Closed L.functions := by
  induction h with
  | stay s => exact hs
  | fail s f => exact hs.of_same rfl rfl id
  | newSlot s => exact hs.of_same rfl rfl id
  | slotOf s y =>
    obtain ⟨slots, lastSlot, heq⟩ := slotOf_eq s y
    rw [heq]
    exact hs.of_same rfl rfl id
  | globalOf s y name isScore =>
    obtain ⟨globals, heq⟩ := globalOf_eq s y name isScore
    rw [heq]
    exact hs.of_same rfl rfl id
  | commands s hcs => exact hs.emitAll fun d hd f hf => (hcs d hd).knows hf
  | number s _ v => exact hs.emitAll (List.forall_mem_singleton.mpr nofun)
  | text s p value span =>
    obtain ⟨quoted, heq⟩ := setText_eq s p value span
    have hemit : (s.emitAll [.setText p value]).Closed _ := hs.emitAll (List.forall_mem_singleton.mpr nofun)
    rw [heq]
    exact hemit.of_same rfl rfl id
  | joinAt s span => exact hs.of_same rfl rfl (grows_joinAt s span).joined
  | pass s n => exact hs.of_same rfl rfl id
  | @piece L ms s d hd body h ih =>
    have hknown : ∀ {cs}, s.Calls L.functions cs → s.Calls (L.opening s.newPiece.2).functions cs :=
      fun hcs c hc f hf => (hcs c hc f hf).imp .inl id
    have hnew : s.newPiece.1.Closed (L.opening s.newPiece.2).functions :=
      ⟨hknown hs.commands, fun e he => hknown (hs.functions e he)⟩
    have hcalled := hnew.emitAll (List.forall_mem_singleton.mpr fun f hf => hd.knows hf)
    exact Closed.inPiece hcalled h.grows (ih ⟨List.forall_mem_nil _, hcalled.functions⟩)
  | trans _ _ ih ih' => exact ih' (ih hs)

theorem function_closed {c : EmissionContext} (hA : (Limits.calling A).Admit c) (hs : s.Closed A) (name : Bytes)
    (params : List Nat) (body : List Stmt) : (function c s name params body).Closed A := by
  have hstart : (s.entered name).Closed A := ⟨List.forall_mem_nil _, hs.functions⟩
  have hend : ((s.bodyOf c name params body).emitAll [.removeFrame, .leaveFrame, .popTexts]).Closed A :=
    (moves_function hA s name params (fun _ _ => trivial) body fun _ _ => trivial).closed hstart
  rw [function_eq]
  have hext : ((s.bodyOf c name params body).emitAll [.removeFrame, .leaveFrame, .popTexts]).Extends
      ((s.bodyOf c name params body).closed name) := ⟨List.prefix_append _ _, List.prefix_rfl, id⟩
  refine ⟨hend.commands.of_extends hext, fun e he => ?_⟩
  rcases List.mem_append.mp he with he | he
  · exact (hend.functions e he).of_extends hext
  · rw [List.mem_singleton.mp he]
    exact hend.commands.of_extends hext

/-- Of the commands of the loader only the last one names a function. -/
theorem callee?_of_mem_loader {s : Emission} {c : Command} (hc : c ∈ s.loader) {f : FunctionName}
    (hf : c.callee? = some f) : f = .declared ResourceName.entry := by
  have hstraight : ∀ (os : List Objective), c ∉ os.map .addObjective := by
    intro os hmem
    obtain ⟨o, -, rfl⟩ := List.mem_map.mp hmem
    cases hf
  have hnumbered : ∀ (n : Nat) (o : Nat → Objective),
      c ∉ (List.range n).map fun i => .addObjective (o (i + 1)) := by
    intro n o hmem
    obtain ⟨i, -, rfl⟩ := List.mem_map.mp hmem
    cases hf
  rw [loader] at hc
  rcases List.mem_append.mp hc with hc | hc
  · rcases List.mem_append.mp hc with hc | hc
    · rcases List.mem_append.mp hc with hc | hc
      · rcases List.mem_append.mp hc with hc | hc
        · simp only [List.mem_cons, List.not_mem_nil, or_false] at hc
          rcases hc with rfl | rfl <;> cases hf
        · exact absurd hc (hstraight _)
      · exact absurd hc (hnumbered _ .argument)
    · exact absurd hc (hnumbered _ .slot)
  · simp only [List.mem_cons, List.not_mem_nil, or_false] at hc
    rcases hc with rfl | rfl | rfl | rfl <;> cases hf
    rfl

/-- A function is finished under its name. -/
theorem mem_function (c : EmissionContext) (s : Emission) (name : Bytes) (params : List Nat)
    (body : List Stmt) : .declared name ∈ (function c s name params body).functions.map (·.1) := by
  rw [function_eq, closed]
  simp

end Emission

open Emission

section

variable {p : Program} {r : Resolution} {t : Typing}

theorem Program.emit_closed {A : FunctionName → Prop} (hA : (Limits.calling A).Admit ⟨r, t⟩) : (p.emit r t).Closed A := by
  rw [emit]
  have hentry := function_closed hA (.nothing A) ResourceName.entry [] p.topLevel
  revert hentry
  generalize Emission.function ⟨r, t⟩ {} ResourceName.entry [] p.topLevel = s
  intro hs
  induction p.functions generalizing s with
  | nil => exact hs
  | cons f fs ih =>
    refine ih _ ?_
    rw [declaredFunction]
    split
    · exact hs
    · exact function_closed hA hs _ _ _

/-- What is recorded as a function of a well-typed program is finished under its resource name. -/
theorem Program.Typed.mem_emit (h : p.Typed ⟨r, t⟩) {info : FunctionInfo} (hinfo : info ∈ t.functions) :
    .declared (ResourceName.normalize info.name) ∈ (p.emit r t).functions.map (·.1) := by
  obtain ⟨f, hf, htyped⟩ := Typing.exists_of_forall₂ h.functions.flip hinfo
  obtain ⟨s, hs⟩ := h.extends_declared hf htyped
  exact (hs.functions.map _).subset (mem_function _ s _ _ _)

/-- The code of a well-typed program calls nothing that is not there. -/
theorem Program.Typed.finished_closed (h : p.Typed ⟨r, t⟩) :
    ∀ e ∈ (p.emit r t).finished, ∀ c ∈ e.2, ∀ f, c.callee? = some f →
      f ∈ (p.emit r t).finished.map (·.1) := by
  have hadmits : (Limits.calling fun f => f ∈ (p.emit r t).functions.map (·.1)).Admit ⟨r, t⟩ := fun y info hinfo =>
    h.mem_emit (List.mem_of_find?_eq_some hinfo)
  have hclosed := Program.emit_closed (p := p) hadmits
  have hentry := (h.extends_entry.functions.map (·.1)).subset (mem_function _ {} _ _ _)
  have hfunctions : ∀ f ∈ (p.emit r t).functions.map (·.1), f ∈ (p.emit r t).finished.map (·.1) := by
    intro f hf
    rw [finished, List.map_append, List.map_append]
    exact List.mem_append_left _ (List.mem_append_left _ hf)
  intro e he c hc f hf
  rw [finished] at he
  rcases List.mem_append.mp he with he | he
  · rcases List.mem_append.mp he with he | he
    · rcases hclosed.functions e he c hc f hf with hknown | hknown | ⟨rfl, hjoined⟩
      · exact hfunctions f hknown
      · exact hfunctions f hknown
      · rw [finished, if_pos hjoined]
        simp
    · split at he
      · rw [List.mem_singleton.mp he] at hc
        rw [List.mem_singleton.mp hc] at hf
        cases hf
      · cases he
  · rw [List.mem_singleton.mp he] at hc
    rw [callee?_of_mem_loader hc hf]
    exact hfunctions _ hentry

end

end Craftlang
