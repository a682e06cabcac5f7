import Craftlang.Proofs.Code.Walks
import Craftlang.Proofs.Typing.ProgramSound
import Craftlang.Proofs.Typing.Rules

/-!
# The functions of a program

The code of a program is emitted function by function, and nothing that is finished is changed later. The
functions of a program whose resource names differ have names of their own, and so have their pieces.
-/

namespace Craftlang

namespace Emission

/-- The code of a function before its parameters are taken. -/
def opened (s : Emission) (name : Bytes) : Emission :=
  Emission.emitAll { s with owner := name, slots := [], lastSlot := 0, lastPiece := 0, commands := [] }
    [.summonFrame, .numberFrame, .set pending Signal.none.number, .pushTexts]

/-- The code of a function up to the end of its body. -/
def bodyOf (c : EmissionContext) (s : Emission) (name : Bytes) (params : List Nat)
    (body : List Stmt) : Emission :=
  stmts c (takeParams c (s.opened name) 1 params) body

/-- A function is finished behind its body. -/
def closed (s : Emission) (name : Bytes) : Emission :=
  let s := s.emitAll [.removeFrame, .leaveFrame, .popTexts]
  { s with
    functions := s.functions ++ [(.declared name, s.commands)]
    slotCount := max s.slotCount s.lastSlot }

/-- The code of a function before anything is emitted. -/
def entered (s : Emission) (name : Bytes) : Emission :=
  { s with owner := name, slots := [], lastSlot := 0, lastPiece := 0, commands := [] }

theorem function_eq (c : EmissionContext) (s : Emission) (name : Bytes) (params : List Nat)
    (body : List Stmt) : function c s name params body = (s.bodyOf c name params body).closed name := rfl

/-- What is finished stays as it is, and more may be added. -/
structure Extends (s s' : Emission) : Prop where
  functions : s.functions <+: s'.functions
  globals : s.globals <+: s'.globals
  joined : s.joinedAt.isSome = true → s'.joinedAt.isSome = true

theorem Extends.refl (s : Emission) : s.Extends s := ⟨List.prefix_rfl, List.prefix_rfl, id⟩

theorem Extends.trans {s s' s'' : Emission} (h : s.Extends s') (h' : s'.Extends s'') : s.Extends s'' :=
  ⟨h.functions.trans h'.functions, h.globals.trans h'.globals, fun hj => h'.joined (h.joined hj)⟩

theorem Grows.extends {s s' : Emission} (h : s.Grows s') : s.Extends s' := by
  obtain ⟨functions, hfunctions, -⟩ := h.functions
  obtain ⟨globals, hglobals, -⟩ := h.globals
  exact ⟨⟨functions, hfunctions.symm⟩, ⟨globals, hglobals.symm⟩, h.joined⟩

/-- The finished functions are those of some owners and their pieces. Their names differ, and the places of
global variables are numbered. -/
structure Ordered (s : Emission) (owners : List Bytes) : Prop where
  names : (s.functions.map (·.1)).Nodup
  owned : ∀ e ∈ s.functions, ∃ o ∈ owners, e.1 = .declared o ∨ ∃ n, e.1 = .piece o n
  globals : NumberedFrom 1 s.globals

section

variable {c : EmissionContext} {s : Emission}

theorem opened_grows (c : EmissionContext) (s : Emission) (name : Bytes) (params : List Nat)
    (body : List Stmt) : (s.opened name).Grows (s.bodyOf c name params body) :=
  (grows_takeParams c _ 1 params).trans (stmts_grows c _ body)

theorem moves_opened {L : Limits} (s : Emission) (name : Bytes) : Moves L [] (s.entered name) (s.opened name) := by
  refine .commands _ fun d hd => ?_
  simp only [List.mem_cons, List.not_mem_nil, or_false] at hd
  rcases hd with rfl | rfl | rfl | rfl
  · exact .frame (by simp)
  · exact .frame (by simp)
  · exact .set .pending (isFixed_signal .none)
  · exact .frame (by simp)

theorem moves_farewell {L : Limits} (s : Emission) : Moves L [] s (s.emitAll [.removeFrame, .leaveFrame, .popTexts]) := by
  refine .commands s fun d hd => .frame ?_
  simp only [List.mem_cons, List.not_mem_nil, or_false] at hd ⊢
  exact .inr (.inr (.inr hd))

/-- A function, from its frame on to the end of the frame. -/
theorem moves_function {L : Limits} (hA : L.Admit c) (s : Emission) (name : Bytes) (params : List Nat)
    (hp : ∀ i < params.length, L.scores ⟨.machine, .argument (1 + i)⟩) (body : List Stmt)
    (ht : ∀ v ∈ Stmt.allTexts body, L.texts v) :
    Moves L ((Stmt.allRoots body).flatMap (Expr.marks c)) (s.entered name)
      ((s.bodyOf c name params body).emitAll [.removeFrame, .leaveFrame, .popTexts]) := by
  have hparams := (moves_opened s name).before (moves_takeParams c _ 1 params hp)
  exact (hparams.behind (moves_stmts hA _ body ht)).before (moves_farewell _)

/-- A function is added to what is finished. -/
theorem extends_bodyOf (c : EmissionContext) (s : Emission) (name : Bytes) (params : List Nat)
    (body : List Stmt) : s.Extends (s.bodyOf c name params body) :=
  have h := (s.opened_grows c name params body).extends
  ⟨h.functions, h.globals, h.joined⟩

theorem extends_closed (s : Emission) (name : Bytes) : s.Extends (s.closed name) :=
  ⟨List.prefix_append _ _, List.prefix_rfl, id⟩

theorem extends_function (c : EmissionContext) (s : Emission) (name : Bytes) (params : List Nat)
    (body : List Stmt) : s.Extends (function c s name params body) :=
  (s.extends_bodyOf c name params body).trans (extends_closed _ name)

/-- What a function adds to what is finished is the function and its pieces. -/
theorem functions_function (c : EmissionContext) (s : Emission) (name : Bytes) (params : List Nat)
    (body : List Stmt) : ∃ added, (function c s name params body).functions = s.functions ++ added ∧
      (added.map (·.1)).Nodup ∧ ∀ e ∈ added, e.1 = .declared name ∨ ∃ n, e.1 = .piece name n := by
  obtain ⟨functions, hfunctions, hnodup, hnames⟩ := (s.opened_grows c name params body).functions
  rw [function_eq]
  generalize s.bodyOf c name params body = b at hfunctions hnames
  change b.functions = s.functions ++ functions at hfunctions
  refine ⟨functions ++ [(.declared name, (b.emitAll [.removeFrame, .leaveFrame, .popTexts]).commands)], ?_, ?_,
    fun e he => ?_⟩
  · change b.functions ++ _ = _
    rw [hfunctions, List.append_assoc]
  · rw [List.map_append, List.nodup_append]
    refine ⟨hnodup, by simp, fun x hx y hy heq => ?_⟩
    obtain ⟨e, he, rfl⟩ := List.mem_map.mp hx
    obtain ⟨n, hn, -⟩ := hnames e he
    rw [hn, List.mem_singleton.mp hy] at heq
    cases heq
  · rcases List.mem_append.mp he with he | he
    · obtain ⟨n, hn, -⟩ := hnames e he
      exact .inr ⟨n, hn⟩
    · exact .inl (by rw [List.mem_singleton.mp he])

/-- A function with a name of its own keeps the order. -/
theorem Ordered.function {owners : List Bytes} (h : s.Ordered owners) {name : Bytes} (hname : name ∉ owners)
    (params : List Nat) (body : List Stmt) :
    (function c s name params body).Ordered (owners ++ [name]) := by
  obtain ⟨globals, hglobals, hnumbered⟩ := (s.opened_grows c name params body).globals
  obtain ⟨added, hadded, hnodup, hnew⟩ := s.functions_function c name params body
  refine ⟨?_, fun e he => ?_, ?_⟩
  · rw [hadded, List.map_append, List.nodup_append]
    refine ⟨h.names, hnodup, fun x hx y hy heq => ?_⟩
    -- The owner of a function that is there already has another name.
    obtain ⟨e, he, rfl⟩ := List.mem_map.mp hx
    obtain ⟨e', he', rfl⟩ := List.mem_map.mp hy
    obtain ⟨o, ho, hold⟩ := h.owned e he
    refine hname ?_
    rcases hold with hold | ⟨n, hold⟩ <;> rcases hnew e' he' with hn | ⟨k, hn⟩ <;>
      rw [hold, hn] at heq <;> cases heq <;> exact ho
  · rw [hadded] at he
    rcases List.mem_append.mp he with he | he
    · obtain ⟨o, ho, hold⟩ := h.owned e he
      exact ⟨o, List.mem_append_left _ ho, hold⟩
    · exact ⟨name, List.mem_append_right _ (List.mem_singleton_self _), hnew e he⟩
  · rw [function_eq]
    change NumberedFrom 1 (s.bodyOf c name params body).globals
    rw [hglobals]
    change NumberedFrom 1 (s.globals ++ globals)
    refine h.globals.append ?_
    rw [Nat.add_comm]
    exact hnumbered

/-- The loader and the function that joins strings have names of their own, too. -/
theorem Ordered.finished {owners : List Bytes} (h : s.Ordered owners) : (s.finished.map (·.1)).Nodup := by
  have hother : ∀ e ∈ s.functions, e.1 ≠ .joiner ∧ e.1 ≠ .loader := by
    intro e he
    obtain ⟨o, -, ho | ⟨n, ho⟩⟩ := h.owned e he <;> rw [ho] <;> exact ⟨nofun, nofun⟩
  have hshared : (((if s.joinedAt.isSome then [(FunctionName.joiner, [Command.joinedText])] else [])
      ++ [(FunctionName.loader, s.loader)]).map (·.1)).Nodup ∧
      ∀ e ∈ (if s.joinedAt.isSome then [(FunctionName.joiner, [Command.joinedText])] else [])
        ++ [(FunctionName.loader, s.loader)], e.1 = .joiner ∨ e.1 = .loader := by
    cases s.joinedAt.isSome <;> simp
  rw [Emission.finished, List.append_assoc, List.map_append, List.nodup_append]
  refine ⟨h.names, hshared.1, fun x hx y hy heq => ?_⟩
  obtain ⟨e, he, rfl⟩ := List.mem_map.mp hx
  obtain ⟨e', he', rfl⟩ := List.mem_map.mp hy
  rcases hshared.2 e' he' with h' | h'
  · exact (hother e he).1 (heq.trans h')
  · exact (hother e he).2 (heq.trans h')

end

end Emission

open Emission

/-- What is recorded about a function is found by its item. -/
theorem Program.Typed.functionOfItem?_eq {c : EmissionContext} {p : Program} (h : p.Typed c) {f : Function}
    (hf : f ∈ p.functions) {info : FunctionInfo} (hinfo : f.Typed c info) :
    ∃ found, c.typing.functionOfItem? f.node.id = some found ∧ found.name = info.name ∧
      found.params = info.params := by
  obtain ⟨known, hknown, htyped⟩ := Typing.exists_of_forall₂ h.functions hf
  have hsome : (c.typing.functionOfItem? f.node.id).isSome = true := by
    rw [Typing.functionOfItem?, List.find?_isSome]
    exact ⟨known, hknown, by simp [htyped.item]⟩
  obtain ⟨found, hfound⟩ := Option.isSome_iff_exists.mp hsome
  -- Functions with the same item have the same symbol, which only one of them has.
  obtain ⟨g, -, hg⟩ := Typing.exists_of_forall₂ h.functions.flip (List.mem_of_find?_eq_some hfound)
  have hitem : found.item = f.node.id := by
    rw [Typing.functionOfItem?] at hfound
    simpa using List.find?_some hfound
  obtain ⟨i, hi, hsymbol, -⟩ := htyped.names
  obtain ⟨j, hj, hsymbol', -⟩ := hg.names
  rw [← hg.item, hitem, hi] at hj
  cases hj
  obtain rfl := List.inj_on_of_nodup_map h.symbols (List.mem_of_find?_eq_some hfound) hknown
    (hsymbol'.symm.trans hsymbol)
  obtain ⟨j, hj, -, hparams⟩ := hinfo.names
  obtain ⟨k, hk, -, hparams'⟩ := htyped.names
  rw [hj] at hk
  cases hk
  exact ⟨found, hfound, htyped.name.trans hinfo.name.symm, hparams'.symm.trans hparams⟩

/-- A declared function is emitted under its resource name. -/
theorem Program.Typed.declaredFunction_eq {c : EmissionContext} {p : Program} (h : p.Typed c)
    {f : Function} (hf : f ∈ p.functions) {info : FunctionInfo} (hinfo : f.Typed c info) (s : Emission) :
    declaredFunction c s f
      = function c s (ResourceName.normalize info.name) info.params f.body.stmts := by
  obtain ⟨found, hfound, hname, hparams⟩ := h.functionOfItem?_eq hf hinfo
  rw [declaredFunction, hfound, ← hname, ← hparams]

/-- The resource names of the functions of a program. -/
def Program.resourceNames (p : Program) : List Bytes :=
  p.functions.map fun f => ResourceName.normalize f.name.text

section

variable {p : Program} {r : Resolution} {t : Typing}

theorem Program.Typed.extends_functions (h : p.Typed ⟨r, t⟩) (s : Emission) (fs : List Function)
    (hfs : ∀ f ∈ fs, f ∈ p.functions) :
    s.Extends (fs.foldl (declaredFunction ⟨r, t⟩) s) ∧ ∀ f ∈ fs, ∀ info, f.Typed ⟨r, t⟩ info →
      ∃ s₁, (function ⟨r, t⟩ s₁ (ResourceName.normalize info.name) info.params f.body.stmts).Extends
        (fs.foldl (declaredFunction ⟨r, t⟩) s) := by
  induction fs generalizing s with
  | nil => exact ⟨.refl s, nofun⟩
  | cons f fs ih =>
    have hf := hfs f List.mem_cons_self
    obtain ⟨hrest, hall⟩ := ih (declaredFunction ⟨r, t⟩ s f) fun g hg => hfs g (List.mem_cons_of_mem _ hg)
    refine ⟨?_, fun g hg info hinfo => ?_⟩
    · obtain ⟨info, -, hinfo⟩ := Typing.exists_of_forall₂ h.functions hf
      refine Extends.trans ?_ hrest
      rw [h.declaredFunction_eq hf hinfo]
      exact extends_function ..
    · rcases List.mem_cons.mp hg with rfl | hg
      · exact ⟨s, h.declaredFunction_eq hf hinfo s ▸ hrest⟩
      · exact hall g hg info hinfo

/-- The entry is emitted first, and is there in the end. -/
theorem Program.Typed.extends_entry (h : p.Typed ⟨r, t⟩) :
    (function ⟨r, t⟩ {} ResourceName.entry [] p.topLevel).Extends (p.emit r t) :=
  (h.extends_functions _ p.functions fun _ hf => hf).1

/-- A declared function is there in the end. -/
theorem Program.Typed.extends_declared (h : p.Typed ⟨r, t⟩) {f : Function} (hf : f ∈ p.functions)
    {info : FunctionInfo} (hinfo : f.Typed ⟨r, t⟩ info) :
    ∃ s, (function ⟨r, t⟩ s (ResourceName.normalize info.name) info.params f.body.stmts).Extends
      (p.emit r t) :=
  (h.extends_functions _ p.functions fun _ hf => hf).2 f hf info hinfo

theorem Program.Typed.ordered_functions (h : p.Typed ⟨r, t⟩) {owners : List Bytes} {s : Emission}
    (hs : s.Ordered owners) (fs : List Function) (hfs : ∀ f ∈ fs, f ∈ p.functions)
    (hnames : (owners ++ fs.map fun f => ResourceName.normalize f.name.text).Nodup) :
    (fs.foldl (declaredFunction ⟨r, t⟩) s).Ordered
      (owners ++ fs.map fun f => ResourceName.normalize f.name.text) := by
  induction fs generalizing s owners with
  | nil => exact (List.append_nil owners).symm ▸ hs
  | cons f fs ih =>
    have hf := hfs f List.mem_cons_self
    obtain ⟨info, -, hinfo⟩ := Typing.exists_of_forall₂ h.functions hf
    rw [List.map_cons, List.append_cons] at hnames ⊢
    have hfresh : ResourceName.normalize f.name.text ∉ owners := by
      intro hmem
      have := (List.nodup_append.mp (List.nodup_append.mp hnames).1).2.2 _ hmem _
        (List.mem_singleton_self _)
      exact this rfl
    refine ih ?_ (fun g hg => hfs g (List.mem_cons_of_mem _ hg)) hnames
    rw [h.declaredFunction_eq hf hinfo, hinfo.name]
    exact hs.function hfresh _ _

/-- The functions of a program have different names if their resource names differ. -/
theorem Program.Typed.ordered (h : p.Typed ⟨r, t⟩) (hnodup : p.resourceNames.Nodup)
    (hentry : ResourceName.entry ∉ p.resourceNames) :
    (p.emit r t).Ordered (ResourceName.entry :: p.resourceNames) := by
  have hstart : ({} : Emission).Ordered [] := ⟨List.nodup_nil, nofun, trivial⟩
  have hfirst : (function ⟨r, t⟩ {} ResourceName.entry [] p.topLevel).Ordered [ResourceName.entry] :=
    hstart.function List.not_mem_nil [] p.topLevel
  exact h.ordered_functions hfirst p.functions (fun _ hf => hf) (List.nodup_cons.mpr ⟨hentry, hnodup⟩)

end

end Craftlang
