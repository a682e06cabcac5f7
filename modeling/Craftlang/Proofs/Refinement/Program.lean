import Craftlang.Proofs.Build.Generation
import Craftlang.Proofs.Refinement.Stmt

/-!
# Code of a program does what the program does

The functions of an accepted program have different names, so each is found under its own, and the whole
code fits one layout. So the entry does what the statements outside all functions do: it shows the same
things in the same order, and leaves the same values in global variables. This needs that variables hold
values when they are read, those of a call as well as global ones.
-/

namespace Craftlang

open Machine Emission

namespace Emission

variable {s body : Emission} {owners : List Bytes} {name : Bytes}

/-- What is written under a name is found under it. -/
theorem Ordered.code (h : s.Ordered owners) {f : FunctionName} {cs : List Command}
    (hf : (f, cs) ∈ s.finished) : s.code f = some cs := lookup_eq_some_of_mem h.finished hf

/-- A function that is there in the end has its code there. -/
theorem Ordered.hasCode (h : s.Ordered owners) {t : Layout} (hcode : t.code = s.code)
    (hglobals : t.globals = s.globals) (he : (body.closed name).Extends s) : t.HasCode name body := by
  have hfound : ∀ e ∈ (body.closed name).functions, t.code e.1 = some e.2 := fun e hmem =>
    hcode ▸ h.code (List.mem_append_left _ (List.mem_append_left _ (he.functions.subset hmem)))
  refine ⟨hfound _ (List.mem_append_right _ (List.mem_singleton_self _)), ⟨⟨[], ?_, nofun⟩, ?_, ?_, ?_⟩⟩
  · exact (List.append_nil _).symm
  · exact hglobals ▸ he.globals
  · exact fun e hmem => hfound e (List.mem_append_left _ hmem)
  · intro hjoined
    refine hcode.symm ▸ h.code (List.mem_append_left _ (List.mem_append_right _ ?_))
    rw [if_pos (he.joined hjoined)]
    exact List.mem_singleton_self _

end Emission

/-- Where a program keeps its values, with the entry of the machine at the start. -/
def Program.layout (p : Program) (r : Resolution) (t : Typing) (m : Machine) : Layout :=
  { context := ⟨r, t⟩, code := (p.emit r t).code, start := m, globals := (p.emit r t).globals, slots := [] }

section

variable {p : Program} {r : Resolution} {t : Typing} {owners : List Bytes} {m : Machine}

theorem Program.hosts (h : p.Typed ⟨r, t⟩) (ho : (p.emit r t).Ordered owners)
    (hparams : ∀ f info, f ∈ p.functions → f.Typed ⟨r, t⟩ info →
      ∀ y ∈ info.params, r.isGlobal y = false) (m : Machine) : (p.layout r t m).Hosts p := by
  refine ⟨⟨ho.globals, (Program.emit_safe h).globals, .nil⟩, h, fun f info hf hinfo => ?_, hparams⟩
  obtain ⟨s, hs⟩ := h.extends_declared hf hinfo
  exact ⟨s, ho.hasCode rfl rfl hs⟩

/-- The entry of a program does what its statements outside all functions do. -/
theorem Program.entry_refines (h : p.Typed ⟨r, t⟩) (ho : (p.emit r t).Ordered owners)
    (hparams : ∀ f info, f ∈ p.functions → f.Typed ⟨r, t⟩ info →
      ∀ y ∈ info.params, r.isGlobal y = false) (hm : m.Ready) {fuel : Nat} {w : World}
    (heval : Evaluation.run p ⟨r, t⟩ fuel = .ok w) :
    ∃ m', Runs (p.emit r t).code [.call (.declared ResourceName.entry)] m m' ∧ m'.Ready ∧
      m'.frames = m.frames ∧ m'.entries = m.entries ∧ (p.layout r t m).Shares w m' := by
  have hosts := p.hosts h ho hparams m
  obtain ⟨⟨w', ending⟩, hstmts, hend⟩ := Evaluation.bind_eq_ok.mp heval
  have hcode : (p.layout r t m).HasCode ResourceName.entry
      (({} : Emission).bodyOf ⟨r, t⟩ ResourceName.entry [] p.topLevel) := ho.hasCode rfl rfl h.extends_entry
  have hshares : (p.layout r t m).Shares {} m :=
    ⟨nofun, fun _ _ _ _ _ => rfl, (List.append_nil _).symm⟩
  have hhands : m.Hands 1 [] := trivial
  obtain ⟨m', hruns, hin, hshared, hframes, hentries, -⟩ := function_refines (refines p fuel) hosts
    hcode hm hshares hhands rfl nofun rfl (Evaluation.typed_start _) h.topLevel hstmts
  have hw : w' = w := by
    dsimp only at hend
    split at hend <;> cases hend
    rfl
  subst hw
  refine ⟨m'.left, hruns, hin.ready_left, hframes, hentries, hshared.congr hosts.sound (fun l n hl => ?_) rfl⟩
  exact m'.at?_left hl.not_local hl.ne_innermost

end

/-- A machine on which no call is running. -/
def Machine.idle : Machine :=
  { scores := fun s => if s = innermost then some 0 else none }

namespace UnitInput

variable {input : UnitInput} {shadow : Bool}

/-- What the stages before code generation find out about an accepted unit. -/
def context (input : UnitInput) (shadow : Bool) : EmissionContext :=
  ⟨input.resolution shadow, input.typing shadow⟩

theorem IsAccepted.isGlobal_params (h : input.IsAccepted shadow) {f : Function} {info : FunctionInfo}
    (hf : f ∈ input.program.functions) (hinfo : f.Typed (input.context shadow) info) :
    ∀ y ∈ info.params, (input.resolution shadow).isGlobal y = false := by
  intro y hy
  have hdeclares := h.settles.declares hf
  obtain ⟨i, hi, -, hparams⟩ := hinfo.names
  have hitem := hdeclares.item
  rw [show (input.resolution shadow).itemOf? f.node.id = some i from hi] at hitem
  refine hdeclares.isGlobal_params h.settles.final.sound ?_
  rw [← Option.some.inj hitem, hparams]
  exact hy

/-- Code generation keeps the meaning of an accepted unit. If a run of the program ends, which reads no
variable before it holds a value and leaves no function without its result, then the generated entry ends
on every machine whose frames are in order: it shows the same values and runs the same commands in the
same order, every global variable holds the value that it has in the program at a place of its own, and
those that were not assigned are as they were. An accepted program never makes no sense. -/
theorem accepted_runs (h : input.IsAccepted shadow) {m : Machine} (hm : m.Ready) (fuel : Nat) :
    (∀ w, Evaluation.run input.program (input.context shadow) fuel = .ok w →
      ∃ m', Runs (input.emission shadow).code [.call (.declared ResourceName.entry)] m m' ∧
        m'.Ready ∧ m'.frames = m.frames ∧ m'.entries = m.entries ∧
        m'.actions = m.actions ++ w.actions ∧
        (∀ y v, (input.resolution shadow).isGlobal y = true → w.globals y = some v →
          ∃ l, (input.emission shadow).globals.lookup y = some l ∧ m'.at? l = some v.cell) ∧
        ∀ y l, (input.resolution shadow).isGlobal y = true → w.globals y = none →
          (input.emission shadow).globals.lookup y = some l → m'.at? l = m.at? l) ∧
      Evaluation.run input.program (input.context shadow) fuel ≠ .error .meaningless := by
  refine ⟨fun w heval => ?_, Evaluation.run_ne_meaningless h.typed fuel⟩
  obtain ⟨m', hruns, hready, hframes, hentries, hshares⟩ := input.program.entry_refines h.typed h.ordered
    (fun f info hf hinfo => h.isGlobal_params hf hinfo) hm heval
  exact ⟨m', hruns, hready, hframes, hentries, hshares.actions, hshares.holds,
    fun y l hg hnone hl => hshares.untouched y l hg hl hnone⟩

/-- A unit with a call, strings that are joined, a loop that is left, and a command. -/
def echo : UnitInput :=
  ⟨"echo.craft", "fun twice(s: string): string\n    return s .. s\nn = 0\nwhile true\n    n += 1\n    if n == 2\n        break\n    print(twice(\"a\"))\n/say done\n"⟩

theorem runs_echo : ∃ m', Runs (echo.emission true).code [.call (.declared ResourceName.entry)] .idle m' ∧
    m'.actions = [.shown (.string "aa"), .command "say done"] := by
  obtain ⟨hsilent, hactions⟩ : echo.IsSilent true ∧
      (Evaluation.run echo.program (echo.context true) 20).map (·.actions)
        = .ok [.shown (.string "aa"), .command "say done"] := by decide +kernel
  have hready : Machine.Ready .idle := ⟨trivial, rfl⟩
  obtain ⟨w, heval, hshown⟩ := Evaluation.map_eq_ok.mp hactions
  obtain ⟨m', hruns, -, -, -, hacts, -⟩ := (accepted_runs hsilent.isAccepted hready 20).1 w heval
  exact ⟨m', hruns, hacts.trans hshown⟩

/-- A unit in which a local variable is read that has no value: a loop is left before its condition is
evaluated, and the variable is declared by an assignment in that condition. -/
def skipping : UnitInput :=
  ⟨"skipping.craft", "if true\n    do\n        break\n    while b = true\n    print(false == b)\n    print(b)\n"⟩

/-- Meaning is not kept where a local variable has no value. The unit is accepted; evaluating it stops at the
local variable, so no global variable was read too early and no function ended without its result. The
generated entry ends nevertheless, and what it shows is not what the program shows, whichever value the variable
is taken to have: a missing score is equal to nothing, and it is copied as zero. -/
theorem skipping_shows_otherwise : skipping.IsAccepted true ∧ (skipping.resolution true).isGlobal 6 = false ∧
    Evaluation.run skipping.program (skipping.context true) 20 = .error (.unset 6) ∧
    ∃ m', Runs (skipping.emission true).code [.call (.declared ResourceName.entry)] .idle m' ∧
      ∀ b, ∃ w, Evaluation.stmts skipping.program (skipping.context true) 20
          { locals := assigned (fun _ => none) 6 (.bool b) } skipping.program.topLevel = .ok (w, .next) ∧
        w.actions ≠ m'.actions := by
  obtain ⟨hsilent, hlocal, hstop, hmachine, hassumed⟩ : skipping.IsSilent true ∧
      (skipping.resolution true).isGlobal 6 = false ∧
      (Evaluation.run skipping.program (skipping.context true) 20).map (·.actions) = .error (.unset 6) ∧
      (Machine.run (skipping.emission true).code 40 [.call (.declared ResourceName.entry)] .idle).map (·.actions)
        = some [.shown (.bool false), .shown (.bool false)] ∧
      ∀ b, (Evaluation.stmts skipping.program (skipping.context true) 20
          { locals := assigned (fun _ => none) 6 (.bool b) } skipping.program.topLevel).map
        (fun answer => (answer.1.actions, answer.2)) = .ok ([.shown (.bool !b), .shown (.bool b)], .next) := by
    decide +kernel
  obtain ⟨m', hruns, hactions⟩ := Option.map_eq_some_iff.mp hmachine
  refine ⟨hsilent.isAccepted, hlocal, Evaluation.map_eq_error.mp hstop, m', ⟨40, hruns⟩, fun b => ?_⟩
  obtain ⟨⟨w, ending⟩, heval, hshown⟩ := Evaluation.map_eq_ok.mp (hassumed b)
  obtain ⟨hw, rfl⟩ := Prod.mk.inj hshown
  refine ⟨w, heval, ?_⟩
  rw [hw, hactions]
  cases b <;> decide

end UnitInput

end Craftlang
