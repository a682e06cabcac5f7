import Craftlang.Proofs.Build.Paths
import Craftlang.Proofs.Code.Inventory
import Craftlang.Proofs.Code.Literals
import Craftlang.Proofs.Code.Names

/-!
# Objectives and numbers of a pack

The loader of a pack creates the objectives that the commands of the pack name, but for one kind: the
arguments that a function takes are created only up to the largest call in the code. So an objective is
missing exactly if a function that is not called takes a score that no call hands over.
-/

namespace Craftlang

namespace Objective

/-- The character by which the names of different kinds of objectives differ. -/
def mark : Objective → UInt8
  | frameNumber => byte 'i'
  | innermost => byte 'f'
  | result => byte 'r'
  | pending => byte 'c'
  | printed => byte 'o'
  | argument _ => byte 'a'
  | slot _ => byte 's'
  | globals => byte 'g'

theorem render_mark (ns : Namespace) (x : Objective) : (x.render ns)[3]? = some x.mark := by
  cases x <;> rfl

/-- Different objectives have different names. -/
theorem render_inj {ns : Namespace} {x y : Objective} (h : x.render ns = y.render ns) : x = y := by
  have hmark : x.mark = y.mark := by
    have hthird := congrArg (·[3]?) h
    simp only [render_mark] at hthird
    exact Option.some.inj hthird
  cases x <;> cases y <;> first
    | rfl
    | exact absurd hmark (by change byte _ ≠ byte _; decide)
    | exact congrArg _ (shortNumber_inj (List.append_cancel_left h))

end Objective

/-- Does the loader of a pack have a line that creates an objective? -/
def Datapack.Creates (d : Datapack) (ns : Namespace) (x : Objective) : Prop :=
  ∃ g ∈ d.functions, g.resource = ns.resource FunctionName.loader.render ∧
    (Command.addObjective x).render ns ∈ g.lines

/-- Does a function have a score as its parameter with an index? -/
def Typing.TakesScore (t : Typing) (k : Nat) : Prop :=
  ∃ info ∈ t.functions, ∃ y, info.params[k]? = some y ∧ (t.typeOfSymbol y).isScore = true

/-- Does the code of a program have a call with an argument for the parameter with an index? -/
def Program.HandsOver (p : Program) (c : EmissionContext) (k : Nat) : Prop :=
  ∃ part ∈ p.lowered, k < part.arity c

theorem Typing.mem_functionArguments {t : Typing} {x : Objective} :
    x ∈ (t.functions.flatMap fun info => t.scoreArguments 1 info.params) ↔
      ∃ k, x = .argument (k + 1) ∧ t.TakesScore k := by
  simp only [List.mem_flatMap, mem_scoreArguments, TakesScore]
  constructor
  · rintro ⟨info, hinfo, k, y, hy, hscore, rfl⟩
    exact ⟨k, by rw [Nat.add_comm], info, hinfo, y, hy, hscore⟩
  · rintro ⟨k, rfl, info, hinfo, y, hy, hscore⟩
    exact ⟨info, hinfo, k, y, hy, hscore, by rw [Nat.add_comm]⟩

namespace Emission

variable {s : Emission} {ns : Namespace} {x : Objective}

/-- A line of the loader creates an objective only if the loader means to. -/
theorem render_addObjective_mem_loader :
    (Command.addObjective x).render ns ∈ s.loader.map (Command.render ns) ↔ s.Creates x := by
  constructor
  · intro hx
    obtain ⟨d, hd, heq⟩ := List.mem_map.mp hx
    rcases mem_loader.mp hd with hd | ⟨y, rfl, hy⟩
    · -- the other lines differ in their first byte, or behind "scoreboard "
      have hfirst : (d.render ns)[0]? = some (byte 's') := congrArg (·[0]?) heq
      have hsecond : (d.render ns)[11]? = some (byte 'o') := congrArg (·[11]?) heq
      simp only [List.mem_cons, List.not_mem_nil, or_false] at hd
      rcases hd with rfl | rfl | rfl | rfl | rfl
      · exact absurd (show some (byte 'g') = some _ from hfirst) (by decide)
      · exact absurd (show some (byte 'k') = some _ from hfirst) (by decide)
      · exact absurd (show some (byte 'p') = some _ from hsecond) (by decide)
      · exact absurd (show some (byte 'd') = some _ from hfirst) (by decide)
      · exact absurd (show some (byte 'f') = some _ from hfirst) (by decide)
    · have hname := List.append_cancel_left (List.append_cancel_right heq)
      rwa [← Objective.render_inj hname]
  · intro hx
    exact List.mem_map_of_mem (addObjective_mem_loader.mpr hx)

end Emission

namespace UnitInput

variable {input : UnitInput} {o : BuildOptions} {x : Objective}

/-- The loader of the pack of an accepted unit creates what the loader of its code creates. -/
theorem IsAccepted.creates_iff (h : input.IsAccepted o.warnShadow) :
    (input.pack o).Creates (input.space o.space) x ↔ (input.emission o.warnShadow).Creates x := by
  let s := input.emission o.warnShadow
  have hloader : (FunctionName.loader, s.loader) ∈ s.finished := by
    rw [Emission.finished]
    exact List.mem_append_right _ (List.mem_singleton_self _)
  rw [← Emission.render_addObjective_mem_loader, Datapack.Creates, functions_pack]
  constructor
  · rintro ⟨g, hg, hresource, hx⟩
    obtain ⟨e, he, rfl⟩ := List.mem_map.mp hg
    have hrender := Namespace.path_inj (List.append_cancel_left hresource)
    have hname := FunctionName.render_inj (h.isPlain e he) (h.isPlain _ hloader) hrender
    have heq := List.inj_on_of_nodup_map h.ordered.finished he hloader hname
    rwa [heq] at hx
  · intro hx
    exact ⟨_, List.mem_map.mpr ⟨_, hloader, rfl⟩, rfl, hx⟩

/-- What the commands of an accepted unit name, its loader creates, but for the arguments of functions that
are not called. -/
theorem IsAccepted.missing_iff (h : input.IsAccepted o.warnShadow) :
    ((∃ e ∈ (input.emission o.warnShadow).finished, ∃ c ∈ e.2, x ∈ c.objectives) ∧
      ¬ (input.emission o.warnShadow).Creates x) ↔
    ∃ k, x = .argument (k + 1) ∧ (input.typing o.warnShadow).TakesScore k ∧
      ¬ input.program.HandsOver ⟨input.resolution o.warnShadow, input.typing o.warnShadow⟩ k := by
  have hlists := h.typed.lists
  have hcreated : ∀ k, (input.emission o.warnShadow).Creates (.argument (k + 1)) ↔
      input.program.HandsOver ⟨input.resolution o.warnShadow, input.typing o.warnShadow⟩ k := by
    intro k
    rw [Program.HandsOver, Program.lowered_eq]
    exact (and_iff_right (Nat.succ_pos k)).trans (hlists.arguments (k + 1) (Nat.succ_pos k))
  constructor
  · rintro ⟨⟨e, he, c, hc, hx⟩, hmissing⟩
    rcases Emission.mem_finished.mp ⟨e, he, hc⟩ with hc | ⟨-, rfl⟩ | hc
    · rcases hlists.created c hc x hx with hcreates | htaken
      · exact absurd hcreates hmissing
      · obtain ⟨k, rfl, htakes⟩ := Typing.mem_functionArguments.mp htaken
        exact ⟨k, rfl, htakes, (hcreated k).not.mp hmissing⟩
    · cases hx
    · exact absurd ((Emission.created_of_mem_loader hc).1 x hx) hmissing
  · rintro ⟨k, rfl, htakes, hnever⟩
    obtain ⟨c, hc, hx⟩ := hlists.named _ (Typing.mem_functionArguments.mpr ⟨k, rfl, htakes⟩)
    obtain ⟨e, he, hmem⟩ := Emission.mem_finished.mpr (.inl hc)
    exact ⟨⟨e, he, c, hmem, hx⟩, (hcreated k).not.mpr hnever⟩

end UnitInput

/-- Without a limit on diagnostics, the loader of a pack that compiling gives creates every objective that
stands in a command of the pack, with one exception: an argument that a function takes and no call in the
code hands over. Each of these is missing. -/
theorem Session.compile_creates {s : Session} {o : BuildOptions} {input : UnitInput} {d : Datapack}
    (hs : s.Reliable o [input]) (ho : o.limit ≤ 0) (hd : (s.compile o input).2.datapack = some d) :
    let ns := input.space o.space
    let c : EmissionContext := ⟨input.resolution o.warnShadow, input.typing o.warnShadow⟩
    let code := (input.emission o.warnShadow).finished
    d.functions = code.map (fun e => ⟨ns.resource e.1.render, ns.functionFile e.1.render d.format,
        e.2.map (Command.render ns)⟩) ∧
      (∀ e ∈ code, ∀ command ∈ e.2, ∀ x ∈ command.objectives, x.render ns <:+: command.render ns) ∧
      ∀ x, ((∃ e ∈ code, ∃ command ∈ e.2, x ∈ command.objectives) ∧ ¬ d.Creates ns x) ↔
        ∃ k, x = .argument (k + 1) ∧ c.typing.TakesScore k ∧ ¬ input.program.HandsOver c k := by
  have hpacked := (hs.compile List.mem_cons_self).1 (by rw [hd]; exact Option.some_ne_none d)
  obtain rfl : input.pack o = d := Option.some.inj (hpacked.datapack.symm.trans hd)
  have haccepted := hpacked.isAccepted ho
  refine ⟨input.functions_pack o, fun _ _ _ _ _ hx => Command.infix_objective hx, fun x => ?_⟩
  rw [haccepted.creates_iff]
  exact haccepted.missing_iff

namespace UnitInput

/-- A unit with a function that is not called. -/
def idle : UnitInput := ⟨"idle.craft", "fun f(a: int)\n    print(a)\n"⟩

/-- The function takes its parameter from the first argument, for which there is no objective. -/
theorem compile_idle : ∃ d, (({} : Session).compile {} idle).2.datapack = some d ∧
    (∃ g ∈ d.functions, ∃ line ∈ g.lines, Objective.render (idle.space []) (.argument 1) <:+: line) ∧
    ¬ d.Creates (idle.space []) (.argument 1) := by
  have hclean : idle.IsSilent false ∧ (idle.emission false).unjoinable = [] ∧
      (∃ info ∈ (idle.typing false).functions, ∃ y ∈ info.params[0]?,
        ((idle.typing false).typeOfSymbol y).isScore = true) ∧
      ∀ part ∈ idle.program.lowered, part.arity ⟨idle.resolution false, idle.typing false⟩ = 0 := by
    decide +kernel
  have hkeeps : ({} : Session).KeepsNothing := ⟨rfl, rfl⟩
  have hpack := Session.compile_pack (o := {}) hkeeps rfl hclean.1.isAccepted hclean.2.1
  obtain ⟨hfunctions, hnames, hmissing⟩ :=
    Session.compile_creates ((hkeeps.remembers idle).reliable rfl) (Int.le_refl 0) hpack
  have hnever : ¬ idle.program.HandsOver ⟨idle.resolution false, idle.typing false⟩ 0 := by
    rintro ⟨part, hpart, hlt⟩
    exact absurd (hclean.2.2.2 part hpart) (Nat.ne_of_gt hlt)
  obtain ⟨info, hinfo, y, hy, hscore⟩ := hclean.2.2.1
  obtain ⟨⟨e, he, command, hcommand, hx⟩, hlacks⟩ :=
    (hmissing (.argument 1)).mpr ⟨0, rfl, ⟨info, hinfo, y, hy, hscore⟩, hnever⟩
  refine ⟨_, hpack, ?_, hlacks⟩
  rw [hfunctions]
  exact ⟨_, List.mem_map.mpr ⟨e, he, rfl⟩, _, List.mem_map.mpr ⟨command, hcommand, rfl⟩,
    hnames e he command hcommand _ hx⟩

end UnitInput

end Craftlang

/-!
## Numbers in a pack

The numbers that the commands of a pack set scores to are a few fixed ones and those of literals. A score
is an integer of 32 bits, and so is the number of a literal, but for one: the smallest integer behind one
more sign, or behind three more, and so on, becomes a number that no score can have.
-/

namespace Craftlang

namespace UnitInput

variable {input : UnitInput} {o : BuildOptions}

/-- The literals of an accepted unit become numbers of 32 bits, with one exception. -/
theorem IsAccepted.becomes (h : input.IsAccepted o.warnShadow) :
    ∀ l ∈ input.program.literals (input.typing o.warnShadow), ∃ v,
      l.Becomes input.program ⟨input.resolution o.warnShadow, input.typing o.warnShadow⟩ v ∧
        (l.Exceeds → v = 2147483648) ∧ (¬ l.Exceeds → -2147483648 ≤ v ∧ v ≤ 2147483647) :=
  Program.becomes_of_mem_literals h.parse.2 input.nodup_ids h.settles fun d hd =>
    h d (List.mem_append_right _ hd)

/-- The code of an accepted unit sets scores to fixed numbers and to those of its literals. -/
theorem IsAccepted.fixed_or_literal (h : input.IsAccepted o.warnShadow) {v : Int} :
    (∃ e ∈ (input.emission o.warnShadow).finished, ∃ c ∈ e.2, c.constant? = some v) →
      Emission.IsFixed v ∨ Emission.IsLiteral (input.typing o.warnShadow) input.program.roots v := by
  rintro ⟨e, he, c, hc, hv⟩
  rcases Emission.mem_finished.mp ⟨e, he, hc⟩ with hc | ⟨-, rfl⟩ | hc
  · exact h.typed.lists.constants c hc v hv
  · cases hv
  · exact .inl ((Emission.created_of_mem_loader hc).2 v hv)

/-- Every literal of an accepted unit that becomes code is a number that a score is set to. -/
theorem IsAccepted.exists_literal (h : input.IsAccepted o.warnShadow) {v : Int}
    (hv : Emission.IsLiteral (input.typing o.warnShadow) input.program.roots v) :
    ∃ e ∈ (input.emission o.warnShadow).finished, ∃ c ∈ e.2, c.constant? = some v := by
  obtain ⟨c, hc, hv⟩ := h.typed.lists.literals v hv
  obtain ⟨e, he, hc⟩ := Emission.mem_finished.mpr (.inl hc)
  exact ⟨e, he, c, hc, hv⟩

end UnitInput

/-- Without a limit on diagnostics, a number that a command of a pack sets a score to, as it stands in the
line of the command, is a fixed one from 0 to 3, or that of a literal. Every literal has its number there,
which is an integer of 32 bits and the one that the literal is evaluated to sign by sign, with one
exception: the literal that is too large by one, behind signs that undo each other. Its number is too large
by one, too, and evaluated it is the smallest integer. -/
theorem Session.compile_constants {s : Session} {o : BuildOptions} {input : UnitInput} {d : Datapack}
    (hs : s.Reliable o [input]) (ho : o.limit ≤ 0) (hd : (s.compile o input).2.datapack = some d) :
    let ns := input.space o.space
    let c : EmissionContext := ⟨input.resolution o.warnShadow, input.typing o.warnShadow⟩
    let code := (input.emission o.warnShadow).finished
    d.functions = code.map (fun e => ⟨ns.resource e.1.render, ns.functionFile e.1.render d.format,
        e.2.map (Command.render ns)⟩) ∧
      (∀ e ∈ code, ∀ command ∈ e.2, ∀ v, command.constant? = some v →
        (∃ before target : Bytes, command.render ns
          = before ++ "scoreboard players set " ++ target ++ " " ++ Bytes.signedDecimal v) ∧
        (0 ≤ v ∧ v ≤ 3 ∨ ∃ l ∈ input.program.literals c.typing, l.Becomes input.program c v)) ∧
      ∀ l ∈ input.program.literals c.typing, ∃ v, l.Becomes input.program c v ∧
        (∃ e ∈ code, ∃ command ∈ e.2, command.constant? = some v) ∧
        (¬ l.Exceeds → -2147483648 ≤ v ∧ v ≤ 2147483647 ∧ Word.wrap v = v) ∧
        (l.Exceeds → v = 2147483648 ∧ Word.wrap v = -2147483648) := by
  have hpacked := (hs.compile List.mem_cons_self).1 (by rw [hd]; exact Option.some_ne_none d)
  obtain rfl : input.pack o = d := Option.some.inj (hpacked.datapack.symm.trans hd)
  have haccepted := hpacked.isAccepted ho
  refine ⟨input.functions_pack o, fun e he command hc v hv => ?_, fun l hl => ?_⟩
  · refine ⟨Command.render_of_constant? hv _, ?_⟩
    refine (haccepted.fixed_or_literal ⟨e, he, command, hc, hv⟩).imp_right ?_
    rintro ⟨l, hl, hfolds⟩
    obtain ⟨v', hbecomes, -⟩ := haccepted.becomes l hl
    obtain rfl : v' = v := Option.some.inj (hbecomes.folds.symm.trans hfolds)
    exact ⟨l, hl, hbecomes⟩
  · obtain ⟨v, hbecomes, hlarge, hsmall⟩ := haccepted.becomes l hl
    refine ⟨v, hbecomes, haccepted.exists_literal ⟨l, hl, hbecomes.folds⟩, fun h => ?_, fun h => ?_⟩
    · obtain ⟨hlow, hhigh⟩ := hsmall h
      exact ⟨hlow, hhigh, Word.wrap_eq hlow hhigh⟩
    · rw [hlarge h]
      exact ⟨rfl, by decide⟩

namespace UnitInput

/-- A unit that negates the smallest integer. -/
def undone : UnitInput := ⟨"undone.craft", "x = - -2147483648\n"⟩

/-- Its pack sets a score to a number that is too large for a score. -/
theorem compile_undone : ∃ d, (({} : Session).compile {} undone).2.datapack = some d ∧
    ∃ g ∈ d.functions, ∃ line ∈ g.lines, ∃ before target : Bytes,
      line = before ++ "scoreboard players set " ++ target ++ " " ++ Bytes.signedDecimal 2147483648 := by
  have hclean : undone.IsSilent false ∧ (undone.emission false).unjoinable = [] ∧
      ∃ l ∈ undone.program.literals (undone.typing false), l.signed? = some (2, largestInt + 1) := by
    decide +kernel
  have hkeeps : ({} : Session).KeepsNothing := ⟨rfl, rfl⟩
  have hpack := Session.compile_pack (o := {}) hkeeps rfl hclean.1.isAccepted hclean.2.1
  obtain ⟨hfunctions, hlines, hliterals⟩ :=
    Session.compile_constants ((hkeeps.remembers undone).reliable rfl) (Int.le_refl 0) hpack
  obtain ⟨l, hl, hsigned⟩ := hclean.2.2
  obtain ⟨v, -, ⟨e, he, command, hc, hv⟩, -, hlarge⟩ := hliterals l hl
  obtain ⟨rfl, -⟩ := hlarge ⟨0, hsigned⟩
  obtain ⟨⟨before, target, hrender⟩, -⟩ := hlines e he command hc _ hv
  refine ⟨_, hpack, ?_⟩
  rw [hfunctions]
  exact ⟨_, List.mem_map.mpr ⟨e, he, rfl⟩, _, List.mem_map.mpr ⟨command, hc, rfl⟩, before, target, hrender⟩

end UnitInput

end Craftlang
