import Craftlang.Proofs.Code.Inventory
import Craftlang.Proofs.Code.Lowered
import Craftlang.Proofs.Pack.Components

/-!
# What commands are made of

Of what a program spells, two things come into its code as they are: the texts of raw commands, and the string
literals that become code. Names come in as resource names. So a property of those texts and literals is one
of all commands: `IsMadeOf` is kept by everything that adds commands.
-/

namespace Craftlang

open ResourceName (IsName)

/-! ## Texts and names in commands -/

/-- The holder of a score is written with a resource name, if with any name. -/
def Holder.IsNamed : Holder → Prop
  | global name _ => IsName name
  | _ => True

def Score.IsNamed (t : Score) : Prop := t.holder.IsNamed

def Test.IsNamed : Test → Prop
  | is t _ | positive t => t.IsNamed
  | compare _ left right => left.IsNamed ∧ right.IsNamed

def Location.IsNamed : Location → Prop
  | score t => t.IsNamed
  | text _ => True

/-- What commands may be made of: texts that are commands themselves, and strings that are stored, the empty
default among them. -/
structure Materials where
  IsText : Bytes → Prop
  IsString : Bytes → Prop
  default : IsString []

/-- A command with nothing else in it. -/
def Command.IsMadeOf (m : Materials) : Command → Prop
  | raw text => m.IsText text
  | setText _ value => m.IsString value
  | set target _ => target.IsNamed
  | setIf test target _ => test.IsNamed ∧ target.IsNamed
  | operate target _ source => target.IsNamed ∧ source.IsNamed
  | storeTest target test => target.IsNamed ∧ test.IsNamed
  | call f => f.IsNamed
  | callIf test f => test.IsNamed ∧ f.IsNamed
  | _ => True

/-- An expression that is no string, or a string that may be stored. -/
def Materials.Allows (m : Materials) : Expr → Prop
  | .constant _ (.string text) => m.IsString text
  | _ => True

/-- All strings among some expressions may be stored. -/
def Materials.Supplies (m : Materials) (es : List Expr) : Prop := ∀ e ∈ es, m.Allows e

theorem Materials.supplies_append {m : Materials} {es fs : List Expr} :
    m.Supplies (es ++ fs) ↔ m.Supplies es ∧ m.Supplies fs := List.forall_mem_append

namespace Emission

/-- All commands so far are made of some materials, and so will be those about the variables and pieces that
are known. -/
structure IsMadeOf (m : Materials) (s : Emission) : Prop where
  lines : ∀ d ∈ s.lines, d.IsMadeOf m
  globals : ∀ e ∈ s.globals, e.2.IsNamed
  owner : IsName s.owner

/-- Within the limits code is made of some materials. -/
structure Limits.Keep (L : Limits) (m : Materials) : Prop where
  texts : ∀ v, L.texts v → m.IsText v
  scores : ∀ t, L.scores t → t.IsNamed
  functions : ∀ f, L.functions f → f.IsNamed

/-- Code that is held to some materials. -/
def Limits.of (m : Materials) : Limits := ⟨m.IsText, Score.IsNamed, FunctionName.IsNamed⟩

theorem Limits.of_keep (m : Materials) : (Limits.of m).Keep m := ⟨fun _ => id, fun _ => id, fun _ => id⟩

theorem Limits.of_admit (m : Materials) (c : EmissionContext) : (Limits.of m).Admit c := fun _ f _ =>
  ResourceName.isName_normalize f.name

variable {m : Materials} {L : Limits} {ms : List Mark} {s s' : Emission}

theorem Limits.Keep.opening (h : L.Keep m) {piece : FunctionName} (hp : piece.IsNamed) : (L.opening piece).Keep m :=
  ⟨h.texts, h.scores, fun f hf => hf.elim (h.functions f) fun heq => heq ▸ hp⟩

theorem Reaches.isNamed {A : Score → Prop} {t : Score} (h : s.Reaches A t) (hA : ∀ u, A u → u.IsNamed)
    (hs : s.IsMadeOf m) : t.IsNamed := by
  cases h with
  | global mem => exact hs.globals _ mem
  | allowed h => exact hA t h
  | _ => trivial

theorem Fits.isMadeOf {d : Command} (h : s.Fits L d) (hL : L.Keep m) (hs : s.IsMadeOf m) : d.IsMadeOf m := by
  have hscore : ∀ {t : Score}, s.Reaches L.scores t → t.IsNamed := fun ht => ht.isNamed hL.scores hs
  have htest : ∀ {test : Test}, (∀ u ∈ test.scores, s.Reaches L.scores u) → test.IsNamed := by
    intro test h
    cases test with
    | is t v => exact hscore (h t List.mem_cons_self)
    | positive t => exact hscore (h t List.mem_cons_self)
    | compare op t u => exact ⟨hscore (h t List.mem_cons_self), hscore (h u (List.mem_cons_of_mem _ List.mem_cons_self))⟩
  cases h with
  | raw ht => exact hL.texts _ ht
  | frame hd =>
    simp only [List.mem_cons, List.not_mem_nil, or_false] at hd
    rcases hd with rfl | rfl | rfl | rfl | rfl | rfl <;> trivial
  | set ht _ => exact show Score.IsNamed _ from hscore ht
  | takeBack signal => exact ⟨trivial, trivial⟩
  | operate ht op hu => exact ⟨hscore ht, hscore hu⟩
  | hand _ _ hu => exact ⟨trivial, hscore hu⟩
  | storeTest ht h => exact ⟨hscore ht, htest h⟩
  | noText p => exact m.default
  | call hf => exact hL.functions _ hf
  | callIf h hf => exact ⟨htest h, hL.functions _ hf⟩
  | copyText | joinTexts | tellText | tellBool | tellNumber => trivial

namespace IsMadeOf

theorem of_same (h : s.IsMadeOf m) (hf : s'.functions = s.functions) (hc : s'.commands = s.commands)
    (hg : s'.globals = s.globals) (ho : s'.owner = s.owner) : s'.IsMadeOf m := by
  refine ⟨?_, hg ▸ h.globals, ho ▸ h.owner⟩
  rw [Emission.lines, hf, hc]
  exact h.lines

theorem emitAll (h : s.IsMadeOf m) {cs : List Command} (hcs : ∀ d ∈ cs, d.IsMadeOf m) :
    (s.emitAll cs).IsMadeOf m := by
  refine ⟨fun d hd => ?_, h.globals, h.owner⟩
  rw [lines_emitAll] at hd
  exact (List.mem_append.mp hd).elim (h.lines d) (hcs d)

/-- Nothing of a piece is lost while another is emitted. -/
theorem blank (h : s.IsMadeOf m) : ({ s with commands := [] } : Emission).IsMadeOf m := by
  refine ⟨fun d hd => h.lines d (List.mem_append_left _ ?_), h.globals, h.owner⟩
  rwa [Emission.lines, List.append_nil] at hd

theorem inPiece (h : s.IsMadeOf m) (piece : FunctionName) {body : Emission → Emission}
    (hbody : (body { s with commands := [] }).IsMadeOf m) : (s.inPiece piece body).IsMadeOf m := by
  refine ⟨fun d hd => ?_, hbody.globals, hbody.owner⟩
  simp only [Emission.inPiece, Emission.lines, List.flatMap_append, List.flatMap_singleton, List.mem_append] at hd
  rcases hd with hd | hd
  · exact hbody.lines d (List.mem_append.mpr hd)
  · exact h.lines d (List.mem_append_right _ hd)

/-- A global variable is named when it is first used. -/
theorem globalOf (h : s.IsMadeOf m) (y : Nat) (name : Bytes) (isScore : Bool) :
    (s.globalOf y name isScore).1.IsMadeOf m := by
  rw [Emission.globalOf]
  split
  · exact h
  · refine ⟨h.lines, fun e he => ?_, h.owner⟩
    rcases List.mem_append.mp he with he | he
    · exact h.globals e he
    · rw [List.mem_singleton.mp he]
      cases isScore with
      | true => exact ResourceName.isName_normalize name
      | false => trivial

end IsMadeOf

/-- Code within limits is made of what the limits keep to and of the literals that it leaves. -/
theorem Moves.isMadeOf (h : Moves L ms s s') : L.Keep m → (∀ span v, .text span v ∈ ms → m.IsString v) →
    s.IsMadeOf m → s'.IsMadeOf m := by
  induction h with
  | stay s => exact fun _ _ hs => hs
  | fail s f => exact fun _ _ hs => hs.of_same rfl rfl rfl rfl
  | newSlot s => exact fun _ _ hs => hs.of_same rfl rfl rfl rfl
  | slotOf s y =>
    obtain ⟨slots, lastSlot, heq⟩ := slotOf_eq s y
    rw [heq]
    exact fun _ _ hs => hs.of_same rfl rfl rfl rfl
  | globalOf s y name isScore => exact fun _ _ hs => hs.globalOf y name isScore
  | commands s hcs => exact fun hL _ hs => hs.emitAll fun d hd => (hcs d hd).isMadeOf hL hs
  | number s ht v =>
    intro hL _ hs
    have hnamed : Score.IsNamed _ := ht.isNamed hL.scores hs
    exact hs.emitAll (List.forall_mem_singleton.mpr hnamed)
  | text s p value span =>
    intro _ hv hs
    obtain ⟨quoted, heq⟩ := setText_eq s p value span
    have hstring : m.IsString value := hv span value List.mem_cons_self
    have hset : (s.emitAll [.setText p value]).IsMadeOf m := hs.emitAll (List.forall_mem_singleton.mpr hstring)
    rw [heq]
    exact hset.of_same rfl rfl rfl rfl
  | joinAt s span => exact fun _ _ hs => hs.of_same rfl rfl rfl rfl
  | pass s n => exact fun _ _ hs => hs.of_same rfl rfl rfl rfl
  | @piece L ms s d hd body h ih =>
    intro hL hv hs
    have hkeep : (L.opening s.newPiece.2).Keep m := hL.opening hs.owner
    have hnew : s.newPiece.1.IsMadeOf m := hs.of_same rfl rfl rfl rfl
    have hcalled : (s.newPiece.1.emitAll [d]).IsMadeOf m :=
      hnew.emitAll (List.forall_mem_singleton.mpr (hd.isMadeOf hkeep hs))
    exact hcalled.inPiece _ (ih hkeep hv hcalled.blank)
  | trans _ _ ih ih' =>
    intro hL hv hs
    exact ih' hL (fun span v hmem => hv span v (List.mem_append_right _ hmem))
      (ih hL (fun span v hmem => hv span v (List.mem_append_left _ hmem)) hs)

/-! ## Finished code -/

/-- All commands of the finished functions are made of some materials. -/
structure IsBuiltOf (m : Materials) (s : Emission) : Prop where
  lines : ∀ d ∈ s.finishedLines, d.IsMadeOf m
  globals : ∀ e ∈ s.globals, e.2.IsNamed

theorem IsBuiltOf.function (h : s.IsBuiltOf m) (c : EmissionContext) {name : Bytes} (hname : IsName name)
    (params : List Nat) {body : List Stmt} (ht : ∀ v ∈ Stmt.allTexts body, m.IsText v)
    (hv : m.Supplies (Stmt.allLowered body)) : (function c s name params body).IsBuiltOf m := by
  have hstart : (s.entered name).IsMadeOf m :=
    ⟨fun d hd => h.lines d (s.lines_entered name ▸ hd), h.globals, hname⟩
  have hstrings : ∀ span v, .text span v ∈ (Stmt.allRoots body).flatMap (Expr.marks c) → m.IsString v := by
    intro span v hmem
    obtain ⟨n, hn⟩ := (Leaves.flatMap c (Stmt.allRoots body)).texts span v hmem
    rw [← Stmt.allLowered_eq] at hn
    exact hv _ hn
  have hmoves := moves_function (Limits.of_admit m c) s name params (fun _ _ => trivial) body ht
  have hend := hmoves.isMadeOf (Limits.of_keep m) hstrings hstart
  refine ⟨fun d hd => hend.lines d ?_, hend.globals⟩
  rw [function_eq, finishedLines, closed, List.flatMap_append, List.flatMap_singleton] at hd
  exact hd

theorem IsBuiltOf.declaredFunctions (h : s.IsBuiltOf m) (c : EmissionContext) (fs : List Function)
    (ht : ∀ v ∈ fs.flatMap fun f => Stmt.allTexts f.body.stmts, m.IsText v)
    (hv : m.Supplies (fs.flatMap fun f => Stmt.allLowered f.body.stmts)) :
    (fs.foldl (declaredFunction c) s).IsBuiltOf m := by
  induction fs generalizing s with
  | nil => exact h
  | cons f fs ih =>
    rw [List.flatMap_cons] at ht hv
    obtain ⟨htfirst, htrest⟩ := List.forall_mem_append.mp ht
    obtain ⟨hvfirst, hvrest⟩ := Materials.supplies_append.mp hv
    refine ih ?_ htrest hvrest
    rw [declaredFunction]
    split
    · exact h
    · exact h.function c (ResourceName.isName_normalize _) _ htfirst hvfirst

/-- The loader and the joining function are made of nothing that the program spells. -/
theorem IsBuiltOf.finished (h : s.IsBuiltOf m) : ∀ e ∈ s.finished, ∀ d ∈ e.2, d.IsMadeOf m := by
  intro e he d hd
  rcases mem_finished.mp ⟨e, he, hd⟩ with hd | ⟨-, rfl⟩ | hd
  · exact h.lines d hd
  · trivial
  · rcases mem_loader.mp hd with hd | ⟨x, rfl, -⟩
    · simp only [List.mem_cons, List.not_mem_nil, or_false] at hd
      rcases hd with rfl | rfl | rfl | rfl | rfl
      · trivial
      · trivial
      · trivial
      · trivial
      · exact show IsName ResourceName.entry by decide
    · trivial

end Emission

open Emission

/-- The code of a program is made of what its raw commands and its strings may be. -/
theorem Program.emit_isBuiltOf {m : Materials} {p : Program} (ht : ∀ v ∈ p.texts, m.IsText v)
    (hv : m.Supplies p.lowered) (r : Resolution) (t : Typing) : (p.emit r t).IsBuiltOf m := by
  obtain ⟨httop, htfunctions⟩ := List.forall_mem_append.mp ht
  obtain ⟨hvtop, hvfunctions⟩ := Materials.supplies_append.mp hv
  have hstart : ({} : Emission).IsBuiltOf m := ⟨List.forall_mem_nil _, List.forall_mem_nil _⟩
  have hname : IsName ResourceName.entry := by decide
  have hentry := hstart.function ⟨r, t⟩ hname [] httop hvtop
  exact hentry.declaredFunctions ⟨r, t⟩ _ htfunctions hvfunctions

end Craftlang
