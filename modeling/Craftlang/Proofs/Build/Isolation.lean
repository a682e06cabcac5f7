import Craftlang.Proofs.Build.Packs
import Craftlang.Proofs.Code.Names
import Craftlang.Proofs.Code.Program

/-!
# Isolation of global variables

The units of a build have different namespaces, but the storage of a unit's global strings is named
after the first part of its namespace only. Two units that differ in the directories alone therefore
share the strings that have the same number; nothing else is shared.
-/

namespace Craftlang

/-!
## Places of global variables

The global variables of a unit are numbered, and the game knows their places by the number and the
namespace of the unit: scores by the whole namespace, strings by its name alone, without the directories.
None is a place of the run time that all units share.
-/

/-- A place as the game knows it: the score of a holder, or a string in a storage. -/
inductive GamePlace where
  | score (holder objective : Bytes)
  | text (storage path : Bytes)
deriving DecidableEq, Repr

/-- Does the place belong to the run time that all units share? -/
def GamePlace.IsShared : GamePlace → Prop
  | score holder _ => holder = machineHolder
  | text storage _ => storage = runStorage

namespace Location

/-- The place for the code of a namespace. -/
def inGame (ns : Namespace) : Location → GamePlace
  | score s => .score s.holder.render (s.objective.render ns)
  | text p => .text (p.storage ns) p.path

/-- What the game tells the namespaces of global variables by. -/
def home (ns : Namespace) : Location → Bytes
  | score _ => ns.render
  | text _ => ns.name

theorem render_global_inj {a b : Bytes} {m n : Nat}
    (h : (Holder.global a m).render = (Holder.global b n).render) : a = b ∧ m = n := by
  have hmark : ∀ k, byte '_' ∉ shortNumber k := notMem_shortNumber (by decide)
  have hsplit : ∀ (name : Bytes) k, (Holder.global name k).render
      = byte '$' :: name ++ byte '_' :: shortNumber k := fun name k => by
    change byte '$' :: name ++ [byte '_'] ++ shortNumber k = _
    simp
  rw [hsplit, hsplit] at h
  obtain ⟨hname, hnumber⟩ := append_cons_inj_of_notMem (hmark m) (hmark n) h
  exact ⟨(List.cons.inj hname).2, shortNumber_inj hnumber⟩

/-- Places of global variables are one for the game only if they are one, and their namespaces agree in
what the game goes by. -/
theorem IsGlobal.inGame_eq_iff {l k : Location} {m n : Nat} (hl : l.IsGlobal m) (hk : k.IsGlobal n)
    (ns ms : Namespace) : l.inGame ns = k.inGame ms ↔ l = k ∧ l.home ns = k.home ms := by
  cases l with
  | score s =>
    obtain ⟨a, rfl⟩ := hl
    cases k with
    | score t =>
      obtain ⟨b, rfl⟩ := hk
      constructor
      · intro h
        obtain ⟨hholder, hobjective⟩ := GamePlace.score.inj h
        obtain ⟨rfl, rfl⟩ := render_global_inj hholder
        exact ⟨rfl, List.append_cancel_left hobjective⟩
      · rintro ⟨heq, hhome⟩
        injection heq with heq
        rw [heq]
        change GamePlace.score _ ("cr_g." ++ ns.render) = .score _ ("cr_g." ++ ms.render)
        rw [show ns.render = ms.render from hhome]
    | text q => exact ⟨nofun, fun h => by cases h.1⟩
  | text p =>
    obtain rfl : p = .global m := hl
    cases k with
    | score t => exact ⟨nofun, fun h => by cases h.1⟩
    | text q =>
      obtain rfl : q = .global n := hk
      constructor
      · intro h
        obtain ⟨hstorage, hpath⟩ := GamePlace.text.inj h
        obtain rfl := shortNumber_inj (List.append_cancel_left hpath)
        exact ⟨rfl, List.append_cancel_right hstorage⟩
      · rintro ⟨heq, hhome⟩
        rw [heq]
        change GamePlace.text (ns.name ++ _) _ = .text (ms.name ++ _) _
        rw [show ns.name = ms.name from hhome]

/-- Global variables stay out of the run time that all units share. -/
theorem IsGlobal.not_isShared {l : Location} {n : Nat} (hl : l.IsGlobal n) (ns : Namespace) :
    ¬ (l.inGame ns).IsShared := by
  cases l with
  | score s =>
    obtain ⟨name, rfl⟩ := hl
    intro h
    have hfirst := congrArg List.head? h
    have hmark : (some (byte '$') : Option UInt8) ≠ some (byte '#') := by decide
    exact hmark hfirst
  | text p =>
    obtain rfl : p = .global n := hl
    intro h
    have hlast := congrArg List.getLast? h
    change (ns.name ++ Bytes.ofString ":craftlang").getLast? = _ at hlast
    rw [List.getLast?_append, show (Bytes.ofString ":craftlang").getLast? = some (byte 'g') by decide]
      at hlast
    have hends : some (byte 'g') ≠ runStorage.getLast? := by decide
    exact hends hlast

end Location

namespace Emission

theorem numbered_function (c : EmissionContext) {s : Emission} (h : NumberedFrom 1 s.globals)
    (name : Bytes) (params : List Nat) (body : List Stmt) :
    NumberedFrom 1 (function c s name params body).globals := by
  obtain ⟨more, hmore, hnumbered⟩ := (s.opened_grows c name params body).globals
  change NumberedFrom 1 (s.bodyOf c name params body).globals
  rw [hmore]
  refine h.append ?_
  rw [Nat.add_comm]
  exact hnumbered

end Emission

/-- The global variables of a program are numbered, whatever else is wrong with it. -/
theorem Program.numbered_emit (p : Program) (r : Resolution) (t : Typing) :
    NumberedFrom 1 (p.emit r t).globals := by
  rw [emit]
  have hentry := Emission.numbered_function ⟨r, t⟩ (s := {}) trivial ResourceName.entry [] p.topLevel
  revert hentry
  generalize Emission.function ⟨r, t⟩ {} ResourceName.entry [] p.topLevel = s
  intro hs
  induction p.functions generalizing s with
  | nil => exact hs
  | cons f fs ih =>
    refine ih _ ?_
    rw [Emission.declaredFunction]
    split
    · exact hs
    · exact Emission.numbered_function _ hs _ _ _

/-! ## The variables of a build -/

/-- Take two global variables of units of a build, with the places they have in the code and in the game.
The game has one place for both exactly if they are the same variable, or strings of the same number in
two units whose namespaces begin alike. No place is one of the run time that all units share. -/
theorem Session.inGame_eq_iff_of_compileAll {s : Session} {o : BuildOptions} {inputs : List UnitInput}
    (hk : s.KeepsNothing) {i j : Nat} {u v : CompilationUnit} {a b : UnitInput}
    (hu : (s.compileAll o inputs).2[i]? = some u) (hv : (s.compileAll o inputs).2[j]? = some v)
    (ha : inputs[i]? = some a) (hb : inputs[j]? = some b)
    (hpacked : u.datapack ≠ none) (hpacked' : v.datapack ≠ none) {x y : Nat} {l k : Location}
    (hx : (a.emission o.warnShadow).globals.lookup x = some l)
    (hy : (b.emission o.warnShadow).globals.lookup y = some k) :
    let ns := a.space (o.forUnits inputs).space
    let ms := b.space (o.forUnits inputs).space
    u.space = some ns ∧ v.space = some ms ∧
      (l.inGame ns = k.inGame ms ↔ (i = j ∧ x = y) ∨
        (i ≠ j ∧ l = k ∧ (∃ n, l = .text (.global n)) ∧ ns.name = ms.name)) ∧
      ¬ (l.inGame ns).IsShared := by
  intro ns ms
  have hI : ∀ s' : Session, s'.means = s.means → s'.KeepsNothing := fun _ hm => hk.of_means hm
  obtain ⟨a', ha', hau⟩ := compileAll_packed (packs_keepsNothing _ _) hI hu hpacked
  obtain ⟨b', hb', hbv⟩ := compileAll_packed (packs_keepsNothing _ _) hI hv hpacked'
  obtain rfl : a = a' := Option.some.inj (ha.symm.trans ha')
  obtain rfl : b = b' := Option.some.inj (hb.symm.trans hb')
  obtain ⟨m, hm, hl⟩ := (Program.numbered_emit ..).exists_number (mem_of_lookup_eq_some hx)
  obtain ⟨n, hn, hk⟩ := (Program.numbered_emit ..).exists_number (mem_of_lookup_eq_some hy)
  refine ⟨hau.space, hbv.space, ?_, hl.not_isShared _⟩
  rw [hl.inGame_eq_iff hk]
  by_cases hij : i = j
  · subst hij
    obtain rfl : a = b := Option.some.inj (ha.symm.trans hb)
    constructor
    · rintro ⟨rfl, -⟩
      exact .inl ⟨rfl, (Program.numbered_emit ..).unique (mem_of_lookup_eq_some hx) (mem_of_lookup_eq_some hy)⟩
    · rintro (⟨-, rfl⟩ | ⟨hne, -⟩)
      · exact ⟨Option.some.inj (hx.symm.trans hy), by rw [Option.some.inj (hx.symm.trans hy)]⟩
      · exact absurd rfl hne
  · have hspaces := compileAll_spaces hij hu hv hau hbv
    constructor
    · rintro ⟨rfl, hhome⟩
      cases l with
      | score t => exact absurd hhome hspaces
      | text p => exact .inr ⟨hij, rfl, ⟨m, congrArg _ hl⟩, hhome⟩
    · rintro (⟨heq, -⟩ | ⟨-, rfl, ⟨n, rfl⟩, hname⟩)
      · exact absurd heq hij
      · exact ⟨rfl, hname⟩

namespace UnitInput

/-- Two units in directories of one namespace, each with a global string. -/
def first : UnitInput := ⟨"a.craft", "namespace demo.a\nname = \"x\"\n"⟩

def second : UnitInput := ⟨"b.craft", "namespace demo.b\nname = \"y\"\n"⟩

/-- Nothing is reported about the units, their strings can be joined, and each has one global variable. Their
namespaces differ, but in the directory only. -/
theorem clean_first_second : (∀ input ∈ [first, second], input.IsSilent false ∧
      (input.emission false).unjoinable = [] ∧
      (input.emission false).globals.lookup 6 = some (.text (.global 1))) ∧
    (∀ ds ∈ takenSpaces [] [] [first, second], ds = []) ∧
    (first.space []).name = (second.space []).name ∧ first.space [] ≠ second.space [] := by
  decide +kernel

/-- Built together, both units have packs. -/
theorem packs_first_second : ∀ i < [first, second].length, ∃ u,
    (({} : Session).compileAll {} [first, second]).2[i]? = some u ∧ u.datapack ≠ none := by
  obtain ⟨hclean, hfree, -, -⟩ := clean_first_second
  have haccepted : ∀ input ∈ [first, second], input.IsAccepted false :=
    fun input hinput => (hclean input hinput).1.isAccepted
  intro i hi
  exact Session.compileAll_packs (o := {}) ⟨rfl, rfl⟩ rfl (fun input hinput =>
    ⟨(haccepted input hinput).isSound rfl,
      (haccepted input hinput).isPacked (hclean input hinput).2.1 0⟩) hfree hi

/-- The two units have packs and namespaces of their own, and the game keeps their strings in one
place. -/
theorem inGame_first_second : ∃ u v ns ms,
    (({} : Session).compileAll {} [first, second]).2[0]? = some u ∧
    (({} : Session).compileAll {} [first, second]).2[1]? = some v ∧
    u.datapack ≠ none ∧ v.datapack ≠ none ∧ u.space = some ns ∧ v.space = some ms ∧ ns ≠ ms ∧
    Location.inGame ns (.text (.global 1)) = Location.inGame ms (.text (.global 1)) := by
  obtain ⟨hclean, -, hname, hspaces⟩ := clean_first_second
  obtain ⟨u, hu, hpacked⟩ := packs_first_second 0 (by decide)
  obtain ⟨v, hv, hpacked'⟩ := packs_first_second 1 (by decide)
  obtain ⟨hns, hms, hiff, -⟩ := Session.inGame_eq_iff_of_compileAll ⟨rfl, rfl⟩ hu hv rfl rfl hpacked
    hpacked' (x := 6) (y := 6) (l := .text (.global 1)) (k := .text (.global 1))
    (hclean first (by decide)).2.2 (hclean second (by decide)).2.2
  exact ⟨u, v, _, _, hu, hv, hpacked, hpacked', hns, hms, hspaces,
    hiff.mpr (.inr ⟨by decide, rfl, ⟨1, rfl⟩, hname⟩)⟩

end UnitInput

end Craftlang
