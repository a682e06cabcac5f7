import Craftlang.Proofs.Build.Paths
import Craftlang.Proofs.Code.Makeup
import Craftlang.Proofs.Code.Places
import Craftlang.Proofs.Machine.Pasting

/-!
# Joining strings is safe

A unit that joins strings has a pack only if none of the literals that become its code holds a quote or a
backslash. Then nothing that the pack does makes a string that does, and the joining function may paste.
If there are such literals, each of them is reported once and nothing is generated.
-/

namespace Craftlang

/-!
## Code that stores harmless strings

A string comes into the code of a program as a literal that is lowered, or as the empty default. So the
code of a program whose lowered literals hold no quotes and no backslashes stores harmless strings only.
-/

namespace Emission

/-- No literal among some expressions holds quotes or backslashes. -/
def Unquoted (es : List Expr) : Prop := ∀ e ∈ es, e.isQuoted = false

/-- Literals are quoted if they are noted as such. -/
theorem unquoted_iff {es : List Expr} : Unquoted es ↔ es.filterMap Expr.quotedAt? = [] := by
  rw [List.filterMap_eq_nil_iff]
  refine forall₂_congr fun e _ => ?_
  rw [← Expr.isSome_quotedAt?, Option.isSome_eq_false_iff, Option.isNone_iff_eq_none]

end Emission

/-- Raw commands as they may be, and strings that are harmless. -/
def Materials.harmless : Materials := ⟨fun _ => True, Bytes.IsHarmless, .nil⟩

theorem Materials.harmless_allows {e : Expr} (h : e.isQuoted = false) : harmless.Allows e := by
  cases e with
  | constant n v =>
    cases v with
    | string text => exact Bytes.IsHarmless.of_any h
    | _ => trivial
  | _ => trivial

theorem Command.IsMadeOf.isHarmless {d : Command} (h : d.IsMadeOf .harmless) : d.IsHarmless := by
  cases d with
  | setText p v => exact isHarmless_setText p h
  | _ => exact isHarmless_of_none rfl

/-- The code of a program without literals that hold quotes or backslashes stores harmless strings. -/
theorem Program.emit_isHarmless {p : Program} (h : Emission.Unquoted p.lowered) (r : Resolution) (t : Typing) :
    ∀ e ∈ (p.emit r t).finished, ∀ d ∈ e.2, d.IsHarmless := by
  have hsupplies : Materials.harmless.Supplies p.lowered := fun e he => Materials.harmless_allows (h e he)
  have hbuilt := Program.emit_isBuiltOf (fun _ _ => trivial) hsupplies r t
  exact fun e he d hd => (hbuilt.finished e he d hd).isHarmless

/-! ## Packs that join strings -/

namespace UnitInput

variable {input : UnitInput} {o : BuildOptions}

/-- The joining function is in the pack only if strings are joined. -/
theorem IsAccepted.isSome_joinedAt (h : input.IsAccepted o.warnShadow)
    (hd : (input.pack o).Has ((input.space o.space).resource FunctionName.joiner.render)) :
    (input.emission o.warnShadow).joinedAt.isSome = true := by
  obtain ⟨g, hg, hresource⟩ := hd
  rw [functions_pack] at hg
  obtain ⟨e, he, rfl⟩ := List.mem_map.mp hg
  have hname : e.1 = .joiner :=
    FunctionName.render_inj (h.isPlain e he) trivial
      (Namespace.path_inj (List.append_cancel_left hresource))
  by_contra hnone
  rw [Emission.finished, if_neg hnone, List.append_nil] at he
  rcases List.mem_append.mp he with he | he
  · obtain ⟨owner, -, hname' | ⟨n, hname'⟩⟩ := h.ordered.owned e he
    · rw [hname] at hname'
      cases hname'
    · rw [hname] at hname'
      cases hname'
  · rw [List.mem_singleton.mp he] at hname
    cases hname

/-- Code in which all literals can be joined stores harmless strings. -/
theorem isHarmless_code (h : (input.emission o.warnShadow).quoted = [])
    (hf : ∀ f ∈ input.program.functions,
      ((input.typing o.warnShadow).functionOfItem? f.node.id).isSome = true) :
    ∀ f body, (input.emission o.warnShadow).code f = some body → ∀ c ∈ body, c.IsHarmless := by
  have hsees : Emission.Sees input.program.lowered {} (input.emission o.warnShadow) :=
    Program.sees_emit (input.resolution o.warnShadow) hf
  have hunquoted : Emission.Unquoted input.program.lowered :=
    Emission.unquoted_iff.mpr (hsees.quotes.symm.trans h)
  intro f body hbody c hc
  obtain ⟨before, after, heq, -⟩ := List.lookup_eq_some_iff.mp hbody
  have hmem : (f, body) ∈ (input.emission o.warnShadow).finished := by
    rw [heq]
    exact List.mem_append_right _ List.mem_cons_self
  exact Program.emit_isHarmless hunquoted _ _ (f, body) hmem c hc

end UnitInput

/-- If the pack of an accepted unit has the function that joins strings, all strings that are ever held
while its functions run are harmless, in whatever order they are started, and whatever else happens that
touches no strings. So the command of that function, with both strings pasted into it, stands for setting
the result to the joined string, and pasting does what joining does.

If an accepted unit joins strings and has literals that cannot be joined, among what becomes code, then
each of these literals is reported, in the order in which they become code and with the first place where
strings are joined, and nothing is generated. -/
theorem Session.compile_joins {s : Session} {o : BuildOptions} {input : UnitInput}
    (hs : s.Reliable o [input]) (ha : input.IsAccepted o.warnShadow) :
    let ns := input.space o.space
    let code := (input.emission o.warnShadow).code
    let lowered := input.program.lowered
    (∀ d, (s.compile o input).2.datapack = some d → d.Has (ns.resource FunctionName.joiner.render) →
      (∀ f body, code f = some body → ∃ g ∈ d.functions,
        g.resource = ns.resource f.render ∧ g.lines = body.map (Command.render ns)) ∧
      ∀ start : Machine, start.IsHarmless → ∀ waiting m,
        Relation.ReflTransGen (Machine.Moves code) ([], start) (waiting, m) →
        (∀ t, m.Holds t → t.IsHarmless) ∧
        (∀ value : Bytes → Bytes, m.text? .left = some (value "a") → m.text? .right = some (value "b") →
          ∃ text, Macro.expand value (Command.render ns .joinedText) =
            "data modify storage craftlang:rt ret set value " ++ text ∧
            Snbt.read? text = some (value "a" ++ value "b")) ∧
        ∀ c, m.paste c = m.perform c) ∧
    (lowered.any Expr.isJoin = true → lowered.any Expr.isQuoted = true →
      ∃ first, lowered.findSome? Expr.joinAt? = some first ∧
        ∀ (ns : Namespace) (format : Int) (description : Bytes) (b : Bag),
          b.limit = 0 → b.hasErrors = false →
          (input.findings o.warnShadow).generate 1 ns format description (some b) =
            (.error .hasErrors,
              some ⟨0, b.items ++ (lowered.filterMap Expr.quotedAt?).map (quotedString first)⟩)) := by
  have hsees : Emission.Sees input.program.lowered {} (input.emission o.warnShadow) :=
    Program.sees_emit (input.resolution o.warnShadow) ha.typed.functionOfItem?
  refine ⟨fun d hd hhas => ?_, fun hjoin hquoted => ?_⟩
  · have hpacked := (hs.compile List.mem_cons_self).1 (by rw [hd]; exact Option.some_ne_none d)
    obtain rfl : input.pack o = d := Option.some.inj (hpacked.datapack.symm.trans hd)
    have hquoted : (input.emission o.warnShadow).quoted = [] := by
      have hempty := Emission.isEmpty_unjoinable (input.emission o.warnShadow)
      rw [hpacked.joinable, ha.isSome_joinedAt hhas] at hempty
      simpa using hempty
    have hcode := UnitInput.isHarmless_code hquoted ha.typed.functionOfItem?
    refine ⟨fun f body hbody => ?_, fun start hstart waiting m hmoves => ?_⟩
    · obtain ⟨before, after, heq, -⟩ := List.lookup_eq_some_iff.mp hbody
      rw [input.functions_pack o, heq]
      exact ⟨_, List.mem_map.mpr ⟨(f, body), List.mem_append_right _ List.mem_cons_self, rfl⟩, rfl, rfl⟩
    · have hall := (Machine.AllHarmless.mk (x := ([], start)) (List.forall_mem_nil _) hstart).run hcode
        hmoves
      refine ⟨hall.machine, fun value hleft hright => ?_, hall.machine.paste_eq⟩
      exact ⟨_, Command.expand_joinedText _ value,
        Snbt.read?_pasted (hall.machine _ (Machine.holds_of_text? hleft))
          (hall.machine _ (Machine.holds_of_text? hright))⟩
  · have hfirst : (input.program.lowered.findSome? Expr.joinAt?).isSome = true := by
      rw [List.isSome_findSome?]
      simpa only [Expr.isSome_joinAt?] using hjoin
    obtain ⟨first, hfirst⟩ := Option.isSome_iff_exists.mp hfirst
    have hjoins : (input.emission o.warnShadow).joinedAt = some first := by
      rw [hsees.joins, hfirst]
      rfl
    have hquotes : (input.emission o.warnShadow).unjoinable =
        (input.program.lowered.filterMap Expr.quotedAt?).map (quotedString first) := by
      rw [Emission.unjoinable, hjoins, hsees.quotes]
      rfl
    have hsome : (input.emission o.warnShadow).unjoinable.isEmpty = false := by
      rw [ha.isEmpty_unjoinable, hjoin, hquoted]
      rfl
    refine ⟨first, hfirst, fun ns format description b hlimit hb => ?_⟩
    have hemit : input.program.emit (input.resolution o.warnShadow) (input.typing o.warnShadow)
        = input.emission o.warnShadow := rfl
    rw [UnitInput.findings, Findings.generate_eq hemit ns format description hb, ha.fault]
    dsimp only
    rw [if_neg (by simp [hsome]), hquotes, Bag.addAll_unlimited hlimit]

/-- A unit that joins two strings. -/
def UnitInput.seam : UnitInput := ⟨"seam.craft", "print(\"a\" .. \"b\")\n"⟩

/-- The pack of `seam` can load and run its entry, which leaves the joined string behind; of `quotation`
the one literal that cannot be joined is reported. -/
theorem Session.compile_joins_seam :
    (∃ d, (({} : Session).compile {} .seam).2.datapack = some d ∧
      d.Has ((UnitInput.seam.space []).resource FunctionName.joiner.render) ∧
      ∃ m, Relation.ReflTransGen (Machine.Moves (UnitInput.seam.emission false).code) ([], {}) ([], m) ∧
        m.texts .result = some "ab" ∧ ∀ t, m.Holds t → t.IsHarmless) ∧
    (UnitInput.quotation.findings false).generate 1 .anonymous 48 [] (some (Bag.ofLimit 0)) =
      (.error .hasErrors, some ⟨0, [quotedString ⟨0, 10, 12⟩ ⟨0, 13, 17⟩]⟩) := by
  have hkeeps : ({} : Session).KeepsNothing := ⟨rfl, rfl⟩
  refine ⟨?_, ?_⟩
  · obtain ⟨hsilent, hjoinable, hquoted, hjoined, hresult⟩ : UnitInput.seam.IsSilent false ∧
        (UnitInput.seam.emission false).unjoinable = [] ∧
        (UnitInput.seam.emission false).quoted = [] ∧
        (UnitInput.seam.emission false).joinedAt.isSome = true ∧
        ((UnitInput.seam.emission false).code .loader).bind (fun body =>
          (Machine.run (UnitInput.seam.emission false).code 40 body {}).bind fun m =>
            m.texts .result) = some "ab" := by decide +kernel
    have haccepted := hsilent.isAccepted
    have hpack := Session.compile_pack (o := {}) hkeeps rfl haccepted hjoinable
    have hhas : (UnitInput.seam.pack {}).Has
        ((UnitInput.seam.space []).resource FunctionName.joiner.render) := by
      refine UnitInput.has_of_mem_finished (o := {}) ?_
      rw [Emission.finished, if_pos hjoined]
      simp
    obtain ⟨body, hbody, hresult⟩ := Option.bind_eq_some_iff.mp hresult
    obtain ⟨m, hm, hresult⟩ := Option.bind_eq_some_iff.mp hresult
    have hcode := UnitInput.isHarmless_code (o := {}) hquoted haccepted.typed.functionOfItem?
    have hstart : Machine.Moves (UnitInput.seam.emission false).code ([], {}) (body ++ [], {}) :=
      .start hbody
    have hall : Machine.AllHarmless (body ++ [], {}) :=
      (Machine.AllHarmless.mk (x := ([], {})) (List.forall_mem_nil _) Machine.isHarmless_start).moves
        hcode hstart
    have hmoves := (hall.moves_of_run hcode hm).head hstart
    have hsafe := (Session.compile_joins ((hkeeps.remembers _).reliable rfl) haccepted).1 _ hpack hhas
    exact ⟨_, hpack, hhas, m, hmoves, hresult, (hsafe.2 _ Machine.isHarmless_start _ _ hmoves).1⟩
  · obtain ⟨hsilent, hjoin, hquoted, hfirst, hliterals⟩ : UnitInput.quotation.IsSilent false ∧
        UnitInput.quotation.program.lowered.any Expr.isJoin = true ∧
        UnitInput.quotation.program.lowered.any Expr.isQuoted = true ∧
        UnitInput.quotation.program.lowered.findSome? Expr.joinAt? = some ⟨0, 10, 12⟩ ∧
        UnitInput.quotation.program.lowered.filterMap Expr.quotedAt? = [⟨0, 13, 17⟩] := by
      decide +kernel
    obtain ⟨first, hfirst', hgenerate⟩ :=
      (Session.compile_joins (o := {}) ((hkeeps.remembers _).reliable rfl) hsilent.isAccepted).2 hjoin hquoted
    obtain rfl := Option.some.inj (hfirst.symm.trans hfirst')
    rw [hliterals] at hgenerate
    exact hgenerate .anonymous 48 [] (Bag.ofLimit 0) rfl rfl

end Craftlang
