import Craftlang.Proofs.Build.Packs
import Craftlang.Proofs.Build.Reliance
import Craftlang.Proofs.Code.Closure
import Craftlang.Proofs.Pack.Components
import Craftlang.Proofs.Pack.Files
import Craftlang.Proofs.Syntax.Spelling

/-!
# Packs are closed, and where their files are

The pack of an accepted unit has a file of its own for every function and every tag, and whatever its
commands and its tags call is a function of the same pack.
-/

namespace Craftlang

/-- Is there a function with a resource location? -/
def Datapack.Has (d : Datapack) (resource : Bytes) : Prop := ∃ g ∈ d.functions, g.resource = resource

namespace UnitInput

variable {input : UnitInput} {o : BuildOptions}

theorem functions_pack (input : UnitInput) (o : BuildOptions) : (input.pack o).functions =
    (input.emission o.warnShadow).finished.map fun e => ⟨(input.space o.space).resource e.1.render,
      (input.space o.space).functionFile e.1.render (input.pack o).format,
      e.2.map (Command.render (input.space o.space))⟩ := functions_packOf

/-- What is finished is a function of the pack. -/
theorem has_of_mem_finished {f : FunctionName}
    (hf : f ∈ (input.emission o.warnShadow).finished.map (·.1)) :
    (input.pack o).Has ((input.space o.space).resource f.render) := by
  obtain ⟨e, he, rfl⟩ := List.mem_map.mp hf
  rw [Datapack.Has, functions_pack]
  exact ⟨_, List.mem_map.mpr ⟨e, he, rfl⟩, rfl⟩

/-- The tags of an accepted unit run functions of the pack. -/
theorem IsAccepted.has_of_tag (h : input.IsAccepted o.warnShadow) :
    ∀ t ∈ (input.pack o).tags, ∀ v ∈ t.values, (input.pack o).Has v := by
  intro t ht v hv
  rw [pack, tags_packOf] at ht
  obtain ⟨n, -, rfl⟩ := List.mem_map.mp ht
  have hmem := Tagging.mem_valuesOf.mp hv
  rw [Typing.packTags] at hmem
  rcases List.mem_cons.mp hmem with heq | hmem
  · obtain rfl : v = _ := congrArg (fun t : Tagging => t.2.2) heq
    have hloader : FunctionName.loader ∈ (input.emission o.warnShadow).finished.map (·.1) := by
      rw [Emission.finished]
      simp
    exact has_of_mem_finished hloader
  · obtain ⟨info, hinfo, htag⟩ := List.mem_flatMap.mp hmem
    obtain ⟨tag, -, heq⟩ := List.mem_map.mp htag
    obtain rfl : _ = v := congrArg (fun t : Tagging => t.2.2) heq
    have hdeclared : .declared (ResourceName.normalize info.name)
        ∈ (input.emission o.warnShadow).finished.map (·.1) := by
      rw [Emission.finished, List.map_append, List.map_append]
      exact List.mem_append_left _ (List.mem_append_left _ (h.typed.mem_emit hinfo))
    exact has_of_mem_finished hdeclared

/-- The names of the functions of an accepted unit are in no directories but that of the hidden ones. -/
theorem IsAccepted.isPlain (h : input.IsAccepted o.warnShadow) :
    ∀ e ∈ (input.emission o.warnShadow).finished, e.1.IsPlain := by
  intro e he
  rw [Emission.finished] at he
  rcases List.mem_append.mp he with he | he
  · rcases List.mem_append.mp he with he | he
    · obtain ⟨owner, howner, hname | ⟨n, hname⟩⟩ := h.ordered.owned e he
      · rw [hname]
        rcases List.mem_cons.mp howner with rfl | howner
        · change byte '/' ∉ ResourceName.entry
          decide
        · obtain ⟨f, -, rfl⟩ := List.mem_map.mp howner
          exact ResourceName.slash_notMem_normalize _
      · rw [hname]
        trivial
    · split at he
      · rw [List.mem_singleton.mp he]
        trivial
      · cases he
  · rw [List.mem_singleton.mp he]
    trivial

/-- Every function and every tag of an accepted unit has a file of its own. -/
theorem IsAccepted.nodup_files (h : input.IsAccepted o.warnShadow) :
    ((input.pack o).functions.map (·.path)
      ++ (input.pack o).tags.map (·.file (input.pack o).format)).Nodup := by
  refine Craftlang.nodup_files h.ordered.finished h.isPlain fun t ht => ?_
  rw [Typing.packTags] at ht
  rcases List.mem_cons.mp ht with rfl | ht
  · change byte '/' ∉ Tag.defaultGroup
    decide
  · obtain ⟨info, hinfo, htag⟩ := List.mem_flatMap.mp ht
    obtain ⟨tag, hmem, rfl⟩ := List.mem_map.mp htag
    obtain ⟨name, -, hname⟩ := Program.tagsRead_typed _ _ info hinfo tag hmem
    exact Tag.slash_notMem_group hname

end UnitInput

/-- Without a limit on diagnostics, a pack that compiling gives, be it kept or new, has a function for everything
that is finished of the code, and a file of its own for every function and every tag. Whatever a command of the
code names is a function of the pack, where the commands that the program spells itself do not count, and
so is whatever a tag runs. -/
theorem Session.compile_closed {s : Session} {o : BuildOptions} {input : UnitInput} {d : Datapack}
    (hs : s.Reliable o [input]) (ho : o.limit ≤ 0) (hd : (s.compile o input).2.datapack = some d) :
    let ns := input.space o.space
    let code := (input.emission o.warnShadow).finished
    d.functions = code.map (fun e => ⟨ns.resource e.1.render, ns.functionFile e.1.render d.format,
        e.2.map (Command.render ns)⟩) ∧
      (d.functions.map (·.path) ++ d.tags.map (·.file d.format)).Nodup ∧
      (∀ e ∈ code, ∀ c ∈ e.2, ∀ f, c.callee? = some f → d.Has (ns.resource f.render)) ∧
      ∀ t ∈ d.tags, ∀ v ∈ t.values, d.Has v := by
  have hpacked := (hs.compile List.mem_cons_self).1 (by rw [hd]; exact Option.some_ne_none d)
  obtain rfl : input.pack o = d := Option.some.inj (hpacked.datapack.symm.trans hd)
  have haccepted := hpacked.isAccepted ho
  exact ⟨input.functions_pack o, haccepted.nodup_files, fun e he c hc f hf =>
    UnitInput.has_of_mem_finished (haccepted.typed.finished_closed e he c hc f hf), haccepted.has_of_tag⟩

namespace UnitInput

/-- A unit with a tagged function that joins strings, and a loop that calls it. -/
def greeting : UnitInput :=
  ⟨"greeting.craft",
    "tag tick\nfun greet()\n    print(\"a\" .. \"b\")\nwhile true\n    greet()\n    break\n"⟩

/-- Its pack has the entry with two pieces, the declared function, the loader and the function that joins
strings, and a tag for each of two occasions. -/
theorem compile_greeting : ∃ d, (({} : Session).compile {} greeting).2.datapack = some d ∧
    (d.functions.map (·.path) ++ d.tags.map (·.file d.format)).Nodup ∧
    d.functions.length = 6 ∧ d.tags.length = 2 ∧ ∀ t ∈ d.tags, ∀ v ∈ t.values, d.Has v := by
  have hclean : greeting.IsSilent false ∧ (greeting.emission false).unjoinable = [] ∧
      (greeting.pack {}).functions.length = 6 ∧ (greeting.pack {}).tags.length = 2 := by
    decide +kernel
  have hkeeps : ({} : Session).KeepsNothing := ⟨rfl, rfl⟩
  have hpack := Session.compile_pack (o := {}) hkeeps rfl hclean.1.isAccepted hclean.2.1
  obtain ⟨-, hfiles, -, htags⟩ :=
    Session.compile_closed ((hkeeps.remembers greeting).reliable rfl) (Int.le_refl 0) hpack
  exact ⟨_, hpack, hfiles, hclean.2.2.1, hclean.2.2.2, htags⟩

end UnitInput

end Craftlang

/-!
## The paths of a pack

What a program declares is spelled with words, and what is added to that is fixed, so nothing of it leads out of a
pack. The parts of a namespace are resource names, but those that come from the name of a file or from the
options can be `.` or `..`: then the functions of the unit are not where the pack has its data.
-/

namespace Craftlang

open Craftlang.Path (IsBelow StaysBelow)
open ResourceName (IsName)

/-- The finished functions are named with resource names. -/
def Emission.IsNamed (s : Emission) : Prop := ∀ e ∈ s.functions, e.1.IsNamed

theorem Emission.IsNamed.function {s : Emission} (h : s.IsNamed) (c : EmissionContext) {name : Bytes}
    (hname : IsName name) (params : List Nat) (body : List Stmt) :
    (function c s name params body).IsNamed := by
  obtain ⟨added, hadded, -, hnew⟩ := s.functions_function c name params body
  intro e he
  rw [hadded] at he
  rcases List.mem_append.mp he with he | he
  · exact h e he
  · rcases hnew e he with heq | ⟨n, heq⟩
    · rw [heq]
      exact hname
    · rw [heq]
      exact hname

theorem Emission.IsNamed.declaredFunction {s : Emission} (h : s.IsNamed) (c : EmissionContext) (f : Function) :
    (declaredFunction c s f).IsNamed := by
  rw [Emission.declaredFunction]
  split
  · exact h
  · exact h.function c (ResourceName.isName_normalize _) _ _

theorem Program.isNamed_emit (p : Program) (r : Resolution) (t : Typing) : (p.emit r t).IsNamed := by
  have hdeclared : ∀ (c : EmissionContext) (fs : List Function) (s : Emission), s.IsNamed →
      (fs.foldl (Emission.declaredFunction c) s).IsNamed := by
    intro c fs
    induction fs with
    | nil => exact fun _ h => h
    | cons f fs ih => exact fun s h => ih _ (h.declaredFunction c f)
  have hnone : ({} : Emission).IsNamed := nofun
  exact hdeclared _ _ _ (hnone.function _ (by decide) _ _)

/-- Whatever is finished of a program is named with resource names. -/
theorem Program.isNamed_finished (p : Program) (r : Resolution) (t : Typing) :
    ∀ e ∈ (p.emit r t).finished, e.1.IsNamed := by
  intro e he
  rw [Emission.finished, List.append_assoc] at he
  rcases List.mem_append.mp he with he | he
  · exact p.isNamed_emit r t e he
  · rcases List.mem_append.mp he with he | he
    · split at he
      · rw [List.mem_singleton.mp he]
        trivial
      · cases he
    · rw [List.mem_singleton.mp he]
      trivial

/-- A tag that is written with words leads nowhere else. -/
theorem Tag.staysBelow_of_words {name : DottedName} {tag : Tag} (htag : ofName name = .ok tag)
    (hne : name.parts ≠ []) (hword : ∀ part ∈ name.parts, part.IsWord) :
    StaysBelow tag.group ∧ StaysBelow (tag.path ++ Bytes.ofString ".json") := by
  rw [ofName] at htag
  split at htag
  · cases htag
  rename_i hnone
  have hnormal : ∀ part ∈ name.parts, ResourceName.normalize part = part := fun part hpart => by
    simpa using List.find?_eq_none.mp hnone part hpart
  have hpart : ∀ part ∈ name.parts, IsName part ∧ byte '.' ∉ part := by
    intro part hpart
    rw [← hnormal part hpart]
    exact ⟨ResourceName.isName_normalize part, ResourceName.dot_notMem_normalize (hword part hpart)⟩
  have hstays : ∀ part, IsName part ∧ byte '.' ∉ part → StaysBelow part := fun part h =>
    (Path.staysBelow_of_isName h.1).mpr (Path.isBelow_of_notMem h.2)
  have hending : ∀ part, IsName part ∧ byte '.' ∉ part → StaysBelow (part ++ Bytes.ofString ".json") :=
    fun part h => (Path.staysBelow_of_isName (h.1.append (by decide))).mpr
      (Path.isBelow_append_of_ne (by decide) (by decide))
  -- The last part of the path is the name of the file, and those before are directories.
  have hpath : ∀ parts : List Bytes, parts ≠ [] → (∀ part ∈ parts, IsName part ∧ byte '.' ∉ part) →
      StaysBelow (Bytes.join "/" parts ++ Bytes.ofString ".json") := by
    intro parts hparts h
    rw [← List.dropLast_concat_getLast hparts] at h ⊢
    have hne : parts.dropLast ++ [parts.getLast hparts ++ Bytes.ofString ".json"] ≠ [] := by simp
    rw [Bytes.join_concat_append, Path.staysBelow_join hne, List.forall_mem_append, List.forall_mem_singleton]
    exact ⟨fun part hpart => hstays part (h part (List.mem_append_left _ hpart)),
      hending _ (h _ (List.mem_append_right _ (List.mem_singleton_self _)))⟩
  split at htag
  · rename_i group part parts hparts
    cases htag
    rw [hparts] at hpart
    exact ⟨hstays _ (hpart _ List.mem_cons_self),
      hpath _ (List.cons_ne_nil _ _) fun x hx => hpart x (List.mem_cons_of_mem _ hx)⟩
  · cases htag
    exact ⟨show StaysBelow defaultGroup by decide, hpath _ hne hpart⟩

namespace UnitInput

variable (input : UnitInput) (o : BuildOptions)

theorem parts_space : ∀ part ∈ (input.space o.space).parts, IsName part := by
  rw [space]
  split
  · exact Namespace.parts_ofParts _
  · split
    · exact Namespace.parts_ofParts _
    · exact Namespace.parts_ofFileName _

/-- A namespace that the program names leads nowhere else. -/
theorem isBelow_of_header (ho : o.space = []) (h : input.program.header ≠ none) :
    ∀ part ∈ (input.space o.space).parts, IsBelow part := by
  obtain ⟨header, hheader⟩ := Option.ne_none_iff_exists'.mp h
  have hword := File.isWord_of_header hheader
  rw [space, ho, hheader]
  change ∀ part ∈ (Namespace.ofParts header.parts).parts, IsBelow part
  intro part hpart
  cases hparts : header.parts with
  | nil =>
    rw [hparts] at hpart
    rw [List.mem_singleton.mp hpart]
    decide
  | cons first rest =>
    rw [hparts] at hpart hword
    obtain ⟨word, hmem, rfl⟩ := List.mem_map.mp
      (show part ∈ (first :: rest).map ResourceName.normalize from hpart)
    exact Path.isBelow_of_notMem (ResourceName.dot_notMem_normalize (hword word hmem))

/-- The tags of a unit lead nowhere else. -/
theorem staysBelow_tags (format : Int) : ∀ t ∈ (input.pack o).tags, StaysBelow (t.file format) := by
  intro t ht
  rw [pack, tags_packOf] at ht
  obtain ⟨n, hn, rfl⟩ := List.mem_map.mp ht
  obtain ⟨tagging, htagging, rfl⟩ := List.mem_map.mp (List.mem_eraseDups.mp hn)
  have hstays : StaysBelow tagging.1 ∧ StaysBelow (tagging.2.1 ++ Bytes.ofString ".json") := by
    rw [Typing.packTags] at htagging
    rcases List.mem_cons.mp htagging with rfl | htagging
    · exact show StaysBelow Tag.defaultGroup ∧ StaysBelow (Bytes.ofString "load" ++ Bytes.ofString ".json") by
        decide
    · obtain ⟨info, hinfo, htag⟩ := List.mem_flatMap.mp htagging
      obtain ⟨tag, hmem, rfl⟩ := List.mem_map.mp htag
      obtain ⟨name, hname, htag⟩ := Program.tagsRead_typed _ _ info hinfo tag hmem
      obtain ⟨f, hf, hname⟩ := List.mem_flatMap.mp hname
      obtain ⟨hne, hword⟩ := File.isWord_of_tag hf hname
      exact Tag.staysBelow_of_words htag hne hword
  exact TagFile.staysBelow_file hstays.1 hstays.2 format

/-- The paths of the pack of a unit stay below it exactly if the parts of the namespace do. -/
theorem staysBelow_pack_iff (lineEnd : Bytes) :
    (∀ f ∈ (input.pack o).files lineEnd, StaysBelow f.1) ↔
      ∀ part ∈ (input.space o.space).parts, IsBelow part := by
  have hnamed : ∀ e ∈ (input.emission o.warnShadow).finished, e.1.IsNamed := Program.isNamed_finished _ _ _
  have hfile : ∀ e ∈ (input.emission o.warnShadow).finished, ∀ format,
      StaysBelow ((input.space o.space).functionFile e.1.render format) ↔
        ∀ part ∈ (input.space o.space).parts, IsBelow part := fun e he =>
    Namespace.staysBelow_functionFile (input.parts_space o) (hnamed e he)
  constructor
  · intro h
    -- Every pack has a loader.
    obtain ⟨e, he, -⟩ : ∃ e ∈ (input.emission o.warnShadow).finished, e.1 = .loader :=
      ⟨_, List.mem_append_right _ List.mem_cons_self, rfl⟩
    obtain ⟨g, hg, hpath⟩ : ∃ g ∈ (input.pack o).functions,
        g.path = (input.space o.space).functionFile e.1.render (input.pack o).format := by
      rw [functions_pack]
      exact ⟨_, List.mem_map.mpr ⟨e, he, rfl⟩, rfl⟩
    have hstays := h _ (List.mem_cons_of_mem _ (List.mem_append_left _ (List.mem_map_of_mem hg)))
    exact (hfile e he _).mp (hpath ▸ hstays)
  · intro h f hf
    rcases List.mem_cons.mp hf with rfl | hf
    · exact show StaysBelow (Bytes.ofString "pack.mcmeta") by decide
    rcases List.mem_append.mp hf with hf | hf
    · obtain ⟨function, hfunction, rfl⟩ := List.mem_map.mp hf
      rw [functions_pack] at hfunction
      obtain ⟨e, he, rfl⟩ := List.mem_map.mp hfunction
      exact (hfile e he _).mpr h
    · obtain ⟨t, ht, rfl⟩ := List.mem_map.mp hf
      exact input.staysBelow_tags o _ t ht

end UnitInput

/-- The paths of a pack that compiling gives stay below the pack exactly if no part of the namespace is `.` or
`..`. They do if the program names its namespace and the options do not. -/
theorem Session.compile_staysBelow_iff {s : Session} {o : BuildOptions} {input : UnitInput} {d : Datapack}
    (hs : s.Reliable o [input]) (hd : (s.compile o input).2.datapack = some d) (lineEnd : Bytes) :
    ((∀ f ∈ d.files lineEnd, StaysBelow f.1) ↔ ∀ part ∈ (input.space o.space).parts, IsBelow part) ∧
      (o.space = [] → input.program.header ≠ none → ∀ f ∈ d.files lineEnd, StaysBelow f.1) := by
  have hpacked := (hs.compile List.mem_cons_self).1 (by rw [hd]; exact Option.some_ne_none d)
  obtain rfl : input.pack o = d := Option.some.inj (hpacked.datapack.symm.trans hd)
  exact ⟨input.staysBelow_pack_iff o lineEnd, fun ho hheader =>
    (input.staysBelow_pack_iff o lineEnd).mpr (input.isBelow_of_header o ho hheader)⟩

/-- An empty file whose name without the ending is `..`. -/
def UnitInput.above : UnitInput := ⟨"...craft", []⟩

/-- Its functions are above the directory that has the data of the pack. -/
theorem Session.compile_above : ∃ d, (({} : Session).compile {} .above).2.datapack = some d ∧
    Bytes.ofString "data/../functions/main.mcfunction" ∈ d.functions.map (·.path) ∧
    ¬ ∀ f ∈ d.files [], StaysBelow f.1 := by
  have hclean : UnitInput.above.IsSilent false ∧ (UnitInput.above.emission false).unjoinable = [] ∧
      Bytes.ofString "data/../functions/main.mcfunction" ∈ (UnitInput.above.pack {}).functions.map (·.path) := by
    decide +kernel
  have hkeeps : ({} : Session).KeepsNothing := ⟨rfl, rfl⟩
  have hpack := compile_pack (o := {}) hkeeps rfl hclean.1.isAccepted hclean.2.1
  have hstays := (compile_staysBelow_iff (hkeeps.reliable {} [.above]) hpack []).1
  have hspace : (UnitInput.above.space []).parts = [Bytes.ofString ".."] := by decide +kernel
  refine ⟨_, hpack, hclean.2.2, fun h => ?_⟩
  exact absurd (hstays.mp h _ (hspace ▸ List.mem_singleton_self _)) (by decide)

end Craftlang
