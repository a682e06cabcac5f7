import Craftlang.Proofs.Build.Paths
import Craftlang.Proofs.Build.Isolation
import Craftlang.Proofs.Build.Reliance
import Craftlang.Proofs.Syntax.Spelling
import Mathlib.Data.List.Pairwise
import Mathlib.Data.List.TakeWhile

/-!
# Linking

The packs of a build are put together to one. Units have different namespaces, and the directories of a
namespace are named with words, so no file of one unit is a file of another and nothing is lost: the
functions come one unit after the other, and a tag runs what the units have it run.
-/

namespace Craftlang

namespace Namespace

/-- A namespace whose directories are not to be confused with others: they hold no slash, and no dot as
the directory of hidden functions does. -/
structure IsPlain (ns : Namespace) : Prop where
  name : byte '/' ∉ ns.name
  directories : ∀ d ∈ ns.directories, byte '/' ∉ d ∧ byte '.' ∉ d

theorem isPlain_ofParts {parts : List Bytes} (h : ∀ part ∈ parts, Bytes.IsWord part) :
    (ofParts parts).IsPlain := by
  cases parts with
  | nil => exact ⟨by decide, nofun⟩
  | cons part parts =>
    refine ⟨ResourceName.slash_notMem_normalize part, fun d hd => ?_⟩
    obtain ⟨word, hword, rfl⟩ := List.mem_map.mp hd
    exact ⟨ResourceName.slash_notMem_normalize word,
      ResourceName.dot_notMem_normalize (h word (List.mem_cons_of_mem _ hword))⟩

/-- A namespace that comes from the name of a file has no directories. -/
theorem isPlain_ofFileName (name : Bytes) : (ofFileName name).IsPlain := by
  rw [ofFileName]
  split
  · exact ⟨by decide, List.forall_mem_nil _⟩
  · exact ⟨ResourceName.slash_notMem_normalize _, List.forall_mem_nil _⟩

end Namespace

/-- What stands before the first slash in the name of a function is not the name of a directory. -/
theorem FunctionName.IsPlain.render_ne {f : FunctionName} (hf : f.IsPlain) {d : Bytes}
    (hd : byte '/' ∉ d ∧ byte '.' ∉ d) (rest : Bytes) : f.render ≠ d ++ byte '/' :: rest := by
  have hhidden : ∀ s, hiddenDirectory ++ s ≠ d ++ byte '/' :: rest := by
    intro s h
    rw [show hiddenDirectory = Bytes.ofString ".craftlang" ++ [byte '/'] by decide, List.append_assoc,
      List.singleton_append] at h
    obtain ⟨rfl, -⟩ := append_cons_inj_of_notMem_left (by decide) hd.1 h
    exact hd.2 (by decide)
  intro h
  cases f with
  | declared name =>
    refine hf ?_
    change byte '/' ∈ (FunctionName.declared name).render
    rw [h]
    exact List.mem_append_right _ List.mem_cons_self
  | piece owner n =>
    rw [render_piece, List.append_assoc] at h
    exact hhidden _ h
  | loader => exact hhidden _ h
  | joiner => exact hhidden _ h

/-- A path says in which directories its function is. -/
theorem directories_eq_of_join {ds es : List Bytes} (hd : ∀ d ∈ ds, byte '/' ∉ d ∧ byte '.' ∉ d)
    (he : ∀ e ∈ es, byte '/' ∉ e ∧ byte '.' ∉ e) {f g : FunctionName} (hf : f.IsPlain) (hg : g.IsPlain)
    (h : Bytes.join "/" (ds ++ [f.render]) = Bytes.join "/" (es ++ [g.render])) : ds = es := by
  have hcons : ∀ (d : Bytes) (parts : List Bytes) (last : Bytes), Bytes.join "/" (d :: parts ++ [last])
      = d ++ byte '/' :: Bytes.join "/" (parts ++ [last]) := by
    intro d parts last
    have hstep : Bytes.join "/" (d :: parts ++ [last])
        = d ++ Bytes.ofString "/" ++ Bytes.join "/" (parts ++ [last]) := by
      cases parts <;> rfl
    rw [hstep, List.append_assoc]
    rfl
  induction ds generalizing es with
  | nil =>
    cases es with
    | nil => rfl
    | cons e es =>
      rw [hcons] at h
      exact absurd h (hf.render_ne (he e List.mem_cons_self) _)
  | cons d ds ih =>
    cases es with
    | nil =>
      rw [hcons] at h
      exact absurd h.symm (hg.render_ne (hd d List.mem_cons_self) _)
    | cons e es =>
      rw [hcons, hcons] at h
      obtain ⟨rfl, hrest⟩ := append_cons_inj_of_notMem_left (hd d List.mem_cons_self).1
        (he e List.mem_cons_self).1 h
      rw [ih (fun x hx => hd x (List.mem_cons_of_mem _ hx)) (fun x hx => he x (List.mem_cons_of_mem _ hx))
        hrest]

/-- The file of a function says in which namespace the function is. -/
theorem Namespace.eq_of_functionFile {ns ms : Namespace} (hns : ns.IsPlain) (hms : ms.IsPlain)
    {f g : FunctionName} (hf : f.IsPlain) (hg : g.IsPlain) {format : Int}
    (h : ns.functionFile f.render format = ms.functionFile g.render format) : ns = ms := by
  have hfile : ∀ (n : Namespace) (r : Bytes), n.functionFile r format = Bytes.ofString "data/"
      ++ (n.name ++ byte '/' :: (functionDirectory format ++ Bytes.ofString "/" ++ n.path r
        ++ Bytes.ofString ".mcfunction")) := by
    intro n r
    rw [functionFile, show Bytes.ofString "/" = [byte '/'] by decide]
    simp only [List.append_assoc, List.cons_append, List.nil_append]
  rw [hfile, hfile] at h
  obtain ⟨hname, hpath⟩ := append_cons_inj_of_notMem_left hns.name hms.name (List.append_cancel_left h)
  have hdirectories := directories_eq_of_join hns.directories hms.directories hf hg
    (List.append_cancel_left (List.append_cancel_right hpath))
  obtain ⟨name, directories⟩ := ns
  cases hname
  cases hdirectories
  rfl

namespace Datapack

/-- What the tags of a pack run, one after the other. -/
def taggings (d : Datapack) : List Tagging :=
  d.tags.flatMap fun t => t.values.map fun v => (t.group, t.path, v)

/-- Taking over the tags of a pack is telling what they run. -/
theorem foldl_mergeTag (d : Datapack) (ts : List TagFile) :
    ts.foldl mergeTag d = { d with tags := (ts.flatMap fun t => t.values.map fun v =>
      ((t.group, t.path, v) : Tagging)).foldl (fun tags t => addToTags t.1 t.2.1 t.2.2 tags) d.tags } := by
  induction ts generalizing d with
  | nil => rfl
  | cons t ts ih =>
    have hone : d.mergeTag t = { d with
        tags := (t.values.map fun v => ((t.group, t.path, v) : Tagging)).foldl
          (fun tags t => addToTags t.1 t.2.1 t.2.2 tags) d.tags } := by
      rw [← foldl_addTag, mergeTag, List.foldl_map]
    rw [List.foldl_cons, ih, hone, List.flatMap_cons, List.foldl_append]

/-- A pack whose files are all new is taken over as a whole. -/
theorem merge_of_free {d other : Datapack} (hformat : d.format = other.format)
    (hfree : ∀ f ∈ other.functions, f.path ∉ d.functions.map (·.path)) :
    d.merge other = ({ d with
      functions := d.functions ++ other.functions
      tags := other.taggings.foldl (fun tags t => addToTags t.1 t.2.1 t.2.2 tags) d.tags }, none) := by
  have hall : ∀ f ∈ other.functions, (!(d.functions.map (·.path)).contains f.path) = true := by
    intro f hf
    simpa using hfree f hf
  rw [merge, if_neg (not_not_intro hformat)]
  dsimp only
  rw [List.dropWhile_eq_nil_iff.mpr hall, List.takeWhile_eq_self_iff.mpr hall, foldl_mergeTag]
  rfl

end Datapack

/-- The pack of a single unit is the pack of its build. -/
theorem linkPacks_singleton (o : BuildOptions) (name : Bytes) (input : UnitInput) :
    ∃ d, linkPacks o [(name, some (input.pack o))] = .ok d ∧ d.functions = (input.pack o).functions := by
  let empty : Datapack := { statedFormat := o.format, description := o.description }
  have hformat : empty.format = (input.pack o).format := by
    rw [Datapack.format, Datapack.format, UnitInput.pack, statedFormat_packOf]
  have hmerge := Datapack.merge_of_free hformat fun f _ => List.not_mem_nil
  refine ⟨{ empty with
    functions := (input.pack o).functions
    tags := (input.pack o).taggings.foldl (fun tags t => Datapack.addToTags t.1 t.2.1 t.2.2 tags) [] }, ?_, rfl⟩
  rw [linkPacks, linkInto, hmerge]
  rfl

/-- Packs of one format whose files are all different are put together to one with all their functions
and tags. -/
theorem linkInto_packs {format : Int} {description : Bytes} {functions : List PackFunction}
    {ts : List Tagging} {packs : List (Bytes × Datapack)}
    (hformat : ∀ p ∈ packs, p.2.statedFormat = format)
    (hfiles : ((functions ++ packs.flatMap (·.2.functions)).map (·.path)).Nodup) :
    linkInto ⟨format, description, functions, Tagging.tagFiles ts⟩ (packs.map fun p => (p.1, some p.2))
      = .ok ⟨format, description, functions ++ packs.flatMap (·.2.functions),
          Tagging.tagFiles (ts ++ packs.flatMap (·.2.taggings))⟩ := by
  induction packs generalizing functions ts with
  | nil => simp [linkInto]
  | cons p packs ih =>
    have hfree : ∀ f ∈ p.2.functions, f.path ∉ functions.map (·.path) := by
      intro f hf hmem
      rw [List.flatMap_cons, List.map_append, List.nodup_append] at hfiles
      refine hfiles.2.2 _ hmem _ ?_ rfl
      exact List.mem_map_of_mem (List.mem_append_left _ hf)
    have hsame : (⟨format, description, functions, Tagging.tagFiles ts⟩ : Datapack).format = p.2.format := by
      rw [Datapack.format, Datapack.format, hformat p List.mem_cons_self]
    have hmerge := Datapack.merge_of_free hsame hfree
    have htags : p.2.taggings.foldl (fun tags t => Datapack.addToTags t.1 t.2.1 t.2.2 tags)
        (Tagging.tagFiles ts) = Tagging.tagFiles (ts ++ p.2.taggings) := by
      rw [← Tagging.foldl_addToTags, ← List.foldl_append, Tagging.foldl_addToTags]
    rw [htags] at hmerge
    rw [List.map_cons, linkInto, hmerge]
    dsimp only
    rw [ih (fun q hq => hformat q (List.mem_cons_of_mem _ hq)) (by
      rwa [List.append_assoc, ← List.flatMap_cons (f := fun q : Bytes × Datapack => q.2.functions)])]
    rw [List.flatMap_cons, List.flatMap_cons, List.append_assoc, List.append_assoc]

namespace Tagging

/-- What tags with a name run, in the order of the tags. -/
theorem values_taggings (ts : List TagFile) (n : Bytes × Bytes) :
    ((ts.flatMap fun t => t.values.map fun v => ((t.group, t.path, v) : Tagging)).filter
      fun t => Tagging.name t == n).map (fun t => t.2.2)
      = (ts.filter fun t => (t.group, t.path) == n).flatMap (·.values) := by
  induction ts with
  | nil => rfl
  | cons t ts ih =>
    rw [List.flatMap_cons, List.filter_append, List.map_append, ih]
    by_cases hn : (t.group, t.path) = n
    · rw [List.filter_cons_of_pos (by simpa using hn), List.flatMap_cons]
      congr 1
      rw [List.filter_eq_self.mpr, List.map_map]
      · exact List.map_id _
      · intro tagging htagging
        obtain ⟨v, -, rfl⟩ := List.mem_map.mp htagging
        simpa [name] using hn
    · rw [List.filter_cons_of_neg (by simpa using hn), List.filter_eq_nil_iff.mpr]
      · rfl
      · intro tagging htagging
        obtain ⟨v, -, rfl⟩ := List.mem_map.mp htagging
        simpa [name] using hn

/-- A tag of a pack runs something. -/
theorem values_ne_nil {ts : List Tagging} {t : TagFile} (ht : t ∈ tagFiles ts) : t.values ≠ [] := by
  obtain ⟨n, hn, rfl⟩ := List.mem_map.mp ht
  obtain ⟨tagging, htagging, rfl⟩ := List.mem_map.mp (List.mem_eraseDups.mp hn)
  have hmem : tagging.2.2 ∈ valuesOf ts tagging.name := mem_valuesOf.mpr htagging
  exact List.ne_nil_of_mem hmem

end Tagging

namespace UnitInput

/-- Unless the options ask for a namespace, that of a unit is plain. -/
theorem isPlain_space (input : UnitInput) : (input.space []).IsPlain := by
  rw [space, if_neg (by decide)]
  split
  · exact Namespace.isPlain_ofParts (File.isWord_of_header ‹_›)
  · exact Namespace.isPlain_ofFileName _

/-- The functions of units with different namespaces are in different files. -/
theorem IsAccepted.disjoint_files {a b : UnitInput} {o : BuildOptions} (ha : a.IsAccepted o.warnShadow)
    (hb : b.IsAccepted o.warnShadow) (ho : o.space = [])
    (hne : (a.space o.space).render ≠ (b.space o.space).render) :
    ∀ f ∈ (a.pack o).functions, ∀ g ∈ (b.pack o).functions, f.path ≠ g.path := by
  intro f hf g hg heq
  rw [functions_pack] at hf hg
  obtain ⟨e, he, rfl⟩ := List.mem_map.mp hf
  obtain ⟨e', he', rfl⟩ := List.mem_map.mp hg
  have hformat : (a.pack o).format = (b.pack o).format := by
    rw [Datapack.format, Datapack.format, pack, pack, statedFormat_packOf, statedFormat_packOf]
  rw [hformat] at heq
  have hspaces := Namespace.eq_of_functionFile (by rw [ho]; exact a.isPlain_space)
    (by rw [ho]; exact b.isPlain_space) (ha.isPlain e he) (hb.isPlain e' he') heq
  exact hne (by rw [hspaces])

end UnitInput

namespace Session

variable {s : Session} {o : BuildOptions} {inputs : List UnitInput}

/-- The files of all functions of a build without a limit on diagnostics are different. -/
theorem nodup_compileAll (hs : s.Reliable (o.forUnits inputs) inputs) (ho : o.limit ≤ 0) :
    ((((s.compileAll o inputs).2.filterMap (·.datapack)).flatMap (·.functions)).map (·.path)).Nodup := by
  obtain ⟨space, hfor⟩ := o.forUnits_eq inputs
  have hlimit : (o.forUnits inputs).limit ≤ 0 := by rw [hfor]; exact ho
  have hpacked : ∀ {i : Nat} {u : CompilationUnit} {d : Datapack}, (s.compileAll o inputs).2[i]? = some u →
      u.datapack = some d → ∃ input, inputs[i]? = some input ∧ u.Packed (o.forUnits inputs) input ∧
        input.IsAccepted (o.forUnits inputs).warnShadow ∧ d = input.pack (o.forUnits inputs) := by
    intro i u d hu hd
    obtain ⟨input, hinput, hp⟩ := hs.compileAll_packed hu (by rw [hd]; exact Option.some_ne_none d)
    exact ⟨input, hinput, hp, hp.isAccepted hlimit, Option.some.inj (hd.symm.trans hp.datapack)⟩
  rw [List.map_flatMap, List.nodup_flatMap]
  refine ⟨fun d hd => ?_, List.pairwise_filterMap.mpr (List.pairwise_iff_getElem.mpr ?_)⟩
  · obtain ⟨u, hu, hud⟩ := List.mem_filterMap.mp hd
    obtain ⟨i, hi⟩ := List.mem_iff_getElem?.mp hu
    obtain ⟨input, -, -, haccepted, rfl⟩ := hpacked hi hud
    exact haccepted.nodup_files.of_append_left
  · -- two units have packs only if the options ask for no namespace
    intro i j hi hj hlt d hd e he path hpath hpath'
    have hu := List.getElem?_eq_getElem hi
    have hv := List.getElem?_eq_getElem hj
    obtain ⟨a, ha, hau, haccepted, rfl⟩ := hpacked hu hd
    obtain ⟨b, hb, hbv, haccepted', rfl⟩ := hpacked hv he
    have hseveral : 1 < inputs.length := by
      have := (List.getElem?_eq_some_iff.mp hb).1
      omega
    have hspace : (o.forUnits inputs).space = [] := by rw [BuildOptions.forUnits, if_pos hseveral]
    have hne := compileAll_spaces (Nat.ne_of_lt hlt) hu hv hau hbv
    obtain ⟨f, hf, rfl⟩ := List.mem_map.mp hpath
    obtain ⟨g, hg, heq⟩ := List.mem_map.mp hpath'
    exact haccepted.disjoint_files haccepted' hspace hne f hf g hg heq.symm

/-- Every tag of a build has a name of its own among the tags that its units' packs have, and runs what
they have it run. -/
theorem tagFiles_taggings {packs : List Datapack} (hruns : ∀ d ∈ packs, ∀ t ∈ d.tags, t.values ≠ []) :
    let tags := Tagging.tagFiles (packs.flatMap (·.taggings))
    (tags.map fun t => (t.group, t.path)).Nodup ∧
      (∀ n, n ∈ tags.map (fun t => (t.group, t.path)) ↔
        n ∈ (packs.flatMap (·.tags)).map fun t => (t.group, t.path)) ∧
      ∀ t ∈ tags, t.values = (((packs.flatMap (·.tags)).filter fun t' =>
        (t'.group, t'.path) == (t.group, t.path)).flatMap (·.values)).eraseDups := by
  intro tags
  have htaggings : packs.flatMap (·.taggings) = (packs.flatMap (·.tags)).flatMap fun t =>
      t.values.map fun v => ((t.group, t.path, v) : Tagging) := List.flatMap_assoc.symm
  have hnames : tags.map (fun t => (t.group, t.path)) = Tagging.names (packs.flatMap (·.taggings)) :=
    Tagging.names_tagFiles _
  refine ⟨hnames ▸ Tagging.nodup_names _, fun n => ?_, fun t ht => ?_⟩
  · rw [hnames, Tagging.names, List.mem_eraseDups, htaggings, List.map_flatMap, List.mem_flatMap,
      List.mem_map]
    constructor
    · rintro ⟨t, ht, hn⟩
      rw [List.map_map] at hn
      obtain ⟨v, -, rfl⟩ := List.mem_map.mp hn
      exact ⟨t, ht, rfl⟩
    · rintro ⟨t, ht, rfl⟩
      obtain ⟨d, hd, htd⟩ := List.mem_flatMap.mp ht
      obtain ⟨v, hv⟩ := List.exists_mem_of_ne_nil _ (hruns d hd t htd)
      refine ⟨t, ht, ?_⟩
      rw [List.map_map]
      exact List.mem_map_of_mem (f := Tagging.name ∘ fun v => (t.group, t.path, v)) hv
  · obtain ⟨n, -, rfl⟩ := List.mem_map.mp ht
    rw [← Tagging.values_taggings, ← htaggings]
    rfl

/-- If without a limit on diagnostics every unit of a build has a pack, linking gives a pack with all
their functions, one unit after the other and each in a file of its own. It has each of their tags once,
and the tag runs what the units have it run, in the order in which they do so first. -/
theorem link_of_packs (hs : s.Reliable (o.forUnits inputs) inputs) (ho : o.limit ≤ 0)
    (hall : ∀ u ∈ (s.compileAll o inputs).2, u.datapack ≠ none) :
    let us := (s.compileAll o inputs).2
    let packs := us.filterMap (·.datapack)
    ∃ d, ((s.compileAll o inputs).1.link o (us.map (·.output))).2 = .ok d ∧
      d.functions = packs.flatMap (·.functions) ∧ (d.functions.map (·.path)).Nodup ∧
      (d.tags.map fun t => (t.group, t.path)).Nodup ∧
      (∀ n, n ∈ d.tags.map (fun t => (t.group, t.path)) ↔
        n ∈ (packs.flatMap (·.tags)).map fun t => (t.group, t.path)) ∧
      ∀ t ∈ d.tags, t.values = (((packs.flatMap (·.tags)).filter fun t' =>
        (t'.group, t'.path) == (t.group, t.path)).flatMap (·.values)).eraseDups := by
  intro us packs
  let named : List (Bytes × Datapack) := us.filterMap fun u => u.datapack.map fun d => (u.name, d)
  have hnamed : named.map (fun p => (p.1, some p.2)) = us.map (·.output) := by
    have hstep : ∀ vs : List CompilationUnit, (∀ u ∈ vs, u.datapack ≠ none) →
        (vs.filterMap fun u => u.datapack.map fun d => (u.name, d)).map (fun p => (p.1, some p.2))
          = vs.map (·.output) := by
      intro vs hvs
      induction vs with
      | nil => rfl
      | cons v vs ih =>
        obtain ⟨d, hd⟩ := Option.ne_none_iff_exists'.mp (hvs v List.mem_cons_self)
        rw [List.filterMap_cons_some (by rw [hd]; rfl), List.map_cons, List.map_cons,
          ih fun u hu => hvs u (List.mem_cons_of_mem _ hu), CompilationUnit.output, hd]
    exact hstep us hall
  have hpacks : named.map (·.2) = packs := by
    rw [List.map_filterMap]
    refine List.filterMap_congr fun u _ => ?_
    cases u.datapack <;> rfl
  have hmem : ∀ d ∈ packs, ∃ input, d = UnitInput.pack input (o.forUnits inputs) := by
    intro d hd
    obtain ⟨u, hu, hud⟩ := List.mem_filterMap.mp hd
    obtain ⟨i, hi⟩ := List.mem_iff_getElem?.mp hu
    obtain ⟨input, -, hp⟩ := hs.compileAll_packed hi (hall u hu)
    exact ⟨input, Option.some.inj (hud.symm.trans hp.datapack)⟩
  have hfunctions : named.flatMap (·.2.functions) = packs.flatMap (·.functions) := by
    rw [← hpacks, List.flatMap_map]
  have htaggings : named.flatMap (·.2.taggings) = packs.flatMap (·.taggings) := by
    rw [← hpacks, List.flatMap_map]
  have hnodup := nodup_compileAll hs ho
  have hformat : ∀ p ∈ named, p.2.statedFormat = o.format := by
    intro p hp
    obtain ⟨input, hinput⟩ := hmem p.2 (hpacks ▸ List.mem_map_of_mem hp)
    obtain ⟨space, hfor⟩ := o.forUnits_eq inputs
    rw [hinput, UnitInput.pack, statedFormat_packOf, hfor]
    rfl
  have hlink := @linkInto_packs o.format o.description [] [] named hformat
    (by rw [List.nil_append, hfunctions]; exact hnodup)
  rw [hnamed, hfunctions, htaggings, List.nil_append, List.nil_append] at hlink
  have hruns : ∀ d ∈ packs, ∀ t ∈ d.tags, t.values ≠ [] := by
    intro d hd t ht
    obtain ⟨input, rfl⟩ := hmem d hd
    rw [UnitInput.pack, tags_packOf] at ht
    exact Tagging.values_ne_nil ht
  have hlinked : linkPacks o (us.map (·.output)) = .ok ⟨o.format, o.description,
      packs.flatMap (·.functions), Tagging.tagFiles (packs.flatMap (·.taggings))⟩ := hlink
  refine ⟨⟨o.format, o.description, packs.flatMap Datapack.functions,
    Tagging.tagFiles (packs.flatMap Datapack.taggings)⟩, ?_, rfl, hnodup, tagFiles_taggings hruns⟩
  rw [link, hlinked]

end Session

/-- The packs of two units in directories of one namespace are put together to one: the functions of the
first come before those of the second, and the tag for loading, the only one, runs the loaders of both. -/
theorem UnitInput.link_first_second :
    let build := ({} : Session).compileAll {} [first, second]
    ∃ d, (build.1.link {} (build.2.map (·.output))).2 = .ok d ∧
      d.functions.map (·.path) = (["data/demo/functions/a/main.mcfunction",
        "data/demo/functions/a/.craftlang/load.mcfunction", "data/demo/functions/b/main.mcfunction",
        "data/demo/functions/b/.craftlang/load.mcfunction"] : List Bytes) ∧
      d.tags ≠ [] ∧ ∀ t ∈ d.tags,
        t = ⟨"minecraft", "load", ["demo:a/.craftlang/load", "demo:b/.craftlang/load"]⟩ := by
  intro build
  have hreliable : ({} : Session).Reliable (({} : BuildOptions).forUnits [first, second]) [first, second] :=
    Session.KeepsNothing.reliable ⟨rfl, rfl⟩ _ _
  obtain ⟨u, hu, hpacked⟩ := packs_first_second 0 (by decide)
  obtain ⟨v, hv, hpacked'⟩ := packs_first_second 1 (by decide)
  obtain ⟨a, ha, hau⟩ := hreliable.compileAll_packed hu hpacked
  obtain ⟨b, hb, hbv⟩ := hreliable.compileAll_packed hv hpacked'
  cases ha
  cases hb
  have hbuild : build.2 = [u, v] := by
    obtain ⟨u', v', hunits⟩ := List.length_eq_two.mp (Session.length_compileAll {} {} [first, second])
    rw [hunits] at hu hv
    cases hu
    cases hv
    exact hunits
  have hall : ∀ w ∈ build.2, w.datapack ≠ none := by
    rw [hbuild]
    exact List.forall_mem_cons.mpr ⟨hpacked, List.forall_mem_singleton.mpr hpacked'⟩
  have hpacks : build.2.filterMap (·.datapack) = [first.pack {}, second.pack {}] := by
    rw [hbuild, List.filterMap_cons_some hau.datapack, List.filterMap_cons_some hbv.datapack]
    rfl
  obtain ⟨d, hlink, hfunctions, -, -, hnames, hvalues⟩ := Session.link_of_packs hreliable (by decide) hall
  change d.functions = (build.2.filterMap (·.datapack)).flatMap (·.functions) at hfunctions
  obtain ⟨htags, hpaths⟩ : [first.pack {}, second.pack {}].flatMap (·.tags) = [⟨"minecraft", "load",
        ["demo:a/.craftlang/load"]⟩, ⟨"minecraft", "load", ["demo:b/.craftlang/load"]⟩] ∧
      ([first.pack {}, second.pack {}].flatMap (·.functions)).map (·.path) =
        ["data/demo/functions/a/main.mcfunction", "data/demo/functions/a/.craftlang/load.mcfunction",
          "data/demo/functions/b/main.mcfunction", "data/demo/functions/b/.craftlang/load.mcfunction"] := by
    decide +kernel
  rw [hpacks, htags] at hnames hvalues
  have hname : ∀ t ∈ d.tags, t.group = "minecraft" ∧ t.path = "load" := by
    intro t ht
    simpa using (hnames _).mp (List.mem_map_of_mem ht)
  refine ⟨d, hlink, ?_, fun hnone => ?_, fun t ht => ?_⟩
  · rw [hfunctions, hpacks]
    exact hpaths
  · rw [hnone] at hnames
    exact absurd ((hnames _).mpr (List.mem_map_of_mem List.mem_cons_self)) List.not_mem_nil
  · have ht' := hvalues t ht
    obtain ⟨group, path, values⟩ := t
    obtain ⟨rfl, rfl⟩ := hname _ ht
    cases ht'
    decide

end Craftlang
