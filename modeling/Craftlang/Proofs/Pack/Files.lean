import Craftlang.Code.Program
import Craftlang.Pack.Datapack
import Craftlang.Proofs.Code.Names
import Craftlang.Proofs.Typing.ProgramSound
import Mathlib.Data.List.Induction

/-!
# Tags of a pack

A pack is told one after the other that a tag runs a function. In the end it has one tag for every name
that was given, in the order in which the names came first, and the tag runs every function it was given
once, in the order in which they came first.
-/

namespace Craftlang

/-- That a tag, a group and a path, runs a function. -/
abbrev Tagging := Bytes × Bytes × Bytes

namespace Tagging

/-- The name of the tag. -/
def name (t : Tagging) : Bytes × Bytes := (t.1, t.2.1)

/-- The functions that a tag is given, each once. -/
def valuesOf (ts : List Tagging) (name : Bytes × Bytes) : List Bytes :=
  ((ts.filter fun t => t.name == name).map fun t => t.2.2).eraseDups

/-- The tags that are given functions, each once. -/
def names (ts : List Tagging) : List (Bytes × Bytes) := (ts.map name).eraseDups

/-- The tags with their functions. -/
def tagFiles (ts : List Tagging) : List TagFile :=
  (names ts).map fun n => ⟨n.1, n.2, valuesOf ts n⟩

theorem eraseDups_concat {α : Type} [BEq α] [LawfulBEq α] (xs : List α) (x : α) :
    (xs ++ [x]).eraseDups = if x ∈ xs then xs.eraseDups else xs.eraseDups ++ [x] := by
  rw [List.eraseDups_append]
  by_cases hx : x ∈ xs
  · rw [if_pos hx, List.removeAll]
    simp [hx]
  · rw [if_neg hx, List.removeAll]
    simp [hx, List.eraseDups_cons]

theorem nodup_eraseDups {α : Type} [BEq α] [LawfulBEq α] (xs : List α) : xs.eraseDups.Nodup := by
  induction xs using List.reverseRecOn with
  | nil => exact List.nodup_nil
  | append_singleton xs x ih =>
    rw [eraseDups_concat]
    split
    · exact ih
    · rename_i hx
      rw [List.nodup_append]
      refine ⟨ih, List.nodup_singleton x, fun y hy z hz heq => hx ?_⟩
      rw [← List.mem_singleton.mp hz, ← heq]
      exact List.mem_eraseDups.mp hy

theorem valuesOf_concat (ts : List Tagging) (t : Tagging) (n : Bytes × Bytes) :
    valuesOf (ts ++ [t]) n =
      if t.name = n ∧ t.2.2 ∉ valuesOf ts n then valuesOf ts n ++ [t.2.2] else valuesOf ts n := by
  rw [valuesOf, List.filter_append, List.map_append]
  by_cases ht : t.name = n
  · have hone : [t].filter (fun t => t.name == n) = [t] := by simp [ht]
    rw [hone, List.map_singleton, eraseDups_concat]
    by_cases hv : t.2.2 ∈ (ts.filter fun t => t.name == n).map fun t => t.2.2
    · rw [if_pos hv, if_neg fun h => h.2 (List.mem_eraseDups.mpr hv)]
      rfl
    · rw [if_neg hv, if_pos ⟨ht, fun h => hv (List.mem_eraseDups.mp h)⟩]
      rfl
  · have hnone : [t].filter (fun t => t.name == n) = [] := by simp [ht]
    rw [hnone, List.map_nil, List.append_nil, if_neg fun h => ht h.1]
    rfl

theorem mem_valuesOf {ts : List Tagging} {n : Bytes × Bytes} {v : Bytes} :
    v ∈ valuesOf ts n ↔ (n.1, n.2, v) ∈ ts := by
  rw [valuesOf, List.mem_eraseDups, List.mem_map]
  constructor
  · rintro ⟨⟨group, path, v⟩, ht, rfl⟩
    obtain ⟨hmem, hn⟩ := List.mem_filter.mp ht
    obtain rfl : (group, path) = n := by simpa [name] using hn
    exact hmem
  · intro h
    exact ⟨(n.1, n.2, v), List.mem_filter.mpr ⟨h, by simp [name]⟩, rfl⟩

end Tagging

open Tagging

/-- The tag that another function is added to: the first of its name, or a new one. -/
theorem Datapack.addToTags_of_notMem {group path value : Bytes} {tags : List TagFile}
    (h : (group, path) ∉ tags.map fun t => (t.group, t.path)) :
    addToTags group path value tags = tags ++ [⟨group, path, [value]⟩] := by
  induction tags with
  | nil => rfl
  | cons tag tags ih =>
    rw [List.map_cons, List.mem_cons, not_or] at h
    rw [addToTags, if_neg fun heq => h.1 (by rw [heq.1, heq.2]), ih h.2]
    rfl

theorem Datapack.addToTags_of_mem {group path value : Bytes} {tags : List TagFile}
    (hnodup : (tags.map fun t => (t.group, t.path)).Nodup)
    (h : (group, path) ∈ tags.map fun t => (t.group, t.path)) :
    addToTags group path value tags =
      tags.map fun t => if (t.group, t.path) = (group, path) then t.add value else t := by
  induction tags with
  | nil => cases h
  | cons tag tags ih =>
    rw [List.map_cons, List.nodup_cons] at hnodup
    rw [List.map_cons, addToTags]
    by_cases heq : tag.group = group ∧ tag.path = path
    · -- no later tag has the name
      rw [if_pos heq, if_pos (by rw [heq.1, heq.2])]
      congr 1
      refine (List.map_id _).symm.trans (List.map_congr_left fun t ht => ?_)
      rw [if_neg fun hname => hnodup.1 ?_]
      · rfl
      · rw [heq.1, heq.2, ← hname]
        exact List.mem_map.mpr ⟨t, ht, rfl⟩
    · have hne : (tag.group, tag.path) ≠ (group, path) := fun hname => heq (Prod.mk.injEq .. ▸ hname)
      rw [if_neg heq, if_neg hne]
      congr 1
      refine ih hnodup.2 ?_
      rcases List.mem_cons.mp h with hname | hmem
      · exact absurd hname.symm hne
      · exact hmem

namespace Tagging

theorem names_tagFiles (ts : List Tagging) :
    ((tagFiles ts).map fun t => (t.group, t.path)) = names ts := by
  rw [tagFiles, List.map_map]
  exact List.map_id _

theorem nodup_names (ts : List Tagging) : (names ts).Nodup := nodup_eraseDups _

theorem tagFiles_concat (ts : List Tagging) (group path value : Bytes) :
    tagFiles (ts ++ [(group, path, value)]) = Datapack.addToTags group path value (tagFiles ts) := by
  have hnames : names (ts ++ [(group, path, value)]) =
      if (group, path) ∈ ts.map name then names ts else names ts ++ [(group, path)] := by
    rw [names, List.map_append, List.map_singleton, eraseDups_concat]
    rfl
  have hmem : (group, path) ∈ names ts ↔ (group, path) ∈ ts.map name := List.mem_eraseDups
  have hkeep : ∀ n ∈ names ts, n ≠ (group, path) →
      valuesOf (ts ++ [(group, path, value)]) n = valuesOf ts n := by
    intro n _ hne
    rw [valuesOf_concat, if_neg fun h => hne h.1.symm]
  by_cases hknown : (group, path) ∈ ts.map name
  · rw [Datapack.addToTags_of_mem (by rw [names_tagFiles]; exact nodup_names ts)
      (by rw [names_tagFiles]; exact hmem.mpr hknown), tagFiles, hnames, if_pos hknown, tagFiles,
      List.map_map]
    refine List.map_congr_left fun n hn => ?_
    rw [Function.comp_apply]
    by_cases hn' : n = (group, path)
    · subst hn'
      rw [if_pos rfl, valuesOf_concat, TagFile.add]
      by_cases hv : value ∈ valuesOf ts (group, path)
      · rw [if_neg fun h => h.2 hv, if_pos (by simpa using hv)]
      · rw [if_pos ⟨rfl, hv⟩, if_neg (by simpa using hv)]
    · rw [if_neg hn', hkeep n hn hn']
  · rw [Datapack.addToTags_of_notMem (by rw [names_tagFiles]; exact fun h => hknown (hmem.mp h)),
      tagFiles, hnames, if_neg hknown, List.map_append, List.map_singleton]
    have hnew : valuesOf (ts ++ [(group, path, value)]) (group, path) = [value] := by
      have hnil : valuesOf ts (group, path) = [] := by
        refine List.eq_nil_iff_forall_not_mem.mpr fun v hv => hknown ?_
        exact List.mem_map.mpr ⟨_, mem_valuesOf.mp hv, rfl⟩
      rw [valuesOf_concat, hnil, if_pos ⟨rfl, List.not_mem_nil⟩]
      rfl
    rw [hnew, tagFiles]
    congr 1
    refine List.map_congr_left fun n hn => ?_
    rw [hkeep n hn fun heq => hknown (hmem.mp (heq ▸ hn))]

/-- Telling a pack one tag after the other. -/
theorem foldl_addToTags (ts : List Tagging) :
    ts.foldl (fun tags t => Datapack.addToTags t.1 t.2.1 t.2.2 tags) [] = tagFiles ts := by
  induction ts using List.reverseRecOn with
  | nil => rfl
  | append_singleton ts t ih => rw [List.foldl_append, ih, tagFiles_concat]; rfl

end Tagging

/-- A group is one part of a resource location. -/
theorem Tag.slash_notMem_group {name : DottedName} {tag : Tag} (h : Tag.ofName name = .ok tag) :
    byte '/' ∉ tag.group := by
  rw [ofName] at h
  split at h
  · cases h
  · rename_i hnone
    split at h
    · rename_i group part parts hparts
      cases h
      have hplain := List.find?_eq_none.mp hnone group (by rw [hparts]; exact List.mem_cons_self)
      have hgroup : ResourceName.normalize group = group := by simpa using hplain
      rw [← hgroup]
      exact ResourceName.slash_notMem_normalize group
    · cases h
      change byte '/' ∉ defaultGroup
      decide

namespace Typing

theorem mem_tags {t : Typing} {names : List DottedName} {tag : Tag} (h : tag ∈ (t.tags names).2) :
    ∃ name ∈ names, Tag.ofName name = .ok tag := by
  induction names generalizing t with
  | nil => cases h
  | cons name names ih =>
    rw [tags] at h
    split at h
    · rename_i tag' htag
      rcases List.mem_cons.mp h with rfl | h
      · exact ⟨name, List.mem_cons_self, htag⟩
      · obtain ⟨name', hname, htag⟩ := ih h
        exact ⟨name', List.mem_cons_of_mem _ hname, htag⟩
    · obtain ⟨name', hname, htag⟩ := ih h
      exact ⟨name', List.mem_cons_of_mem _ hname, htag⟩

/-- The tags that are recorded are resource locations, written with some of the names. -/
def TagsRead (names : List DottedName) (t : Typing) : Prop :=
  ∀ f ∈ t.functions, ∀ tag ∈ f.tags, ∃ name ∈ names, Tag.ofName name = .ok tag

theorem TagsRead.declareFunction {t : Typing} {names : List DottedName} (h : t.TagsRead names)
    (c : TypingContext) {f : Function} (hf : f.tags ⊆ names) :
    (declareFunction c t f).TagsRead names := by
  rw [declareFunction_steps]
  have hsigned : Extends [] t (signed c t f) :=
    (extends_signature c t f).trans_nil (extends_noteSymbol _ _ _)
  have hfunctions := ((hsigned.trans_nil (extends_checkTagged _ f)).trans_nil
    (extends_tags _ f.tags)).functions
  intro info hinfo tag htag
  rcases List.mem_append.mp hinfo with hinfo | hinfo
  · exact h info (hfunctions ▸ hinfo) tag htag
  · rw [List.mem_singleton.mp hinfo] at htag
    obtain ⟨name, hname, htag⟩ := mem_tags htag
    exact ⟨name, hf hname, htag⟩

end Typing

theorem Program.tagsRead_typed (p : Program) (r : Resolution) :
    (p.typed r).TagsRead (p.functions.flatMap (·.tags)) := by
  let names := p.functions.flatMap (·.tags)
  have hdeclared : ∀ (c : TypingContext) (fs : List Function) (t : Typing), (∀ f ∈ fs, f.tags ⊆ names) →
      t.TagsRead names → (fs.foldl (Typing.declareFunction c) t).TagsRead names := by
    intro c fs
    induction fs with
    | nil => exact fun _ _ h => h
    | cons f fs ih =>
      exact fun t hfs h => ih _ (fun g hg => hfs g (List.mem_cons_of_mem _ hg))
        (h.declareFunction c (hfs f List.mem_cons_self))
  have hstart : (Typing.start r).TagsRead names := by
    intro f hf
    rw [Typing.start] at hf
    split at hf <;> cases hf
  let c : TypingContext := { resolution := r, aliases := p.aliases r }
  let declared := p.functions.foldl (Typing.declareFunction c) (Typing.start r)
  have hread : declared.TagsRead names := hdeclared c p.functions _
    (fun _ hf _ hname => List.mem_flatMap.mpr ⟨_, hf, hname⟩) hstart
  have hfunctions : declared.functions = (p.typed r).functions :=
    (Typing.extends_items c declared p.items).functions
  intro f hf
  exact hread f (hfunctions ▸ hf)

end Craftlang

/-!
## Files of a pack

The file of a function says which function it is, and the file of a tag says which tag it is; no file is
both. So a pack whose functions have names of their own has as many files as functions and tags.
-/

namespace Craftlang

namespace Namespace

/-- The last part of a path comes behind its directories. -/
theorem path_eq (ns : Namespace) : ∃ above : Bytes, ∀ function, ns.path function = above ++ function := by
  obtain ⟨name, directories⟩ := ns
  change ∃ above : Bytes, ∀ function, Bytes.join "/" (directories ++ [function]) = above ++ function
  induction directories with
  | nil => exact ⟨[], fun _ => rfl⟩
  | cons d ds ih =>
    obtain ⟨above, habove⟩ := ih
    refine ⟨d ++ Bytes.ofString "/" ++ above, fun function => ?_⟩
    rw [List.append_assoc, ← habove function]
    cases ds <;> rfl

theorem path_inj {ns : Namespace} {a b : Bytes} (h : ns.path a = ns.path b) : a = b := by
  obtain ⟨above, habove⟩ := ns.path_eq
  rw [habove, habove] at h
  exact List.append_cancel_left h

theorem functionFile_inj {ns : Namespace} {a b : Bytes} {format : Int}
    (h : ns.functionFile a format = ns.functionFile b format) : a = b := by
  unfold functionFile at h
  exact path_inj (List.append_cancel_left (List.append_cancel_right h))

/-- No file is that of a function and of a tag. -/
theorem functionFile_ne_file (ns : Namespace) (function : Bytes) (format : Int) (t : TagFile)
    (format' : Int) : ns.functionFile function format ≠ t.file format' := by
  intro h
  unfold functionFile TagFile.file at h
  rw [show Bytes.ofString ".mcfunction" = Bytes.ofString ".mcfun" ++ Bytes.ofString "ction" by decide,
    ← List.append_assoc] at h
  exact absurd (List.append_inj_right' h rfl) (by decide)

end Namespace

/-- Tags of different names have different files. -/
theorem TagFile.file_inj {t u : TagFile} (ht : byte '/' ∉ t.group) (hu : byte '/' ∉ u.group) {format : Int}
    (h : t.file format = u.file format) : (t.group, t.path) = (u.group, u.path) := by
  have hfile : ∀ v : TagFile, v.file format = Bytes.ofString "data/" ++ (v.group ++ byte '/' ::
      (Bytes.ofString "tags/" ++ functionDirectory format ++ Bytes.ofString "/" ++ v.path
        ++ Bytes.ofString ".json")) := by
    intro v
    rw [TagFile.file, show Bytes.ofString "/tags/" = byte '/' :: Bytes.ofString "tags/" by decide]
    simp only [List.append_assoc, List.cons_append]
  rw [hfile, hfile] at h
  obtain ⟨hgroup, hrest⟩ := append_cons_inj_of_notMem_left ht hu (List.append_cancel_left h)
  rw [hgroup, List.append_cancel_left (List.append_cancel_right hrest)]

section

variable {ns : Namespace} {format : Int} {description : Bytes}
  {functions : List (FunctionName × List Command)} {tags : List Tagging}

theorem foldl_addTag (d : Datapack) (ts : List Tagging) :
    ts.foldl (fun d (group, path, value) => d.addTag group path value) d
      = { d with tags := ts.foldl (fun tags t => Datapack.addToTags t.1 t.2.1 t.2.2 tags) d.tags } := by
  induction ts generalizing d with
  | nil => rfl
  | cons t ts ih =>
    rw [List.foldl_cons, List.foldl_cons, ih]
    rfl

theorem tags_packOf : (packOf ns format description functions tags).tags = Tagging.tagFiles tags := by
  rw [← Tagging.foldl_addToTags, packOf]
  dsimp only
  rw [foldl_addTag]

theorem statedFormat_packOf : (packOf ns format description functions tags).statedFormat = format := by
  rw [packOf]
  dsimp only
  rw [foldl_addTag]

theorem functions_packOf : (packOf ns format description functions tags).functions =
    functions.map fun f => ⟨ns.resource f.1.render,
      ns.functionFile f.1.render (packOf ns format description functions tags).format,
      f.2.map (Command.render ns)⟩ := by
  have hformat : (packOf ns format description functions tags).format = if format = 0 then
      PackFormat.standard else format := by
    rw [Datapack.format, statedFormat_packOf]
  rw [hformat, packOf]
  dsimp only
  rw [foldl_addTag]
  rfl

/-- Functions with names of their own and tags in groups without directories have files of their own. -/
theorem nodup_files (hnames : (functions.map (·.1)).Nodup) (hplain : ∀ f ∈ functions, f.1.IsPlain)
    (htags : ∀ t ∈ tags, byte '/' ∉ t.1) :
    let d := packOf ns format description functions tags
    (d.functions.map (·.path) ++ d.tags.map (·.file d.format)).Nodup := by
  intro d
  rw [List.nodup_append]
  refine ⟨?_, ?_, ?_⟩
  · rw [functions_packOf, List.map_map]
    refine List.Nodup.map_on ?_ hnames.of_map
    intro f hf g hg heq
    have hname := FunctionName.render_inj (hplain f hf) (hplain g hg) (Namespace.functionFile_inj heq)
    exact List.inj_on_of_nodup_map hnames hf hg hname
  · have hgroups : ∀ t ∈ d.tags, byte '/' ∉ t.group := by
      intro t ht
      rw [tags_packOf] at ht
      obtain ⟨n, hn, rfl⟩ := List.mem_map.mp ht
      obtain ⟨tagging, htagging, rfl⟩ := List.mem_map.mp (List.mem_eraseDups.mp hn)
      exact htags tagging htagging
    have hnodup : (d.tags.map fun t => (t.group, t.path)).Nodup := by
      rw [tags_packOf, Tagging.names_tagFiles]
      exact Tagging.nodup_names tags
    refine List.Nodup.map_on ?_ hnodup.of_map
    intro t ht u hu heq
    exact List.inj_on_of_nodup_map hnodup ht hu (TagFile.file_inj (hgroups t ht) (hgroups u hu) heq)
  · intro x hx y hy heq
    rw [functions_packOf, List.map_map] at hx
    obtain ⟨f, -, rfl⟩ := List.mem_map.mp hx
    obtain ⟨t, -, rfl⟩ := List.mem_map.mp hy
    exact Namespace.functionFile_ne_file _ _ _ _ _ heq

end

end Craftlang
