import Craftlang.Proofs.Pack.Files

/-!
# Components of paths

The files of a pack are written below a directory of the caller's choice, so a path must not lead out of it.
A path whose components are resource names stays below, unless a component is `.` or `..`, which are
resource names, too.
-/

namespace Craftlang

namespace Bytes

theorem splitOn_ne_nil (b : UInt8) (s : Bytes) : splitOn b s ≠ [] := by
  cases s with
  | nil => exact List.cons_ne_nil _ _
  | cons c s =>
    rw [splitOn]
    split
    · exact List.cons_ne_nil _ _
    · split <;> exact List.cons_ne_nil _ _

theorem splitOn_of_notMem {b : UInt8} {s : Bytes} (h : b ∉ s) : splitOn b s = [s] := by
  induction s with
  | nil => rfl
  | cons c s ih =>
    rw [List.mem_cons, not_or] at h
    rw [splitOn, if_neg (Ne.symm h.1), ih h.2]

/-- The pieces before a separator and those behind it. -/
theorem splitOn_append_cons (b : UInt8) (s t : Bytes) :
    splitOn b (s ++ b :: t) = splitOn b s ++ splitOn b t := by
  induction s with
  | nil => simp [splitOn]
  | cons c s ih =>
    rw [List.cons_append, splitOn, ih, splitOn]
    split
    · rfl
    · cases hs : splitOn b s with
      | nil => exact absurd hs (splitOn_ne_nil b s)
      | cons piece pieces => rfl

theorem join_cons (separator part : Bytes) {parts : List Bytes} (h : parts ≠ []) :
    join separator (part :: parts) = part ++ separator ++ join separator parts := by
  cases parts with
  | nil => exact absurd rfl h
  | cons => rfl

/-- What is put behind joined parts is put behind the last one. -/
theorem join_concat_append (separator part s : Bytes) (parts : List Bytes) :
    join separator (parts ++ [part]) ++ s = join separator (parts ++ [part ++ s]) := by
  induction parts with
  | nil => rfl
  | cons first parts ih =>
    rw [List.cons_append, List.cons_append, join_cons _ _ (by simp), join_cons _ _ (by simp),
      List.append_assoc, ih]

end Bytes

open Bytes

/-- Whether all bytes of a text have a property is found out by going through the text. -/
instance (s : Bytes) (p : UInt8 → Prop) [DecidablePred p] : Decidable (∀ b ∈ s, p b) :=
  List.decidableBAll p s

namespace ResourceName

/-- Text as it can stand in a resource location: not empty, and made of the bytes that are allowed there. -/
def IsName (part : Bytes) : Prop := part ≠ [] ∧ ∀ b ∈ part, isPlain b = true

instance (part : Bytes) : Decidable (IsName part) := inferInstanceAs (Decidable (_ ∧ _))

theorem normalize_ne_nil (name : Bytes) : normalize name ≠ [] := by
  rw [normalize]
  split
  · exact List.cons_ne_nil _ _
  · assumption

theorem isName_normalize (name : Bytes) : IsName (normalize name) :=
  ⟨normalize_ne_nil name, fun _ => isPlain_of_mem_normalize⟩

theorem IsName.append {part : Bytes} (h : IsName part) {s : Bytes} (hs : ∀ b ∈ s, isPlain b = true) :
    IsName (part ++ s) :=
  ⟨List.append_ne_nil_of_left_ne_nil h.1 s, fun b hb => (List.mem_append.mp hb).elim (h.2 b) (hs b)⟩

theorem IsName.slash_notMem {part : Bytes} (h : IsName part) : byte '/' ∉ part := fun hmem =>
  absurd (h.2 _ hmem) (by decide)

end ResourceName

open ResourceName (IsName)

namespace Path

/-- Neither the directory itself nor the one above. -/
def IsBelow (part : Bytes) : Prop := part ≠ Bytes.ofString "." ∧ part ≠ Bytes.ofString ".."

instance (part : Bytes) : Decidable (IsBelow part) := inferInstanceAs (Decidable (_ ∧ _))

/-- A path that stays below the directory that it starts from: it is relative, since no component is empty, and
all components are resource names that name something below. -/
def StaysBelow (path : Bytes) : Prop := ∀ part ∈ splitOn slash path, IsName part ∧ IsBelow part

instance (path : Bytes) : Decidable (StaysBelow path) :=
  inferInstanceAs (Decidable (∀ part ∈ splitOn slash path, _))

/-- Text that ends with a letter names no directory. -/
theorem isBelow_append_of_ne {s ending : Bytes} (h : ending.getLast? ≠ none)
    (hdot : ending.getLast? ≠ some (byte '.')) : IsBelow (s ++ ending) := by
  have hlast : (s ++ ending).getLast? = ending.getLast? := by
    rw [List.getLast?_append]
    cases he : ending.getLast? with
    | none => exact absurd he h
    | some b => rfl
  constructor
  · intro heq
    rw [← hlast, heq] at hdot
    exact hdot (by decide)
  · intro heq
    rw [← hlast, heq] at hdot
    exact hdot (by decide)

theorem isBelow_of_notMem {part : Bytes} (h : byte '.' ∉ part) : IsBelow part := by
  constructor
  · rintro rfl
    exact h (by decide)
  · rintro rfl
    exact h (by decide)

theorem staysBelow_of_isName {part : Bytes} (h : IsName part) : StaysBelow part ↔ IsBelow part := by
  rw [StaysBelow, slash, splitOn_of_notMem h.slash_notMem]
  simp [h]

theorem staysBelow_append_cons {s t : Bytes} :
    StaysBelow (s ++ slash :: t) ↔ StaysBelow s ∧ StaysBelow t := by
  rw [StaysBelow, splitOn_append_cons]
  exact List.forall_mem_append

theorem staysBelow_slash {s t : Bytes} :
    StaysBelow (s ++ Bytes.ofString "/" ++ t) ↔ StaysBelow s ∧ StaysBelow t := by
  rw [List.append_assoc]
  exact staysBelow_append_cons

/-- A path that is put together stays below if all its parts do. -/
theorem staysBelow_join {parts : List Bytes} (h : parts ≠ []) :
    StaysBelow (Bytes.join "/" parts) ↔ ∀ part ∈ parts, StaysBelow part := by
  induction parts with
  | nil => exact absurd rfl h
  | cons part parts ih =>
    by_cases hparts : parts = []
    · subst hparts
      simp [Bytes.join]
    · rw [join_cons _ _ hparts, List.forall_mem_cons, ← ih hparts]
      exact staysBelow_slash

end Path

open Craftlang.Path (IsBelow StaysBelow staysBelow_slash staysBelow_join staysBelow_of_isName)

/-- A function whose own name, or the name of the function it is a piece of, is a resource name. -/
def FunctionName.IsNamed : FunctionName → Prop
  | declared name => IsName name
  | piece owner _ => IsName owner
  | _ => True

/-- The name of a function leads nowhere else, wherever it stands at the end of a path. -/
theorem FunctionName.IsNamed.staysBelow {f : FunctionName} (h : f.IsNamed) :
    StaysBelow (f.render ++ Bytes.ofString ".mcfunction") := by
  have hending : ∀ b ∈ Bytes.ofString ".mcfunction", ResourceName.isPlain b = true := by decide
  have hname : ∀ {name : Bytes}, IsName name → StaysBelow (name ++ Bytes.ofString ".mcfunction") :=
    fun hname => (staysBelow_of_isName (hname.append hending)).mpr
      (Path.isBelow_append_of_ne (by decide) (by decide))
  have hhidden : ∀ {name : Bytes}, IsName name →
      StaysBelow (hiddenDirectory ++ name ++ Bytes.ofString ".mcfunction") := by
    intro name h
    rw [show hiddenDirectory = Bytes.ofString ".craftlang" ++ Bytes.ofString "/" by decide,
      List.append_assoc (Bytes.ofString ".craftlang" ++ _), staysBelow_slash]
    exact ⟨by decide, hname h⟩
  cases f with
  | declared name => exact hname h
  | piece owner n =>
    have hpiece : IsName (owner ++ Bytes.ofString "." ++ shortNumber n) := by
      refine (IsName.append h (by decide)).append fun b hb => ?_
      rw [ResourceName.isPlain, isShort_of_mem_shortNumber b hb]
      rfl
    have hpath := hhidden hpiece
    rw [← List.append_assoc, ← List.append_assoc] at hpath
    exact hpath
  | loader | joiner => decide

theorem staysBelow_functionDirectory (format : Int) : StaysBelow (functionDirectory format) := by
  rw [functionDirectory]
  split <;> decide

namespace Namespace

theorem parts_ofParts (parts : List Bytes) : ∀ part ∈ (ofParts parts).parts, IsName part := by
  intro part hpart
  cases parts with
  | nil =>
    rw [List.mem_singleton.mp hpart]
    decide
  | cons first rest =>
    obtain ⟨part, -, rfl⟩ := List.mem_map.mp (show part ∈ (first :: rest).map ResourceName.normalize from hpart)
    exact ResourceName.isName_normalize part

theorem parts_ofFileName (name : Bytes) : ∀ part ∈ (ofFileName name).parts, IsName part := by
  rw [ofFileName]
  split
  · exact parts_ofParts []
  · exact parts_ofParts _

/-- The file of a function stays below exactly if the parts of the namespace do. -/
theorem staysBelow_functionFile {ns : Namespace} (hns : ∀ part ∈ ns.parts, IsName part) {f : FunctionName}
    (hf : f.IsNamed) (format : Int) :
    StaysBelow (ns.functionFile f.render format) ↔ ∀ part ∈ ns.parts, IsBelow part := by
  have hpath : StaysBelow (ns.path f.render ++ Bytes.ofString ".mcfunction") ↔
      ∀ part ∈ ns.directories, IsBelow part := by
    have hne : ns.directories ++ [f.render ++ Bytes.ofString ".mcfunction"] ≠ [] := by simp
    rw [path, join_concat_append, staysBelow_join hne]
    have hparts : ∀ part ∈ ns.directories, (StaysBelow part ↔ IsBelow part) := fun part hpart =>
      staysBelow_of_isName (hns part (List.mem_cons_of_mem _ hpart))
    rw [List.forall_mem_append, List.forall_mem_singleton]
    simp only [hf.staysBelow, and_true]
    exact forall₂_congr hparts
  have hdata : StaysBelow (Bytes.ofString "data") := by decide
  rw [functionFile, show Bytes.ofString "data/" = Bytes.ofString "data" ++ Bytes.ofString "/" by decide,
    List.append_assoc _ (ns.path f.render), staysBelow_slash, staysBelow_slash, staysBelow_slash, hpath,
    staysBelow_of_isName (hns _ List.mem_cons_self)]
  simp [hdata, staysBelow_functionDirectory, parts]

end Namespace

/-- The file of a tag stays below if its group and its path do. -/
theorem TagFile.staysBelow_file {t : TagFile} (hgroup : StaysBelow t.group)
    (hpath : StaysBelow (t.path ++ Bytes.ofString ".json")) (format : Int) : StaysBelow (t.file format) := by
  have hfile : t.file format = Bytes.ofString "data" ++ Bytes.ofString "/" ++ t.group ++ Bytes.ofString "/"
      ++ Bytes.ofString "tags" ++ Bytes.ofString "/" ++ functionDirectory format ++ Bytes.ofString "/"
      ++ (t.path ++ Bytes.ofString ".json") := by
    rw [file, show Bytes.ofString "data/" = Bytes.ofString "data" ++ Bytes.ofString "/" by decide,
      show Bytes.ofString "/tags/" = Bytes.ofString "/" ++ (Bytes.ofString "tags" ++ Bytes.ofString "/") by
        decide]
    simp only [List.append_assoc]
  have hfixed : StaysBelow (Bytes.ofString "data") ∧ StaysBelow (Bytes.ofString "tags") := by decide
  rw [hfile, staysBelow_slash, staysBelow_slash, staysBelow_slash, staysBelow_slash]
  exact ⟨⟨⟨⟨hfixed.1, hgroup⟩, hfixed.2⟩, staysBelow_functionDirectory format⟩, hpath⟩

end Craftlang
