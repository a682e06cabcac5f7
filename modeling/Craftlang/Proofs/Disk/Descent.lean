import Craftlang.Disk.Basic
import Craftlang.Proofs.Pack.Components
import Craftlang.Proofs.Scope.Growth

/-!
# Where paths lead

A path is followed name by name. If that succeeds, it leads to a place that can be told from its names alone.
-/

namespace Craftlang

namespace Disk

/-- The place that the names of a path lead to, whatever is on the disk. -/
def placeOf (workingDir : Place) (path : Bytes) : Place :=
  (Path.components path).foldl step (origin workingDir path)

/-- The directory where relative paths start is there, with all those that it is in. -/
def IsRooted (d : Disk) (workingDir : Place) : Prop :=
  ∀ place, place <+: workingDir → d.get? place = some .directory

variable {d : Disk} {workingDir place other : Place} {path : Bytes}

theorem get?_nil (d : Disk) : d.get? [] = some .directory := if_pos rfl

theorem IsRooted.origin (h : d.IsRooted workingDir) (path : Bytes) {place : Place}
    (hplace : place <+: Disk.origin workingDir path) : d.get? place = some .directory := by
  rw [Disk.origin] at hplace
  split at hplace
  · rw [List.prefix_nil.mp hplace]
    exact d.get?_nil
  · exact h place hplace

theorem follow_eq {names : List Bytes} (h : d.follow place names = .ok other) : other = names.foldl step place := by
  induction names generalizing place with
  | nil =>
    rw [follow] at h
    cases h
    rfl
  | cons name rest ih =>
    rw [follow] at h
    split at h
    · cases h
    · cases h
    · split at h
      · cases h
      · exact ih h

/-- All names but the last lead to a directory. -/
theorem get?_of_follow_concat {names : List Bytes} {name : Bytes} (h : d.follow place (names ++ [name]) = .ok other) :
    d.get? (names.foldl step place) = some .directory := by
  induction names generalizing place with
  | nil =>
    rw [List.nil_append, follow] at h
    split at h
    · cases h
    · cases h
    · assumption
  | cons first rest ih =>
    rw [List.cons_append, follow] at h
    split at h
    · cases h
    · cases h
    · split at h
      · cases h
      · exact ih h

/-- An entry that is put somewhere changes nothing elsewhere. -/
theorem get?_put_of_ne (d : Disk) (entry : DiskEntry) (hne : other ≠ place) :
    (d.put place entry).get? other = d.get? other := by
  have hfilter := lookup_filter (· != place) d.entries other
  rw [if_pos (bne_iff_ne.mpr hne)] at hfilter
  rw [get?, get?]
  split
  · rfl
  · rw [put, List.lookup_append, hfilter, List.lookup_cons, beq_false_of_ne hne, List.lookup_nil, Option.or_none]

/-- A file is written where its path leads to, if at all, and never in place of a directory. A path that asks for a
directory leads to no file. -/
theorem get?_write (d : Disk) (workingDir place : Place) (path content : Bytes) :
    (d.write workingDir path content).1.get? place = d.get? place
      ∨ d.get? place ≠ some .directory ∧ place = placeOf workingDir path := by
  rw [write]
  split
  · exact .inl rfl
  · exact .inl rfl
  · rename_i target _ hfollow
    split
    · exact .inl rfl
    · rename_i hfree
      by_cases hplace : place = target
      · refine .inr ⟨hplace ▸ hfree, ?_⟩
        rw [targetNames] at hfollow
        split at hfollow
        · rw [follow_eq hfollow, List.foldl_append] at hfree
          exact absurd (get?_of_follow_concat hfollow) hfree
        · exact hplace.trans (follow_eq hfollow)
      · exact .inl (get?_put_of_ne d _ hplace)

/-! ## Directories that are made -/

/-- The names that a path leads through. -/
theorem map_waypoints (before pieces : List Bytes) :
    (waypoints before pieces).map (·.1) = pieces.filter (!·.isEmpty) := by
  induction pieces generalizing before with
  | nil => rfl
  | cons piece rest ih =>
    rw [waypoints, List.filter_cons]
    cases hempty : piece.isEmpty with
    | true => exact ih _
    | false => exact congrArg (piece :: ·) (ih _)

/-- Only what is free becomes a directory, and only along the names. -/
theorem get?_makeAlong (steps : List (Bytes × Bytes)) (d : Disk) (place other : Place) :
    (d.makeAlong place steps).1.get? other = d.get? other
      ∨ d.get? other = none ∧ ∃ names, names <+: steps.map (·.1) ∧ other = names.foldl step place := by
  induction steps generalizing d place with
  | nil => exact .inl rfl
  | cons first rest ih =>
    obtain ⟨name, path⟩ := first
    have hlater {names : List Bytes} (hnames : names <+: rest.map (·.1)) : name :: names <+: name :: rest.map (·.1) :=
      (List.prefix_cons_inj name).mpr hnames
    rw [makeAlong]
    split
    · exact .inl rfl
    · exact .inl rfl
    · rcases ih d (step place name) with hsame | ⟨hfree, names, hnames, hother⟩
      · exact .inl hsame
      · exact .inr ⟨hfree, name :: names, hlater hnames, hother⟩
    · rename_i hnext
      by_cases hhere : other = step place name
      · exact .inr ⟨hhere ▸ hnext, [name], hlater List.nil_prefix, hhere⟩
      · have hput := get?_put_of_ne d .directory hhere
        rcases ih (d.put (step place name) .directory) (step place name) with hsame | ⟨hfree, names, hnames, hother⟩
        · exact .inl (hsame.trans hput)
        · exact .inr ⟨hput ▸ hfree, name :: names, hlater hnames, hother⟩

end Disk

namespace Path

/-- Names that lead up first, if at all, and only down from there. -/
def Descends (names : List Bytes) : Prop :=
  ∃ ups downs, names = ups ++ downs ∧ (∀ name ∈ ups, name = Bytes.ofString "..") ∧
    ∀ name ∈ downs, name ≠ Bytes.ofString ".."

theorem foldl_step_downs {downs : List Bytes} (h : ∀ name ∈ downs, name ≠ Bytes.ofString "..") (place : Place) :
    place <+: downs.foldl Disk.step place := by
  induction downs generalizing place with
  | nil => exact List.prefix_rfl
  | cons name rest ih =>
    have hstep : place <+: Disk.step place name := by
      rw [Disk.step, if_neg (h name List.mem_cons_self)]
      split
      · exact List.prefix_rfl
      · exact List.prefix_append _ _
    exact hstep.trans (ih (fun n hn => h n (List.mem_cons_of_mem _ hn)) _)

theorem foldl_step_ups {ups : List Bytes} (h : ∀ name ∈ ups, name = Bytes.ofString "..") (place : Place) :
    ups.foldl Disk.step place <+: place := by
  induction ups generalizing place with
  | nil => exact List.prefix_rfl
  | cons name rest ih =>
    have hstep : Disk.step place name <+: place := by
      rw [h name List.mem_cons_self]
      exact List.dropLast_prefix place
    exact (ih (fun n hn => h n (List.mem_cons_of_mem _ hn)) _).trans hstep

/-- What is passed on the way lies on the way from the root to the end, or to the start. -/
theorem Descends.passed {names passed : List Bytes} (h : Descends names) (hpassed : passed <+: names) (place : Place) :
    passed.foldl Disk.step place <+: names.foldl Disk.step place ∨ passed.foldl Disk.step place <+: place := by
  obtain ⟨ups, downs, rfl, hups, hdowns⟩ := h
  rcases List.prefix_or_prefix_of_prefix hpassed (List.prefix_append ups downs) with hups' | ⟨more, rfl⟩
  · exact .inr (foldl_step_ups (fun name hname => hups name (hups'.subset hname)) place)
  · obtain ⟨rest, rfl⟩ := (List.prefix_append_right_inj ups).mp hpassed
    rw [← List.append_assoc, List.foldl_append (l := ups ++ more)]
    exact .inl (foldl_step_downs (fun name hname => hdowns name (List.mem_append_right _ hname)) _)

/-! ### Cleaned paths descend -/

theorem Descends.mono {names names' : List Bytes} (h : Descends names) (hfront : names' <+: names) :
    Descends names' := by
  obtain ⟨ups, downs, rfl, hups, hdowns⟩ := h
  rcases List.prefix_or_prefix_of_prefix hfront (List.prefix_append ups downs) with hups' | ⟨more, rfl⟩
  · exact ⟨names', [], (List.append_nil _).symm, fun name hname => hups name (hups'.subset hname),
      fun _ hname => absurd hname List.not_mem_nil⟩
  · have hmore := (List.prefix_append_right_inj ups).mp hfront
    exact ⟨ups, more, rfl, hups, fun name hname => hdowns name (hmore.subset hname)⟩

/-- A name that does not lead up may come last. -/
theorem Descends.concat {names : List Bytes} (h : Descends names) {name : Bytes} (hname : name ≠ Bytes.ofString "..") :
    Descends (names ++ [name]) := by
  obtain ⟨ups, downs, rfl, hups, hdowns⟩ := h
  refine ⟨ups, downs ++ [name], List.append_assoc _ _ _, hups, fun other hother => ?_⟩
  rcases List.mem_append.mp hother with hother | hother
  · exact hdowns other hother
  · rw [List.mem_singleton.mp hother]
    exact hname

/-- If the last name leads up, all names do, and one more may. -/
theorem Descends.concat_up {names : List Bytes} (h : Descends (names ++ [Bytes.ofString ".."])) :
    Descends (names ++ [Bytes.ofString ".."] ++ [Bytes.ofString ".."]) := by
  obtain ⟨ups, downs, heq, hups, hdowns⟩ := h
  have hnone : downs = [] := by
    rcases List.eq_nil_or_concat' downs with hnil | ⟨front, last, hlast⟩
    · exact hnil
    · rw [hlast, ← List.append_assoc] at heq
      have hup := (List.append_inj' heq rfl).2
      rw [List.cons.injEq] at hup
      exact absurd hup.1.symm (hdowns last (hlast ▸ List.mem_concat_self))
  rw [hnone, List.append_nil] at heq
  refine ⟨ups ++ [Bytes.ofString ".."], [], by rw [heq, List.append_nil], fun name hname => ?_,
    fun _ hname => absurd hname List.not_mem_nil⟩
  rcases List.mem_append.mp hname with hname | hname
  · exact hups name hname
  · exact List.mem_singleton.mp hname

theorem descends_pushComponent (rooted : Bool) {above : List Bytes} (h : Descends above.reverse) (component : Bytes) :
    Descends (pushComponent rooted above component).reverse := by
  rw [pushComponent.eq_def]
  split
  · exact h
  split
  · rename_i hup
    obtain rfl := beq_iff_eq.mp hup
    cases above with
    | nil =>
      cases rooted with
      | true => exact h
      | false =>
        exact ⟨[Bytes.ofString ".."], [], rfl, fun _ hname => List.mem_singleton.mp hname,
          fun _ hname => absurd hname List.not_mem_nil⟩
    | cons last rest =>
      rw [List.reverse_cons] at h
      dsimp only
      split
      · rename_i hlast
        obtain rfl := beq_iff_eq.mp hlast
        rw [List.reverse_cons, List.reverse_cons]
        exact h.concat_up
      · exact h.mono (List.prefix_append _ _)
  · rename_i hname
    rw [List.reverse_cons]
    exact h.concat fun heq => hname (beq_iff_eq.mpr heq)

theorem descends_cleanComponents (p : Bytes) : Descends (cleanComponents p) := by
  have hall : ∀ (components above : List Bytes), Descends above.reverse →
      Descends (components.foldl (pushComponent (isAbsolute p)) above).reverse := by
    intro components
    induction components with
    | nil => exact fun above h => h
    | cons component rest ih => exact fun above h => ih _ (descends_pushComponent _ h component)
  exact hall _ [] ⟨[], [], rfl, fun _ hname => absurd hname List.not_mem_nil, fun _ hname => absurd hname List.not_mem_nil⟩

/-- Cleaning only takes components away. -/
theorem mem_of_mem_cleanComponents {p name : Bytes} (h : name ∈ cleanComponents p) : name ∈ components p := by
  have hall : ∀ (components above : List Bytes),
      name ∈ components.foldl (pushComponent (isAbsolute p)) above → name ∈ above ∨ name ∈ components := by
    intro components
    induction components with
    | nil => exact fun above h => .inl h
    | cons component rest ih =>
      intro above h
      rcases ih _ h with hpushed | hrest
      · have hmem : name ∈ component :: above := by
          rw [pushComponent.eq_def] at hpushed
          split at hpushed
          · exact List.mem_cons_of_mem _ hpushed
          split at hpushed
          · cases above with
            | nil =>
              dsimp only at hpushed
              split at hpushed
              · cases hpushed
              · exact hpushed
            | cons last others =>
              dsimp only at hpushed
              split at hpushed
              · exact hpushed
              · exact List.mem_cons_of_mem _ (List.mem_cons_of_mem _ hpushed)
          · exact hpushed
        rcases List.mem_cons.mp hmem with hhere | habove
        · exact .inr (hhere ▸ List.mem_cons_self)
        · exact .inl habove
      · exact .inr (List.mem_cons_of_mem _ hrest)
  rcases hall _ [] (List.mem_reverse.mp h) with hnone | hmem
  · exact absurd hnone List.not_mem_nil
  · exact hmem

theorem slash_notMem_of_mem_splitOn {p piece : Bytes} (h : piece ∈ Bytes.splitOn slash p) : slash ∉ piece := by
  induction p generalizing piece with
  | nil =>
    rw [List.mem_singleton.mp h]
    exact List.not_mem_nil
  | cons b rest ih =>
    rw [Bytes.splitOn] at h
    split at h
    · rcases List.mem_cons.mp h with rfl | h
      · exact List.not_mem_nil
      · exact ih h
    · rename_i hb
      cases hs : Bytes.splitOn slash rest with
      | nil => exact absurd hs (Bytes.splitOn_ne_nil _ _)
      | cons first others =>
        rw [hs] at h ih
        rcases List.mem_cons.mp h with rfl | h
        · rw [List.mem_cons, not_or]
          exact ⟨Ne.symm hb, ih List.mem_cons_self⟩
        · exact ih (List.mem_cons_of_mem _ h)

/-- Names that were joined are the components of the path. -/
theorem components_join {names : List Bytes} (h : ∀ name ∈ names, name ≠ [] ∧ slash ∉ name) :
    components (Bytes.join [slash] names) = names := by
  have hkept : names.filter (!·.isEmpty) = names :=
    List.filter_eq_self.mpr fun name hname => by simpa using (h name hname).1
  have hsplit : ∀ names : List Bytes, names ≠ [] → (∀ name ∈ names, name ≠ [] ∧ slash ∉ name) →
      Bytes.splitOn slash (Bytes.join [slash] names) = names := by
    intro names hne h
    induction names with
    | nil => exact absurd rfl hne
    | cons name rest ih =>
      cases rest with
      | nil => exact Bytes.splitOn_of_notMem (h name List.mem_cons_self).2
      | cons next others =>
        rw [Bytes.join_cons _ _ (List.cons_ne_nil _ _), List.append_assoc, List.singleton_append,
          Bytes.splitOn_append_cons, Bytes.splitOn_of_notMem (h name List.mem_cons_self).2,
          ih (List.cons_ne_nil _ _) fun n hn => h n (List.mem_cons_of_mem _ hn)]
        rfl
  cases names with
  | nil => rfl
  | cons name rest => rw [components, hsplit _ (List.cons_ne_nil _ _) h, hkept]

theorem descends_clean (p : Bytes) : Descends (components (clean p)) := by
  have hdescends := descends_cleanComponents p
  have hnames : components (Bytes.join [slash] (cleanComponents p)) = cleanComponents p := by
    refine components_join fun name hname => ?_
    obtain ⟨hpiece, hne⟩ := List.mem_filter.mp (mem_of_mem_cleanComponents hname)
    exact ⟨by simpa using hne, slash_notMem_of_mem_splitOn hpiece⟩
  rw [clean]
  split
  · have hrooted (body : Bytes) : components (slash :: body) = components body := by
      rw [components, Bytes.splitOn, if_pos rfl]
      rfl
    rw [hrooted, hnames]
    exact hdescends
  split
  · exact ⟨[], [Bytes.ofString "."], rfl, fun _ hname => absurd hname List.not_mem_nil, by decide⟩
  · rw [hnames]
    exact hdescends

theorem descends_join (parts : List Bytes) : Descends (components (join parts)) := by
  rw [join]
  split
  · exact ⟨[], [], rfl, fun _ hname => absurd hname List.not_mem_nil, fun _ hname => absurd hname List.not_mem_nil⟩
  · exact descends_clean _

end Path

namespace Disk

variable {d : Disk} {workingDir : Place} {path : Bytes}

/-- Along a path that leads down, what is free becomes a directory at its place and above. -/
theorem get?_makeDirs (hrooted : d.IsRooted workingDir) (hpath : Path.Descends (Path.components path)) (place : Place) :
    (d.makeDirs workingDir path).1.get? place = d.get? place
      ∨ d.get? place ≠ some .directory ∧ place <+: placeOf workingDir path := by
  rw [makeDirs]
  split
  · exact .inl rfl
  rcases get?_makeAlong (waypoints [] (Bytes.splitOn Path.slash path)) d (origin workingDir path) place with
    hsame | ⟨hfree, names, hnames, hother⟩
  · exact .inl hsame
  · rw [map_waypoints] at hnames
    rcases hpath.passed hnames (origin workingDir path) with habove | hstart
    · exact .inr ⟨by rw [hfree]; exact Option.some_ne_none _ |>.symm, hother ▸ habove⟩
    · rw [hrooted.origin path (hother ▸ hstart)] at hfree
      cases hfree

end Disk

end Craftlang
