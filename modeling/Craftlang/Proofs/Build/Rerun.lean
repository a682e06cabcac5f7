import Craftlang.Proofs.Build.Namespaces

/-!
# Building the same units again

A build keeps the results of its units before it looks whether their namespaces differ, and a result has no
tree. So a unit that was told of nothing but that its namespace is taken is told so again by the next build,
but at the start of its file, and no longer at its header. In all else the two builds report the same.
-/

namespace Craftlang

open CompilationUnit (OnlyTaken Rebuilt Resumes Unchecked)

/-! ## What a session goes on keeping -/

/-- A result that is stored can be used if its key is asked for. -/
theorem ResultCache.usable?_put (c : ResultCache) (key : Bytes) (unit : CachedUnit) (k : Bytes) :
    (c.put key unit).usable? k = if k = key then
      if unit.schema = CachedUnit.currentSchema then unit.datapack.map fun d => (unit, d) else none
    else c.usable? k := by
  rw [usable?, get?_put]
  by_cases hk : k = key
  · rw [if_pos hk, if_pos hk]
  · rw [if_neg hk, if_neg hk]
    rfl

/-- A cache that has loaded a file has it, and all it had before. -/
theorem ParseCache.lookup_load (c : ParseCache) (key : Bytes) (make : Unit → ParsedFile) :
    (c.load key make).1.entries.lookup key = some (c.load key make).2.1 ∧
      ∀ k found, c.entries.lookup k = some found → (c.load key make).1.entries.lookup k = some found := by
  cases hold : c.entries.lookup key with
  | some old =>
    have hload : c.load key make = ({ c with hits := c.hits + 1 }, old, true) := by rw [load, hold]
    rw [hload]
    exact ⟨hold, fun _ _ h => h⟩
  | none =>
    have hload : c.load key make
        = ({ c with entries := c.entries ++ [(key, make ())], misses := c.misses + 1 }, make (), false) := by
      rw [load, hold]
    rw [hload]
    refine ⟨?_, fun k found h => ?_⟩
    · rw [List.lookup_append, hold]
      simp
    · rw [List.lookup_append, h]
      rfl

namespace Session

/-- The result that a session has for a key. -/
def result? (s : Session) (key : Bytes) : Option (CachedUnit × Datapack) :=
  s.results.bind fun cache => cache.usable? key

/-- The parsed file that a session has for a key. -/
def parsed? (s : Session) (key : Bytes) : Option ParsedFile :=
  s.parsed.bind fun cache => cache.entries.lookup key

/-- What one session keeps another one keeps as well. -/
structure KeptBy (s t : Session) : Prop where
  results : t.results.isSome = s.results.isSome
  parsed : t.parsed.isSome = s.parsed.isSome
  result : ∀ key found, s.result? key = some found → t.result? key = some found
  file : ∀ key found, s.parsed? key = some found → t.parsed? key = some found

variable {s t t' : Session} {o : BuildOptions} {input : UnitInput} {inputs : List UnitInput}
  {u : CompilationUnit}

theorem KeptBy.trans (h : s.KeptBy t) (h' : t.KeptBy t') : s.KeptBy t' :=
  ⟨h'.results.trans h.results, h'.parsed.trans h.parsed, fun key found hs => h'.result key found (h.result key found hs),
    fun key found hs => h'.file key found (h.file key found hs)⟩

theorem KeptBy.of_eq (hp : t.parsed = s.parsed) (hr : t.results = s.results) : s.KeptBy t :=
  ⟨by rw [hr], by rw [hp], fun key found h => by rw [result?, hr]; exact h,
    fun key found h => by rw [parsed?, hp]; exact h⟩

theorem KeptBy.of_means (h : t.means = s.means) : s.KeptBy t := .of_eq (congrArg (·.1) h) (congrArg (·.2.1) h)

theorem result?_congr (h : t.results = s.results) (key : Bytes) : t.result? key = s.result? key := by
  rw [result?, h, result?]

theorem result?_of_means (h : t.means = s.means) (key : Bytes) : t.result? key = s.result? key :=
  result?_congr (congrArg (·.2.1) h) key

/-- In a session that is cancelled no stage is run. -/
theorem run_eq_of_cancelled (hc : s.isCancelled = true) (u : CompilationUnit) (o : BuildOptions) :
    s.run u o = (s, { u with failure := some .cancelled }) := by
  rw [run, if_pos hc]

/-- A file is parsed unless it is kept. -/
theorem loadParsed_eq (s : Session) (u : CompilationUnit) (o : BuildOptions) :
    (s.loadParsed u o).2.1 = (s.parsed? (Digest.ofParsed u.file)).getD (parseWithin u.file o.limit) := by
  rw [loadParsed, parsed?]
  cases s.parsed with
  | none => rfl
  | some cache =>
    change (cache.load _ _).2.1 = _
    rw [ParseCache.load, Option.bind_some]
    cases cache.entries.lookup (Digest.ofParsed u.file) <;> rfl

/-- Running the stages keeps the file. -/
theorem run_keptBy (s : Session) (u : CompilationUnit) (o : BuildOptions) : s.KeptBy (s.run u o).1 ∧
    (s.isCancelled = false → s.parsed.isSome = true →
      (s.run u o).1.parsed? (Digest.ofParsed u.file) = some (s.loadParsed u o).2.1) := by
  by_cases hc : s.isCancelled = true
  · rw [run_eq_of_cancelled hc]
    exact ⟨.of_eq rfl rfl, fun hrunning => by rw [hc] at hrunning; cases hrunning⟩
  have hresults : (s.run u o).1.results = s.results := results_run s
  have hparsed : (s.run u o).1.parsed = (s.loadParsed u o).1.parsed :=
    congrArg Prod.fst (means_run (Bool.eq_false_iff.mpr hc))
  cases hcache : s.parsed with
  | none =>
    refine ⟨.of_eq ?_ hresults, fun _ hsome => by cases hsome⟩
    rw [hparsed, loadParsed, hcache]
    exact hcache
  | some cache =>
    have hleft : (s.run u o).1.parsed = some (cache.load (Digest.ofParsed u.file) fun _ =>
        parseWithin u.file o.limit).1 := by
      rw [hparsed, loadParsed, hcache]
    have hload : (s.loadParsed u o).2.1 = (cache.load (Digest.ofParsed u.file) fun _ =>
        parseWithin u.file o.limit).2.1 := by
      rw [loadParsed, hcache]
    obtain ⟨hown, hold⟩ := cache.lookup_load (Digest.ofParsed u.file) fun _ => parseWithin u.file o.limit
    refine ⟨⟨by rw [hresults], by rw [hleft, hcache]; rfl, fun key found h => ?_, fun key found h => ?_⟩,
      fun _ _ => ?_⟩
    · rw [result?, hresults]
      exact h
    · rw [parsed?, hcache, Option.bind_some] at h
      rw [parsed?, hleft, Option.bind_some]
      exact hold key found h
    · rw [parsed?, hleft, Option.bind_some, hload]
      exact hown

/-- What a unit is stored under was free before. -/
theorem storeResult_keptBy {key : Bytes} (hfree : s.result? key = none) : s.KeptBy (s.storeResult u key) ∧
    (∀ k found, (s.storeResult u key).result? k = some found →
      s.result? k = some found ∨ k = key ∧ u.datapack ≠ none) ∧
    (s.results.isSome = true → u.datapack ≠ none → (s.storeResult u key).result? key ≠ none) := by
  rw [storeResult]
  split
  · rename_i cache pack hcache hpack
    have hput : ∀ k, ({ s with results := some (cache.put key ⟨CachedUnit.currentSchema, u.name,
        u.space.getD .anonymous, some pack, u.bag.items⟩) } : Session).result? k
        = if k = key then some (⟨CachedUnit.currentSchema, u.name, u.space.getD .anonymous, some pack,
          u.bag.items⟩, pack) else s.result? k := by
      intro k
      rw [result?, Option.bind_some, ResultCache.usable?_put, if_pos rfl, result?, hcache]
      rfl
    refine ⟨⟨by rw [hcache]; rfl, rfl, fun k found h => ?_, fun k found h => h⟩, fun k found h => ?_, fun _ _ => ?_⟩
    · have hne : k ≠ key := by
        rintro rfl
        rw [hfree] at h
        cases h
      rw [hput, if_neg hne]
      exact h
    · rw [hput] at h
      split at h
      · rename_i hkey
        exact .inr ⟨hkey, by rw [hpack]; exact Option.some_ne_none _⟩
      · exact .inl h
    · rw [hput, if_pos rfl]
      exact Option.some_ne_none _
  · rename_i hother
    refine ⟨.of_eq rfl rfl, fun k found h => .inl h, fun hsome hpack => ?_⟩
    obtain ⟨cache, hcache⟩ := Option.isSome_iff_exists.mp hsome
    obtain ⟨pack, hpack⟩ := Option.ne_none_iff_exists'.mp hpack
    exact absurd hpack (hother cache pack hcache)

/-- What compiling a unit leaves behind: all that was kept, its file if it was parsed, and its result if it has
a pack. A session that is cancelled stays as it is. -/
structure Leaves (s : Session) (o : BuildOptions) (input : UnitInput) : Prop where
  keeps : s.KeptBy (s.compile o input).1
  result : ∀ key found, (s.compile o input).1.result? key = some found → s.result? key = some found ∨
    key = Digest.ofUnit input.name input.file o ∧ (s.compile o input).2.datapack ≠ none
  stored : s.results.isSome = true → (s.compile o input).2.datapack ≠ none →
    (s.compile o input).2.failure = none →
    (s.compile o input).1.result? (Digest.ofUnit input.name input.file o) ≠ none
  file : s.isCancelled = false → s.parsed.isSome = true →
    s.result? (Digest.ofUnit input.name input.file o) = none →
    (s.compile o input).1.parsed? (Digest.ofParsed input.file) = some (s.loadParsed (.start input o) o).2.1
  cancelled : s.isCancelled = true → (s.compile o input).1.means = s.means

theorem compile_leaves (s : Session) (o : BuildOptions) (input : UnitInput) : s.Leaves o input := by
  cases hfound : s.result? (Digest.ofUnit input.name input.file o) with
  | some found =>
    obtain ⟨unit, pack⟩ := found
    obtain ⟨-, -, -, hmeans⟩ := compile_hit o input hfound
    have hkeeps : s.KeptBy (s.compile o input).1 := .of_means hmeans
    refine ⟨hkeeps, fun key found h => .inl ?_, fun _ _ _ => ?_, fun _ _ hnone => ?_, fun _ => hmeans⟩
    · rw [← result?_of_means hmeans key]
      exact h
    · rw [hkeeps.result _ _ hfound]
      exact Option.some_ne_none _
    · rw [hfound] at hnone
      cases hnone
  | none =>
    obtain ⟨s', hsame, hunit, hleft⟩ := compile_missed o input hfound
    obtain ⟨hrun, hfile⟩ := run_keptBy s' (.start input o) o
    have hstart : s.KeptBy s' := .of_means hsame
    have hresults : (s'.run (.start input o) o).1.results = s.results :=
      (results_run s').trans (congrArg (·.2.1) hsame)
    have hparsed : s'.parsed = s.parsed := congrArg (·.1) hsame
    have hresult : ∀ key, (s'.run (.start input o) o).1.result? key = s.result? key := result?_congr hresults
    have hload : (s'.loadParsed (.start input o) o).2.1 = (s.loadParsed (.start input o) o).2.1 :=
      congrArg Prod.fst (loadParsed_parsed hparsed)
    have hrunning : s.isCancelled = false → s'.isCancelled = false := fun h => (congrArg (·.2.2) hsame).trans h
    obtain ⟨hkeeps, hstores, hstored⟩ := storeResult_keptBy (u := (s'.run (.start input o) o).2)
      ((hresult (Digest.ofUnit input.name input.file o)).trans hfound)
    by_cases hfailure : (s'.run (.start input o) o).2.failure.isSome = true
    · rw [if_pos hfailure] at hleft
      have hafter : (s'.run (.start input o) o).1.KeptBy (s.compile o input).1 := .of_means hleft
      refine ⟨(hstart.trans hrun).trans hafter, fun key found h => .inl ?_, fun _ _ hnone => ?_,
        fun hc hsome _ => hafter.file _ _ ?_, fun hc => ?_⟩
      · rw [← hresult key, ← result?_of_means hleft key]
        exact h
      · rw [hunit] at hnone
        rw [hnone] at hfailure
        cases hfailure
      · rw [← hload]
        exact hfile (hrunning hc) (hparsed ▸ hsome)
      · rw [hleft, run_eq_of_cancelled ((congrArg (·.2.2) hsame).trans hc)]
        exact hsame
    · rw [if_neg hfailure] at hleft
      have hafter : ((s'.run (.start input o) o).1.storeResult (s'.run (.start input o) o).2
        (Digest.ofUnit input.name input.file o)).KeptBy (s.compile o input).1 := .of_means hleft
      have hsaved := result?_of_means hleft
      refine ⟨((hstart.trans hrun).trans hkeeps).trans hafter, fun key found h => ?_, fun hsome hpack _ => ?_,
        fun hc hsome _ => hafter.file _ _ (hkeeps.file _ _ ?_), fun hc => ?_⟩
      · rw [hsaved] at h
        rw [hunit, ← hresult key]
        exact hstores key found h
      · rw [hunit] at hpack
        rw [hsaved]
        exact hstored (hresults ▸ hsome) hpack
      · rw [← hload]
        exact hfile (hrunning hc) (hparsed ▸ hsome)
      · exact absurd (Option.isSome_iff_ne_none.mpr (run_of_cancelled ((congrArg (·.2.2) hsame).trans hc))) hfailure

/-! ## Compiling a unit twice -/

/-- A result that is told again has no tree. -/
theorem headerSpan?_of_hit {found : CachedUnit × Datapack}
    (hfound : s.result? (Digest.ofUnit input.name input.file o) = some found) :
    (s.compile o input).2.headerSpan? = none := by
  have hload : ∃ (s' : Session) (u : CompilationUnit),
      (s.tell (.enter .unit ("unit:" ++ input.name))).loadResult? (.start input o)
        (Digest.ofUnit input.name (CompilationUnit.start input o).file o) = some (s', u) ∧ u.findings = {} := by
    change (s.results.bind fun cache => cache.usable?
      (Digest.ofUnit input.name (CompilationUnit.start input o).file o)) = _ at hfound
    have hresults : (s.tell (.enter .unit ("unit:" ++ input.name))).results = s.results := rfl
    rw [loadResult?, hresults, hfound]
    exact ⟨_, _, rfl, rfl⟩
  obtain ⟨s', u, hload, hfindings⟩ := hload
  rw [compile]
  simp only [hload, CompilationUnit.headerSpan?, hfindings]
  rfl

/-- A unit that is run is the one of its input, with all that is found out about it. -/
theorem run_knows {ds : List Diagnostic} (h : (s.parseStage (.start input o) o).2.Reached o input
      { program := some input.program } none ds) (hc : s.isCancelled = false) :
    (s.run (.start input o) o).2.findings = input.findings o.warnShadow ∧
      (s.run (.start input o) o).2.name = input.name ∧ (s.run (.start input o) o).2.file = input.file := by
  obtain ⟨s', u, hu, hrun⟩ := run_parsed h hc
  rw [if_pos (input.faults_resolution _)] at hrun
  have hgenerated : (s'.generateStage u o).2.findings = u.findings ∧ (s'.generateStage u o).2.name = u.name ∧
      (s'.generateStage u o).2.file = u.file := by
    obtain ⟨note, hv⟩ := generateStage_unit (s := s') (o := o) (u := u)
    rw [hv]
    split <;> exact ⟨rfl, rfl, rfl⟩
  rw [hrun]
  split
  · exact ⟨hu.findings, hu.name, hu.file⟩
  · exact ⟨hgenerated.1.trans hu.findings, hgenerated.2.1.trans hu.name, hgenerated.2.2.trans hu.file⟩

/-- A unit that is run ends as its input says, up to what parsing let through, and has the tree of its file. -/
theorem compile_of_missed {limit : Int} (hc : s.isCancelled = false)
    (hfound : s.result? (Digest.ofUnit input.name input.file o) = none)
    (hload : (s.loadParsed (.start input o) o).2.1 = parseWithin input.file limit) :
    (s.compile o input).2.outcome = input.outcome o (Bag.keep limit.toNat input.file.parse.diagnostics) ∧
      (s.compile o input).2.headerSpan? = input.program.header.map (·.span) ∧
      (s.compile o input).2.name = input.name ∧ (s.compile o input).2.file = input.file := by
  obtain ⟨s', hsame, hunit, -⟩ := compile_missed o input hfound
  have hrunning : s'.isCancelled = false := (congrArg (·.2.2) hsame).trans hc
  have hu := parseStage_within
    ((congrArg Prod.fst (loadParsed_parsed (u := .start input o) (o := o) (congrArg (·.1) hsame))).trans hload)
  obtain ⟨hfindings, hname, hfile⟩ := run_knows hu hrunning
  rw [hunit, CompilationUnit.headerSpan?, hfindings]
  exact ⟨outcome_run hu hrunning, rfl, hname, hfile⟩

theorem compile_of_cancelled (hc : s.isCancelled = true)
    (hfound : s.result? (Digest.ofUnit input.name input.file o) = none) :
    (s.compile o input).2 = { CompilationUnit.start input o with failure := some .cancelled } := by
  obtain ⟨s', hsame, hunit, -⟩ := compile_missed o input hfound
  rw [hunit, run_eq_of_cancelled ((congrArg (·.2.2) hsame).trans hc)]

/-- A call that gives a pack parses its file without reports. -/
theorem parse_eq_nil_of_gives {unit : CachedUnit} {pack : Datapack} (h : (CompileCall.mk o input).Gives unit pack) :
    input.file.parse.diagnostics = [] := by
  have hkeeps : ({} : Session).KeepsNothing := ⟨rfl, rfl⟩
  have hpack : (({} : Session).compile o input).2.datapack = some pack := congrArg (·.2.2.1) h
  have hpacked := compile_packed (o := o) (hkeeps.remembers input) rfl (by rw [hpack]; exact Option.some_ne_none _)
  cases hp : input.file.parse.diagnostics with
  | nil => rfl
  | cons d ds =>
    have hstopped := hpacked.stopped
    have herror : d.isError = true := File.isError_of_mem_parse (hp ▸ List.mem_cons_self)
    rw [UnitInput.isStopped, UnitInput.reports, hp, List.cons_append, List.cons_append, Bag.keep_cons,
      List.any_cons, herror] at hstopped
    cases hstopped

variable {all : List UnitInput}

/-- A unit that has a result ends as its call does. -/
theorem Reliable.resumed (h : s.Reliable o all) (hi : input ∈ all) {unit : CachedUnit} {pack : Datapack}
    (hfound : s.result? (Digest.ofUnit input.name input.file o) = some (unit, pack)) :
    (CompileCall.mk o input).Gives unit pack ∧
      (s.compile o input).2.outcome = input.outcome o input.file.parse.diagnostics ∧
      (s.compile o input).2.datapack = some pack ∧
      (s.compile o input).2.name = input.name ∧ (s.compile o input).2.file = input.file := by
  obtain ⟨cache, hcache, husable⟩ := Option.bind_eq_some_iff.mp hfound
  have hgives := (h.results cache hcache).2 _ (List.mem_map_of_mem hi) unit pack husable
  obtain ⟨houtcome, hname, hfile, -⟩ := compile_of_gives (c := ⟨o, input⟩) hfound hgives
  exact ⟨hgives, houtcome.trans (CompileCall.outcome_eq ⟨o, input⟩), congrArg (·.2.2.1) (houtcome.trans hgives),
    hname, hfile⟩

/-- A unit that is compiled once more, in a session that keeps what the first time left, ends the same. If the
first time was cancelled, no result has come since. -/
theorem resumes_compile (hs : s.Reliable o all) (ht : t.Reliable o all) (hi : input ∈ all)
    (hkept : (s.compile o input).1.KeptBy t) (hresults : s.results.isSome = true)
    (hcancelled : t.isCancelled = s.isCancelled)
    (hcold : s.isCancelled = true → ∀ key found, t.result? key = some found → s.result? key = some found) :
    (s.compile o input).2.Unchecked ∧ (s.compile o input).2.Resumes (t.compile o input).2 := by
  have hleaves := compile_leaves s o input
  cases hfound : s.result? (Digest.ofUnit input.name input.file o) with
  | some found =>
    obtain ⟨-, hu, hpack, hname, hfile⟩ := hs.resumed hi hfound
    have hagain := hkept.result _ _ (hleaves.keeps.result _ _ hfound)
    obtain ⟨-, hv, -, hname', hfile'⟩ := ht.resumed hi hagain
    have hheader := headerSpan?_of_hit hfound
    refine ⟨UnitInput.unchecked (List.Subset.refl _) hu fun span h => ?_, hname'.trans hname.symm, hv.trans hu.symm,
      ⟨by rw [hfile]; rfl, by rw [hfile']; rfl⟩, fun _ => ?_⟩
    · rw [hheader] at h
      cases h
    · rw [headerSpan?_of_hit hagain, hpack]
      rfl
  | none =>
    cases hc : s.isCancelled with
    | true =>
      have hmissed : t.result? (Digest.ofUnit input.name input.file o) = none := by
        by_contra hsome
        obtain ⟨found, hfound'⟩ := Option.ne_none_iff_exists'.mp hsome
        rw [hcold hc _ _ hfound'] at hfound
        cases hfound
      rw [compile_of_cancelled hc hfound, compile_of_cancelled (hcancelled.trans hc) hmissed]
      refine ⟨⟨fun _ h => ?_, fun _ h => ?_, fun h => absurd rfl h, fun _ h => ?_⟩, rfl, rfl, ⟨rfl, rfl⟩, fun h => ?_⟩
      all_goals cases h
    | false =>
      obtain ⟨limit, hload⟩ := loadParsed_of_remembers (hs.remembers input hi) o
      obtain ⟨hu, hheader, hname, hfile⟩ := compile_of_missed hc hfound hload
      have hunchecked : (s.compile o input).2.Unchecked :=
        UnitInput.unchecked (fun d hd => Bag.mem_of_mem_keep hd) hu fun span h => by
          rw [hheader] at h
          obtain ⟨header, hheader, rfl⟩ := Option.map_eq_some_iff.mp h
          exact UnitInput.start_lt_of_header hheader
      cases hagain : t.result? (Digest.ofUnit input.name input.file o) with
      | some found =>
        -- the first time has stored the result
        obtain ⟨hgives, hv, hpack, hname', hfile'⟩ := ht.resumed hi hagain
        rw [parse_eq_nil_of_gives hgives] at hu hv
        have houtcome := hv.trans (hu.trans (by rw [Bag.keep_nil])).symm
        have hpack' : (s.compile o input).2.datapack = some found.2 :=
          (congrArg (·.2.2.1) houtcome).symm.trans hpack
        refine ⟨hunchecked, hname'.trans hname.symm, houtcome, ⟨by rw [hfile]; rfl, by rw [hfile']; rfl⟩, fun _ => ?_⟩
        rw [headerSpan?_of_hit hagain, hpack']
        rfl
      | none =>
        have hsame : (t.loadParsed (.start input o) o).2.1 = (s.loadParsed (.start input o) o).2.1 := by
          rw [loadParsed_eq]
          cases hparsed : s.parsed with
          | none =>
            have hnone : t.parsed = none := by
              rw [← Option.not_isSome_iff_eq_none, hkept.parsed, hleaves.keeps.parsed, hparsed]
              exact Bool.false_ne_true
            rw [loadParsed_eq, parsed?, parsed?, hnone, hparsed]
          | some cache =>
            have hleft := hkept.file _ _ (hleaves.file hc (by rw [hparsed]; rfl) hfound)
            change (t.parsed? (Digest.ofParsed input.file)).getD _ = _
            rw [hleft, Option.getD_some]
        obtain ⟨hv, hheader', hname', hfile'⟩ := compile_of_missed (hcancelled.trans hc) hagain (hsame.trans hload)
        have houtcome := hv.trans hu.symm
        refine ⟨hunchecked, hname'.trans hname.symm, houtcome, ⟨by rw [hfile]; rfl, by rw [hfile']; rfl⟩,
          fun hfailure => ?_⟩
        have hpack : (s.compile o input).2.datapack = none := by
          by_contra hsome
          obtain ⟨found, hstored⟩ := Option.ne_none_iff_exists'.mp (hleaves.stored hresults hsome hfailure)
          rw [hkept.result _ _ hstored] at hagain
          cases hagain
        rw [hpack, hheader, hheader']
        rfl

/-! ## Building twice -/

theorem isCancelled_compile (s : Session) (o : BuildOptions) (input : UnitInput) :
    (s.compile o input).1.isCancelled = s.isCancelled := by
  by_cases hc : s.isCancelled = true
  · exact congrArg (·.2.2) ((compile_leaves s o input).cancelled hc)
  cases hfound : s.result? (Digest.ofUnit input.name input.file o) with
  | some found =>
    obtain ⟨-, -, -, hmeans⟩ := compile_hit o input hfound
    exact congrArg (·.2.2) hmeans
  | none =>
    obtain ⟨s', hsame, -, hleft⟩ := compile_missed o input hfound
    have hrunning : s'.isCancelled = s.isCancelled := congrArg (·.2.2) hsame
    have hrun : (s'.run (.start input o) o).1.isCancelled = s'.isCancelled := by
      refine (congrArg (·.2.2) (means_run (hrunning.trans (Bool.eq_false_iff.mpr hc)))).trans ?_
      rw [loadParsed]
      split <;> rfl
    have hstored : ∀ (s : Session) u key, (s.storeResult u key).isCancelled = s.isCancelled := by
      intro s u key
      rw [storeResult]
      split <;> rfl
    refine (congrArg (·.2.2) hleft).trans ?_
    split
    · exact hrun.trans hrunning
    · exact (hstored _ _ _).trans (hrun.trans hrunning)

/-- The session in which a build goes on after a unit. -/
def after (s : Session) (o : BuildOptions) (input : UnitInput) : Session :=
  { (s.compile o input).1 with
    isCancelled := (s.compile o input).1.isCancelled || (s.compile o input).2.failure.isSome }

theorem compileEach_eq_after (s : Session) (o : BuildOptions) (input : UnitInput) (inputs : List UnitInput) :
    s.compileEach o (input :: inputs) = (((s.after o input).compileEach o inputs).1,
      (s.compile o input).2 :: ((s.after o input).compileEach o inputs).2) := rfl

theorem isCancelled_after (s : Session) (o : BuildOptions) (input : UnitInput) :
    (s.after o input).isCancelled = (s.isCancelled || (s.compile o input).2.failure.isSome) := by
  rw [after, isCancelled_compile]

theorem compile_keptBy_after (s : Session) (o : BuildOptions) (input : UnitInput) :
    (s.compile o input).1.KeptBy (s.after o input) := .of_eq rfl rfl

theorem after_keptBy (s : Session) (o : BuildOptions) (input : UnitInput) : s.KeptBy (s.after o input) :=
  (compile_leaves s o input).keeps.trans (compile_keptBy_after s o input)

theorem means_after (hc : s.isCancelled = true) : (s.after o input).means = s.means := by
  have hmeans := (compile_leaves s o input).cancelled hc
  have hcancelled : (s.after o input).isCancelled = s.isCancelled := by
    rw [isCancelled_after, hc, Bool.true_or]
  exact Prod.ext (congrArg (·.1) hmeans) (Prod.ext (congrArg (·.2.1) hmeans) hcancelled)

theorem compileEach_keptBy (s : Session) (o : BuildOptions) (inputs : List UnitInput) :
    s.KeptBy (s.compileEach o inputs).1 := by
  induction inputs generalizing s with
  | nil => exact .of_eq rfl rfl
  | cons input inputs ih =>
    rw [compileEach_eq_after]
    exact (after_keptBy s o input).trans (ih (s.after o input))

theorem means_compileEach (hc : s.isCancelled = true) : (s.compileEach o inputs).1.means = s.means := by
  induction inputs generalizing s with
  | nil => rfl
  | cons input inputs ih =>
    have hmeans : (s.after o input).means = s.means := means_after hc
    rw [compileEach_eq_after]
    exact (ih ((congrArg (·.2.2) hmeans).trans hc)).trans hmeans

theorem Reliable.after (h : s.Reliable o all) (hi : input ∈ all) : (s.after o input).Reliable o all :=
  (h.compile hi).2.congr rfl rfl

/-- Units are compiled again in a session that keeps what the first time left, and no other results. -/
theorem resumes_compileEach (hsub : ∀ input ∈ inputs, input ∈ all) (hs : s.Reliable o all)
    (ht : t.Reliable o all) (hkept : (s.compileEach o inputs).1.KeptBy t)
    (hback : ∀ key found, t.result? key = some found → (s.compileEach o inputs).1.result? key = some found)
    (hresults : s.results.isSome = true) (hcancelled : t.isCancelled = s.isCancelled) :
    List.Forall₂ (fun u v => u.Unchecked ∧ u.Resumes v) (s.compileEach o inputs).2
      (t.compileEach o inputs).2 := by
  induction inputs generalizing s t with
  | nil => exact .nil
  | cons input inputs ih =>
    have hi : input ∈ all := hsub input List.mem_cons_self
    have hcold (hc : s.isCancelled = true) (key : Bytes) (found : CachedUnit × Datapack)
        (h : t.result? key = some found) : s.result? key = some found :=
      (result?_of_means (means_compileEach hc) key).symm.trans (hback key found h)
    rw [compileEach_eq_after] at hkept hback
    rw [compileEach_eq_after, compileEach_eq_after]
    have hend : (s.compile o input).1.KeptBy ((s.after o input).compileEach o inputs).1 :=
      (compile_keptBy_after s o input).trans (compileEach_keptBy _ o inputs)
    have hunit := resumes_compile hs ht hi (hend.trans hkept) hresults hcancelled hcold
    have hfailure : (t.compile o input).2.failure = (s.compile o input).2.failure :=
      congrArg (·.2.2.2) hunit.2.outcome
    have hpack : (t.compile o input).2.datapack = (s.compile o input).2.datapack :=
      congrArg (·.2.2.1) hunit.2.outcome
    refine .cons hunit (ih (fun x hx => hsub x (List.mem_cons_of_mem _ hx)) (hs.after hi) (ht.after hi)
      (hkept.trans (after_keptBy t o input)) (fun key found h => ?_)
      ((after_keptBy s o input).results.trans hresults) ?_)
    · rcases (compile_leaves t o input).result key found h with h' | ⟨rfl, hsome⟩
      · exact hback key found h'
      · -- the first time has stored this result already
        rw [hpack] at hsome
        obtain ⟨kept, hstored⟩ := Option.ne_none_iff_exists'.mp
          ((compile_leaves s o input).stored hresults hsome ((hs.compile hi).1 hsome).failure)
        have hlast := hend.result _ _ hstored
        have hagain := (after_keptBy t o input).result _ _ (hkept.result _ _ hlast)
        rw [hagain] at h
        rw [← h]
        exact hlast
    · rw [isCancelled_after, isCancelled_after, hcancelled, hfailure]

theorem Reliable.compileEach (h : s.Reliable o all) (hsub : ∀ input ∈ inputs, input ∈ all) :
    (s.compileEach o inputs).1.Reliable o all := by
  induction inputs generalizing s with
  | nil => exact h
  | cons input inputs ih =>
    rw [compileEach_eq_after]
    exact ih (h.after (hsub input List.mem_cons_self)) fun x hx => hsub x (List.mem_cons_of_mem _ hx)

/-- A build compiles its units in a session that means what its own does, and leaves what these have left. -/
theorem compileAll_eq (s : Session) (o : BuildOptions) (inputs : List UnitInput) :
    ∃ q : Session, q.means = s.means ∧
      (s.compileAll o inputs).2 = checkSpaces [] (q.compileEach (o.forUnits inputs) inputs).2 ∧
      (s.compileAll o inputs).1.means = ((q.compileEach (o.forUnits inputs) inputs).1.parsed,
        (q.compileEach (o.forUnits inputs) inputs).1.results, s.isCancelled) := by
  refine ⟨_, ?_, rfl, rfl⟩
  have hqueued : ∀ (us : List UnitInput) (s : Session),
      (us.foldl (fun s input => s.announce ⟨input.name, none, .queued, none⟩) s).means = s.means := by
    intro us
    induction us with
    | nil => exact fun s => rfl
    | cons u us ih => exact fun s => ih _
  exact hqueued inputs _

/-- A build with a cache of results and the same build once more, in the session that the first one has left:
every unit ends the same, and the same is reported about it, but for the place where it is told that its
namespace is taken. A unit about which no other error is reported was told so at its header, and is told so at
the start of its file. -/
theorem rebuilt_compileAll (h : s.Reliable (o.forUnits inputs) inputs) (hresults : s.results ≠ none) :
    List.Forall₂ Rebuilt (s.compileAll o inputs).2 ((s.compileAll o inputs).1.compileAll o inputs).2 := by
  obtain ⟨q, hq, hunits, hleft⟩ := compileAll_eq s o inputs
  obtain ⟨q', hq', hunits', -⟩ := compileAll_eq (s.compileAll o inputs).1 o inputs
  have hsame := hq'.trans hleft
  have hreliable : q.Reliable (o.forUnits inputs) inputs := h.of_means hq
  have hresults' : q'.results = (q.compileEach (o.forUnits inputs) inputs).1.results := congrArg (·.2.1) hsame
  have hparsed' : q'.parsed = (q.compileEach (o.forUnits inputs) inputs).1.parsed := congrArg (·.1) hsame
  have hcancelled : q'.isCancelled = q.isCancelled :=
    (congrArg (·.2.2) hsame).trans (congrArg (·.2.2) hq).symm
  have hstores : q.results.isSome = true := by
    rw [show q.results = s.results from congrArg (·.2.1) hq]
    exact Option.isSome_iff_ne_none.mpr hresults
  rw [hunits, hunits']
  exact rebuilt_checkSpaces (resumes_compileEach (fun _ hx => hx) hreliable
    ((hreliable.compileEach fun _ hx => hx).congr hparsed' hresults') (.of_eq hparsed' hresults')
    (fun key found hfound => (result?_congr hresults' key).symm.trans hfound) hstores hcancelled) []

end Session

namespace UnitInput

/-- A unit in the namespace `demo`. -/
def demo (name : Bytes) : UnitInput := ⟨name, "namespace demo\nx = 1\n"⟩

theorem parse_demo (name : Bytes) : (demo name).file.parse = (demo []).file.parse := File.parse_congr rfl rfl

/-- Nothing is reported about the unit, whatever it is called. -/
theorem clean_demo (name : Bytes) : (demo name).reports false = [] ∧ ((demo name).emission false).unjoinable = [] ∧
    (demo name).file.parse.diagnostics = [] ∧
    (demo name).program.header = some ⟨["demo"], ⟨0, 10, 14⟩⟩ := by
  have hprogram : (demo name).program = (demo []).program := congrArg ParsedFile.program (parse_demo name)
  obtain ⟨hsilent, hrest⟩ : (demo []).IsSilent false ∧ ((demo []).emission false).unjoinable = [] ∧
      (demo []).program.header = some ⟨["demo"], ⟨0, 10, 14⟩⟩ := by decide +kernel
  rw [reports, emission, typing, resolution, hprogram, parse_demo]
  exact ⟨hsilent.reports, hrest.1, File.parse_silent hsilent.1.1 hsilent.1.2, hrest.2⟩

/-- The unit ends with a pack and without reports. -/
theorem outcome_demo (name : Bytes) : ∃ pack, (demo name).outcome {} (demo name).file.parse.diagnostics
    = (some ((demo []).space []), ⟨0, []⟩, some pack, none) := by
  obtain ⟨hreports, hjoinable, -, -⟩ := clean_demo name
  have hkeeps : ({} : Session).KeepsNothing := ⟨rfl, rfl⟩
  have haccepted : (demo name).IsAccepted false := fun d hd => by
    rw [hreports] at hd
    cases hd
  have hpack := Session.compile_pack (o := {}) hkeeps rfl haccepted hjoinable
  have hpacked := Session.compile_packed (o := {}) (hkeeps.remembers (demo name)) rfl
    (by rw [hpack]; exact Option.some_ne_none _)
  have hjudged := Session.compile_judged hkeeps hpacked.failure
  have hspace : (demo name).space [] = (demo []).space [] := by
    rw [space, show (demo name).program = (demo []).program from congrArg ParsedFile.program (parse_demo name)]
    rw [space, (clean_demo []).2.2.2]
  have hbag : (({} : Session).compile {} (demo name)).2.bag = ⟨0, []⟩ := by
    have hitems := hjudged.bag
    rw [given, hpacked.stopped, if_neg Bool.false_ne_true, hreports, hjoinable, Bag.Received, List.append_nil,
      Bag.keep_nil] at hitems
    rw [show (({} : Session).compile {} (demo name)).2.bag
      = ⟨(({} : Session).compile {} (demo name)).2.bag.limit, (({} : Session).compile {} (demo name)).2.bag.items⟩
      from rfl, hitems, hjudged.limit]
    rfl
  refine ⟨(demo name).pack {}, (CompileCall.outcome_eq ⟨{}, demo name⟩).symm.trans ?_⟩
  rw [CompileCall.outcome, CompilationUnit.outcome, hbag, hpack, hpacked.space, hpacked.failure, ← hspace]

/-- Two units in one namespace. -/
def demos : List UnitInput := [demo "a.craft", demo "b.craft"]

theorem key_demos : (CompileCall.mk {} (demo "a.craft")).key ≠ (CompileCall.mk {} (demo "b.craft")).key := by
  decide +kernel

/-- The two units differ in their names only. -/
theorem separate_demos : CompileCall.Separate (demos.map (CompileCall.mk {})) := by
  have hcontent : ∀ c ∈ demos.map (CompileCall.mk {}), c.content = (demo []).file.content := by
    intro c hc
    rcases List.mem_pair.mp hc with rfl | rfl <;> rfl
  refine ⟨fun c hc => ?_, fun a ha b hb _ => ?_, fun a ha b hb hab => ?_⟩
  · rcases List.mem_pair.mp hc with rfl | rfl <;> exact ⟨by decide, by decide, by decide, by decide, by decide⟩
  · obtain ⟨c, hc, rfl⟩ := List.mem_map.mp ha
    obtain ⟨d, hd, rfl⟩ := List.mem_map.mp hb
    rw [hcontent c hc, hcontent d hd]
  · rcases List.mem_pair.mp ha with rfl | rfl <;> rcases List.mem_pair.mp hb with rfl | rfl
    · rfl
    · exact absurd hab key_demos
    · exact absurd hab.symm key_demos
    · rfl

end UnitInput

namespace Session

open UnitInput (demo demos)

/-- The unit is compiled where nothing is kept of it. -/
theorem compile_demo {s : Session} (name : Bytes) (hc : s.isCancelled = false) (hp : s.parsed = none)
    (hfound : s.result? (CompileCall.mk {} (demo name)).key = none) :
    (s.compile {} (demo name)).2.Unchecked ∧ (s.compile {} (demo name)).2.failure = none ∧
      (s.compile {} (demo name)).2.space = some ((demo []).space []) ∧
      (s.compile {} (demo name)).2.bag = ⟨0, []⟩ ∧ (s.compile {} (demo name)).2.datapack ≠ none ∧
      (s.compile {} (demo name)).2.headerSpan? = some ⟨0, 10, 14⟩ := by
  obtain ⟨hreports, hjoinable, hparse, hheader⟩ := UnitInput.clean_demo name
  have hload : (s.loadParsed (.start (demo name) {}) {}).2.1 = parseWithin (demo name).file 0 :=
    reads_of_parsed {} (demo name) hp
  obtain ⟨hrun, hspan, -, -⟩ := compile_of_missed hc hfound hload
  have hu : (s.compile {} (demo name)).2.outcome = (demo name).outcome {} (demo name).file.parse.diagnostics :=
    hrun.trans (congrArg _ (Bag.keep_of_length_le (.inl rfl)))
  obtain ⟨pack, houtcome⟩ := UnitInput.outcome_demo name
  have hspan' : (s.compile {} (demo name)).2.headerSpan? = some ⟨0, 10, 14⟩ := by
    rw [hspan, hheader]
    rfl
  refine ⟨UnitInput.unchecked (List.Subset.refl _) hu fun span h => ?_, ?_⟩
  · rw [hspan'] at h
    cases h
    exact of_decide_eq_true rfl
  · have hall := hu.trans houtcome
    exact ⟨congrArg (·.2.2.2) hall, congrArg (·.1) hall, congrArg (·.2.1) hall,
      fun hnone => Option.some_ne_none pack ((congrArg (·.2.2.1) hall).symm.trans hnone), hspan'⟩

/-- Two units have one namespace. The first build tells the second of them so at its header, and the next build
at the start of its file. -/
theorem rebuilt_demos : caching.Reliable (BuildOptions.forUnits {} demos) demos ∧ caching.results ≠ none ∧
    ∃ u v, (caching.compileAll {} demos).2[1]? = some u ∧
      ((caching.compileAll {} demos).1.compileAll {} demos).2[1]? = some v ∧ u.Rebuilt v ∧
      u.bag.items.map (·.span) = [⟨0, 10, 14⟩] ∧ v.bag.items.map (·.span) = [⟨0, 0, 0⟩] := by
  have hreplays : caching.Replays [] := ⟨{}, rfl, fun _ _ _ h => by cases h⟩
  have hreliable : caching.Reliable (BuildOptions.forUnits {} demos) demos :=
    hreplays.reliable UnitInput.separate_demos
  have hresults : caching.results ≠ none := Option.some_ne_none _
  have hrebuilt := rebuilt_compileAll hreliable hresults
  obtain ⟨q, hq, hunits, -⟩ := compileAll_eq caching {} demos
  have hrunning : q.isCancelled = false := congrArg (·.2.2) hq
  have hparsed : q.parsed = none := congrArg (·.1) hq
  have hempty : ∀ key, q.result? key = none := result?_of_means hq
  obtain ⟨-, hfailure, hspace, -, -, -⟩ := compile_demo "a.craft" hrunning hparsed (hempty _)
  have hrunning' : (q.after {} (demo "a.craft")).isCancelled = false := by
    rw [isCancelled_after, hrunning, hfailure]
    rfl
  have hparsed' : (q.after {} (demo "a.craft")).parsed = none := by
    rw [← Option.not_isSome_iff_eq_none, (after_keptBy q {} _).parsed, hparsed]
    exact Bool.false_ne_true
  have hempty' : (q.after {} (demo "a.craft")).result? (CompileCall.mk {} (demo "b.craft")).key = none := by
    by_contra hsome
    obtain ⟨found, hfound⟩ := Option.ne_none_iff_exists'.mp hsome
    rcases (compile_leaves q {} (demo "a.craft")).result _ found hfound with hfound | ⟨hkey, -⟩
    · rw [hempty] at hfound
      cases hfound
    · exact UnitInput.key_demos hkey.symm
  obtain ⟨hunchecked, hfailure', hspace', hbag', hpack', hspan'⟩ :=
    compile_demo "b.craft" hrunning' hparsed' hempty'
  have hfirst : (caching.compileAll {} demos).2[1]? = some (((q.after {} (demo "a.craft")).compile {}
      (demo "b.craft")).2.taken ((demo []).space []).render (q.compile {} (demo "a.craft")).2.name) := by
    change _ = checkSpaces [] [(q.compile {} (demo "a.craft")).2,
      ((q.after {} (demo "a.craft")).compile {} (demo "b.craft")).2] at hunits
    rw [hunits]
    simp only [checkSpaces, hfailure, hspace, hfailure', hspace', List.lookup_nil, List.nil_append,
      List.lookup_cons, beq_self_eq_true]
    rfl
  obtain ⟨v, hv, huv⟩ : ∃ v, ((caching.compileAll {} demos).1.compileAll {} demos).2[1]? = some v ∧
      Rebuilt (((q.after {} (demo "a.craft")).compile {} (demo "b.craft")).2.taken
        ((demo []).space []).render (q.compile {} (demo "a.craft")).2.name) v := by
    obtain ⟨hi, hlast⟩ := List.getElem?_eq_some_iff.mp hfirst
    have hi' := Nat.lt_of_lt_of_eq hi hrebuilt.length_eq
    refine ⟨_, List.getElem?_eq_getElem hi', ?_⟩
    rw [← hlast]
    exact hrebuilt.get hi hi'
  have hroom : ((q.after {} (demo "a.craft")).compile {} (demo "b.craft")).2.bag.isFull = false := by
    rw [hbag']
    rfl
  have hitems : (((q.after {} (demo "a.craft")).compile {} (demo "b.craft")).2.taken
      ((demo []).space []).render (q.compile {} (demo "a.craft")).2.name).bag.items = _ :=
    CompilationUnit.items_taken hroom
  have honly : (((q.after {} (demo "a.craft")).compile {} (demo "b.craft")).2.taken
      ((demo []).space []).render (q.compile {} (demo "a.craft")).2.name).OnlyTaken :=
    (hunchecked.onlyTaken_iff hfailure').mpr ⟨hroom, by rw [hspan']; exact Option.some_ne_none _, hpack'⟩
  refine ⟨hreliable, hresults, _, v, hfirst, hv, huv, ?_, ?_⟩
  · rw [hitems, hbag', CompilationUnit.duplicateSpace_eq, hspan']
    rfl
  · rw [(huv.moved honly).1, hitems, hbag']
    rfl

end Session

end Craftlang
