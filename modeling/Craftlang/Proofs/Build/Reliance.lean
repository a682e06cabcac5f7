import Craftlang.Proofs.Build.Replay

/-!
# Sessions that a build can rely on

A build may take over a session in which other calls have left parsed files and results. It can rely on
the session if what is kept of its units is what the units give, and its keys tell its units apart. Calls
leave such sessions behind, and compiling the units of the build keeps the session reliable. So every unit
that ends with a pack has the pack that its input says.
-/

namespace Craftlang

namespace Session

open CompilationUnit (Packed)

/-- The build can rely on what the session keeps: of its files on how they were parsed, and of its units on
what they give. -/
structure Reliable (o : BuildOptions) (inputs : List UnitInput) (s : Session) : Prop where
  separates : s.parsed ≠ none → Sha256.Separates ((inputs.map (Request.compile o)).map Request.content) ∧
    Sha256.Separates ((inputs.map (Request.compile o)).map Request.keyed)
  remembers : ∀ input ∈ inputs, s.Remembers input
  results : ∀ cache, s.results = some cache → CompileCall.Separate (inputs.map (CompileCall.mk o)) ∧
    cache.IsTrue (inputs.map (CompileCall.mk o))

variable {s s' : Session} {o : BuildOptions} {input : UnitInput} {inputs : List UnitInput}

theorem Reliable.congr (h : s.Reliable o inputs) (hp : s'.parsed = s.parsed) (hr : s'.results = s.results) :
    s'.Reliable o inputs :=
  ⟨hp ▸ h.separates, fun input hi cache hcache => h.remembers input hi cache (hp ▸ hcache),
    fun cache hcache => h.results cache (hr ▸ hcache)⟩

theorem Reliable.of_means (h : s.Reliable o inputs) (hmeans : s'.means = s.means) : s'.Reliable o inputs :=
  h.congr (congrArg (·.1) hmeans) (congrArg (·.2.1) hmeans)

theorem KeepsNothing.reliable (hk : s.KeepsNothing) (o : BuildOptions) (inputs : List UnitInput) :
    s.Reliable o inputs :=
  ⟨fun hp => absurd hk.1 hp, fun input _ => hk.remembers input, fun cache hcache => by
    rw [hk.2] at hcache
    cases hcache⟩

/-- A session without results is reliable for a unit that it remembers. -/
theorem Remembers.reliable (h : s.Remembers input) (hr : s.results = none) : s.Reliable o [input] := by
  refine ⟨fun _ => ⟨?_, ?_⟩, List.forall_mem_singleton.mpr h, fun cache hcache => by rw [hr] at hcache; cases hcache⟩
  all_goals
    rintro _ hx _ hy -
    exact (List.mem_singleton.mp hx).trans (List.mem_singleton.mp hy).symm

/-- A build can rely on what other calls have left, if they can be told apart from its own. -/
theorem Replays.reliable {calls : List CompileCall} (h : s.Replays calls)
    (hcalls : CompileCall.Separate (calls ++ inputs.map (CompileCall.mk o))) : s.Reliable o inputs := by
  obtain ⟨cache, hmeans, hrecalls⟩ := h
  have hparsed : s.parsed = none := congrArg Prod.fst hmeans
  refine ⟨fun hp => absurd hparsed hp, fun input _ kept hkept => ?_, fun kept hkept => ?_⟩
  · rw [hparsed] at hkept
    cases hkept
  · cases hkept.symm.trans (congrArg (·.2.1) hmeans)
    exact ⟨hcalls.mono (List.subset_append_right _ _), hrecalls.isTrue hcalls⟩

/-- A file is kept as it was parsed by a call with its content. -/
theorem remembers_of_content {r : Request} {parsed : ParsedFile} (h : r.content = input.file.content)
    (hparsed : parsed = r.parsed) : ∃ limit, parsed = parseWithin input.file limit := by
  have hfile : r.input.file.parse = input.file.parse := File.parse_congr rfl h
  refine ⟨r.options.limit, hparsed.trans ?_⟩
  rw [Request.parsed, parseWithin_eq, parseWithin_eq, hfile]

/-- A build can rely on the files that other calls have left. -/
theorem Keeps.reliable {before : List Request} (h : s.Keeps before)
    (hcontents : Sha256.Separates ((before ++ inputs.map (Request.compile o)).map Request.content))
    (hkeys : Sha256.Separates ((before ++ inputs.map (Request.compile o)).map Request.keyed)) :
    s.Reliable o inputs := by
  obtain ⟨cache, hmeans, hentries⟩ := h
  have hsub (f : Request → Bytes) : (inputs.map (Request.compile o)).map f
      ⊆ (before ++ inputs.map (Request.compile o)).map f := List.map_subset f (List.subset_append_right _ _)
  refine ⟨fun _ => ⟨hcontents.mono (hsub _), hkeys.mono (hsub _)⟩,
    fun input hi kept hkept parsed hlookup => ?_, fun kept hkept => ?_⟩
  · cases hkept.symm.trans (congrArg Prod.fst hmeans)
    rw [hentries, Option.map_eq_some_iff] at hlookup
    obtain ⟨r, hr, rfl⟩ := hlookup
    have hkey : r.key = Digest.ofParsed input.file := by simpa using List.find?_some hr
    exact remembers_of_content (Request.content_of_key hcontents hkeys
      (List.mem_append_left _ (List.mem_of_find?_eq_some hr))
      (List.mem_append_right _ (List.mem_map_of_mem hi)) hkey) rfl
  · cases hkept.symm.trans (congrArg (·.2.1) hmeans)

/-- A unit with a pack that ends as it does in a session that keeps nothing. -/
theorem packed_of_outcome {u : CompilationUnit} (hu : u.outcome = (CompileCall.mk o input).outcome)
    (hn : u.name = input.name) (hd : u.datapack ≠ none) : u.Packed o input := by
  have hkeeps : ({} : Session).KeepsNothing := ⟨rfl, rfl⟩
  have hpack : u.datapack = (({} : Session).compile o input).2.datapack := congrArg (·.2.2.1) hu
  have halone := compile_packed (o := o) (hkeeps.remembers input) rfl (hpack ▸ hd)
  have hspace : u.space = (({} : Session).compile o input).2.space := congrArg (·.1) hu
  have hfailure : u.failure = (({} : Session).compile o input).2.failure := congrArg (·.2.2.2) hu
  exact ⟨hfailure.trans halone.failure, hn, hspace.trans halone.space, hpack.trans halone.datapack,
    halone.stopped, halone.joinable⟩

namespace Reliable

/-- A unit is run: if its file was not kept, it is kept as it is parsed now. -/
theorem run (h : s.Reliable o inputs) (hi : input ∈ inputs) :
    (s.run (.start input o) o).1.Reliable o inputs := by
  by_cases hc : s.isCancelled = true
  · rw [Session.run, if_pos hc]
    exact h
  have hparsed : (s.run (.start input o) o).1.parsed = (s.loadParsed (.start input o) o).1.parsed :=
    congrArg Prod.fst (means_run (Bool.eq_false_iff.mpr hc))
  have hresults : (s.run (.start input o) o).1.results = s.results := results_run s
  cases hcache : s.parsed with
  | none =>
    rw [Session.loadParsed, hcache] at hparsed
    exact h.congr hparsed hresults
  | some cache =>
    obtain ⟨hcontents, hkeys⟩ := h.separates (by rw [hcache]; exact Option.some_ne_none _)
    have hload : (s.run (.start input o) o).1.parsed = some (cache.load (Digest.ofParsed input.file) fun _ =>
        parseWithin input.file o.limit).1 := by
      rw [hparsed, Session.loadParsed, hcache]
      rfl
    refine ⟨fun _ => ⟨hcontents, hkeys⟩, fun other hother kept hkept parsed hlookup => ?_,
      fun kept hkept => h.results kept (hresults ▸ hkept)⟩
    cases hkept.symm.trans hload
    rw [ParseCache.load] at hlookup
    split at hlookup
    · exact h.remembers other hother cache hcache parsed hlookup
    · rw [List.lookup_append] at hlookup
      cases hold : cache.entries.lookup (Digest.ofParsed other.file) with
      | some old =>
        rw [hold] at hlookup
        exact h.remembers other hother cache hcache parsed (hold.trans hlookup)
      | none =>
        rw [hold, Option.none_or, List.lookup_cons] at hlookup
        split at hlookup
        · rename_i hkey
          have hsame : (Request.compile o input).content = (Request.compile o other).content :=
            Request.content_of_key hcontents hkeys (List.mem_map_of_mem hi) (List.mem_map_of_mem hother)
              (beq_iff_eq.mp hkey).symm
          exact remembers_of_content hsame (Option.some.inj hlookup).symm
        · cases hlookup

/-- A result of one of the units is kept. -/
theorem put (h : s.Reliable o inputs) (hi : input ∈ inputs) {cache : ResultCache}
    (hs : s.results = some cache) {unit : CachedUnit} {pack : Datapack} (hpack : unit.datapack = some pack)
    (hgives : (CompileCall.mk o input).Gives unit pack) (hp : s'.parsed = s.parsed)
    (hr : s'.results = some (cache.put (CompileCall.mk o input).key unit)) : s'.Reliable o inputs := by
  obtain ⟨hcalls, htrue⟩ := h.results cache hs
  refine ⟨hp ▸ h.separates, fun input hi cache hcache => h.remembers input hi cache (hp ▸ hcache),
    fun kept hkept => ?_⟩
  cases hkept.symm.trans hr
  exact ⟨hcalls, htrue.put hcalls (List.mem_map_of_mem hi) hpack hgives⟩

/-- A unit of the build ends as its input says, if its file is known as it would be parsed now. -/
theorem outcome_compile (h : s.Reliable o inputs) (hi : input ∈ inputs) (hreads : s.Reads o input)
    (hc : s.isCancelled = false) :
    (s.compile o input).2.outcome = input.outcome o input.file.parse.diagnostics := by
  cases hfound : s.results.bind fun cache => cache.usable? (CompileCall.mk o input).key with
  | some found =>
    obtain ⟨unit, pack⟩ := found
    obtain ⟨cache, hcache, husable⟩ := Option.bind_eq_some_iff.mp hfound
    have hgives := (h.results cache hcache).2 _ (List.mem_map_of_mem hi) unit pack husable
    exact (compile_of_gives hfound hgives).1.trans (CompileCall.outcome_eq _)
  | none =>
    obtain ⟨s', hsame, hunit, -⟩ := compile_missed o input hfound
    rw [hunit]
    exact outcome_run (parseStage_reached (hreads.congr (congrArg Prod.fst hsame)))
      ((congrArg (·.2.2) hsame).trans hc)

/-- A unit of the build that ends with a pack ends as its input says, and the build can go on relying on
the session. -/
theorem compile (h : s.Reliable o inputs) (hi : input ∈ inputs) :
    ((s.compile o input).2.datapack ≠ none → (s.compile o input).2.Packed o input) ∧
      (s.compile o input).1.Reliable o inputs := by
  cases hfound : s.results.bind fun cache => cache.usable? (CompileCall.mk o input).key with
  | some found =>
    obtain ⟨unit, pack⟩ := found
    obtain ⟨cache, hcache, husable⟩ := Option.bind_eq_some_iff.mp hfound
    obtain ⟨houtcome, hname, -, hmeans⟩ := compile_of_gives hfound
      ((h.results cache hcache).2 _ (List.mem_map_of_mem hi) unit pack husable)
    exact ⟨packed_of_outcome houtcome hname, h.of_means hmeans⟩
  | none =>
    obtain ⟨s', hsame, hunit, hleft⟩ := compile_missed o input hfound
    have h' : s'.Reliable o inputs := h.of_means hsame
    have hrun := h'.run hi
    have houtcome (hd : (s'.run (.start input o) o).2.datapack ≠ none) :
        (s'.run (.start input o) o).2.outcome = (CompileCall.mk o input).outcome := by
      obtain ⟨hreads, hrunning⟩ := reads_of_packed (h'.remembers input hi) hd
      exact (outcome_run (parseStage_reached hreads) hrunning).trans (CompileCall.outcome_eq ⟨o, input⟩).symm
    rw [hunit]
    refine ⟨run_packed_of_remembers (h'.remembers input hi), ?_⟩
    cases hresults : (s'.run (.start input o) o).1.results with
    | none =>
      have hkept : (s.compile o input).1.means = (s'.run (.start input o) o).1.means := by
        rw [hleft]
        split
        · rfl
        · rw [storeResult, hresults]
      exact hrun.of_means hkept
    | some cache =>
      rcases kept_of_outcome hresults houtcome with hkept | ⟨unit, pack, hpack, hgives, hkept⟩
      · exact hrun.of_means (hleft.trans hkept)
      · have hsame := hleft.trans hkept
        exact hrun.put hi hresults hpack hgives (congrArg (·.1) hsame) (congrArg (·.2.1) hsame)

end Reliable

/-- The units of a build that relies on the session have the packs that their inputs say. -/
theorem packs_reliable (o : BuildOptions) (inputs : List UnitInput) : Packs (Reliable o inputs) o inputs where
  session := fun _ h _ hi _ => (h.compile hi).2.congr rfl rfl
  unit := fun _ h _ hi => (h.compile hi).1

/-- Every unit of a build that ends with a pack is the one of an input, and ends as it says. -/
theorem Reliable.compileAll_packed (h : s.Reliable (o.forUnits inputs) inputs) {i : Nat} {u : CompilationUnit}
    (hu : (s.compileAll o inputs).2[i]? = some u) (hd : u.datapack ≠ none) :
    ∃ input, inputs[i]? = some input ∧ u.Packed (o.forUnits inputs) input :=
  Session.compileAll_packed (packs_reliable _ _) (fun _ => h.of_means) hu hd

end Session

end Craftlang
