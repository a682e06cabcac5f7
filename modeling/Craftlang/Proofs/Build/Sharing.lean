import Mathlib.Data.List.Find
import Craftlang.Proofs.Build.Generation
import Craftlang.Proofs.Scope.Lexical

/-!
# Units that share parsed files

Calls that share a cache of parsed files give what they give without one, but for one thing: a file is
kept with the diagnostics that the limit of its first call let through, and is known by its content
alone. So a later call with a higher limit, or with none, shows too few. The main statement says of
every history of calls when that happens, and that nothing else ever differs.
-/

namespace Craftlang

namespace Bag

/-- What a limit lets through has the same members up to the limit. -/
theorem getElem?_keep {n i : Nat} (h : n = 0 ∨ i < n) (ds : List Diagnostic) :
    (keep n ds)[i]? = ds[i]? := by
  rw [keep]
  split
  · rfl
  · exact List.getElem?_take_of_lt (h.resolve_left ‹_›)

theorem keep_of_length_le {n : Nat} {ds : List Diagnostic} (h : n = 0 ∨ ds.length ≤ n) :
    keep n ds = ds := by
  rw [keep]
  split
  · rfl
  · exact List.take_of_length_le (h.resolve_left ‹_›)

/-- Diagnostics that were cut by one limit and go on with others pass for the whole under another
limit, unless it is the higher one. -/
theorem keep_cut_iff {l n : Nat} {ds es : List Diagnostic} (h : ∀ d ∈ ds, d ∉ es) :
    keep n (keep l ds ++ es) = keep n (ds ++ es) ↔
      ¬ (0 < l ∧ l < ds.length ∧ (n = 0 ∨ l < n)) := by
  by_cases hl : l = 0 ∨ ds.length ≤ l
  · rw [keep_of_length_le hl]
    exact ⟨fun _ hcut => by omega, fun _ => rfl⟩
  · have hpos : 0 < l := by omega
    have hlen : (ds.take l).length = l := by
      rw [List.length_take]
      omega
    rw [keep_of_pos hpos]
    by_cases hn : n = 0 ∨ l < n
    · -- the first diagnostic that was cut off stands in the one list and not in the other
      refine ⟨fun heq => ?_, fun hno => absurd ⟨hpos, by omega, hn⟩ hno⟩
      have hat := congrArg (fun xs => xs[l]?) heq
      simp only [getElem?_keep hn] at hat
      have hd : l < ds.length := by omega
      rw [List.getElem?_append_right (Nat.le_of_eq hlen), hlen, Nat.sub_self,
        List.getElem?_append_left hd, List.getElem?_eq_getElem hd] at hat
      exact absurd (List.mem_of_getElem? hat) (h _ (List.getElem_mem hd))
    · refine ⟨fun _ hcut => hn hcut.2.2, fun _ => ?_⟩
      have hnpos : 0 < n := by omega
      rw [keep_append_of_le hnpos (by omega), keep_append_of_le hnpos (by omega),
        keep_of_pos hnpos, keep_of_pos hnpos, List.take_take, Nat.min_eq_left (by omega)]

/-- A limit lets the first diagnostic through. -/
theorem keep_cons (n : Nat) (d : Diagnostic) (ds : List Diagnostic) :
    keep n (d :: ds) = d :: if n = 0 then ds else ds.take (n - 1) := by
  rw [keep]
  split
  · rfl
  · rw [List.take_cons (by omega)]

end Bag

/-- Parsing does not look at the name of a file. -/
theorem File.parse_congr {f g : File} (hid : f.id = g.id) (hcontent : f.content = g.content) :
    f.parse = g.parse := by
  obtain ⟨id, path, content, flags⟩ := f
  obtain ⟨id', path', content', flags'⟩ := g
  cases hid
  cases hcontent
  rfl

theorem File.not_isSemantic_of_mem_parse {file : File} {d : Diagnostic}
    (hd : d ∈ file.parse.diagnostics) : d.isSemantic = false := by
  rcases reported_of_mem_parse hd with ⟨problem, span, rfl⟩ | ⟨problem, span, rfl⟩
  · cases problem <;> rfl
  · cases problem with
    | expected what got => cases what <;> rfl
    | unexpectedIndent => rfl
    | badAssignmentTarget => rfl
    | lateNamespace => rfl

theorem Program.isOfTypes_of_mem_typed {p : Program} {r : Resolution} {d : Diagnostic}
    (hd : d ∈ (p.typed r).diagnostics) : d.IsOfTypes := by
  rcases (Typing.extends_items _ _ p.items).reports d hd with hd | hd
  · rcases Typing.reports_declareFunctions _ _ p.functions d hd with hd | hd
    · rw [Typing.start] at hd
      split at hd <;> cases hd
    · exact hd
  · exact hd

theorem UnitInput.faults_resolution (input : UnitInput) (shadow : Bool) :
    (input.resolution shadow).table.faults = [] := Program.resolve_faults _ _

/-- The digest tells some texts apart. -/
def Sha256.Separates (texts : List Bytes) : Prop :=
  ∀ a ∈ texts, ∀ b ∈ texts, digest a = digest b → a = b

theorem Sha256.Separates.mono {texts texts' : List Bytes} (h : Separates texts') (hsub : texts ⊆ texts') :
    Separates texts :=
  fun a ha b hb => h a (hsub ha) b (hsub hb)

/-- A call that works on a unit: it is compiled, or only parsed. -/
inductive Request where
  | compile (o : BuildOptions) (input : UnitInput)
  | parse (o : BuildOptions) (input : UnitInput)

namespace Request

def options : Request → BuildOptions
  | compile o _ | parse o _ => o

def input : Request → UnitInput
  | compile _ input | parse _ input => input

/-- How many diagnostics the call lets through; zero for all. -/
def limit (r : Request) : Nat := r.options.limit.toNat

/-- The text that is parsed. -/
def content (r : Request) : Bytes := r.input.file.content

/-- The text whose digest the parsed file is known by. -/
def keyed (r : Request) : Bytes :=
  [Bytes.ofString "ast", r.input.file.digest].flatMap fun part => Packed.word part.length ++ part

/-- What the parsed file is known by. -/
def key (r : Request) : Bytes := Digest.ofParsed r.input.file

/-- The file as this call parses it. -/
def parsed (r : Request) : ParsedFile := Session.parseWithin r.input.file r.options.limit

/-- What parsing the file reports. -/
def faults (r : Request) : List Diagnostic := r.input.file.parse.diagnostics

/-- The first call with the same content. -/
def first (before : List Request) (r : Request) : Request :=
  (before.find? fun q => q.content == r.content).getD r

/-- Did the first call with the same content let through less of what parsing reports than this call
would? -/
def isStarved (before : List Request) (r : Request) : Bool :=
  0 < (r.first before).limit && (r.first before).limit < r.faults.length &&
    (r.limit == 0 || (r.first before).limit < r.limit)

/-- Files with the same content are parsed alike. -/
theorem parse_of_content {q r : Request} (h : q.content = r.content) :
    q.input.file.parse = r.input.file.parse := File.parse_congr rfl h

theorem key_of_content {q r : Request} (h : q.content = r.content) : q.key = r.key := by
  rw [key, Digest.ofParsed, File.digest, show q.input.file.content = r.input.file.content from h]
  rfl

/-- Where digests tell texts apart, files with the same key have the same content. -/
theorem content_of_key {q r : Request} {rs : List Request}
    (hcontents : Sha256.Separates (rs.map content)) (hkeys : Sha256.Separates (rs.map keyed))
    (hq : q ∈ rs) (hr : r ∈ rs) (h : q.key = r.key) : q.content = r.content := by
  have hkeyed : q.keyed = r.keyed :=
    hkeys _ (List.mem_map_of_mem hq) _ (List.mem_map_of_mem hr) h
  have hdigest : q.input.file.digest = r.input.file.digest := by
    simp only [keyed, List.flatMap_cons, List.flatMap_nil, List.append_nil] at hkeyed
    have hsame := List.append_cancel_left hkeyed
    exact (List.append_inj hsame (by simp [Packed.word, Packed.littleEndian])).2
  exact hcontents _ (List.mem_map_of_mem hq) _ (List.mem_map_of_mem hr) hdigest

end Request

/-- What a call answers about a unit: its namespace, its diagnostics, its pack, and whether it was given
up. -/
def CompilationUnit.outcome (u : CompilationUnit) :
    Option Namespace × Bag × Option Datapack × Option UnitFailure :=
  (u.space, u.bag, u.datapack, u.failure)

/-- What the stages make of an input if parsing reports `found`. Code is generated only if no error was
kept. -/
def UnitInput.outcome (input : UnitInput) (o : BuildOptions) (found : List Diagnostic) :
    Option Namespace × Bag × Option Datapack × Option UnitFailure :=
  let space := input.space o.space
  let bag : Bag := ⟨o.limit.toNat, Bag.keep o.limit.toNat (found
    ++ (input.resolution o.warnShadow).diagnostics ++ (input.typing o.warnShadow).diagnostics)⟩
  if bag.hasErrors then (some space, bag, none, none)
  else
    let answer := (input.findings o.warnShadow).generate 1 space o.format o.description (some bag)
    (some space, answer.2.getD bag, answer.1.toOption, match answer.1 with
      | .ok _ | .error .hasErrors => none
      | .error e => some (.generation input.name e))

namespace Session

/-- Serves a call. -/
def serve (s : Session) : Request → Session × CompilationUnit
  | .compile o input => s.compile o input
  | .parse o input => s.parse o input

/-- Serves calls one after the other. -/
def serveAll (s : Session) (rs : List Request) : Session := rs.foldl (fun s r => (s.serve r).1) s

/-- A session that keeps parsed files, and none so far. -/
def sharing : Session := { parsed := some {} }

/-- The session keeps the file of every call, as the first call with its key parsed it. -/
def Keeps (s : Session) (before : List Request) : Prop :=
  ∃ cache : ParseCache, s.means = (some cache, none, false) ∧
    ∀ key, cache.entries.lookup key = (before.find? fun q => q.key == key).map Request.parsed

/-- What a call does to a session without a cache of results. -/
theorem means_serve {s : Session} (hr : s.results = none) (hc : s.isCancelled = false) (r : Request) :
    (s.serve r).1.means = (s.loadParsed (.start r.input r.options) r.options).1.means := by
  cases r with
  | compile o input =>
    obtain ⟨s', hm, -, hs⟩ := compile_run o input hr
    have hc' : s'.isCancelled = false := (congrArg (·.2.2) hm).trans hc
    exact hs.trans ((means_run hc').trans (means_loadParsed hm))
  | parse o input =>
    have hc' : (s.tell (.enter .unit ("parse:" ++ input.name))).isCancelled = false := hc
    rw [serve, parse]
    simp only [hc', Bool.false_eq_true, if_false]
    exact (means_parseStage _).trans (means_loadParsed rfl)

theorem Keeps.serve {s : Session} {before : List Request} (h : s.Keeps before) (r : Request) :
    (s.serve r).1.Keeps (before ++ [r]) := by
  obtain ⟨cache, hmeans, hentries⟩ := h
  have hparsed : s.parsed = some cache := congrArg Prod.fst hmeans
  have hload : (s.loadParsed (.start r.input r.options) r.options).1.means
      = (some (cache.load r.key fun _ => r.parsed).1, s.results, s.isCancelled) := by
    rw [loadParsed, hparsed]
    rfl
  have hresults : s.results = none := congrArg (·.2.1) hmeans
  have hrunning : s.isCancelled = false := congrArg (·.2.2) hmeans
  refine ⟨(cache.load r.key fun _ => r.parsed).1, ?_, fun key => ?_⟩
  · rw [means_serve hresults hrunning, hload, hresults, hrunning]
  · rw [ParseCache.load, hentries r.key, List.find?_append]
    cases hfirst : before.find? fun q => q.key == r.key with
    | some first =>
      -- the file was kept before, and a call with another key does not matter
      rw [Option.map_some]
      dsimp only
      rw [hentries key]
      by_cases hkey : r.key = key
      · rw [← hkey, hfirst]
        rfl
      · rw [List.find?_cons_of_neg (by simpa using hkey), List.find?_nil, Option.or_none]
    | none =>
      rw [Option.map_none]
      dsimp only
      rw [List.lookup_append, hentries key]
      by_cases hkey : r.key = key
      · rw [← hkey, hfirst]
        simp
      · have hne : (key == r.key) = false := beq_false_of_ne (Ne.symm hkey)
        rw [List.find?_cons_of_neg (by simpa using hkey), List.find?_nil, Option.or_none,
          List.lookup_cons, hne]
        simp

theorem keeps_serveAll (rs : List Request) : (sharing.serveAll rs).Keeps rs := by
  have hrun : ∀ (s : Session) (before rs : List Request), s.Keeps before →
      (s.serveAll rs).Keeps (before ++ rs) := by
    intro s before rs h
    induction rs generalizing s before with
    | nil =>
      rw [List.append_nil]
      exact h
    | cons r rs ih =>
      rw [List.append_cons]
      exact ih (s.serve r).1 (before ++ [r]) (h.serve r)
  exact hrun sharing [] rs ⟨{}, rfl, fun _ => rfl⟩

section Outcomes

variable {s s' : Session} {o : BuildOptions} {input : UnitInput} {u v : CompilationUnit}
  {known : Findings} {ns : Option Namespace} {ds : List Diagnostic}

/-- A unit keeps as much of what it was given as its limit allows. -/
theorem bag_of_reached (h : u.Reached o input known ns ds) :
    u.bag = ⟨o.limit.toNat, Bag.keep o.limit.toNat ds⟩ := by
  rw [show u.bag = ⟨u.bag.limit, u.bag.items⟩ from rfl, h.bag, h.limit]

/-- The stages give what is known of the input, of the diagnostics of parsing, and of the options. -/
theorem outcome_run
    (h : (s.parseStage (.start input o) o).2.Reached o input { program := some input.program } none ds)
    (hc : s.isCancelled = false) : (s.run (.start input o) o).2.outcome = input.outcome o ds := by
  obtain ⟨s', u, hu, hrun⟩ := run_parsed h hc
  rw [if_pos (input.faults_resolution _)] at hrun
  rw [hrun, UnitInput.outcome]
  dsimp only
  rw [← bag_of_reached hu]
  split
  · rw [CompilationUnit.outcome, hu.space, hu.datapack, hu.failure]
  · obtain ⟨note, hv⟩ := generateStage_unit (s := s') (o := o) (u := u)
    rw [hv, hu.findings, hu.space, Option.getD_some]
    generalize (input.findings o.warnShadow).generate 1 (input.space o.space) o.format o.description
      (some u.bag) = answer
    obtain ⟨result, bag⟩ := answer
    rcases result with e | pack
    · cases e <;> simp [CompilationUnit.outcome, CompilationUnit.addPhase, hu.datapack, hu.failure,
        hu.name, Except.toOption]
    · simp [CompilationUnit.outcome, CompilationUnit.addPhase, hu.failure, Except.toOption]

/-- Without a cache of results, compiling gives what the stages give. -/
theorem outcome_compile (hp : s.Reads o input) (hr : s.results = none) (hc : s.isCancelled = false) :
    (s.compile o input).2.outcome = input.outcome o input.file.parse.diagnostics := by
  obtain ⟨s', hm, heq, -⟩ := compile_run o input hr
  rw [heq]
  exact outcome_run (parseStage_reached (hp.congr (congrArg Prod.fst hm))) ((congrArg (·.2.2) hm).trans hc)

/-- A unit that kept an error of parsing ends without a pack, and its bag was given what the other
stages report too. -/
theorem run_of_fault {d : Diagnostic}
    (h : (s.parseStage (.start input o) o).2.Reached o input { program := some input.program } none
      (d :: ds)) (hd : d.isError = true) (hc : s.isCancelled = false) :
    (s.run (.start input o) o).2.Reached o input (input.findings o.warnShadow)
      (some (input.space o.space))
      (d :: ds ++ ((input.resolution o.warnShadow).diagnostics
        ++ (input.typing o.warnShadow).diagnostics)) := by
  obtain ⟨s₁, u, hu, hrun⟩ := run_parsed h hc
  rw [if_pos (input.faults_resolution _)] at hrun
  have herrors : u.bag.hasErrors = true := by
    rw [hu.bag.hasErrors_eq]
    rw [List.cons_append, List.cons_append, Bag.keep_cons, List.any_cons, hd]
    rfl
  rw [hrun, if_pos herrors, ← List.append_assoc]
  exact hu

/-- A unit that is only parsed. -/
theorem parse_within {limit : Int} (hc : s.isCancelled = false)
    (h : (s.loadParsed (.start input o) o).2.1 = parseWithin input.file limit) :
    (s.parse o input).2.Reached o input { program := some input.program } (some (input.space o.space))
      (Bag.keep limit.toNat input.file.parse.diagnostics) := by
  have hc' : (s.tell (.enter .unit ("parse:" ++ input.name))).isCancelled = false := hc
  have hload : ((s.tell (.enter .unit ("parse:" ++ input.name))).loadParsed (.start input o) o).2.1
      = parseWithin input.file limit := by
    have hp : (s.tell (.enter .unit ("parse:" ++ input.name))).parsed = s.parsed := rfl
    exact (congrArg Prod.fst (loadParsed_parsed hp)).trans h
  have hu := parseStage_within hload
  have hspace := deriveSpace_of_reached hu
  simp only [parse, hc', Bool.false_eq_true, if_false, hspace]
  exact ⟨hu.failure, hu.name, hu.file, hu.findings, rfl, hu.limit, hu.bag, hu.datapack⟩

/-- Two bags of the same limit, one of which was given less in the beginning. -/
theorem items_eq_iff {b b' : Bag} {l n : Nat} {ds es : List Diagnostic} (hb : b.Received (Bag.keep l ds ++ es))
    (hb' : b'.Received (ds ++ es)) (hn : b.limit = n) (hn' : b'.limit = n) (h : ∀ d ∈ ds, d ∉ es) :
    b.items = b'.items ↔ ¬ (0 < l ∧ l < ds.length ∧ (n = 0 ∨ l < n)) := by
  rw [hb, hb', hn, hn']
  exact Bag.keep_cut_iff h

/-- A unit is compiled in two sessions: one takes its file for what it is within some limit, one parses
it for the call itself. -/
theorem compile_compared {limit : Int} (hc : s.isCancelled = false) (hc' : s'.isCancelled = false)
    (hr : s.results = none) (hr' : s'.results = none)
    (h : (s.loadParsed (.start input o) o).2.1 = parseWithin input.file limit)
    (h' : s'.Reads o input) :
    (s.compile o input).2.space = (s'.compile o input).2.space ∧
      (s.compile o input).2.datapack = (s'.compile o input).2.datapack ∧
      (s.compile o input).2.failure = (s'.compile o input).2.failure ∧
      ((s.compile o input).2.bag.items = (s'.compile o input).2.bag.items ↔
        ¬ (0 < limit.toNat ∧ limit.toNat < input.file.parse.diagnostics.length ∧
          (o.limit.toNat = 0 ∨ limit.toNat < o.limit.toNat))) := by
  obtain ⟨s₁, hm, heq, -⟩ := compile_run o input hr
  obtain ⟨s₂, hm', heq', -⟩ := compile_run o input hr'
  have hload : (s₁.loadParsed (.start input o) o).2.1 = parseWithin input.file limit :=
    (congrArg Prod.fst (loadParsed_parsed (congrArg Prod.fst hm))).trans h
  have hu := parseStage_within hload
  have hv := parseStage_reached (h'.congr (congrArg Prod.fst hm'))
  have hrunning : s₁.isCancelled = false := (congrArg (·.2.2) hm).trans hc
  have hrunning' : s₂.isCancelled = false := (congrArg (·.2.2) hm').trans hc'
  rw [heq, heq']
  cases hparse : input.file.parse.diagnostics with
  | nil =>
    have hnil : Bag.keep limit.toNat [] = [] := Bag.keep_of_length_le (.inr (Nat.zero_le _))
    rw [hparse] at hu hv
    rw [hnil] at hu
    have houtcome := (outcome_run hu hrunning).trans (outcome_run hv hrunning').symm
    refine ⟨congrArg (·.1) houtcome, congrArg (·.2.2.1) houtcome, congrArg (·.2.2.2) houtcome, ?_⟩
    have hitems := congrArg (·.2.1.items) houtcome
    exact ⟨fun _ hcut => absurd hcut.2.1 (Nat.not_lt_zero _), fun _ => hitems⟩
  | cons d ds =>
    have herror : d.isError = true := File.isError_of_mem_parse (hparse ▸ List.mem_cons_self)
    rw [hparse] at hu hv
    rw [Bag.keep_cons] at hu
    have hu' := run_of_fault hu herror hrunning
    have hv' := run_of_fault hv herror hrunning'
    rw [← Bag.keep_cons] at hu'
    refine ⟨hu'.space.trans hv'.space.symm, hu'.datapack.trans hv'.datapack.symm,
      hu'.failure.trans hv'.failure.symm,
      items_eq_iff hu'.bag hv'.bag hu'.limit hv'.limit fun e he hrest => ?_⟩
    -- what parsing reports is about the text, all else about its meaning
    have hparsed := File.not_isSemantic_of_mem_parse (hparse ▸ he)
    have hsemantic : e.isSemantic = true := by
      rcases List.mem_append.mp hrest with hrest | hrest
      · exact (Resolution.records_resolve _ _).semantic e hrest
      · exact (Program.isOfTypes_of_mem_typed hrest).isSemantic
    rw [hparsed] at hsemantic
    cases hsemantic

/-- The same for any call. -/
theorem serve_compared {r : Request} {limit : Int} (hc : s.isCancelled = false)
    (hc' : s'.isCancelled = false) (hr : s.results = none) (hr' : s'.results = none)
    (h : (s.loadParsed (.start r.input r.options) r.options).2.1 = parseWithin r.input.file limit)
    (h' : s'.Reads r.options r.input) :
    (s.serve r).2.space = (s'.serve r).2.space ∧ (s.serve r).2.datapack = (s'.serve r).2.datapack ∧
      (s.serve r).2.failure = (s'.serve r).2.failure ∧
      ((s.serve r).2.bag.items = (s'.serve r).2.bag.items ↔
        ¬ (0 < limit.toNat ∧ limit.toNat < r.faults.length ∧ (r.limit = 0 ∨ limit.toNat < r.limit))) := by
  cases r with
  | compile o input => exact compile_compared hc hc' hr hr' h h'
  | parse o input =>
    have hu := parse_within hc h
    have hv := parse_within hc' h'
    refine ⟨hu.space.trans hv.space.symm, hu.datapack.trans hv.datapack.symm,
      hu.failure.trans hv.failure.symm, ?_⟩
    have hless : (s.parse o input).2.bag.Received
        (Bag.keep limit.toNat input.file.parse.diagnostics ++ []) := by
      rw [List.append_nil]
      exact hu.bag
    have hall : (s'.parse o input).2.bag.Received (input.file.parse.diagnostics ++ []) := by
      rw [List.append_nil]
      exact hv.bag.keep_left hv.limit rfl
    exact items_eq_iff hless hall hu.limit hv.limit fun _ _ => List.not_mem_nil

end Outcomes

/-- A session that keeps parsed files takes the file of a call for what the first call with that content
made of it. -/
theorem Keeps.loadParsed {s : Session} {before : List Request} (h : s.Keeps before) (r : Request)
    (hcontents : Sha256.Separates ((before ++ [r]).map Request.content))
    (hkeys : Sha256.Separates ((before ++ [r]).map Request.keyed)) :
    (s.loadParsed (.start r.input r.options) r.options).2.1
      = parseWithin r.input.file (r.first before).options.limit := by
  obtain ⟨cache, hmeans, hentries⟩ := h
  have hparsed : s.parsed = some cache := congrArg Prod.fst hmeans
  have hload : (s.loadParsed (.start r.input r.options) r.options).2.1
      = (cache.load r.key fun _ => r.parsed).2.1 := by
    rw [Session.loadParsed, hparsed]
    rfl
  have hfind : (before.find? fun q => q.key == r.key)
      = before.find? fun q => q.content == r.content := by
    refine List.find?_congr fun q hq => ?_
    rw [Bool.eq_iff_iff, beq_iff_eq, beq_iff_eq]
    exact ⟨Request.content_of_key hcontents hkeys (List.mem_append_left _ hq) (by simp),
      Request.key_of_content⟩
  rw [hload, ParseCache.load, hentries r.key, hfind, Request.first]
  cases hfirst : before.find? fun q => q.content == r.content with
  | none => rfl
  | some first =>
    have hsame : first.content = r.content := by simpa using List.find?_some hfirst
    have hfile := Request.parse_of_content hsame
    simp only [Option.map_some, Option.getD_some, Request.parsed, parseWithin_eq, hfile]

/-- Calls that share parsed files give the same namespaces, packs and failures as calls that do not.
They show the same diagnostics, too, unless the first call with the same content has let through less
of what parsing reports than this call would. -/
theorem serve_sharing {before : List Request} {r : Request}
    (hcontents : Sha256.Separates ((before ++ [r]).map Request.content))
    (hkeys : Sha256.Separates ((before ++ [r]).map Request.keyed)) :
    let shared := ((sharing.serveAll before).serve r).2
    let alone := (({} : Session).serve r).2
    shared.space = alone.space ∧ shared.datapack = alone.datapack ∧
      shared.failure = alone.failure ∧
      (shared.bag.items = alone.bag.items ↔ r.isStarved before = false) := by
  have hkeeps := keeps_serveAll before
  have hload := hkeeps.loadParsed r hcontents hkeys
  obtain ⟨cache, hmeans, -⟩ := hkeeps
  have halone : ({} : Session).Reads r.options r.input := reads_of_parsed _ _ rfl
  have hrunning : ({} : Session).isCancelled = false := rfl
  have hcompared := serve_compared (congrArg (·.2.2) hmeans) hrunning (congrArg (·.2.1) hmeans)
    rfl hload halone
  have hstarved : r.isStarved before = false ↔ ¬ (0 < (r.first before).limit ∧
      (r.first before).limit < r.faults.length ∧ (r.limit = 0 ∨ (r.first before).limit < r.limit)) := by
    rw [Bool.eq_false_iff, Request.isStarved]
    simp [and_assoc]
  exact ⟨hcompared.1, hcompared.2.1, hcompared.2.2.1, hcompared.2.2.2.trans hstarved.symm⟩

end Session

/-- A unit with two faults in its text. -/
def UnitInput.unopened : UnitInput := ⟨"main.craft", ")\n)\n"⟩

/-- Once the unit was parsed with room for one diagnostic, a call with room for all shows one still. -/
theorem Session.serve_unopened :
    let shared := ((sharing.serveAll [.parse { limit := 1 } .unopened]).serve
      (.compile {} .unopened)).2
    let alone := (({} : Session).serve (.compile {} .unopened)).2
    shared.datapack = alone.datapack ∧ shared.bag.items ≠ alone.bag.items := by
  have hcontents : Sha256.Separates
      (([Request.parse { limit := 1 } .unopened] ++ [Request.compile {} .unopened]).map Request.content) := by
    intro a ha b hb _
    rcases List.mem_pair.mp ha with rfl | rfl <;> rcases List.mem_pair.mp hb with rfl | rfl <;> rfl
  have hkeys : Sha256.Separates
      (([Request.parse { limit := 1 } .unopened] ++ [Request.compile {} .unopened]).map Request.keyed) := by
    intro a ha b hb _
    rcases List.mem_pair.mp ha with rfl | rfl <;> rcases List.mem_pair.mp hb with rfl | rfl <;> rfl
  have hserve := serve_sharing hcontents hkeys
  have hfaults : (Request.compile {} .unopened).faults.length = 2 := by
    rw [Request.faults, File.parse_diagnostics (by decide +kernel), List.length_map]
    decide +kernel
  have hstarved : Request.isStarved [.parse { limit := 1 } .unopened] (.compile {} .unopened) = true := by
    rw [Request.isStarved, hfaults]
    decide +kernel
  refine ⟨hserve.2.1, fun hitems => ?_⟩
  have hfed := hserve.2.2.2.mp hitems
  rw [hstarved] at hfed
  cases hfed

end Craftlang
