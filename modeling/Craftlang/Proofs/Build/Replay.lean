import Craftlang.Proofs.Build.Keys
import Craftlang.Proofs.Build.Packs
import Craftlang.Proofs.Build.Stages
import Craftlang.Proofs.Code.Places
import Craftlang.Proofs.Syntax.Flaws
import Craftlang.Proofs.Typing.Places

/-!
# Results from earlier calls

Calls that keep their results give what they give without, whatever befalls the kept results between two
calls. The invariant is that a result that can be used is what a call with its key has given; a mishap only
makes results unusable. A result is told again as it was: it holds no errors, so all that it reports is
about names and stands in the only file of the unit.
-/

/-!
## Where the stages report

The program of a unit stands in its file, the first and only one. So whatever a stage reports about the
unit, at a place or in a note, is shown in the file.
-/

namespace Craftlang

namespace UnitInput

variable {input : UnitInput} {shadow : Bool} {d : Diagnostic}

theorem sound_frames (input : UnitInput) : ∀ fr ∈ input.program.frames, fr.Sound input.file :=
  input.file.parse_framed.sound

theorem standsIn_resolution (input : UnitInput) (shadow : Bool) :
    (input.resolution shadow).StandsIn input.file :=
  Program.resolve_standsIn rfl (fun fr hfr => (input.sound_frames fr hfr).standsIn) shadow

/-- What parsing, resolving and typing report is shown in the file of the unit. -/
theorem standsIn_of_mem_reports (hd : d ∈ input.reports shadow) : d.StandsIn input.file := by
  rcases List.mem_append.mp hd with hd | hd
  · rcases List.mem_append.mp hd with hd | hd
    · exact File.standsIn_of_mem_parse hd
    · exact (input.standsIn_resolution shadow).diagnostics d hd
  · exact Program.typed_standsIn input.sound_frames (input.standsIn_resolution shadow) d hd

/-- Literals that cannot be joined are shown in the file, and so is the first join. -/
theorem standsIn_of_mem_unjoinable (hd : d ∈ (input.emission shadow).unjoinable) : d.StandsIn input.file := by
  have hcode : (input.emission shadow).StandsIn input.file :=
    Program.emit_standsIn (fun fr hfr => (input.sound_frames fr hfr).standsIn) _ _
  rw [Emission.unjoinable] at hd
  split at hd
  · cases hd
  · rename_i joinedAt hjoined
    obtain ⟨literal, hliteral, rfl⟩ := List.mem_map.mp hd
    refine Diagnostic.standsIn_of_notes (hcode.quoted literal hliteral) fun n hn => ?_
    rw [List.mem_singleton.mp hn]
    exact hcode.joinedAt joinedAt hjoined

end UnitInput

/-! ## What the stored results have -/

theorem lookup_mapValues {α β γ : Type} [BEq α] [LawfulBEq α] (f : α → β → γ) (xs : List (α × β)) (k : α) :
    (xs.map fun e => (e.1, f e.1 e.2)).lookup k = (xs.lookup k).map (f k) := by
  induction xs with
  | nil => rfl
  | cons x xs ih =>
    rw [List.map_cons, List.lookup_cons, List.lookup_cons]
    by_cases hk : k = x.1
    · subst hk
      rw [beq_self_eq_true]
      rfl
    · rw [beq_false_of_ne hk]
      exact ih

/-- What can befall kept results: some are lost, some are damaged, some turn out to be of another release,
or a unit without a pack takes the place of one. -/
inductive Mishap where
  | lost (hits : Bytes → Bool)
  | damaged (hits : Bytes → Bool)
  | outdated (hits : Bytes → Bool) (schema : Nat) (h : schema ≠ CachedUnit.currentSchema)
  | replaced (key : Bytes) (unit : CachedUnit) (h : unit.datapack = none)

def CacheEntry.withSchema (schema : Nat) : CacheEntry → CacheEntry
  | .unreadable => .unreadable
  | .readable unit => .readable { unit with schema }

namespace ResultCache

/-- Changes the entries whose keys are hit. -/
def change (c : ResultCache) (hits : Bytes → Bool) (f : CacheEntry → CacheEntry) : ResultCache :=
  ⟨c.entries.map fun e => (e.1, if hits e.1 then f e.2 else e.2)⟩

def suffer (c : ResultCache) : Mishap → ResultCache
  | .lost hits => ⟨c.entries.filter fun e => !hits e.1⟩
  | .damaged hits => c.change hits fun _ => .unreadable
  | .outdated hits schema _ => c.change hits (·.withSchema schema)
  | .replaced key unit _ => c.put key unit

variable {c : ResultCache} {key : Bytes} {unit : CachedUnit} {pack : Datapack}

theorem usable?_eq_some : c.usable? key = some (unit, pack) ↔ c.get? key = some (.readable unit) ∧
    unit.schema = CachedUnit.currentSchema ∧ unit.datapack = some pack := by
  rw [usable?]
  split
  · rename_i unit' hget
    rw [hget]
    split
    · rename_i hschema
      rw [Option.map_eq_some_iff, Option.some.injEq, CacheEntry.readable.injEq]
      constructor
      · rintro ⟨d, hd, heq⟩
        cases heq
        exact ⟨rfl, hschema, hd⟩
      · rintro ⟨rfl, -, hd⟩
        exact ⟨pack, hd, rfl⟩
    · rename_i hschema
      refine ⟨nofun, ?_⟩
      rintro ⟨heq, hschema', -⟩
      cases heq
      exact absurd hschema' hschema
  · rename_i hget
    refine ⟨nofun, ?_⟩
    rintro ⟨heq, -, -⟩
    exact absurd heq (hget unit)

theorem get?_put (c : ResultCache) (key : Bytes) (unit : CachedUnit) (k : Bytes) :
    (c.put key unit).get? k = if k = key then some (.readable unit) else c.get? k := by
  rw [get?, put, List.lookup_append, lookup_filter (· != key), get?]
  by_cases hk : k = key
  · subst hk
    simp
  · have hne : (k == key) = false := beq_false_of_ne hk
    simp [hk, hne, List.lookup_cons]

theorem get?_change (c : ResultCache) (hits : Bytes → Bool) (f : CacheEntry → CacheEntry) (k : Bytes) :
    (c.change hits f).get? k = (c.get? k).map fun entry => if hits k then f entry else entry :=
  lookup_mapValues (fun k entry => if hits k then f entry else entry) c.entries k

/-- A mishap makes no result usable. -/
theorem usable?_of_suffer {m : Mishap} (h : (c.suffer m).usable? key = some (unit, pack)) :
    c.usable? key = some (unit, pack) := by
  obtain ⟨hget, hschema, hpack⟩ := usable?_eq_some.mp h
  refine usable?_eq_some.mpr ⟨?_, hschema, hpack⟩
  cases m with
  | lost hits =>
    rw [get?, suffer, lookup_filter (fun k => !hits k)] at hget
    split at hget
    · exact hget
    · cases hget
  | damaged hits =>
    rw [suffer, get?_change, Option.map_eq_some_iff] at hget
    obtain ⟨entry, hentry, heq⟩ := hget
    split at heq
    · cases heq
    · rw [hentry, heq]
  | outdated hits schema hother =>
    rw [suffer, get?_change, Option.map_eq_some_iff] at hget
    obtain ⟨entry, hentry, heq⟩ := hget
    split at heq
    · -- what was hit is of the other release
      cases entry with
      | unreadable => cases heq
      | readable unit' =>
        cases heq
        exact absurd hschema hother
    · rw [hentry, heq]
  | replaced key' unit' hnone =>
    rw [suffer, get?_put] at hget
    split at hget
    · cases hget
      rw [hnone] at hpack
      cases hpack
    · exact hget

end ResultCache

/-- A bag takes in what it has room for. -/
theorem Bag.addAll_ofLimit {limit : Int} {ds : List Diagnostic} (h : keep limit.toNat ds = ds) :
    (ofLimit limit).addAll ds = ⟨limit.toNat, ds⟩ := by
  have hlimit : ((ofLimit limit).addAll ds).limit = limit.toNat := limit_addAll _ _
  have hitems : ((ofLimit limit).addAll ds).items = ds := by
    have hreceived := (received_ofLimit limit).addAll ds
    rw [Received, hlimit, List.nil_append, h] at hreceived
    exact hreceived
  rw [show (ofLimit limit).addAll ds = ⟨((ofLimit limit).addAll ds).limit, ((ofLimit limit).addAll ds).items⟩
    from rfl, hlimit, hitems]

/-- A diagnostic that is told of another file. -/
def Diagnostic.movedTo (file : Nat) (d : Diagnostic) : Diagnostic :=
  { d with
    span := { d.span with file }
    notes := d.notes.map fun n => { n with span := { n.span with file } } }

theorem Diagnostic.movedTo_eq_self {file : Nat} {d : Diagnostic} (h : ∀ x ∈ d.spans, x.file = file) :
    d.movedTo file = d := by
  have hspan : ∀ x ∈ d.spans, ({ x with file } : Span) = x := fun x hx => by rw [← h x hx]
  have hnotes : (d.notes.map fun n => { n with span := { n.span with file } }) = d.notes := by
    refine (List.map_congr_left fun n hn => ?_).trans (List.map_id _)
    rw [hspan n.span (List.mem_cons_of_mem _ (List.mem_map_of_mem hn))]
    rfl
  rw [movedTo, hnotes, hspan d.span List.mem_cons_self]

namespace CompileCall

/-- The call gives what is kept of a unit and its pack. -/
def Gives (c : CompileCall) (unit : CachedUnit) (pack : Datapack) : Prop :=
  c.outcome = (some unit.space, ⟨c.options.limit.toNat, unit.diagnostics⟩, some pack, none)

theorem Gives.congr {a b : CompileCall} {unit : CachedUnit} {pack : Datapack} (h : a.Gives unit pack)
    (halike : a.Alike b) : b.Gives unit pack := by
  rw [Gives, ← halike.outcome, ← halike.limit]
  exact h

/-- A call that gives a pack gives a namespace and no errors. What it reports stands in the file of the
unit, and is no more than its limit allows. -/
theorem bag_of_outcome {c : CompileCall} {ns : Option Namespace} {bag : Bag} {pack : Datapack}
    (h : c.outcome = (ns, bag, some pack, none)) :
    ns ≠ none ∧ bag.limit = c.options.limit.toNat ∧ Bag.keep bag.limit bag.items = bag.items ∧
      ∀ d ∈ bag.items, d.movedTo 0 = d := by
  have hkeeps : ({} : Session).KeepsNothing := ⟨rfl, rfl⟩
  have hbag : (({} : Session).compile c.options c.input).2.bag = bag := congrArg (·.2.1) h
  have hfailure : (({} : Session).compile c.options c.input).2.failure = none := congrArg (·.2.2.2) h
  have hpack : (({} : Session).compile c.options c.input).2.datapack = some pack := congrArg (·.2.2.1) h
  have hspace : (({} : Session).compile c.options c.input).2.space = ns := congrArg (·.1) h
  have hpacked := Session.compile_packed (o := c.options) (hkeeps.remembers c.input) rfl
    (by rw [hpack]; exact Option.some_ne_none _)
  have hjudged := Session.compile_judged hkeeps hfailure
  have hreports : c.input.given c.options.warnShadow c.options.limit.toNat
      = c.input.reports c.options.warnShadow := by
    rw [UnitInput.given, hpacked.stopped, if_neg Bool.false_ne_true, hpacked.joinable, List.append_nil]
  have hlimit := hjudged.limit
  have hitems : bag.items = Bag.keep bag.limit (c.input.reports c.options.warnShadow) := by
    rw [← hreports, ← hbag]
    exact hjudged.bag
  rw [hbag] at hlimit
  refine ⟨by rw [← hspace, hpacked.space]; exact Option.some_ne_none _, hlimit, ?_, fun d hd => ?_⟩
  · have hagain := Bag.keep_keep_append bag.limit (c.input.reports c.options.warnShadow) []
    rwa [List.append_nil, List.append_nil, ← hitems] at hagain
  · rw [hitems] at hd
    exact Diagnostic.movedTo_eq_self fun x hx =>
      (UnitInput.standsIn_of_mem_reports (Bag.mem_of_mem_keep hd) x hx).file

/-- The calls can be told apart by their keys. -/
structure Separate (calls : List CompileCall) : Prop where
  fits : ∀ c ∈ calls, c.Fits
  contents : Sha256.Separates (calls.map content)
  keys : Sha256.Separates (calls.map keyed)

theorem Separate.mono {calls calls' : List CompileCall} (h : Separate calls') (hsub : calls ⊆ calls') :
    Separate calls :=
  ⟨fun c hc => h.fits c (hsub hc), h.contents.mono (List.map_subset _ hsub), h.keys.mono (List.map_subset _ hsub)⟩

end CompileCall

/-- What a session that keeps results undergoes. -/
inductive CacheEvent where
  | call (c : CompileCall)
  | mishap (m : Mishap)

/-- The calls among events. -/
def CacheEvent.calls (history : List CacheEvent) : List CompileCall :=
  history.filterMap fun
    | call c => some c
    | mishap _ => none

/-- Every result that can be used is what one of the calls has given, the one with its key. -/
def ResultCache.Recalls (cache : ResultCache) (calls : List CompileCall) : Prop :=
  ∀ key unit pack, cache.usable? key = some (unit, pack) → ∃ c ∈ calls, c.key = key ∧ c.Gives unit pack

/-- A result that can be used for one of the calls is what the call gives. -/
def ResultCache.IsTrue (cache : ResultCache) (calls : List CompileCall) : Prop :=
  ∀ c ∈ calls, ∀ unit pack, cache.usable? c.key = some (unit, pack) → c.Gives unit pack

namespace ResultCache.Recalls

variable {cache : ResultCache} {calls calls' : List CompileCall}

theorem mono (h : cache.Recalls calls) (hsub : calls ⊆ calls') : cache.Recalls calls' :=
  fun key unit pack hfound => (h key unit pack hfound).imp fun _ hc => ⟨hsub hc.1, hc.2⟩

/-- Where calls can be told apart, a result for a call is what the call gives. -/
theorem isTrue (h : cache.Recalls calls) (hcalls : CompileCall.Separate (calls ++ calls')) :
    cache.IsTrue calls' := by
  intro c hc unit pack hfound
  obtain ⟨d, hd, hkey, hgives⟩ := h c.key unit pack hfound
  exact hgives.congr (CompileCall.alike_of_key hcalls.contents hcalls.keys hcalls.fits
    (List.mem_append_left _ hd) (List.mem_append_right _ hc) hkey)

theorem suffer (h : cache.Recalls calls) (m : Mishap) : (cache.suffer m).Recalls calls :=
  fun key unit pack hfound => h key unit pack (usable?_of_suffer hfound)

/-- What a call gave is kept. -/
theorem put (h : cache.Recalls calls) {c : CompileCall} (hc : c ∈ calls) {unit : CachedUnit} {pack : Datapack}
    (hpack : unit.datapack = some pack) (hgives : c.Gives unit pack) :
    (cache.put c.key unit).Recalls calls := by
  intro key unit' pack' hfound
  obtain ⟨hget, hschema, hpack'⟩ := usable?_eq_some.mp hfound
  rw [get?_put] at hget
  split at hget
  · rename_i hkey
    cases hget
    cases hpack.symm.trans hpack'
    exact ⟨c, hc, hkey.symm, hgives⟩
  · exact h key unit' pack' (usable?_eq_some.mpr ⟨hget, hschema, hpack'⟩)

end ResultCache.Recalls

/-- What a call gave is kept, and told to no other call that can be told apart from it. -/
theorem ResultCache.IsTrue.put {cache : ResultCache} {calls : List CompileCall} (h : cache.IsTrue calls)
    (hcalls : CompileCall.Separate calls) {c : CompileCall} (hc : c ∈ calls) {unit : CachedUnit}
    {pack : Datapack} (hpack : unit.datapack = some pack) (hgives : c.Gives unit pack) :
    (cache.put c.key unit).IsTrue calls := by
  intro d hd unit' pack' hfound
  obtain ⟨hget, hschema, hpack'⟩ := usable?_eq_some.mp hfound
  rw [get?_put] at hget
  split at hget
  · rename_i hkey
    cases hget
    cases hpack.symm.trans hpack'
    exact hgives.congr (CompileCall.alike_of_key hcalls.contents hcalls.keys hcalls.fits hc hd hkey.symm)
  · exact h d hd unit' pack' (usable?_eq_some.mpr ⟨hget, hschema, hpack'⟩)

namespace Session

/-- A session that keeps results, and none so far. -/
def caching : Session := { results := some {} }

def undergo (s : Session) : CacheEvent → Session
  | .call c => (s.compile c.options c.input).1
  | .mishap m => { s with results := s.results.map (·.suffer m) }

def undergoAll (s : Session) (history : List CacheEvent) : Session := history.foldl undergo s

/-- The session keeps results only, which are what the calls have given. -/
def Replays (s : Session) (calls : List CompileCall) : Prop :=
  ∃ cache : ResultCache, s.means = (none, some cache, false) ∧ cache.Recalls calls

variable {s : Session} {c : CompileCall} {calls : List CompileCall}

/-- A result that can be used is told again, in the file of the unit. -/
theorem compile_hit (o : BuildOptions) (input : UnitInput) {found : CachedUnit} {pack : Datapack}
    (hfound : (s.results.bind fun cache =>
      cache.usable? (Digest.ofUnit input.name input.file o)) = some (found, pack)) :
    (s.compile o input).2.outcome = (some found.space,
      (Bag.ofLimit o.limit).addAll (found.diagnostics.map (Diagnostic.movedTo 0)), some pack, none) ∧
    (s.compile o input).2.name = input.name ∧ (s.compile o input).2.file = input.file ∧
    (s.compile o input).1.means = s.means := by
  have hload : ∃ (s' : Session) (u : CompilationUnit),
      (s.tell (.enter .unit ("unit:" ++ input.name))).loadResult? (.start input o)
        (Digest.ofUnit input.name (CompilationUnit.start input o).file o) = some (s', u) ∧
      s'.means = s.means ∧ u.name = input.name ∧ u.file = input.file ∧ u.outcome = (some found.space,
        (Bag.ofLimit o.limit).addAll (found.diagnostics.map (Diagnostic.movedTo 0)), some pack, none) := by
    change (s.results.bind fun cache => cache.usable?
      (Digest.ofUnit input.name (CompilationUnit.start input o).file o)) = _ at hfound
    have hresults : (s.tell (.enter .unit ("unit:" ++ input.name))).results = s.results := rfl
    rw [loadResult?, hresults, hfound]
    exact ⟨_, _, rfl, rfl, rfl, rfl, rfl⟩
  obtain ⟨s', u, hload, hmeans, hname, hfile, hu⟩ := hload
  rw [compile]
  simp only [hload]
  exact ⟨hu, hname, hfile, hmeans⟩

/-- A result that is what the call gives is told as the call gives it. -/
theorem compile_of_gives {unit : CachedUnit} {pack : Datapack}
    (hfound : (s.results.bind fun cache => cache.usable? c.key) = some (unit, pack)) (h : c.Gives unit pack) :
    (s.compile c.options c.input).2.outcome = c.outcome ∧
      (s.compile c.options c.input).2.name = c.input.name ∧
      (s.compile c.options c.input).2.file = c.input.file ∧
      (s.compile c.options c.input).1.means = s.means := by
  obtain ⟨houtcome, hleft⟩ := compile_hit c.options c.input hfound
  obtain ⟨-, -, hkept, hplaces⟩ := CompileCall.bag_of_outcome h
  have hsame : unit.diagnostics.map (Diagnostic.movedTo 0) = unit.diagnostics :=
    (List.map_congr_left hplaces).trans (List.map_id _)
  rw [houtcome, hsame, Bag.addAll_ofLimit hkept, h]
  exact ⟨rfl, hleft⟩

theorem means_storeResult {u : CompilationUnit} {cache : ResultCache} {pack : Datapack}
    (hs : s.results = some cache) (hd : u.datapack = some pack) (key : Bytes) :
    (s.storeResult u key).means = (s.parsed, some (cache.put key
      ⟨CachedUnit.currentSchema, u.name, u.space.getD .anonymous, some pack, u.bag.items⟩),
      s.isCancelled) := by
  rw [storeResult, hs, hd]
  rfl

/-- What is kept once the stages are through, if anything, is what the call gives. -/
theorem kept_of_outcome {u : CompilationUnit} {cache : ResultCache} (hs : s.results = some cache)
    (hu : u.datapack ≠ none → u.outcome = c.outcome) :
    let left := if u.failure.isSome then s else s.storeResult u c.key
    left.means = s.means ∨ ∃ unit pack, unit.datapack = some pack ∧ c.Gives unit pack ∧
      left.means = (s.means.1, some (cache.put c.key unit), s.means.2.2) := by
  intro left
  by_cases hfailure : u.failure.isSome
  · exact .inl (by rw [show left = s from if_pos hfailure])
  · have hleft : left = s.storeResult u c.key := if_neg hfailure
    cases hpack : u.datapack with
    | none =>
      refine .inl (congrArg means (hleft.trans ?_))
      rw [storeResult, hpack]
      cases s.results <;> rfl
    | some pack =>
      have hgave : c.outcome = (u.space, u.bag, some pack, none) := by
        rw [← hu (by rw [hpack]; exact Option.some_ne_none _), CompilationUnit.outcome, hpack,
          show u.failure = none by simpa using hfailure]
      obtain ⟨hspace, hlimit, -, -⟩ := CompileCall.bag_of_outcome hgave
      obtain ⟨space, hspace⟩ := Option.ne_none_iff_exists'.mp hspace
      refine .inr ⟨_, pack, rfl, ?_, hleft ▸ means_storeResult hs hpack c.key⟩
      rw [CompileCall.Gives, hgave, hspace, ← hlimit]
      rfl

/-- One more call gives what it gives alone, and what it leaves can be told again. -/
theorem Replays.compile (h : s.Replays calls) (hcalls : CompileCall.Separate (calls ++ [c])) :
    (s.compile c.options c.input).2.outcome = c.outcome ∧
      (s.compile c.options c.input).1.Replays (calls ++ [c]) := by
  obtain ⟨cache, hmeans, hrecalls⟩ := h
  have hresults : s.results = some cache := congrArg (·.2.1) hmeans
  have hold := hrecalls.mono (List.subset_append_left calls [c])
  have hlast : c ∈ [c] := List.mem_singleton_self c
  cases hfound : cache.usable? c.key with
  | some found =>
    obtain ⟨unit, pack⟩ := found
    obtain ⟨houtcome, -, -, hleft⟩ := compile_of_gives (by rw [hresults]; exact hfound)
      (hrecalls.isTrue hcalls c hlast unit pack hfound)
    exact ⟨houtcome, cache, hleft.trans hmeans, hold⟩
  | none =>
    obtain ⟨s', hsame, heq, hleft⟩ :=
      compile_missed (s := s) c.options c.input (by rw [hresults]; exact hfound)
    have hparsed : s'.parsed = none := congrArg Prod.fst (hsame.trans hmeans)
    have hrun : (s'.run (.start c.input c.options) c.options).1.means = (none, some cache, false) :=
      (means_run_of_parsed hparsed).trans (hsame.trans hmeans)
    have houtcome : (s'.run (.start c.input c.options) c.options).2.outcome = c.outcome :=
      (outcome_run (parseStage_reached (reads_of_parsed _ _ hparsed))
        (congrArg (·.2.2) (hsame.trans hmeans))).trans c.outcome_eq.symm
    rw [heq]
    refine ⟨houtcome, ?_⟩
    rcases kept_of_outcome (congrArg (·.2.1) hrun) (fun _ => houtcome) with
      hkept | ⟨unit, pack, hpack, hgives, hkept⟩
    · exact ⟨cache, hleft.trans (hkept.trans hrun), hold⟩
    · rw [hrun] at hkept
      exact ⟨_, hleft.trans hkept, hold.put (List.mem_append_right _ hlast) hpack hgives⟩

theorem Replays.suffer (h : s.Replays calls) (m : Mishap) : (s.undergo (.mishap m)).Replays calls := by
  obtain ⟨cache, hmeans, hrecalls⟩ := h
  refine ⟨cache.suffer m, ?_, hrecalls.suffer m⟩
  rw [undergo, means, show s.parsed = none from congrArg Prod.fst hmeans,
    show s.results = some cache from congrArg (·.2.1) hmeans,
    show s.isCancelled = false from congrArg (·.2.2) hmeans]
  rfl

/-- Whatever happens, the results that can be used are what the calls have given. -/
theorem replays_undergoAll (history : List CacheEvent)
    (hcalls : CompileCall.Separate (CacheEvent.calls history)) :
    (caching.undergoAll history).Replays (CacheEvent.calls history) := by
  have hrun : ∀ (s : Session) (before : List CompileCall) (history : List CacheEvent),
      CompileCall.Separate (before ++ CacheEvent.calls history) → s.Replays before →
      (s.undergoAll history).Replays (before ++ CacheEvent.calls history) := by
    intro s before history hcalls h
    induction history generalizing s before with
    | nil => rwa [CacheEvent.calls, List.filterMap_nil, List.append_nil]
    | cons event history ih =>
      cases event with
      | mishap m => exact ih _ before hcalls (h.suffer m)
      | call c =>
        rw [show CacheEvent.calls (.call c :: history) = c :: CacheEvent.calls history from rfl,
          List.append_cons] at hcalls ⊢
        exact ih _ (before ++ [c]) hcalls (h.compile (hcalls.mono (List.subset_append_left _ _))).2
  exact hrun caching [] history hcalls ⟨{}, rfl, fun _ _ _ hfound => by cases hfound⟩

/-- A call gives in a session that keeps results what it gives alone, whatever calls came before and
whatever befell the results: the same namespace, the same diagnostics in the same order, the same pack and
the same failure. Two calls whose keys are taken from the same text give the same. -/
theorem compile_replays (history : List CacheEvent) (c : CompileCall)
    (hcalls : CompileCall.Separate (CacheEvent.calls history ++ [c])) :
    ((caching.undergoAll history).compile c.options c.input).2.outcome
        = (({} : Session).compile c.options c.input).2.outcome ∧
      ∀ d ∈ CacheEvent.calls history, d.keyed = c.keyed →
        (({} : Session).compile d.options d.input).2.outcome
          = (({} : Session).compile c.options c.input).2.outcome := by
  have hreplays := replays_undergoAll history (hcalls.mono (List.subset_append_left _ _))
  refine ⟨(hreplays.compile hcalls).1, fun d hd hkeyed => ?_⟩
  have hmem : d ∈ CacheEvent.calls history ++ [c] := List.mem_append_left _ hd
  have hlast : c ∈ CacheEvent.calls history ++ [c] := List.mem_append_right _ (List.mem_singleton_self c)
  exact (CompileCall.alike_of_keyed hcalls.contents hmem hlast (hcalls.fits d hmem) (hcalls.fits c hlast)
    hkeyed).outcome

end Session

/-- A unit that hides a variable, which is worth a warning. -/
def UnitInput.shadowing : UnitInput :=
  ⟨"main.craft", "x = 1\nwhile true\n    var x = 2\n    break\n"⟩

/-- The same with other line ends. -/
def UnitInput.shadowingCrlf : UnitInput :=
  ⟨"main.craft", "x = 1\r\nwhile true\r\n    var x = 2\r\n    break\r\n"⟩

/-- The unit is compiled, its result is left by another release, and the unit is compiled with other line
ends and kept again. The next call with the warning gives the pack and the warning that it gives alone, and
so did the call before. -/
theorem Session.compile_shadowing :
    let first : CompileCall := ⟨{ warnShadow := true }, .shadowing⟩
    let second : CompileCall := ⟨{ warnShadow := true, limit := -1 }, .shadowingCrlf⟩
    let last := ((caching.undergoAll [.call first, .mishap (.outdated (fun _ => true) 0 (by decide)),
      .call second]).compile first.options first.input).2
    last.outcome = first.outcome ∧ second.outcome = first.outcome ∧ last.datapack ≠ none ∧
      last.bag.items.length = 1 := by
  intro first second last
  have halike : second.Alike first := ⟨rfl, by decide, rfl, rfl, rfl, rfl, rfl⟩
  have hsame : ∀ c ∈ [first, second, first], c.content = first.content ∧ c.keyed = first.keyed := by
    intro c hc
    simp only [List.mem_cons, List.not_mem_nil, or_false] at hc
    rcases hc with rfl | rfl | rfl
    · exact ⟨rfl, rfl⟩
    · exact ⟨halike.content, halike.keyed⟩
    · exact ⟨rfl, rfl⟩
  have hseparate : CompileCall.Separate [first, second, first] := by
    refine ⟨fun c hc => ?_, fun a ha b hb _ => ?_, fun a ha b hb _ => ?_⟩
    · simp only [List.mem_cons, List.not_mem_nil, or_false] at hc
      rcases hc with rfl | rfl | rfl <;> exact ⟨by decide, by decide, by decide, by decide, by decide⟩
    · obtain ⟨c, hc, rfl⟩ := List.mem_map.mp ha
      obtain ⟨d, hd, rfl⟩ := List.mem_map.mp hb
      rw [(hsame c hc).1, (hsame d hd).1]
    · obtain ⟨c, hc, rfl⟩ := List.mem_map.mp ha
      obtain ⟨d, hd, rfl⟩ := List.mem_map.mp hb
      rw [(hsame c hc).2, (hsame d hd).2]
  obtain ⟨hlast, hsecond⟩ := compile_replays [.call first, .mishap (.outdated (fun _ => true) 0 (by decide)),
    .call second] first hseparate
  obtain ⟨⟨hlexical, hfound⟩, hwarning, hjoinable⟩ : (first.input.file.lexicalDiagnostics = [] ∧
      (Parse.program first.input.file first.input.file.tokenize.dropLast).2 = []) ∧
      ((first.input.resolution true).diagnostics ++ (first.input.typing true).diagnostics).map (·.isError)
        = [false] ∧
      (first.input.emission first.options.warnShadow).unjoinable = [] := by decide +kernel
  have hreports : (first.input.reports true).map (·.isError) = [false] := by
    rw [UnitInput.reports, File.parse_silent hlexical hfound]
    exact hwarning
  have haccepted : first.input.IsAccepted first.options.warnShadow := by
    intro d hd
    have hmem : d.isError ∈ (first.input.reports true).map (·.isError) := List.mem_map_of_mem hd
    rw [hreports] at hmem
    exact List.mem_singleton.mp hmem
  have hkeeps : ({} : Session).KeepsNothing := ⟨rfl, rfl⟩
  have hpack := compile_pack hkeeps rfl haccepted hjoinable
  have hjudged := compile_judged hkeeps ((compile_failure_iff hkeeps).mpr ⟨rfl, haccepted.isSound rfl⟩)
  have hstopped := (Bool.and_eq_true_iff.mp (haccepted.isPacked hjoinable 0)).1
  have hitems :
      (({} : Session).compile first.options first.input).2.bag.items = first.input.reports true := by
    have hbag := hjudged.bag
    rw [Bag.Received, hjudged.limit] at hbag
    rw [hbag, show first.options.limit.toNat = 0 from rfl, Bag.keep_zero, UnitInput.given,
      if_neg (by simpa using hstopped), hjoinable, List.append_nil]
  refine ⟨hlast, hsecond second (by simp [CacheEvent.calls]) halike.keyed, ?_, ?_⟩
  · rw [show last.datapack = _ from congrArg (·.2.2.1) hlast]
    rw [CompilationUnit.outcome, hpack]
    exact Option.some_ne_none _
  · rw [show last.bag = _ from congrArg (·.2.1) hlast, CompilationUnit.outcome, hitems, ← List.length_map,
      hreports]
    rfl

/-!
## Every diagnostic points into the source

Compiling a unit reports at places in its text only, however faulty the text is, whatever the options are and
wherever the results come from: parsed now, kept from another call with the same text, or told again.
-/

/-- The unit has the text of an input, and all that was reported about it is shown in that text. -/
structure CompilationUnit.Points (input : UnitInput) (u : CompilationUnit) : Prop where
  file : u.file = input.file
  items : ∀ d ∈ u.bag.items, d.StandsIn input.file

open CompilationUnit (Points)

namespace Session

variable {s : Session} {o : BuildOptions} {input : UnitInput} {u : CompilationUnit} {known : Findings}
  {ns : Option Namespace} {ds : List Diagnostic}

/-- A unit points into its text if all that its bag was given does. -/
theorem points_of_reached (h : u.Reached o input known ns ds) (hds : ∀ d ∈ ds, d.StandsIn input.file) :
    u.Points input := by
  refine ⟨h.file, fun d hd => hds d ?_⟩
  rw [h.bag] at hd
  exact Bag.mem_of_mem_keep hd

/-- Generating adds the literals that cannot be joined, if anything. -/
theorem points_generateStage {shadow : Bool} (h : u.Reached o input (input.findings shadow) ns ds)
    (hds : ∀ d ∈ ds, d.StandsIn input.file) (hb : u.bag.hasErrors = false) :
    (s.generateStage u o).2.Points input := by
  have hpoints := points_of_reached h hds
  by_cases hf : (input.emission shadow).fault = none
  · obtain ⟨-, hfile, -, -, -, hbag, -⟩ := generateStage_judged (s := s) h hb hf
    refine ⟨hfile, fun d hd => ?_⟩
    rw [hbag] at hd
    rcases List.mem_append.mp (Bag.mem_of_mem_keep hd) with hd | hd
    · exact hds d hd
    · exact UnitInput.standsIn_of_mem_unjoinable hd
  · -- a unit that is given up keeps its bag
    obtain ⟨fault, hfault⟩ := Option.ne_none_iff_exists'.mp hf
    obtain ⟨note, hu⟩ := generateStage_unit (s := s) (o := o) (u := u)
    rw [h.findings, UnitInput.findings, Findings.generate_eq rfl _ _ _ hb] at hu
    change (input.program.emit _ _).fault = _ at hfault
    rw [hfault] at hu
    rw [hu]
    exact ⟨hpoints.file, hpoints.items⟩

/-- Running the stages reports at places in the text of the unit. -/
theorem points_run (hm : s.Remembers input) : (s.run (.start input o) o).2.Points input := by
  by_cases hc : s.isCancelled = true
  · rw [run, if_pos hc]
    exact ⟨rfl, List.forall_mem_nil _⟩
  · obtain ⟨limit, hload⟩ := loadParsed_of_remembers hm o
    obtain ⟨s', u, hu, hrun⟩ := run_parsed (parseStage_within hload) (Bool.eq_false_iff.mpr hc)
    rw [if_pos (input.faults_resolution o.warnShadow)] at hrun
    have hds : ∀ d ∈ Bag.keep limit.toNat input.file.parse.diagnostics
        ++ (input.resolution o.warnShadow).diagnostics ++ (input.typing o.warnShadow).diagnostics,
        d.StandsIn input.file := by
      intro d hd
      have hreported : d ∈ input.reports o.warnShadow := by
        rw [List.append_assoc] at hd
        rw [UnitInput.reports, List.append_assoc]
        rcases List.mem_append.mp hd with hd | hd
        · exact List.mem_append_left _ (Bag.mem_of_mem_keep hd)
        · exact List.mem_append_right _ hd
      exact UnitInput.standsIn_of_mem_reports hreported
    rw [hrun]
    split
    · exact points_of_reached hu hds
    · exact points_generateStage hu hds (Bool.eq_false_iff.mpr ‹_›)

/-- A result that is told again was reported about the text of the unit, and is filed under that text. -/
theorem points_of_hit {unit : CachedUnit} {pack : Datapack}
    (hfound : (s.results.bind fun cache => cache.usable? (CompileCall.mk o input).key) = some (unit, pack))
    (h : (CompileCall.mk o input).Gives unit pack) : (s.compile o input).2.Points input := by
  have hkeeps : ({} : Session).KeepsNothing := ⟨rfl, rfl⟩
  obtain ⟨s', hmeans, halone, -⟩ := compile_unit (s := {}) o input hkeeps
  obtain ⟨houtcome, -, hfile, -⟩ := compile_of_gives hfound h
  have hbag : (s.compile o input).2.bag = (({} : Session).compile o input).2.bag :=
    congrArg (·.2.1) houtcome
  have hs' : s'.KeepsNothing := ⟨congrArg Prod.fst hmeans, congrArg (·.2.1) hmeans⟩
  refine ⟨hfile, ?_⟩
  rw [hbag, halone]
  exact (points_run (hs'.remembers input)).items

/-- Every diagnostic of a compiled unit, and every note on it, has the file of the unit and a span that
starts before it ends, or where it ends, and ends in the normalised content. What the session keeps of the
unit has to be what the unit gives; of a session that keeps nothing nothing is asked. -/
theorem compile_points (hm : s.Remembers input)
    (hr : ∀ cache, s.results = some cache → cache.IsTrue [⟨o, input⟩]) :
    (s.compile o input).2.Points input := by
  cases hfound : s.results.bind fun cache => cache.usable? (CompileCall.mk o input).key with
  | some found =>
    obtain ⟨unit, pack⟩ := found
    obtain ⟨cache, hcache, husable⟩ := Option.bind_eq_some_iff.mp hfound
    exact points_of_hit hfound (hr cache hcache _ (List.mem_singleton_self _) unit pack husable)
  | none =>
    obtain ⟨s', hsame, hunit, -⟩ := compile_missed o input hfound
    have hm' : s'.Remembers input := fun cache hcache =>
      hm cache ((congrArg Prod.fst hsame).symm.trans hcache)
    rw [hunit]
    exact points_run hm'

/-- A unit with a misplaced parenthesis, a name that is not declared and a sign that does not fit. -/
def misspelt : UnitInput := ⟨"main.craft", "x = -true\nprint(y)\n)"⟩

/-- The sign is shown, and the name, and the parenthesis, which is the last byte of the text. -/
theorem compile_points_misspelt : (({} : Session).compile {} misspelt).2.Points misspelt ∧
    (({} : Session).compile {} misspelt).2.bag.items.map (·.span) = [⟨0, 19, 20⟩, ⟨0, 16, 17⟩, ⟨0, 4, 5⟩] ∧
    misspelt.file.size = 20 := by
  have hkeeps : ({} : Session).KeepsNothing := ⟨rfl, rfl⟩
  have hreports : (misspelt.reports false).map (fun d => (d.span, d.isError))
      = [(⟨0, 19, 20⟩, true), (⟨0, 16, 17⟩, true), (⟨0, 4, 5⟩, true)] := by
    obtain ⟨hlexical, hspans⟩ : misspelt.file.lexicalDiagnostics = [] ∧
        ((Parse.program misspelt.file misspelt.file.tokenize.dropLast).2.map (·.diagnostic)
            ++ (misspelt.resolution false).diagnostics ++ (misspelt.typing false).diagnostics).map
          (fun d => (d.span, d.isError))
          = [(⟨0, 19, 20⟩, true), (⟨0, 16, 17⟩, true), (⟨0, 4, 5⟩, true)] := by decide +kernel
    rw [UnitInput.reports, File.parse_diagnostics hlexical]
    exact hspans
  have hstopped : misspelt.isStopped false 0 = true := by
    have hany := congrArg (List.any · Prod.snd) hreports
    rw [List.any_map] at hany
    exact hany
  have hsound : misspelt.IsSound {} :=
    ⟨misspelt.faults_resolution false, fun hgone => by cases hstopped.symm.trans hgone⟩
  have hjudged := compile_judged hkeeps ((compile_failure_iff (o := {}) hkeeps).mpr ⟨rfl, hsound⟩)
  have hitems : (({} : Session).compile {} misspelt).2.bag.items = misspelt.reports false := by
    have hbag := hjudged.bag
    rw [Bag.Received, hjudged.limit] at hbag
    rw [hbag]
    exact if_pos hstopped
  have hempty : ∀ cache, ({} : Session).results = some cache → cache.IsTrue [⟨{}, misspelt⟩] :=
    fun cache hcache => absurd (hkeeps.2.symm.trans hcache) (Option.some_ne_none cache).symm
  refine ⟨compile_points (hkeeps.remembers _) hempty, ?_, by decide⟩
  rw [hitems]
  have hspans := congrArg (List.map Prod.fst) hreports
  rwa [List.map_map] at hspans

end Session

end Craftlang
