import Craftlang.Proofs.Build.Stages

/-!
# Which units have a pack

A unit has a pack exactly if no error is reported about it, as long as the limit on diagnostics lets the
first error through. Warnings count against the limit: once they have filled the bag, an error is
refused like anything else, and code is generated for a faulty unit, or a unit loses its pack without
a reason being given.
-/

namespace Craftlang

open CompilationUnit (Judged)

/-- What the units of a build are told about namespaces that are taken, one list for each unit. -/
def takenSpaces (asked : Bytes) (owners : List (Bytes × Bytes)) :
    List UnitInput → List (List Diagnostic)
  | [] => []
  | input :: inputs =>
    let space := (input.space asked).render
    match owners.lookup space with
    | none => [] :: takenSpaces asked (owners ++ [(space, input.name)]) inputs
    | some owner =>
      let span := (input.program.header.map (·.span)).getD ⟨input.file.id, 0, 0⟩
      [.error .duplicateNamespace span
        ("namespace '" ++ space ++ "' is already used by " ++ owner)]
        :: takenSpaces asked owners inputs

theorem isError_of_takenSpaces {asked : Bytes} {owners : List (Bytes × Bytes)}
    {inputs : List UnitInput} {ds : List Diagnostic} (h : ds ∈ takenSpaces asked owners inputs)
    {d : Diagnostic} (hd : d ∈ ds) : d.isError = true := by
  induction inputs generalizing owners with
  | nil => cases h
  | cons input inputs ih =>
    rw [takenSpaces] at h
    split at h
    · rcases List.mem_cons.mp h with rfl | h
      · cases hd
      · exact ih h
    · rcases List.mem_cons.mp h with rfl | h
      · rw [List.mem_singleton.mp hd]
        rfl
      · exact ih h

/-- The unit of an input at the end of a build, when it was told `ds` about its namespace. -/
structure CompilationUnit.Settled (o : BuildOptions) (input : UnitInput) (ds : List Diagnostic)
    (u : CompilationUnit) : Prop where
  limit : u.bag.limit = o.limit.toNat
  bag : u.bag.Received (input.given o.warnShadow o.limit.toNat ++ ds)
  datapack : u.datapack.isSome = (input.isPacked o.warnShadow o.limit.toNat && ds.isEmpty)

open CompilationUnit (Settled)

/-- The units up to a place are what their inputs say. -/
def JudgedUpTo (o : BuildOptions) (inputs : List UnitInput) (us : List CompilationUnit) (i : Nat) :
    Prop :=
  ∀ j ≤ i, ∃ input u, inputs[j]? = some input ∧ us[j]? = some u ∧ u.Judged o input

theorem JudgedUpTo.cons {o : BuildOptions} {inputs : List UnitInput} {us : List CompilationUnit}
    {i : Nat} {input : UnitInput} {u : CompilationUnit} (hu : u.Judged o input)
    (h : JudgedUpTo o inputs us i) : JudgedUpTo o (input :: inputs) (u :: us) (i + 1)
  | 0, _ => ⟨input, u, rfl, rfl, hu⟩
  | j + 1, hj => h j (by omega)

theorem JudgedUpTo.tail {o : BuildOptions} {inputs : List UnitInput} {us : List CompilationUnit}
    {i : Nat} {input : UnitInput} {u : CompilationUnit}
    (h : JudgedUpTo o (input :: inputs) (u :: us) (i + 1)) : JudgedUpTo o inputs us i :=
  fun j hj => h (j + 1) (by omega)

theorem Judged.settled {o : BuildOptions} {input : UnitInput} {u : CompilationUnit}
    (h : u.Judged o input) : u.Settled o input [] :=
  ⟨h.limit, by simpa using h.bag, by simpa using h.datapack⟩

/-- Checking the namespaces tells every unit what the inputs say. -/
theorem checkSpaces_settled {o : BuildOptions} {owners : List (Bytes × Bytes)}
    {inputs : List UnitInput} {us : List CompilationUnit} {i : Nat} {u : CompilationUnit}
    (h : JudgedUpTo o inputs us i) (hu : (checkSpaces owners us)[i]? = some u) :
    ∃ input ds, inputs[i]? = some input ∧ (takenSpaces o.space owners inputs)[i]? = some ds ∧
      u.Settled o input ds := by
  induction inputs generalizing owners us i with
  | nil => obtain ⟨_, _, hn, -⟩ := h 0 (by omega); cases hn
  | cons input inputs ih =>
    obtain ⟨_, v, hi, hv, hj⟩ := h 0 (by omega)
    cases hi
    cases us with
    | nil => cases hv
    | cons w us =>
      cases hv
      simp only [checkSpaces, hj.failure, hj.space, hj.name] at hu
      simp only [takenSpaces]
      cases hl : owners.lookup (input.space o.space).render with
      | none =>
        simp only [hl] at hu
        cases i with
        | zero =>
          cases hu
          exact ⟨input, [], rfl, rfl, Judged.settled hj⟩
        | succ i => exact ih h.tail hu
      | some owner =>
        simp only [hl] at hu
        cases i with
        | zero =>
          cases hu
          refine ⟨input, _, rfl, rfl, ?_, ?_, ?_⟩
          · exact (Bag.limit_addAll _ _).trans hj.limit
          · have hd : v.duplicateSpace (input.space o.space).render owner
                = .error .duplicateNamespace
                    ((input.program.header.map (·.span)).getD ⟨input.file.id, 0, 0⟩)
                    ("namespace '" ++ (input.space o.space).render ++ "' is already used by "
                      ++ owner) := by
              rw [CompilationUnit.duplicateSpace, hj.program, hj.file]
              rfl
            rw [← hd]
            exact hj.bag.addAll _
          · simp
        | succ i => exact ih h.tail hu

/-- Checking the namespaces gives no unit up. -/
theorem checkSpaces_failure {owners : List (Bytes × Bytes)} {us : List CompilationUnit} {i : Nat}
    {u : CompilationUnit} (hu : (checkSpaces owners us)[i]? = some u) :
    ∃ v, us[i]? = some v ∧ v.failure = u.failure := by
  induction us generalizing owners i with
  | nil => cases hu
  | cons w us ih =>
    rw [checkSpaces] at hu
    split at hu
    · split at hu
      · cases i with
        | zero => cases hu; exact ⟨_, rfl, rfl⟩
        | succ i => exact ih hu
      · cases i with
        | zero => cases hu; exact ⟨_, rfl, rfl⟩
        | succ i => exact ih hu
    · cases i with
      | zero => cases hu; exact ⟨_, rfl, rfl⟩
      | succ i => exact ih hu

theorem length_checkSpaces (owners : List (Bytes × Bytes)) (us : List CompilationUnit) :
    (checkSpaces owners us).length = us.length := by
  induction us generalizing owners with
  | nil => rfl
  | cons u us ih =>
    rw [checkSpaces]
    split
    · split <;> simp [ih]
    · simp [ih]

namespace UnitInput

variable {input : UnitInput} {shadow : Bool} {n : Nat} {ds : List Diagnostic}

/-- What a limit lets through is free of errors if everything is. -/
theorem isStopped_of_unlimited (h : input.isStopped shadow 0 = false) :
    input.isStopped shadow n = false := by
  rw [isStopped, List.any_eq_false] at h ⊢
  intro d hd
  exact h d (by simpa using Bag.mem_of_mem_keep hd)

theorem IsSound.unlimited {o : BuildOptions} (h : input.IsSound o) :
    input.IsSound { o with limit := 0 } :=
  ⟨h.1, fun hs => h.2 (isStopped_of_unlimited hs)⟩

/-- A limit shows the beginning of what is reported without one, also where it lets code be generated
that would not be generated otherwise: the bag is full by then. -/
theorem keep_given (input : UnitInput) (shadow : Bool) (n : Nat) (ds : List Diagnostic) :
    Bag.keep n (input.given shadow n ++ ds)
    = Bag.keep n (input.given shadow 0 ++ ds) := by
  cases h₀ : input.isStopped shadow 0 with
  | false => rw [given, given, isStopped_of_unlimited h₀, h₀]
  | true =>
    cases hs : input.isStopped shadow n with
    | true => rw [given, given, if_pos hs, if_pos h₀]
    | false =>
      have hn : n ≠ 0 := by
        rintro rfl
        rw [hs] at h₀
        cases h₀
      have hl : n ≤ (input.reports shadow).length := by
        refine Nat.le_of_not_lt fun hl => ?_
        rw [isStopped, Bag.keep, if_neg hn, List.take_of_length_le (by omega)] at hs
        rw [isStopped, Bag.keep_zero, hs] at h₀
        cases h₀
      rw [given, given, if_neg (by simp [hs]), if_pos h₀, List.append_assoc,
        Bag.keep_append_of_le (by omega) hl, Bag.keep_append_of_le (by omega) hl]

/-- A unit with a pack keeps no error. -/
theorem any_keep_of_isPacked (h : input.isPacked shadow n = true) :
    (Bag.keep n (input.given shadow 0)).any (·.isError) = false := by
  rw [isPacked, Bool.and_eq_true, Bool.not_eq_true', List.isEmpty_iff] at h
  have hg := keep_given input shadow n []
  rw [List.append_nil, List.append_nil] at hg
  rw [← hg, given, if_neg (by simp [h.1]), h.2, List.append_nil]
  exact h.1

/-- A unit about which no error is reported has a pack. -/
theorem isPacked_of_any (h : (input.given shadow 0).any (·.isError) = false) :
    input.isPacked shadow n = true := by
  have hs : input.isStopped shadow 0 = false := by
    cases hs : input.isStopped shadow 0 with
    | false => rfl
    | true =>
      rw [given, if_pos hs] at h
      rw [isStopped, Bag.keep_zero, h] at hs
      cases hs
  rw [given, if_neg (by simp [hs]), List.any_append, Bool.or_eq_false_iff] at h
  rw [isPacked, isStopped_of_unlimited hs, Bool.not_false, Bool.true_and, List.isEmpty_iff]
  refine List.eq_nil_iff_forall_not_mem.mpr fun d hd => ?_
  exact (List.any_eq_false.mp h.2 d hd) (Emission.isError_of_mem_unjoinable hd)

end UnitInput

/-- A unit at the end of a build beside itself at the end of the same build without a limit: it has a
pack exactly if it should, and is told why if it has none, as long as the limit lets an error through. -/
theorem Settled.gate {o : BuildOptions} {input : UnitInput} {ds : List Diagnostic}
    {u u₀ : CompilationUnit} (h : u.Settled o input ds)
    (h₀ : u₀.Settled { o with limit := 0 } input ds) (hd : ∀ d ∈ ds, d.isError = true) :
    ((u.datapack.isSome = true ↔ u₀.bag.hasErrors = false) ∧
        (u.datapack = none → u.bag.hasErrors = true)) ↔
      (0 < o.limit → u₀.bag.hasErrors = true →
        (u₀.bag.items.take o.limit.toNat).any (·.isError) = true) := by
  have hb₀ : u₀.bag.items = input.given o.warnShadow 0 ++ ds := by
    have hb := h₀.bag
    rw [Bag.Received, h₀.limit] at hb
    exact hb
  have hb : u.bag.items = Bag.keep o.limit.toNat u₀.bag.items := by
    have hb := h.bag
    rw [Bag.Received, h.limit, UnitInput.keep_given, ← hb₀] at hb
    exact hb
  have hpack : u.datapack.isSome = true → u.bag.hasErrors = false := by
    rw [h.datapack, Bool.and_eq_true, List.isEmpty_iff]
    rintro ⟨hp, rfl⟩
    rw [Bag.hasErrors, hb, hb₀, List.append_nil]
    exact UnitInput.any_keep_of_isPacked hp
  have hfree : u₀.bag.hasErrors = false → u.datapack.isSome = true := by
    rw [Bag.hasErrors, hb₀, List.any_append, Bool.or_eq_false_iff]
    rintro ⟨hg, hds⟩
    have hnil : ds = [] := List.eq_nil_iff_forall_not_mem.mpr fun d hm =>
      List.any_eq_false.mp hds d hm (hd d hm)
    rw [h.datapack, UnitInput.isPacked_of_any hg, hnil]
    rfl
  have hkept : 0 < o.limit → u.bag.hasErrors
      = (u₀.bag.items.take o.limit.toNat).any (·.isError) := by
    intro hl
    rw [Bag.hasErrors, hb, Bag.keep_of_pos (by omega)]
    rfl
  constructor
  · rintro ⟨hiff, hwhy⟩ hl he
    rw [← hkept hl]
    refine hwhy (Option.not_isSome_iff_eq_none.mp fun hs => ?_)
    rw [hiff.mp hs] at he
    cases he
  · intro hshown
    have hall : u₀.bag.hasErrors = true → u.bag.hasErrors = true := by
      intro he
      by_cases hl : 0 < o.limit
      · rw [hkept hl]
        exact hshown hl he
      · have hz : o.limit.toNat = 0 := by omega
        rw [Bag.hasErrors, hb, hz]
        exact he
    refine ⟨⟨fun hs => ?_, hfree⟩, fun hn => hall ?_⟩
    · cases he : u₀.bag.hasErrors with
      | false => rfl
      | true =>
        rw [hpack hs] at hall
        cases hall he
    · cases he : u₀.bag.hasErrors with
      | true => rfl
      | false =>
        rw [hn] at hfree
        cases hfree he

namespace Session

variable {s : Session} {o : BuildOptions} {inputs : List UnitInput}

/-- After its first unit a build goes on in a session that is cancelled if the unit was given up. -/
theorem compileEach_cons (o : BuildOptions) (input : UnitInput) (inputs : List UnitInput)
    (hk : s.KeepsNothing) : ∃ s' : Session,
    s'.KeepsNothing ∧
    s'.isCancelled = (s.isCancelled || (s.compile o input).2.failure.isSome) ∧
    (s.compileEach o (input :: inputs)).2
      = (s.compile o input).2 :: (s'.compileEach o inputs).2 := by
  obtain ⟨-, -, -, hm⟩ := compile_unit o input hk
  rw [← show (s.compile o input).1.isCancelled = s.isCancelled from congrArg (·.2.2) hm]
  exact ⟨_, ⟨(congrArg (·.1) hm).trans hk.1, (congrArg (·.2.1) hm).trans hk.2⟩, rfl, rfl⟩

/-- A unit that was not given up comes after units that were not. -/
theorem compileEach_sound (hk : s.KeepsNothing) {i : Nat} {u : CompilationUnit}
    (hu : (s.compileEach o inputs).2[i]? = some u) (hf : u.failure = none) :
    s.isCancelled = false ∧ ∀ input ∈ inputs.take (i + 1), input.IsSound o := by
  induction inputs generalizing s i with
  | nil => cases hu
  | cons input inputs ih =>
    obtain ⟨s', hk', hc', hs⟩ := compileEach_cons o input inputs hk
    rw [hs] at hu
    cases i with
    | zero =>
      cases hu
      obtain ⟨hn, hi⟩ := (compile_failure_iff hk).mp hf
      exact ⟨hn, by simpa using hi⟩
    | succ i =>
      obtain ⟨hn, hr⟩ := ih hk' hu
      rw [hc', Bool.or_eq_false_iff] at hn
      have hf' : (s.compile o input).2.failure = none := by simpa using hn.2
      have hh := (compile_failure_iff hk).mp hf'
      refine ⟨hh.1, ?_⟩
      intro x hx
      rcases List.mem_cons.mp (by simpa using hx) with rfl | hx
      · exact hh.2
      · exact hr x hx

/-- In a build that was not cancelled, the units of sound inputs are what their inputs say. -/
theorem compileEach_judged (hk : s.KeepsNothing) (hc : s.isCancelled = false) {i : Nat}
    (hi : i < inputs.length) (hs : ∀ input ∈ inputs.take (i + 1), input.IsSound o) :
    JudgedUpTo o inputs (s.compileEach o inputs).2 i := by
  induction inputs generalizing s i with
  | nil => cases hi
  | cons input inputs ih =>
    obtain ⟨s', hk', hc', hrest⟩ := compileEach_cons o input inputs hk
    have hf := (compile_failure_iff hk).mpr ⟨hc, hs input (by simp)⟩
    have hj := compile_judged hk hf
    rw [hrest]
    cases i with
    | zero =>
      intro j hj'
      obtain rfl : j = 0 := by omega
      exact ⟨input, _, rfl, rfl, hj⟩
    | succ i =>
      refine JudgedUpTo.cons hj (ih hk' ?_ (by simpa using hi) fun x hx => hs x (by simp [hx]))
      rw [hc', hc, hf]
      rfl

theorem length_compileEach : (s.compileEach o inputs).2.length = inputs.length := by
  induction inputs generalizing s with
  | nil => rfl
  | cons input inputs ih => exact congrArg (· + 1) ih

/-- The units of a build, before and after their namespaces are checked. -/
theorem compileAll_units (s : Session) (o : BuildOptions) (inputs : List UnitInput) :
    ∃ s' : Session, s'.means = s.means ∧ (s.compileAll o inputs).2 = checkSpaces []
      (s'.compileEach (if 1 < inputs.length then { o with space := [] } else o) inputs).2 := by
  refine ⟨_, ?_, rfl⟩
  have hq : ∀ (us : List UnitInput) (s : Session),
      (us.foldl (fun s input => s.announce ⟨input.name, none, .queued, none⟩) s).means = s.means := by
    intro us
    induction us with
    | nil => intro s; rfl
    | cons u us ih => intro s; exact ih _
  exact hq inputs _

/-- Every input of a build becomes a unit. -/
theorem length_compileAll (s : Session) (o : BuildOptions) (inputs : List UnitInput) :
    (s.compileAll o inputs).2.length = inputs.length := by
  obtain ⟨s', -, hus⟩ := compileAll_units s o inputs
  rw [hus, length_checkSpaces, length_compileEach]

/-- In a build that keeps nothing, take a unit that was not given up, and the same unit built without
a limit. It has a pack exactly if nothing is wrong with it, and an error says so if it has none, if and
only if the first error about it comes before the limit is reached. -/
theorem datapack_iff_of_error_within_limit (hk : s.KeepsNothing) {i : Nat} {u : CompilationUnit}
    (hu : (s.compileAll o inputs).2[i]? = some u) (hf : u.failure = none) :
    ∃ u₀, (s.compileAll { o with limit := 0 } inputs).2[i]? = some u₀ ∧
      (((u.datapack.isSome = true ↔ u₀.bag.hasErrors = false) ∧
          (u.datapack = none → u.bag.hasErrors = true)) ↔
        (0 < o.limit → u₀.bag.hasErrors = true →
          (u₀.bag.items.take o.limit.toNat).any (·.isError) = true)) := by
  obtain ⟨s₁, hm₁, hu₁⟩ := compileAll_units s o inputs
  obtain ⟨s₂, hm₂, hu₂⟩ := compileAll_units s { o with limit := 0 } inputs
  have hk₁ : s₁.KeepsNothing := hk.of_means hm₁
  have hk₂ : s₂.KeepsNothing := hk.of_means hm₂
  have ho : (if 1 < inputs.length then { { o with limit := 0 } with space := [] }
        else { o with limit := 0 } : BuildOptions)
      = { (if 1 < inputs.length then { o with space := [] } else o) with limit := 0 } := by
    split <;> rfl
  have hlim : (if 1 < inputs.length then { o with space := [] } else o).limit = o.limit := by
    split <;> rfl
  rw [ho] at hu₂
  rw [hu₁] at hu
  rw [hu₂]
  generalize (if 1 < inputs.length then { o with space := [] } else o) = o' at hu hlim ⊢
  rw [← hlim]
  have hi : i < inputs.length := by
    obtain ⟨h, -⟩ := List.getElem?_eq_some_iff.mp hu
    rwa [length_checkSpaces, length_compileEach] at h
  obtain ⟨v, hv, hvf⟩ := checkSpaces_failure hu
  obtain ⟨hc, hsound⟩ := compileEach_sound hk₁ hv (hvf.trans hf)
  have hc₂ : s₂.isCancelled = false := by
    rw [← hc]
    exact congrArg (·.2.2) (hm₂.trans hm₁.symm)
  have hj := compileEach_judged hk₁ hc hi hsound
  have hj₂ := compileEach_judged hk₂ hc₂ hi fun x hx => (hsound x hx).unlimited
  obtain ⟨u₀, hu₀⟩ : ∃ u₀, (checkSpaces []
      (s₂.compileEach { o' with limit := 0 } inputs).2)[i]? = some u₀ :=
    ⟨_, List.getElem?_eq_getElem (by rwa [length_checkSpaces, length_compileEach])⟩
  obtain ⟨input, ds, hin, hds, hset⟩ := checkSpaces_settled hj hu
  obtain ⟨input', ds', hin', hds', hset₀⟩ := checkSpaces_settled hj₂ hu₀
  obtain rfl : input = input' := Option.some.inj (hin.symm.trans hin')
  obtain rfl : ds = ds' := Option.some.inj (hds.symm.trans hds')
  have herr : ∀ d ∈ ds, d.isError = true := fun d hd =>
    isError_of_takenSpaces (List.mem_of_getElem? hds) hd
  exact ⟨u₀, hu₀, Settled.gate hset hset₀ herr⟩

/-- A build of one unit ends with the unit as its input says. -/
theorem compileAll_singleton (o : BuildOptions) (input : UnitInput) (hk : s.KeepsNothing)
    (hc : s.isCancelled = false) (hs : input.IsSound o) :
    ∃ u, (s.compileAll o [input]).2[0]? = some u ∧ u.Judged o input := by
  obtain ⟨s', hm, hu⟩ := compileAll_units s o [input]
  have hk' : s'.KeepsNothing := hk.of_means hm
  have hj := compile_judged hk' ((compile_failure_iff hk').mpr
    ⟨(congrArg (·.2.2) hm).trans hc, hs⟩)
  refine ⟨(s'.compile o input).2, ?_, hj⟩
  rw [hu, if_neg (by simp)]
  change (checkSpaces [] [(s'.compile o input).2])[0]? = _
  rw [checkSpaces, hj.failure, hj.space]
  rfl

end Session

/-- A unit that hides a name of the language, which is worth a warning, and then stops a loop where
there is none. -/
def UnitInput.hidingBreak : UnitInput := ⟨"main.craft", "var int = 1\nbreak\n"⟩

theorem UnitInput.reports_hidingBreak :
    (hidingBreak.reports true).map (·.isError) = [false, true] := by
  obtain ⟨hl, hf, hrest⟩ : Parse.lexicalFindings 0 hidingBreak.file.scan = [] ∧
      (Parse.program hidingBreak.file hidingBreak.file.tokenize.dropLast).2 = [] ∧
      ((hidingBreak.resolution true).diagnostics ++ (hidingBreak.typing true).diagnostics).map (·.isError)
        = [false, true] := by decide +kernel
  have hp : hidingBreak.file.parse.diagnostics = [] := by
    simp only [File.parse_interleaves, hl, hf, Parse.interleave, List.map_nil]
  rw [reports, hp]
  exact hrest

theorem UnitInput.isStopped_hidingBreak : hidingBreak.isStopped true 1 = false ∧
    hidingBreak.isStopped true 0 = true := by
  have h : ∀ ds : List Diagnostic, ds.any (·.isError) = (ds.map (·.isError)).any id :=
    fun ds => by rw [List.any_map]; rfl
  rw [isStopped, isStopped, Bag.keep_of_pos (by omega), Bag.keep_zero, h, h, List.map_take,
    reports_hidingBreak]
  decide

/-- With room for one diagnostic the warning is all that is kept, so the unit gets a pack, although
without a limit an error is reported about it; and the error is not within the limit. -/
theorem datapack_of_hidingBreak : ∃ u u₀,
    (({} : Session).compileAll { limit := 1, warnShadow := true } [.hidingBreak]).2[0]? = some u ∧
    (({} : Session).compileAll { limit := 0, warnShadow := true } [.hidingBreak]).2[0]? = some u₀ ∧
    u.failure = none ∧ u.datapack.isSome = true ∧ u₀.bag.hasErrors = true ∧
    ¬ (u₀.bag.items.take 1).any (·.isError) = true := by
  obtain ⟨hs₁, hs₀⟩ := UnitInput.isStopped_hidingBreak
  obtain ⟨ht, he, hq⟩ : (UnitInput.hidingBreak.resolution true).table.faults = [] ∧
      (UnitInput.hidingBreak.emission true).fault = none ∧
      (UnitInput.hidingBreak.emission true).unjoinable = [] := by decide +kernel
  have hk : ({} : Session).KeepsNothing := ⟨rfl, rfl⟩
  obtain ⟨u, hu, hj⟩ := Session.compileAll_singleton
    { limit := 1, warnShadow := true } .hidingBreak hk rfl ⟨ht, fun _ => he⟩
  obtain ⟨v, hv, hj₀⟩ := Session.compileAll_singleton
    { limit := 0, warnShadow := true } .hidingBreak hk rfl ⟨ht, fun _ => he⟩
  obtain ⟨u₀, hu₀, hiff⟩ := Session.datapack_iff_of_error_within_limit hk hu hj.failure
  obtain rfl : u₀ = v := Option.some.inj (hu₀.symm.trans hv)
  have hd : u.datapack.isSome = true := by
    rw [hj.datapack]
    change UnitInput.hidingBreak.isPacked true 1 = true
    rw [UnitInput.isPacked, hs₁, hq]
    rfl
  have hb : u₀.bag.hasErrors = true := by
    rw [hj₀.bag.hasErrors_eq, hj₀.limit]
    change (UnitInput.hidingBreak.given true 0).any (·.isError) = true
    rw [UnitInput.given, if_pos hs₀]
    exact hs₀
  refine ⟨u, u₀, hu, hu₀, hj.failure, hd, hb, fun hshown => ?_⟩
  have hfree := (hiff.mpr fun _ _ => hshown).1.mp hd
  rw [hb] at hfree
  cases hfree

end Craftlang
