import Craftlang.Proofs.Build.Reliance
import Craftlang.Proofs.Scope.Shadowing

/-!
# Asking for warnings about hidden declarations

One may ask to be warned of declarations that hide others. A unit is compiled to the same pack then, and everything
else is reported as it is otherwise: later stages go by what names mean, and not by what was said about them.
-/

/-!
## Typing does not look at warnings
-/

namespace Craftlang

/-- The context without the warnings about hidden declarations. -/
def TypingContext.quiet (c : TypingContext) : TypingContext := { c with resolution := c.resolution.quiet }

namespace Typing

variable (c : TypingContext)

theorem resolveAlias_quiet (t : Typing) (r : Resolution) (unvisited : List (Nat × Nat)) (symbol : Nat) :
    t.resolveAlias r.quiet unvisited symbol = t.resolveAlias r unvisited symbol := by
  fun_induction resolveAlias t r unvisited symbol with
  | case1 unvisited symbol type hdone => exact resolveAlias_of_done hdone
  | case2 unvisited symbol hresolving => exact resolveAlias_of_resolving hresolving
  | case3 unvisited symbol target hunvisited _ _ _ hanswer closed hclosed ih =>
    rw [resolveAlias_of_unvisited (r := r.quiet) hunvisited, ih, hanswer]
    dsimp only
    rw [show namedType? _ r.quiet symbol = _ from hclosed]
  | case4 unvisited symbol target hunvisited _ _ _ hanswer hnone ih =>
    rw [resolveAlias_of_unvisited (r := r.quiet) hunvisited, ih, hanswer]
    dsimp only
    rw [show namedType? _ r.quiet symbol = _ from hnone]

theorem namedType_quiet (t : Typing) (symbol : Nat) : t.namedType c.quiet symbol = t.namedType c symbol :=
  resolveAlias_quiet ..

theorem writtenType_quiet (t : Typing) (type : Name) : t.writtenType c.quiet type = t.writtenType c type :=
  namedType_quiet ..

mutual

theorem expr_quiet (t : Typing) : (e : Expr) → expr c.quiet t e = expr c t e
  | .error _ | .constant .. | .ident _ => rfl
  | .group _ inner => by rw [expr, expr, expr_quiet]
  | .unary n op operand => by
    rw [expr.eq_def, expr.eq_def c t (.unary n op operand)]
    dsimp only
    rw [expr_quiet]
  | .binary _ _ _ left right => by
    rw [expr, expr]
    simp only [expr_quiet _ left, expr_quiet _ right]
  | .call _ target args => by
    rw [expr, expr]
    simp only [arguments_quiet t args, expr_quiet _ target]
    rfl
  | .assign _ _ _ _ value => by
    rw [expr, expr]
    simp only [expr_quiet t value]
    rfl

theorem arguments_quiet (t : Typing) : (es : List Expr) → arguments c.quiet t es = arguments c t es
  | [] => rfl
  | e :: es => by
    rw [arguments, arguments]
    simp only [expr_quiet t e, arguments_quiet _ es]

end

theorem value_quiet (t : Typing) (e : Expr) : value c.quiet t e = value c t e := by
  rw [value, value, expr_quiet]

theorem condition_quiet (t : Typing) (cond : Expr) : condition c.quiet t cond = condition c t cond := by
  rw [condition, condition, value_quiet]

theorem variableDecl_quiet (t : Typing) (node : Node) (name : Name) (type : Option Name) (init : Option Expr) :
    variableDecl c.quiet t node name type init = variableDecl c t node name type init := by
  cases type <;> cases init <;> simp only [variableDecl, value_quiet, writtenType_quiet] <;> rfl

theorem give_quiet (t : Typing) (node : Node) (result : Option Expr) :
    give c.quiet t node result = give c t node result := by
  rw [give.eq_def, give.eq_def c]
  simp only [value_quiet, expr_quiet]
  rfl

mutual

theorem stmt_quiet (c : TypingContext) (t : Typing) : (s : Stmt) → stmt c.quiet t s = stmt c t s
  | .error _ | .command .. | .leave _ | .again _ => rfl
  | .var n name type init => variableDecl_quiet c t n name type init
  | .expr _ e => by rw [stmt, stmt, expr_quiet]
  | .branch _ cond body otherwise => by
    rw [stmt, stmt, condition_quiet, block_quiet c _ body, alternative_quiet c _ otherwise]
  | .loop _ .before cond body => by
    rw [stmt, stmt, condition_quiet]
    exact block_quiet { c with inLoop := true } _ body
  | .loop _ .after cond body => by
    rw [stmt, stmt, condition_quiet]
    exact congrArg (condition c · cond) (block_quiet { c with inLoop := true } _ body)
  | .give n result => give_quiet c t n result

theorem block_quiet (c : TypingContext) (t : Typing) : (b : Block) → block c.quiet t b = block c t b
  | .mk _ body => stmts_quiet c t body

theorem stmts_quiet (c : TypingContext) (t : Typing) : (ss : List Stmt) → stmts c.quiet t ss = stmts c t ss
  | [] => rfl
  | s :: rest => by rw [stmts, stmts, stmt_quiet c t s, stmts_quiet c _ rest]

theorem alternative_quiet (c : TypingContext) (t : Typing) :
    (o : Otherwise) → alternative c.quiet t o = alternative c t o
  | .none => rfl
  | .block body => block_quiet c t body
  | .chain s => stmt_quiet c t s

end

theorem paramTypes_quiet (t : Typing) (ps : List Param) (symbols : List Nat) :
    paramTypes c.quiet t ps symbols = paramTypes c t ps symbols := by
  induction ps generalizing t symbols with
  | nil => rfl
  | cons p ps ih =>
    rw [paramTypes, paramTypes]
    simp only [writtenType_quiet, ih]

theorem declareFunction_quiet (t : Typing) (f : Function) :
    declareFunction c.quiet t f = declareFunction c t f := by
  rw [declareFunction, declareFunction]
  simp only [paramTypes_quiet, writtenType_quiet]
  rfl

theorem function_quiet (t : Typing) (f : Function) : function c.quiet t f = function c t f := by
  rw [function, function]
  split
  · rfl
  · rename_i info _
    rw [← block_quiet { c with function := some info } t f.body]
    rfl

theorem item_quiet (t : Typing) (i : Item) : item c.quiet t i = item c t i := by
  cases i with
  | error n => rfl
  | function f => exact function_quiet c t f
  | typeAlias a => exact congrArg Prod.fst (namedType_quiet c t _)
  | stmt n s => exact stmt_quiet c t s

end Typing

/-- Warnings about hidden declarations do not change how a program is typed. -/
theorem Program.typed_quiet (p : Program) (r : Resolution) : p.typed r.quiet = p.typed r := by
  let c : TypingContext := { resolution := r, aliases := p.aliases r }
  have hdeclared : Typing.declareFunction c.quiet = Typing.declareFunction c :=
    funext fun t => funext fun f => Typing.declareFunction_quiet c t f
  have hitem : Typing.item c.quiet = Typing.item c := funext fun t => funext fun i => Typing.item_quiet c t i
  change p.items.foldl (Typing.item c.quiet) (p.functions.foldl (Typing.declareFunction c.quiet) (Typing.start r)) = _
  rw [hdeclared, hitem]
  rfl

/-! ## Generating code does not look at warnings -/

/-- The context without the warnings about hidden declarations. -/
def EmissionContext.quiet (c : EmissionContext) : EmissionContext := { c with resolution := c.resolution.quiet }

namespace Emission

variable (c : EmissionContext)

mutual

theorem expr_quiet (s : Emission) : (e : Expr) → expr c.quiet s e = expr c s e
  | .error _ | .constant .. | .ident _ => rfl
  | .group _ inner | .unary _ .plus inner => by
    rw [expr, expr]
    exact expr_quiet s inner
  | .unary _ .minus operand => by
    rw [expr, expr]
    simp only [expr_quiet s operand]
    rfl
  | .unary _ .not operand => by rw [expr, expr, expr_quiet s operand]
  | .binary _ _ _ left right => by
    rw [expr, expr]
    simp only [expr_quiet _ left, expr_quiet _ right]
  | .call _ _ args => by
    rw [expr, expr]
    simp only [arguments_quiet s args]
    rfl
  | .assign _ _ _ _ value => by
    rw [expr, expr]
    simp only [expr_quiet _ value]
    rfl

theorem arguments_quiet (s : Emission) : (es : List Expr) → arguments c.quiet s es = arguments c s es
  | [] => rfl
  | e :: es => by
    rw [arguments, arguments]
    simp only [expr_quiet s e, arguments_quiet _ es]

end

mutual

theorem stmt_quiet (s : Emission) : (x : Stmt) → stmt c.quiet s x = stmt c s x
  | .error _ | .leave _ | .again _ | .command .. => rfl
  | .var _ _ _ value => by
    rw [stmt, stmt]
    simp only [expr_quiet]
    rfl
  | .expr _ e => by rw [stmt, stmt, expr_quiet]
  | .branch _ cond body otherwise => by
    rw [stmt, stmt]
    simp only [expr_quiet, block_quiet _ body, alternative_quiet _ _ otherwise]
  | .loop _ .before cond body => by
    rw [stmt, stmt]
    simp only [expr_quiet, block_quiet _ body]
  | .loop _ .after cond body => by
    rw [stmt, stmt]
    simp only [expr_quiet, block_quiet _ body]
  | .give n value => by
    rw [stmt.eq_def, stmt.eq_def c s (.give n value)]
    simp only [expr_quiet]

theorem block_quiet (s : Emission) : (b : Block) → block c.quiet s b = block c s b
  | .mk _ body => stmts_quiet s body

theorem stmts_quiet (s : Emission) : (ss : List Stmt) → stmts c.quiet s ss = stmts c s ss
  | [] => rfl
  | first :: rest => by
    rw [stmts, stmts]
    simp only [stmt_quiet _ first, stmts_quiet _ rest]

theorem alternative_quiet (s : Emission) (cond : Operand) :
    (o : Otherwise) → alternative c.quiet s cond o = alternative c s cond o
  | .none => rfl
  | .block body => by
    rw [alternative, alternative]
    simp only [block_quiet _ body]
  | .chain x => by
    rw [alternative, alternative]
    simp only [stmt_quiet _ x]

end

theorem takeParams_quiet (s : Emission) (place : Nat) (params : List Nat) :
    takeParams c.quiet s place params = takeParams c s place params := by
  induction params generalizing s place with
  | nil => rfl
  | cons param params ih =>
    rw [takeParams, takeParams]
    simp only [ih]
    rfl

theorem function_quiet (s : Emission) (name : Bytes) (params : List Nat) (body : List Stmt) :
    function c.quiet s name params body = function c s name params body := by
  rw [function, function]
  simp only [takeParams_quiet, stmts_quiet]

theorem declaredFunction_quiet (s : Emission) (f : Function) :
    declaredFunction c.quiet s f = declaredFunction c s f := by
  rw [declaredFunction, declaredFunction]
  simp only [function_quiet]
  rfl

end Emission

/-- Warnings about hidden declarations do not change the code of a program. -/
theorem Program.emit_quiet (p : Program) (r : Resolution) (t : Typing) : p.emit r.quiet t = p.emit r t := by
  let c : EmissionContext := ⟨r, t⟩
  have hfunction : Emission.declaredFunction c.quiet = Emission.declaredFunction c :=
    funext fun s => funext fun f => Emission.declaredFunction_quiet c s f
  change p.functions.foldl (Emission.declaredFunction c.quiet)
    (Emission.function c.quiet {} ResourceName.entry [] p.topLevel) = _
  rw [hfunction, Emission.function_quiet]
  rfl

/-! ## Who gives such warnings -/

/-- Parsing does not know what is declared. -/
theorem File.isShadowing_of_mem_parse {file : File} {d : Diagnostic} (hd : d ∈ file.parse.diagnostics) :
    d.isShadowing = false := by
  have hsemantic := not_isSemantic_of_mem_parse hd
  cases hs : d.isShadowing with
  | false => rfl
  | true =>
    have hcode : d.code = .shadowedName := eq_of_beq hs
    rw [Diagnostic.isSemantic, hcode] at hsemantic
    cases hsemantic

theorem Diagnostic.IsOfTypes.isShadowing {d : Diagnostic} (h : d.IsOfTypes) : d.isShadowing = false := by
  obtain ⟨problem, span, notes, rfl⟩ := h
  cases problem <;> rfl

theorem Emission.isShadowing_of_mem_unjoinable {s : Emission} {d : Diagnostic} (hd : d ∈ s.unjoinable) :
    d.isShadowing = false := by
  rw [unjoinable] at hd
  split at hd
  · cases hd
  · obtain ⟨span, -, rfl⟩ := List.mem_map.mp hd
    rfl

/-- What is expected of hidden declarations are warnings. -/
theorem Program.isError_of_mem_hidingReports {p : Program} {d : Diagnostic} (hd : d ∈ p.hidingReports) :
    d.isError = false := by
  obtain ⟨point, -, hd⟩ := List.mem_filterMap.mp hd
  obtain ⟨number, -, rfl⟩ := Option.map_eq_some_iff.mp hd
  rfl

namespace UnitInput

variable (input : UnitInput) (o : BuildOptions)

theorem quiet_resolution : (input.resolution true).quiet = input.resolution false := input.program.quiet_resolve true

theorem typing_eq : input.typing true = input.typing false := by
  rw [typing, typing, ← quiet_resolution, Program.typed_quiet]

theorem emission_eq : input.emission true = input.emission false := by
  rw [emission, emission, ← typing_eq, ← quiet_resolution, Program.emit_quiet]

theorem isShadowing_of_mem_typing {shadow : Bool} {d : Diagnostic} (hd : d ∈ (input.typing shadow).diagnostics) :
    d.isShadowing = false :=
  (Program.isOfTypes_of_mem_typed hd).isShadowing

/-- Without the warnings, the stages report the same. -/
theorem filter_reports : (input.reports true).filter (!·.isShadowing) = input.reports false := by
  have hparse : input.file.parse.diagnostics.filter (!·.isShadowing) = input.file.parse.diagnostics :=
    List.filter_eq_self.mpr fun d hd => by rw [File.isShadowing_of_mem_parse hd, Bool.not_false]
  have htyping : (input.typing true).diagnostics.filter (!·.isShadowing) = (input.typing false).diagnostics := by
    rw [typing_eq]
    exact List.filter_eq_self.mpr fun d hd => by rw [input.isShadowing_of_mem_typing hd, Bool.not_false]
  rw [reports, reports, List.filter_append, List.filter_append, hparse, htyping, ← quiet_resolution]
  rfl

/-- The warnings are those that are expected of the program. -/
theorem filter_isShadowing_reports : (input.reports true).filter (·.isShadowing) = input.program.hidingReports := by
  have hparse : input.file.parse.diagnostics.filter (·.isShadowing) = [] :=
    List.filter_eq_nil_iff.mpr fun d hd => by rw [File.isShadowing_of_mem_parse hd]; exact Bool.false_ne_true
  have htyping : (input.typing true).diagnostics.filter (·.isShadowing) = [] :=
    List.filter_eq_nil_iff.mpr fun d hd => by rw [input.isShadowing_of_mem_typing hd]; exact Bool.false_ne_true
  have hresolution := Resolution.hidings_resolve (Resolution.notesAlike_resolve input.program true)
  rw [reports, List.filter_append, List.filter_append, hparse, htyping, List.nil_append, List.append_nil]
  exact hresolution

/-- No warning is an error, so a unit is stopped by the same errors. -/
theorem any_isError_reports : (input.reports true).any (·.isError) = (input.reports false).any (·.isError) := by
  rw [← filter_reports, Bool.eq_iff_iff, List.any_eq_true, List.any_eq_true]
  refine exists_congr fun d => ⟨fun ⟨hd, herror⟩ => ⟨List.mem_filter.mpr ⟨hd, ?_⟩, herror⟩, fun ⟨hd, herror⟩ =>
    ⟨(List.mem_filter.mp hd).1, herror⟩⟩
  cases hs : d.isShadowing with
  | false => rfl
  | true =>
    have hwarning : d ∈ input.program.hidingReports :=
      input.filter_isShadowing_reports ▸ List.mem_filter.mpr ⟨hd, hs⟩
    rw [Program.isError_of_mem_hidingReports hwarning] at herror
    cases herror

/-- Without errors, generating code gives the same whether one asks for warnings or not. -/
theorem generate_findings (ns : Namespace) (format : Int) (text : Bytes) (shadow : Bool)
    (hclean : (input.reports shadow).any (·.isError) = false) :
    (input.findings shadow).generate 1 ns format text (some ⟨0, input.reports shadow⟩)
      = match (input.emission false).fault with
        | some fault => (.error (.emission fault), some ⟨0, input.reports shadow⟩)
        | none =>
          if (input.emission false).unjoinable.isEmpty then
            (.ok (packOf ns format text (input.emission false).finished ((input.typing false).packTags ns)),
              some ⟨0, input.reports shadow⟩)
          else (.error .hasErrors, some ⟨0, input.reports shadow ++ (input.emission false).unjoinable⟩) := by
  have htyping : input.typing shadow = input.typing false := by
    cases shadow
    · rfl
    · exact input.typing_eq
  have hemission : input.program.emit (input.resolution shadow) (input.typing shadow) = input.emission false := by
    cases shadow
    · rfl
    · exact input.emission_eq
  have hbag : (⟨0, input.reports shadow⟩ : Bag).hasErrors = false := hclean
  have hgenerate := Findings.generate_eq hemission ns format text hbag
  rw [htyping, Bag.addAll_unlimited rfl] at hgenerate
  rw [findings, htyping]
  exact hgenerate

/-- What the stages make of an input without a limit. -/
theorem outcome_unlimited (hlimit : o.limit.toNat = 0) (shadow : Bool) :
    input.outcome { o with warnShadow := shadow } input.file.parse.diagnostics
      = if (input.reports shadow).any (·.isError) then
          (some (input.space o.space), ⟨0, input.reports shadow⟩, none, none)
        else
          let answer := (input.findings shadow).generate 1 (input.space o.space) o.format o.description
            (some ⟨0, input.reports shadow⟩)
          (some (input.space o.space), answer.2.getD ⟨0, input.reports shadow⟩, answer.1.toOption,
            match answer.1 with
            | .ok _ | .error .hasErrors => none
            | .error e => some (.generation input.name e)) := by
  rw [outcome, hlimit, Bag.keep_zero]
  rfl

/-- Beyond what parsing, resolving and typing report, the stages make the same of an input whether one asks for
warnings or not. -/
theorem outcome_eq_reports (hlimit : o.limit.toNat = 0) :
    ∃ (more : List Diagnostic) (rest : Option Datapack × Option UnitFailure),
      (∀ d ∈ more, d.isShadowing = false) ∧ ∀ shadow,
        input.outcome { o with warnShadow := shadow } input.file.parse.diagnostics
          = (some (input.space o.space), ⟨0, input.reports shadow ++ more⟩, rest) := by
  have hall := input.outcome_unlimited o hlimit
  have hsame (shadow : Bool) : (input.reports shadow).any (·.isError) = (input.reports false).any (·.isError) := by
    cases shadow
    · rfl
    · exact input.any_isError_reports
  have hnone : ∀ d ∈ ([] : List Diagnostic), d.isShadowing = false := fun _ hd => absurd hd List.not_mem_nil
  by_cases hstopped : (input.reports false).any (·.isError) = true
  · refine ⟨[], (none, none), hnone, fun shadow => ?_⟩
    rw [hall, if_pos ((hsame shadow).trans hstopped), List.append_nil]
  have hgo (shadow : Bool) : ¬ (input.reports shadow).any (·.isError) = true := by
    rw [hsame]
    exact hstopped
  have hanswer (shadow : Bool) := input.generate_findings (input.space o.space) o.format o.description shadow
    (Bool.eq_false_iff.mpr (hgo shadow))
  cases hfault : (input.emission false).fault with
  | some fault =>
    refine ⟨[], (none, some (.generation input.name (.emission fault))), hnone, fun shadow => ?_⟩
    rw [hall, if_neg (hgo shadow), hanswer, hfault, List.append_nil]
    rfl
  | none =>
    by_cases hjoinable : (input.emission false).unjoinable.isEmpty = true
    · refine ⟨[], (some (packOf (input.space o.space) o.format o.description (input.emission false).finished
        ((input.typing false).packTags (input.space o.space))), none), hnone, fun shadow => ?_⟩
      rw [hall, if_neg (hgo shadow), hanswer, hfault, if_pos hjoinable, List.append_nil]
      rfl
    · refine ⟨(input.emission false).unjoinable, (none, none), fun _ hd => Emission.isShadowing_of_mem_unjoinable hd,
        fun shadow => ?_⟩
      rw [hall, if_neg (hgo shadow), hanswer, hfault, if_neg hjoinable]
      rfl

end UnitInput

namespace Session

variable {s s' : Session}

/-- Without a limit on diagnostics, a unit that is compiled with the warnings gets the same namespace, the same pack
and the same failure, if any, and the same is reported in the same order but for the warnings. These are exactly
those that are expected: one for each declaration that hides another, with a note there if the program declares it. -/
theorem compile_warnShadow (o : BuildOptions) (input : UnitInput) (hlimit : o.limit ≤ 0)
    (hs : s.Reads { o with warnShadow := true } input ∧ s.Reliable { o with warnShadow := true } [input] ∧
      s.isCancelled = false)
    (hs' : s'.Reads { o with warnShadow := false } input ∧ s'.Reliable { o with warnShadow := false } [input] ∧
      s'.isCancelled = false) :
    let loud := (s.compile { o with warnShadow := true } input).2
    let quiet := (s'.compile { o with warnShadow := false } input).2
    loud.space = quiet.space ∧ loud.datapack = quiet.datapack ∧ loud.failure = quiet.failure ∧
      loud.bag.items.filter (!·.isShadowing) = quiet.bag.items ∧
      loud.bag.items.filter (·.isShadowing) = input.program.hidingReports := by
  intro loud quiet
  obtain ⟨more, rest, hmore, hall⟩ := input.outcome_eq_reports o (Int.toNat_eq_zero.mpr hlimit)
  have hloud := (hs.2.1.outcome_compile List.mem_cons_self hs.1 hs.2.2).trans (hall true)
  have hquiet := (hs'.2.1.outcome_compile List.mem_cons_self hs'.1 hs'.2.2).trans (hall false)
  have hitems : loud.bag.items = input.reports true ++ more := congrArg (·.2.1.items) hloud
  have hitems' : quiet.bag.items = input.reports false ++ more := congrArg (·.2.1.items) hquiet
  have hkept : more.filter (!·.isShadowing) = more :=
    List.filter_eq_self.mpr fun d hd => by rw [hmore d hd, Bool.not_false]
  have hnone : more.filter (·.isShadowing) = [] :=
    List.filter_eq_nil_iff.mpr fun d hd => by rw [hmore d hd]; exact Bool.false_ne_true
  refine ⟨?_, ?_, ?_, ?_, ?_⟩
  · exact (congrArg (·.1) hloud).trans (congrArg (·.1) hquiet).symm
  · exact (congrArg (·.2.2.1) hloud).trans (congrArg (·.2.2.1) hquiet).symm
  · exact (congrArg (·.2.2.2) hloud).trans (congrArg (·.2.2.2) hquiet).symm
  · rw [hitems, hitems', List.filter_append, input.filter_reports, hkept]
  · rw [hitems, List.filter_append, input.filter_isShadowing_reports, hnone, List.append_nil]

/-- A unit with a parameter that hides a function of the language, and a variable that hides a global one. -/
def twiceHidden : UnitInput := ⟨"main.craft", "x = 1\nfun f(print: int)\n    var x = print\n"⟩

/-- Both are worth a warning, and the global variable is shown; the pack is the same without the warnings. -/
theorem compile_warnShadow_twiceHidden :
    let loud := (({} : Session).compile { warnShadow := true } twiceHidden).2
    let quiet := (({} : Session).compile {} twiceHidden).2
    loud.datapack = quiet.datapack ∧ loud.bag.items.filter (!·.isShadowing) = quiet.bag.items ∧
      (loud.bag.items.filter (·.isShadowing)).map (fun d => (d.span, d.notes.map (·.span)))
        = [(⟨0, 12, 17⟩, []), (⟨0, 32, 33⟩, [⟨0, 0, 1⟩])] := by
  have hkeeps : ({} : Session).KeepsNothing := ⟨rfl, rfl⟩
  obtain ⟨-, hpack, -, hrest, hwarnings⟩ := @compile_warnShadow {} {} {} twiceHidden (by decide)
    ⟨reads_of_parsed _ _ rfl, hkeeps.reliable _ _, rfl⟩ ⟨reads_of_parsed _ _ rfl, hkeeps.reliable _ _, rfl⟩
  refine ⟨hpack, hrest, ?_⟩
  rw [hwarnings]
  decide +kernel

end Session

end Craftlang
