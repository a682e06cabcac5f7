import Craftlang.Proofs.Scope.Declarers
import Craftlang.Proofs.Scope.Stack

/-!
# Declarations that hide others

A declaration hides what its name means in an outer scope, unless the name is declared in its own scope already.
Whoever asks for it is warned about that, and nothing else depends on whether one asks. The warnings are those that
a walk with an environment expects, one for each declaration that hides another.
-/

namespace Craftlang

open NameWalk

/-- Does a diagnostic say that a declaration hides another one? -/
def Diagnostic.isShadowing (d : Diagnostic) : Bool := d.code == .shadowedName

/-! ## Warnings are additional -/

namespace Resolution

/-- What is known without the warnings about hidden declarations. -/
def quiet (r : Resolution) : Resolution := { r with diagnostics := r.diagnostics.filter (!·.isShadowing) }

@[simp] theorem table_quiet (r : Resolution) : r.quiet.table = r.table := rfl

@[simp] theorem resources_quiet (r : Resolution) : r.quiet.resources = r.resources := rfl

/-- What is an error is no such warning. -/
theorem quiet_report (r : Resolution) (p : NameProblem) (span : Span) (notes : List Note) (h : p.severity = .error) :
    (r.report p span notes).quiet = r.quiet.report p span notes := by
  have hkept : [Diagnostic.mk p.severity p.code p.message span notes].filter (!·.isShadowing)
      = [Diagnostic.mk p.severity p.code p.message span notes] := by
    cases p <;> first | rfl | cases h
  have hlist := List.filter_append (p := (!·.isShadowing)) r.diagnostics
    [Diagnostic.mk p.severity p.code p.message span notes]
  rw [hkept] at hlist
  exact congrArg (fun ds => { r with diagnostics := ds }) hlist

theorem quiet_report_shadows (r : Resolution) (name : Bytes) (span : Span) (notes : List Note) :
    (r.report (.shadows name) span notes).quiet = r.quiet := by
  have hlist := List.filter_append (p := (!·.isShadowing)) r.diagnostics
    [Diagnostic.mk .warning .shadowedName (NameProblem.shadows name).message span notes]
  exact congrArg (fun ds => { r with diagnostics := ds }) (hlist.trans (List.append_nil _))

/-- The table that comes of a declaration, and its number. -/
def entered (checked : Resolution) : Option (SymbolTable × Nat) → Resolution × Nat
  | some (table, id) => ({ checked with table }, id)
  | none => (checked, 0)

section

variable (w : Bool) (path : List Nat)

theorem declare_eq_entered (r : Resolution) (y : Symbol) : r.declare w path y = (r.checkDeclaration w path y).entered
    ((r.checkDeclaration w path y).table.declare? (path.headD 0) (r.localized path y)) := rfl

theorem quiet_checkDeclaration (r : Resolution) (y : Symbol) :
    (r.checkDeclaration w path y).quiet = r.quiet.checkDeclaration false path y := by
  cases path with
  | nil => rfl
  | cons here outer =>
    rw [checkDeclaration, checkDeclaration, table_quiet]
    cases r.table.findLocal? here y.name with
    | some previous => exact quiet_report r _ _ _ rfl
    | none =>
      cases w with
      | false => rfl
      | true =>
        cases r.table.findAlong? outer y.name with
        | none => rfl
        | some hidden => exact quiet_report_shadows r _ _ _

theorem quiet_declare (r : Resolution) (y : Symbol) :
    ((r.declare w path y).1.quiet, (r.declare w path y).2) = r.quiet.declare false path y := by
  have hentered (q : Resolution) (found : Option (SymbolTable × Nat)) :
      ((q.entered found).1.quiet, (q.entered found).2) = q.quiet.entered found := by
    cases found <;> rfl
  rw [declare_eq_entered, hentered, declare_eq_entered, ← quiet_checkDeclaration w]
  rfl

end

/-- Asked for warnings or not, a step of the resolver does the same to everything else. -/
def Quiets (f g : Resolution → Resolution) : Prop := ∀ r, (f r).quiet = g r.quiet

namespace Quiets

variable {f f' g g' : Resolution → Resolution}

theorem andThen (h : Quiets f f') (h' : Quiets g g') : Quiets (g ∘ f) (g' ∘ f') := fun r => by
  rw [Function.comp_apply, h', h]
  rfl

theorem each {α : Type} {f f' : Resolution → α → Resolution} (h : ∀ a, Quiets (f · a) (f' · a)) (as : List α) :
    Quiets (fun r => as.foldl f r) fun r => as.foldl f' r := by
  induction as with
  | nil => exact fun r => rfl
  | cons a as ih => exact (h a).andThen ih

end Quiets

theorem quiets_ident (path : List Nat) (i : Ident) : Quiets (ident path · i) (ident path · i) := by
  intro r
  dsimp only
  rw [ident, ident, table_quiet]
  cases r.table.findAlong? path i.name with
  | some symbol => rfl
  | none =>
    exact congrArg (fun q : Resolution => { q with refs := q.refs ++ [(i.node.id, SymbolTable.errorSymbol)] })
      (quiet_report r (.undefined i.name) i.node.span [] rfl)

theorem quiets_typeRef (path : List Nat) (type : Name) : Quiets (typeRef path · type) (typeRef path · type) := by
  intro r
  dsimp only
  rw [typeRef, typeRef, table_quiet]
  have hbind {q q' : Resolution} (h : q.quiet = q') : quiet { q with types := q.types ++ [(type.span, SymbolTable.errorSymbol)] }
      = { q' with types := q'.types ++ [(type.span, SymbolTable.errorSymbol)] } :=
    congrArg (fun q : Resolution => { q with types := q.types ++ [(type.span, SymbolTable.errorSymbol)] }) h
  cases r.table.findAlong? path type.text with
  | none => exact hbind (quiet_report r (.unknownType type.text) type.span [] rfl)
  | some symbol =>
    dsimp only
    split
    · rfl
    · exact hbind (quiet_report r _ type.span _ rfl)

section

variable (w : Bool)

theorem quiets_target (path : List Nat) (op : AssignOp) (i : Ident) :
    Quiets (target w path · op i) (target false path · op i) := by
  intro r
  dsimp only
  rw [target, target, table_quiet]
  cases r.table.findAlong? path i.name with
  | some symbol => rfl
  | none =>
    dsimp only
    split
    · rw [← quiet_declare w]
      rfl
    · exact congrArg (fun q : Resolution => { q with refs := q.refs ++ [(i.node.id, SymbolTable.errorSymbol)] })
        (quiet_report r (.undeclared op i.name) i.node.span [] rfl)

mutual

theorem quiets_expr (path : List Nat) : (e : Expr) → Quiets (expr w path · e) (expr false path · e)
  | .error _ | .constant .. => fun _ => rfl
  | .ident i => quiets_ident path i
  | .binary _ _ _ left right => (quiets_expr path left).andThen (quiets_expr path right)
  | .unary _ _ operand => quiets_expr path operand
  | .group _ inner => quiets_expr path inner
  | .call _ callee args => (quiets_expr path callee).andThen (quiets_exprs path args)
  | .assign _ op _ i value => (quiets_expr path value).andThen (quiets_target w path op i)

theorem quiets_exprs (path : List Nat) : (es : List Expr) → Quiets (exprs w path · es) (exprs false path · es)
  | [] => fun _ => rfl
  | e :: es => (quiets_expr path e).andThen (quiets_exprs path es)

end

theorem quiets_expr? (path : List Nat) (e : Option Expr) : Quiets (expr? w path · e) (expr? false path · e) := by
  cases e with
  | none => exact fun _ => rfl
  | some e => exact quiets_expr w path e

theorem quiets_typeRef? (path : List Nat) (type : Option Name) :
    Quiets (typeRef? path · type) (typeRef? path · type) := by
  cases type with
  | none => exact fun _ => rfl
  | some type => exact quiets_typeRef path type

/-- A declaration, and what is noted of its number. -/
theorem quiets_declare (path : List Nat) (y : Symbol) (note : Resolution → Nat → Resolution)
    (hnote : ∀ n, Quiets (note · n) (note · n)) :
    Quiets (fun r => note (r.declare w path y).1 (r.declare w path y).2)
      fun r => note (r.declare false path y).1 (r.declare false path y).2 := by
  intro r
  dsimp only
  rw [← quiet_declare w]
  exact hnote _ _

/-- What is resolved in a scope of its own. -/
theorem quiets_within (kind : ScopeKind) (path : List Nat) (span : Span) {f f' : Nat → Resolution → Resolution}
    (h : ∀ scope, Quiets (f scope) (f' scope)) :
    Quiets (fun r => f (r.openScope kind path span).2 (r.openScope kind path span).1)
      fun r => f' (r.openScope kind path span).2 (r.openScope kind path span).1 :=
  fun r => h _ (r.openScope kind path span).1

mutual

theorem quiets_stmt (path : List Nat) : (s : Stmt) → Quiets (stmt w path · s) (stmt false path · s)
  | .error _ | .leave _ | .again _ | .command .. => fun _ => rfl
  | .var n name type value =>
    (quiets_typeRef? path type).andThen ((quiets_expr? w path value).andThen
      (quiets_declare w path (namedVar name) (fun r symbol => { r with decls := r.decls ++ [(n.id, symbol)] })
        fun _ _ => rfl))
  | .expr _ e => quiets_expr w path e
  | .branch _ cond body otherwise =>
    (quiets_expr w path cond).andThen ((quiets_block path body).andThen (quiets_alternative path otherwise))
  | .loop _ .before cond body => (quiets_expr w path cond).andThen (quiets_block path body)
  | .loop _ .after cond body => (quiets_block path body).andThen (quiets_expr w path cond)
  | .give _ value => quiets_expr? w path value

theorem quiets_block (path : List Nat) : (b : Block) → Quiets (block w path · b) (block false path · b)
  | .mk n body => quiets_within .block path n.span fun scope => quiets_stmts (scope :: path) body

theorem quiets_stmts (path : List Nat) : (ss : List Stmt) → Quiets (stmts w path · ss) (stmts false path · ss)
  | [] => fun _ => rfl
  | s :: rest => (quiets_stmt path s).andThen (quiets_stmts path rest)

theorem quiets_alternative (path : List Nat) : (o : Otherwise) →
    Quiets (alternative w path · o) (alternative false path · o)
  | .none => fun _ => rfl
  | .block body => quiets_block path body
  | .chain s => quiets_stmt path s

end

theorem quiet_params (path : List Nat) (r : Resolution) (ps : List Param) :
    ((params w path r ps).1.quiet, (params w path r ps).2) = params false path r.quiet ps := by
  induction ps generalizing r with
  | nil => rfl
  | cons p ps ih =>
    rw [params_cons, params_cons, ← quiet_declare w]
    exact congrArg (fun q : Resolution × List Nat => (q.1, _ :: q.2)) (ih _)

theorem quiets_function (path : List Nat) (f : Function) :
    Quiets (function w path · f) (function false path · f) := by
  have htypes : Quiets (typeHead f path) (typeHead f path) :=
    (Quiets.each (fun p : Param => quiets_typeRef path p.type) f.params).andThen (quiets_typeRef? path f.result)
  have hbind (scope : Nat) : Quiets (bindParams w f scope (scope :: path)) (bindParams false f scope (scope :: path)) := by
    intro r
    rw [bindParams, bindParams, ← quiet_params w]
    rfl
  exact htypes.andThen (quiets_within .function path f.node.span fun scope =>
    (hbind scope).andThen (quiets_stmts w (scope :: path) f.body.stmts))

theorem quiets_item (path : List Nat) (i : Item) : Quiets (item w path · i) (item false path · i) := by
  cases i with
  | error n => exact fun _ => rfl
  | function f => exact quiets_function w path f
  | typeAlias a => exact quiets_typeRef path a.target
  | stmt n s => exact quiets_stmt w path s

theorem quiets_checkResource (symbol : Nat) (name : Name) :
    Quiets (checkResource · symbol name) (checkResource · symbol name) := by
  intro r
  dsimp only
  rw [checkResource, checkResource, resources_quiet, table_quiet]
  split
  · exact quiet_report r _ _ _ rfl
  · cases r.resources.lookup (ResourceName.normalize name.text) with
    | none => rfl
    | some other =>
      dsimp only
      split
      · rfl
      · exact quiet_report r _ _ _ rfl

theorem quiets_hoist (path : List Nat) (i : Item) : Quiets (hoist w path · i) (hoist false path · i) := by
  cases i with
  | error n => exact fun _ => rfl
  | stmt n s => exact fun _ => rfl
  | typeAlias a =>
    exact quiets_declare w path { name := a.name.text, kind := .type, span := a.name.span, flags := { hoisted := true } }
      (fun r symbol => r.addItem a.node.id symbol) fun _ _ => rfl
  | function f =>
    exact quiets_declare w path
      { name := f.name.text, kind := .function, span := f.name.span, flags := { hoisted := true, isGlobal := true } }
      (fun r symbol => (r.addItem f.node.id symbol).checkResource symbol f.name)
      fun symbol r => quiets_checkResource symbol f.name (r.addItem f.node.id symbol)

end

end Resolution

/-- Resolving a program with and without warnings about hidden declarations differs in these warnings alone. -/
theorem Program.quiet_resolve (p : Program) (w : Bool) : (p.resolve w).quiet = p.resolve false :=
  ((Resolution.Quiets.each (Resolution.quiets_hoist w filePath) p.items).andThen
    (Resolution.Quiets.each (Resolution.quiets_item w filePath) p.items)) p.fileOpened

/-! ## What is hidden -/

/-- What a declaration hides: what its name means around the innermost scope, unless it is declared there already. -/
def NameEnvironment.hidden? (env : NameEnvironment) (name : Bytes) : Option Nat :=
  if ((env.frames.headD []).lookup name).isSome then none else env.leave.find? name

/-- A declaration that is written as one, and the environment it is made in. -/
abbrev DeclarationPoint := NameEnvironment × Declaration

/-- The points of one piece after the other. -/
def NameWalk.pointsOf {α : Type} (walk : α → NameWalk) (points : α → NameEnvironment → List DeclarationPoint) :
    List α → NameEnvironment → List DeclarationPoint
  | [], _ => []
  | a :: as, env => points a env ++ pointsOf walk points as (walk a env).1

mutual

/-- Declarations by assigning are not written as declarations, and there are no others in expressions. -/
def Stmt.points : Stmt → NameEnvironment → List DeclarationPoint
  | .error _, _ | .leave _, _ | .again _, _ | .command .., _ | .expr .., _ | .give .., _ => []
  | .var n name _ value, env => [((optional Expr.names value env).1, ⟨name.text, .var, name.span, .var n.id⟩)]
  | .branch _ cond body otherwise, env =>
    body.points (cond.names env).1 ++ otherwise.points (body.names (cond.names env).1).1
  | .loop _ .before cond body, env => body.points (cond.names env).1
  | .loop _ .after _ body, env => body.points env

def Block.points : Block → NameEnvironment → List DeclarationPoint
  | .mk _ body, env => Stmt.pointsOfAll body env.enter

def Stmt.pointsOfAll : List Stmt → NameEnvironment → List DeclarationPoint
  | [], _ => []
  | s :: rest, env => s.points env ++ Stmt.pointsOfAll rest (s.names env).1

def Otherwise.points : Otherwise → NameEnvironment → List DeclarationPoint
  | .none, _ => []
  | .block body, env => body.points env
  | .chain s, env => s.points env

end

def Param.points (p : Param) (env : NameEnvironment) : List DeclarationPoint := [(env, p.declaration)]

def Function.points (f : Function) (env : NameEnvironment) : List DeclarationPoint :=
  pointsOf (fun p => declare p.declaration) Param.points f.params env.enter
    ++ Stmt.pointsOfAll f.body.stmts (each (fun p : Param => declare p.declaration) f.params env.enter).1

def Item.points : Item → NameEnvironment → List DeclarationPoint
  | .function f, env => f.points env
  | .stmt _ s, env => s.points env
  | .error _, _ | .typeAlias _, _ => []

/-- What an item declares for the whole program is hidden or hides at a point of its own. -/
def Item.hoistedPoints (i : Item) (env : NameEnvironment) : List DeclarationPoint :=
  (i.declaration?.map fun d => (env, d)).toList

/-- The declarations of a program in the order in which they are made, each with its environment. -/
def Program.points (p : Program) : List DeclarationPoint :=
  pointsOf Item.hoisted Item.hoistedPoints p.items NameEnvironment.start.enter
    ++ pointsOf Item.names Item.points p.items (each Item.hoisted p.items NameEnvironment.start.enter).1

/-- The declaration that is made, if it gets this number. -/
def NameEvent.numbered? (number : Nat) : NameEvent → Option Declaration
  | declares d n => if n = number then some d else none
  | _ => none

theorem NameEvent.numbered?_eq_some {number : Nat} {e : NameEvent} {d : Declaration} :
    e.numbered? number = some d ↔ e = .declares d number := by
  cases e with
  | declares d' n =>
    rw [numbered?]
    split
    · rename_i hn
      simp [hn]
    · rename_i hn
      simp [hn]
  | _ => simp [numbered?]

/-- The declaration with a number; those of the language are not in the program. -/
def Program.declarationAt? (p : Program) (number : Nat) : Option Declaration :=
  p.nameEvents.findSome? (·.numbered? number)

/-- A note at a declaration of the program. -/
def Program.noteAt (p : Program) (number : Nat) : List Note :=
  ((p.declarationAt? number).map fun d => ⟨d.span, "shadowed declaration here"⟩).toList

/-- The warning at a point, if something is hidden there. -/
def hidingReport? (note : Nat → List Note) : DeclarationPoint → Option Diagnostic
  | (env, d) => (env.hidden? d.name).map fun number =>
    ⟨.warning, .shadowedName, "'" ++ d.name ++ "' shadows an outer declaration", d.span, note number⟩

/-- The warnings that are expected of a program. -/
def Program.hidingReports (p : Program) : List Diagnostic := p.points.filterMap (hidingReport? p.noteAt)

/-! ## Exactly these warnings -/

/-- What a scope means by a name is a symbol. -/
theorem SymbolTable.IsOrdered.exists_symbol? {t : SymbolTable} (h : t.IsOrdered) {id y : Nat} {name : Bytes}
    (hf : t.findLocal? id name = some y) : ∃ z, t.symbol? y = some z := by
  rw [findLocal?] at hf
  obtain ⟨s, hs, hfind⟩ := Option.bind_eq_some_iff.mp hf
  obtain ⟨e, he, -, hy⟩ := Scope.mem_of_find? hfind
  rw [(h.index id s hs).bucket e he, h.symbols id s hs, declaredIn] at hy
  exact Option.isSome_iff_exists.mp (Option.isSome_of_any (List.mem_filter.mp (List.mem_filter.mp hy).1).2)

namespace Resolution

/-- The warnings about hidden declarations. -/
def hidings (r : Resolution) : List Diagnostic := r.diagnostics.filter (·.isShadowing)

section

variable {r : Resolution} {path : List Nat}

/-- What is an error is no such warning. -/
theorem hidings_report (r : Resolution) (p : NameProblem) (span : Span) (notes : List Note) (h : p.severity = .error) :
    (r.report p span notes).hidings = r.hidings := by
  have hdropped : [Diagnostic.mk p.severity p.code p.message span notes].filter (·.isShadowing) = [] := by
    cases p <;> first | rfl | cases h
  rw [hidings, report, List.filter_append, hdropped, List.append_nil]
  rfl

theorem hidings_ident (r : Resolution) (i : Ident) : (ident path r i).hidings = r.hidings := by
  rw [ident]
  split
  · rfl
  · exact hidings_report r _ _ _ rfl

theorem hidings_typeRef (r : Resolution) (type : Name) : (typeRef path r type).hidings = r.hidings := by
  rw [typeRef]
  split
  · exact hidings_report r _ _ _ rfl
  · dsimp only
    split
    · rfl
    · exact hidings_report r _ _ _ rfl

theorem hidings_checkResource (r : Resolution) (symbol : Nat) (name : Name) :
    (r.checkResource symbol name).hidings = r.hidings := by
  rw [checkResource]
  split
  · exact hidings_report r _ _ _ rfl
  · split
    · rfl
    · split
      · rfl
      · exact hidings_report r _ _ _ rfl

theorem hidings_declare (w : Bool) (r : Resolution) (y : Symbol) :
    (r.declare w path y).1.hidings = (r.checkDeclaration w path y).hidings := by
  rw [declare_eq_entered]
  cases (r.checkDeclaration w path y).table.declare? (path.headD 0) (r.localized path y) <;> rfl

/-- A declaration by assigning hides nothing, for its name means nothing. -/
theorem hidings_target (w : Bool) (r : Resolution) (op : AssignOp) (i : Ident) :
    (target w path r op i).hidings = r.hidings := by
  rw [target]
  split
  · rfl
  · rename_i hnone
    split
    · refine (hidings_declare w r (implicitVar i)).trans ?_
      cases path with
      | nil => rfl
      | cons here outer =>
        rw [SymbolTable.findAlong?, List.findSome?_cons] at hnone
        have hlocal : r.table.findLocal? here i.name = none := by
          cases hl : r.table.findLocal? here i.name with
          | none => rfl
          | some y =>
            rw [hl] at hnone
            cases hnone
        rw [hlocal] at hnone
        have houter : r.table.findAlong? outer i.name = none := hnone
        cases w <;> simp [checkDeclaration, implicitVar, hlocal, houter]
    · exact hidings_report r _ _ _ rfl

mutual

theorem hidings_expr (w : Bool) (r : Resolution) : ∀ e : Expr, (expr w path r e).hidings = r.hidings
  | .error _ | .constant .. => rfl
  | .ident i => hidings_ident r i
  | .binary _ _ _ left right => (hidings_expr w _ right).trans (hidings_expr w r left)
  | .unary _ _ operand => hidings_expr w r operand
  | .group _ inner => hidings_expr w r inner
  | .call _ callee args => (hidings_exprs w _ args).trans (hidings_expr w r callee)
  | .assign _ op _ i value => (hidings_target w _ op i).trans (hidings_expr w r value)

theorem hidings_exprs (w : Bool) (r : Resolution) : ∀ es : List Expr, (exprs w path r es).hidings = r.hidings
  | [] => rfl
  | e :: es => (hidings_exprs w _ es).trans (hidings_expr w r e)

end

/-- Declaring a name warns of what it hides in the environment that the scopes mirror. -/
theorem hidings_checkDeclaration {env : NameEnvironment} (hm : Mirrors path env r.table) (y : Symbol) {d : Declaration}
    (hname : d.name = y.name) (hspan : d.span = y.span) : (r.checkDeclaration true path y).hidings
      = r.hidings ++ (hidingReport? (r.noteAt · "shadowed declaration here") (env, d)).toList := by
  have hframes := hm.frames
  cases path with
  | nil => exact absurd rfl hm.inside
  | cons here outer =>
    obtain ⟨frame, frames, hhere, houter, hf⟩ := List.forall₂_cons_left_iff.mp hframes
    rw [checkDeclaration, hidingReport?, NameEnvironment.hidden?, NameEnvironment.find?, NameEnvironment.leave, hf,
      hname, hspan, hhere.2, Holds.findAlong? houter, List.headD_cons, List.tail_cons]
    cases frame.lookup y.name with
    | some previous => exact (hidings_report r _ _ _ rfl).trans (List.append_nil _).symm
    | none =>
      dsimp only
      cases frames.findSome? fun frame => frame.lookup y.name with
      | none => exact (List.append_nil _).symm
      | some hidden => exact List.filter_append ..

/-! The notes at hidden declarations are taken from the table of the time; in the end it still knows them. -/

/-- What is known in the end notes the same for every symbol that a name means. -/
def NotesAlike (q : Resolution) (note : Nat → List Note) : Prop :=
  ∀ scope name y, q.table.findLocal? scope name = some y → q.noteAt y "shadowed declaration here" = note y

theorem Mirrors.exists_scope {env : NameEnvironment} {t : SymbolTable} (hm : Mirrors path env t) {name : Bytes}
    {y : Nat} (h : env.hidden? name = some y) : ∃ scope, t.findLocal? scope name = some y := by
  rw [NameEnvironment.hidden?] at h
  split at h
  · cases h
  · have hframes := hm.frames
    cases path with
    | nil => exact absurd rfl hm.inside
    | cons here outer =>
      obtain ⟨frame, frames, -, houter, hf⟩ := List.forall₂_cons_left_iff.mp hframes
      rw [NameEnvironment.find?, NameEnvironment.leave, hf, List.tail_cons, ← Holds.findAlong? houter] at h
      obtain ⟨scope, -, hscope⟩ := List.exists_of_findSome?_eq_some h
      exact ⟨scope, hscope⟩

theorem hidingReport?_congr {q : Resolution} {note : Nat → List Note} (hq : NotesAlike q note) {env : NameEnvironment}
    (hm : Mirrors path env r.table) (ho : r.table.IsOrdered) (hb : r.table.Builds q.table) (d : Declaration) :
    hidingReport? (r.noteAt · "shadowed declaration here") (env, d) = hidingReport? note (env, d) := by
  rw [hidingReport?, hidingReport?]
  cases hh : env.hidden? d.name with
  | none => rfl
  | some y =>
    obtain ⟨scope, hscope⟩ := hm.exists_scope hh
    obtain ⟨z, hz⟩ := ho.exists_symbol? hscope
    have hnote : r.noteAt y "shadowed declaration here" = note y := by
      rw [← hq scope d.name y (hb.grows.found scope d.name y hscope), noteAt, noteAt, hz, hb.grows.symbol? hz]
    rw [Option.map_some, Option.map_some, hnote]

end

/-- A part of the resolver builds on the table, and it warns of what is hidden at the points of the walk it stands
for. -/
structure Warns (q : Resolution) (note : Nat → List Note) (path : List Nat) (walk : NameWalk)
    (points : NameEnvironment → List DeclarationPoint) (f : Resolution → Resolution) : Prop where
  simulates : Simulates path walk f
  warns : ∀ env es (r : Resolution), Mirrors path env r.table → Records es r → r.table.IsOrdered →
    r.table.Builds (f r).table ∧
    ((f r).table.Builds q.table → (f r).hidings = r.hidings ++ (points env).filterMap (hidingReport? note))

namespace Warns

variable {q : Resolution} {note : Nat → List Note} {path : List Nat} {first second : NameWalk}
  {points points' : NameEnvironment → List DeclarationPoint} {f g : Resolution → Resolution}

/-- What declares nothing but by assigning does not warn. -/
theorem silent (h : Simulates path first f) (hb : ∀ r : Resolution, r.table.Builds (f r).table)
    (hs : ∀ r, (f r).hidings = r.hidings) : Warns q note path first (fun _ => []) f :=
  ⟨h, fun _ _ r _ _ _ => ⟨hb r, fun _ => (hs r).trans (List.append_nil _).symm⟩⟩

theorem andThen (h : Warns q note path first points f) (h' : Warns q note path second points' g) :
    Warns q note path (first.andThen second) (fun env => points env ++ points' (first env).1) (g ∘ f) := by
  refine ⟨h.simulates.andThen h'.simulates, fun env es r hm hr ho => ?_⟩
  obtain ⟨hm', hr'⟩ := h.simulates env es r hm hr
  obtain ⟨hb, hw⟩ := h.warns env es r hm hr ho
  obtain ⟨hb', hw'⟩ := h'.warns _ _ _ hm' hr' (ho.builds hb)
  refine ⟨hb.trans hb', fun hq => ?_⟩
  rw [Function.comp_apply, hw' hq, hw (hb'.trans hq), List.filterMap_append, List.append_assoc]

theorem congr (h : Warns q note path first points f) (hp : ∀ env, points env = points' env) :
    Warns q note path first points' f := by
  rwa [← funext hp]

/-- What is resolved in a scope of its own. -/
theorem within {f : Nat → Resolution → Resolution} (kind : ScopeKind) (span : Span)
    (h : ∀ scope, Warns q note (scope :: path) first points (f scope)) :
    Warns q note path first.within (fun env => points env.enter) fun r =>
      f (r.openScope kind path span).2 (r.openScope kind path span).1 := by
  refine ⟨.within kind span fun scope => (h scope).simulates, fun env es r hm hr ho => ?_⟩
  obtain ⟨s, hs⟩ := Option.isSome_iff_exists.mp hm.scope_isSome
  obtain ⟨hb, hw⟩ := (h _).warns _ _ _ (hm.openScope kind span) (hr.openScope kind path span) (ho.openScope span hs)
  exact ⟨(SymbolTable.Builds.openScope .refl span hs).trans hb, hw⟩

theorem each {α : Type} {walk : α → NameWalk} {points : α → NameEnvironment → List DeclarationPoint}
    {f : Resolution → α → Resolution} (h : ∀ a, Warns q note path (walk a) (points a) (f · a)) (as : List α) :
    Warns q note path (NameWalk.each walk as) (pointsOf walk points as) fun r => as.foldl f r := by
  induction as with
  | nil => exact .silent .skip (fun _ => .refl) fun _ => rfl
  | cons a as ih => exact (h a).andThen ih

/-- A declaration, whatever else is noted of it. -/
theorem declare (hq : NotesAlike q note) (y : Symbol) {d : Declaration} (hname : d.name = y.name)
    (hspan : d.span = y.span) (h : Simulates path (NameWalk.declare d) f)
    (ht : ∀ r, (f r).table = (r.declare true path y).1.table)
    (hf : ∀ r, (f r).hidings = (r.declare true path y).1.hidings) :
    Warns q note path (NameWalk.declare d) (fun env => [(env, d)]) f := by
  refine ⟨h, fun env es r hm hr ho => ?_⟩
  have hb := builds_declare true path r y
  rw [ht, hf, hidings_declare]
  refine ⟨hb, fun hbq => ?_⟩
  rw [hidings_checkDeclaration hm y hname hspan, hidingReport?_congr hq hm ho (hb.trans hbq), List.filterMap_cons,
    List.filterMap_nil]
  cases hidingReport? note (env, d) <;> rfl

end Warns

section

variable {q : Resolution} {note : Nat → List Note} (path : List Nat)

theorem warns_typeRef? (type : Option Name) :
    Warns q note path (optional NameWalk.type type) (fun _ => []) (typeRef? path · type) := by
  refine .silent (simulates_typeRef? path type) (fun r => ?_) fun r => ?_
  · rw [table_typeRef?]
    exact .refl
  · cases type with
    | none => rfl
    | some type => exact hidings_typeRef r type

theorem warns_expr (e : Expr) : Warns q note path e.names (fun _ => []) (expr true path · e) :=
  .silent (simulates_expr true path e) (fun r => builds_expr true path r e) fun r => hidings_expr true r e

theorem warns_expr? (e : Option Expr) :
    Warns q note path (optional Expr.names e) (fun _ => []) (expr? true path · e) := by
  refine .silent (simulates_expr? true path e) (fun r => builds_expr? true path r e) fun r => ?_
  cases e with
  | none => rfl
  | some e => exact hidings_expr true r e

mutual

theorem warns_stmt (hq : NotesAlike q note) (path : List Nat) : (s : Stmt) → Warns q note path s.names s.points (stmt true path · s)
  | .error _ | .leave _ | .again _ | .command .. => .silent .skip (fun _ => .refl) fun _ => rfl
  | .var n name type value => by
    have hvar := Warns.declare hq (namedVar name) rfl rfl (simulates_variable true path n name) (fun _ => rfl) fun _ => rfl
    refine ((warns_typeRef? path type).andThen ((warns_expr? path value).andThen hvar)).congr fun env => ?_
    have htype : (optional NameWalk.type type env).1 = env := by cases type <;> rfl
    rw [htype]
    rfl
  | .expr _ e => warns_expr path e
  | .branch _ cond body otherwise =>
    (warns_expr path cond).andThen ((warns_block hq path body).andThen (warns_alternative hq path otherwise))
  | .loop _ .before cond body => (warns_expr path cond).andThen (warns_block hq path body)
  | .loop _ .after cond body =>
    ((warns_block hq path body).andThen (warns_expr path cond)).congr fun _ => List.append_nil _
  | .give _ value => warns_expr? path value

theorem warns_block (hq : NotesAlike q note) (path : List Nat) : (b : Block) → Warns q note path b.names b.points (block true path · b)
  | .mk n body => .within .block n.span fun scope => warns_stmts hq (scope :: path) body

theorem warns_stmts (hq : NotesAlike q note) (path : List Nat) : (ss : List Stmt) →
    Warns q note path (Stmt.namesOf ss) (Stmt.pointsOfAll ss) (stmts true path · ss)
  | [] => .silent .skip (fun _ => .refl) fun _ => rfl
  | s :: rest => (warns_stmt hq path s).andThen (warns_stmts hq path rest)

theorem warns_alternative (hq : NotesAlike q note) (path : List Nat) : (o : Otherwise) →
    Warns q note path o.names o.points (alternative true path · o)
  | .none => .silent .skip (fun _ => .refl) fun _ => rfl
  | .block body => warns_block hq path body
  | .chain s => warns_stmt hq path s

end

theorem warns_params (hq : NotesAlike q note) (ps : List Param) : Warns q note path (.each (fun p => .declare p.declaration) ps)
    (pointsOf (fun p => .declare p.declaration) Param.points ps) fun r => (params true path r ps).1 := by
  induction ps with
  | nil => exact .silent .skip (fun _ => .refl) fun _ => rfl
  | cons p ps ih =>
    exact (Warns.declare hq (namedParam p) rfl rfl (simulates_declare true path (namedParam p)) (fun _ => rfl)
      fun _ => rfl).andThen ih

/-- The parameters of a function, and what is noted of its item. -/
theorem warns_bindParams (hq : NotesAlike q note) (f : Function) (scope : Nat) :
    Warns q note path (.each (fun p => .declare p.declaration) f.params)
      (pointsOf (fun p => .declare p.declaration) Param.points f.params) (bindParams true f scope path) := by
  have hparams := warns_params path hq f.params
  refine ⟨fun env es r hm hr => ?_, hparams.warns⟩
  obtain ⟨hm', hr'⟩ := hparams.simulates env es r hm hr
  have hkeep : ∀ i : ItemSymbols, itemKey (if i.item = f.node.id then
      { i with params := (params true path r f.params).2, scope } else i) = itemKey i := by
    intro i
    split <;> rfl
  obtain ⟨hm'', hr''⟩ := simulates_items hkeep _ _ _ hm' hr'
  rw [NameWalk.skip, List.append_nil] at hr''
  exact ⟨hm'', hr''⟩

theorem warns_function (hq : NotesAlike q note) (f : Function) : Warns q note path f.names f.points (function true path · f) := by
  have hparams : Warns q note path (.each (fun p : Param => .type p.type) f.params) (fun _ => [])
      fun r => f.params.foldl (fun r p => typeRef path r p.type) r := by
    refine .silent (.each (fun p => simulates_typeRef path p.type) f.params) (fun r => ?_) fun r => ?_
    · rw [table_typeRefs]
      exact .refl
    · generalize f.params = ps
      induction ps generalizing r with
      | nil => rfl
      | cons p ps ih => exact (ih _).trans (hidings_typeRef r p.type)
  have hinside := Warns.within .function f.node.span fun scope =>
    (warns_bindParams (scope :: path) hq f scope).andThen (warns_stmts hq (scope :: path) f.body.stmts)
  refine (hparams.andThen ((warns_typeRef? path f.result).andThen hinside)).congr fun env => ?_
  have htypes : (NameWalk.each (fun p : Param => .type p.type) f.params env).1 = env := by
    generalize f.params = ps
    induction ps with
    | nil => rfl
    | cons p ps ih => exact ih
  have hresult : (optional NameWalk.type f.result env).1 = env := by cases f.result <;> rfl
  rw [htypes, hresult]
  rfl

theorem warns_item (hq : NotesAlike q note) (i : Item) : Warns q note path i.names i.points (item true path · i) := by
  cases i with
  | error n => exact .silent .skip (fun _ => .refl) fun _ => rfl
  | function f => exact warns_function path hq f
  | typeAlias a => exact warns_typeRef? path (some a.target)
  | stmt n s => exact warns_stmt hq path s

theorem warns_hoist (hq : NotesAlike q note) (i : Item) : Warns q note path i.hoisted i.hoistedPoints (hoist true path · i) := by
  cases i with
  | error n => exact .silent .skip (fun _ => .refl) fun _ => rfl
  | stmt n s => exact .silent .skip (fun _ => .refl) fun _ => rfl
  | typeAlias a =>
    exact .declare hq { name := a.name.text, kind := .type, span := a.name.span, flags := { hoisted := true } } rfl rfl
      (simulates_hoist true path (.typeAlias a)) (fun _ => rfl) fun _ => rfl
  | function f =>
    exact .declare hq
      { name := f.name.text, kind := .function, span := f.name.span, flags := { hoisted := true, isGlobal := true } }
      rfl rfl (simulates_hoist true path (.function f)) (fun r => table_checkResource _ _ _)
      fun r => hidings_checkResource _ _ _

end

/-- The language provides a table in order, in which nothing is hidden. -/
theorem hidings_resolve {p : Program} (hq : NotesAlike (p.resolve true) p.noteAt) :
    (p.resolve true).hidings = p.hidingReports := by
  have hprogram : Warns (p.resolve true) p.noteAt [SymbolTable.outermost] _ _ _ := .within .file p.span fun scope =>
    (Warns.each (warns_hoist [scope, SymbolTable.outermost] hq) p.items).andThen
      (Warns.each (warns_item [scope, SymbolTable.outermost] hq) p.items)
  exact (hprogram.warns .start [] { table := .start } mirrors_start records_start .start).2 .refl

/-- A declaration of the program has a number that nothing of the language has. -/
theorem Records.start_symbol? {es : List NameEvent} {r : Resolution} (h : Records es r) {d : Declaration} {y : Nat}
    (hd : .declares d y ∈ es) : SymbolTable.start.symbol? y = none := by
  have hnodup : (r.table.entries.map (·.1)).Nodup := by
    have hnumbers : r.table.entries.map (·.1) = (r.table.symbols.zipIdx 1).map (·.2) := by
      rw [SymbolTable.entries, List.map_map]
      rfl
    rw [hnumbers, List.zipIdx_map_snd]
    exact List.nodup_range'
  rw [h.entries, List.map_append, List.nodup_append] at hnodup
  have hmem : y ∈ (es.filterMap NameEvent.symbol?).map (·.1) :=
    List.mem_map.mpr ⟨_, List.mem_filterMap.mpr ⟨_, hd, rfl⟩, rfl⟩
  cases hz : SymbolTable.start.symbol? y with
  | none => rfl
  | some z =>
    have hstart := SymbolTable.mem_entries.mpr ⟨z, hz, rfl, rfl, rfl⟩
    exact absurd rfl (hnodup.2.2 y (List.mem_map_of_mem hstart) y hmem)

/-- In the end the table notes the declarations of the program, and nothing for what comes with the language. -/
theorem notesAlike_resolve (p : Program) (w : Bool) : NotesAlike (p.resolve w) p.noteAt := by
  intro scope name y hf
  have hrecords := records_resolve p w
  have hsound : (p.resolve w).Sound p := by
    have hr := p.hoisted w
    rw [p.resolve_eq]
    exact (extends_items w hr.sound hr.stands p.items).sound
  obtain ⟨hne, z, hz, -, hkind⟩ := hsound.valid.symbol?_of_findLocal? hf
  rw [Resolution.noteAt, hz, Program.noteAt]
  rcases hsound.origin y z hz with hstart | ⟨hbuiltin, -⟩
  · have hbuiltin : z.flags.builtin = true := by
      have hs := SymbolTable.symbol?_start hstart
      simp only [List.mem_cons, Prod.mk.injEq, List.not_mem_nil, or_false] at hs
      rcases hs with ⟨rfl, -⟩ | h | h | h | h
      · exact absurd rfl hne
      all_goals exact h.2.2.2
    have hnone : p.declarationAt? y = none := by
      cases hd : p.declarationAt? y with
      | none => rfl
      | some d =>
        obtain ⟨e, he, hnumber⟩ := List.exists_of_findSome?_eq_some hd
        rw [NameEvent.numbered?_eq_some.mp hnumber] at he
        rw [hrecords.start_symbol? he] at hstart
        cases hstart
    rw [hnone]
    exact if_pos hbuiltin
  · obtain ⟨d, hd, -⟩ := hrecords.exists_declares hsound hz hkind hbuiltin
    have hsome : (p.declarationAt? y).isSome :=
      List.findSome?_isSome_iff.mpr ⟨_, hd, by rw [NameEvent.numbered?_eq_some.mpr rfl]; rfl⟩
    obtain ⟨d', hd'⟩ := Option.isSome_iff_exists.mp hsome
    obtain ⟨e, he, hnumber⟩ := List.exists_of_findSome?_eq_some hd'
    rw [NameEvent.numbered?_eq_some.mp hnumber] at he
    obtain ⟨z', hz', -, -, hspan⟩ := hrecords.symbol? he
    rw [hz] at hz'
    cases hz'
    rw [hd', Option.map_some, ← hspan]
    exact if_neg (by rw [hbuiltin]; exact Bool.false_ne_true)

end Resolution

end Craftlang
