import Craftlang.Proofs.Scope.Functions
import Craftlang.Proofs.Tree.Frames
import Craftlang.Typing.Program

/-!
# The moves of typing

Whatever is typed, what is known changes by a few moves only: a problem is reported, a type is recorded for a
node or for a symbol, or a type is asked for by its name. Here every piece of a program is walked once; what
typing keeps then follows from what each move keeps.
-/

namespace Craftlang

/-- The places where a node may be complained about: its own, its first byte, and what it holds. -/
def NodeFrame.places (fr : NodeFrame) : List Span :=
  fr.span :: ⟨fr.span.file, fr.span.start, fr.span.start + 1⟩ :: fr.held

namespace Typing

/-- What typing is held to: the program that it asks for types, the symbols that it gives types to, and the places
where it reports. -/
structure Limits where
  resolution : Resolution
  aliases : List (Nat × Nat)
  symbols : Nat → Prop
  places : Span → Prop

namespace Limits

/-- In a context typing is held to the program alone. -/
def ofContext (c : TypingContext) : Limits := ⟨c.resolution, c.aliases, fun _ => True, fun _ => True⟩

/-- What asks for no types is not even held to a program. -/
def free : Limits := .ofContext { resolution := { table := .start } }

/-- A context keeps within limits: what is declared in it may be given types, and notes may say where. -/
structure Allow (L : Limits) (c : TypingContext) : Prop where
  resolution : c.resolution = L.resolution
  aliases : c.aliases = L.aliases
  decls : ∀ {n y}, c.resolution.declOf? n = some y → L.symbols y
  implicit : ∀ {n y}, c.resolution.implicit.lookup n = some y → L.symbols y
  notes : ∀ y text, ∀ n ∈ c.resolution.noteAt y text, L.places n.span

theorem Allow.ofContext (c : TypingContext) : (ofContext c).Allow c :=
  ⟨rfl, rfl, fun _ => trivial, fun _ => trivial, fun _ _ _ _ => trivial⟩

variable {L : Limits} {c : TypingContext}

theorem Allow.inLoop (h : L.Allow c) : L.Allow { c with inLoop := true } := ⟨h.1, h.2, h.3, h.4, h.5⟩

theorem Allow.inFunction (h : L.Allow c) (info : FunctionInfo) : L.Allow { c with function := some info } :=
  ⟨h.1, h.2, h.3, h.4, h.5⟩

/-- Typing may report wherever these nodes may be complained about. -/
def Cover (L : Limits) (frames : List NodeFrame) : Prop := ∀ fr ∈ frames, ∀ x ∈ fr.places, L.places x

theorem Cover.ofContext (c : TypingContext) {frames : List NodeFrame} : (ofContext c).Cover frames :=
  fun _ _ _ _ => trivial

theorem cover_cons {fr : NodeFrame} {frames : List NodeFrame} :
    L.Cover (fr :: frames) ↔ (∀ x ∈ fr.places, L.places x) ∧ L.Cover frames := List.forall_mem_cons

theorem cover_append {frames frames' : List NodeFrame} :
    L.Cover (frames ++ frames') ↔ L.Cover frames ∧ L.Cover frames' := List.forall_mem_append

/-- An expression may be complained about where it stands. -/
theorem Cover.span {e : Expr} (h : L.Cover e.frames) : L.places e.span := by
  cases e with
  | _ => exact h _ List.mem_cons_self _ List.mem_cons_self

end Limits

/-- Moves within limits, one after the other, that record types for the nodes of `ids` at most. -/
inductive Moves (L : Limits) : List Nat → Typing → Typing → Prop
  | stay (t : Typing) : Moves L [] t t
  | report (t : Typing) (problem : TypeProblem) (span : Span) (notes : List Note)
    (apart : problem.code ≠ .aliasCycle) (place : L.places span) (noted : ∀ n ∈ notes, L.places n.span) :
    Moves L [] t (t.report problem span notes)
  | noteExpr (t : Typing) (node : Node) (info : TypeInfo) : Moves L [node.id] t (t.noteExpr node info)
  | noteSymbol (t : Typing) (y : Nat) (info : TypeInfo) (allowed : L.symbols y) :
    Moves L [] t (t.noteSymbol y info)
  | ask (t : Typing) (y : Nat) : Moves L [] t (t.resolveAlias L.resolution L.aliases y).1
  | trans {is js ks : List Nat} {t u v : Typing} (first : Moves L is t u) (second : Moves L js u v)
    (count : ∀ x, is.count x + js.count x ≤ ks.count x) : Moves L ks t v

namespace Moves

variable {L : Limits} {t u v : Typing} {is js : List Nat}

theorem mono (h : Moves L is t u) (hk : ∀ x, is.count x ≤ js.count x) : Moves L js t u :=
  h.trans (.stay u) fun x => by simpa using hk x

/-- Moves that record no type of a node can stand before or behind others. -/
theorem behind (h : Moves L [] t u) (h' : Moves L is u v) : Moves L is t v := h.trans h' fun x => by simp

theorem before (h : Moves L is t u) (h' : Moves L [] u v) : Moves L is t v := h.trans h' fun x => by simp

end Moves

section Parts

variable {L : Limits} {c : TypingContext} (t : Typing)

theorem moves_report {problem : TypeProblem} {span : Span} (hp : problem.code ≠ .aliasCycle)
    (hspan : L.places span) : Moves L [] t (t.report problem span) :=
  .report t problem span [] hp hspan (List.forall_mem_nil _)

theorem moves_settle (node : Node) (type : Ty) : Moves L [node.id] t (t.settle node type).1 :=
  .noteExpr t node _

/-- Something reported, and the type of a node recorded. -/
theorem moves_reportSettle {problem : TypeProblem} {span : Span} (hp : problem.code ≠ .aliasCycle)
    (hspan : L.places span) {node : Node} {type : Ty} :
    Moves L [node.id] t ((t.report problem span).settle node type).1 :=
  (moves_report t hp hspan).behind (moves_settle _ node type)

theorem moves_checkRange {span : Span} (hspan : L.places span) (text : Bytes) (negated : Bool) :
    Moves L [] t (t.checkRange span text negated) := by
  rw [checkRange]
  generalize (if negated then largestInt + 1 else largestInt) = limit
  split
  · split
    · exact .stay t
    · exact moves_report t nofun hspan
  · exact moves_report t nofun hspan

theorem moves_constant {node : Node} (hnode : L.places node.span) (value : Constant) (negated : Bool) :
    Moves L [node.id] t (t.constant node value negated).1 := by
  cases value with
  | int text => exact (moves_checkRange t hnode text negated).behind (moves_settle _ node _)
  | bool b => exact moves_settle t node _
  | string s => exact moves_settle t node _

theorem moves_ident {i : Ident} (hi : L.places i.node.span) : Moves L [i.node.id] t (ident c t i).1 := by
  rw [ident]
  split
  · exact moves_settle t _ _
  · split
    · exact moves_settle t _ _
    · exact moves_settle t _ _
    · exact moves_reportSettle t (by nofun) hi
    · exact moves_reportSettle t (by nofun) hi
    · exact moves_settle t _ _
    · exact moves_settle t _ _

theorem moves_consumed {is : List Nat} {span : Span} (hspan : L.places span) {typed : Typing × Ty}
    (h : Moves L is t typed.1) : Moves L is t (consumed span typed).1 := by
  rw [consumed]
  split
  · exact h.before (moves_report _ nofun hspan)
  · exact h

theorem moves_applyUnary {node : Node}
    (hsign : L.places ⟨node.span.file, node.span.start, node.span.start + 1⟩) (op : UnaryOp) (operand : Ty) :
    Moves L [node.id] t (t.applyUnary node op operand).1 := by
  rw [applyUnary]
  split
  · exact moves_settle t _ _
  · split
    · exact moves_settle t _ _
    · exact moves_reportSettle t (by rintro ⟨⟩) hsign

theorem moves_applyBinary (node : Node) (op : BinaryOp) {opSpan : Span} (hop : L.places opSpan)
    (left right : Ty) : Moves L [node.id] t (t.applyBinary node op opSpan left right).1 := by
  rw [applyBinary]
  split
  · exact moves_settle t _ _
  · split
    · exact moves_settle t _ _
    · exact moves_reportSettle t (by rintro ⟨⟩) hop

theorem moves_checkAssigned (op : AssignOp) {opSpan valueSpan : Span} (hop : L.places opSpan)
    (hvalue : L.places valueSpan) (name : Bytes) (target value : Ty) :
    Moves L [] t (t.checkAssigned op opSpan name target value valueSpan) := by
  rw [checkAssigned]
  split
  · exact .stay t
  · split
    · split
      · exact .stay t
      · exact moves_report t nofun hop
    · split
      · exact .stay t
      · exact moves_report t nofun hvalue

theorem moves_assign (hc : L.Allow c) (node : Node) (op : AssignOp) {opSpan valueSpan : Span}
    (hop : L.places opSpan) {target : Ident} (htarget : L.places target.node.span) (value : Ty)
    (hvalue : L.places valueSpan) :
    Moves L [target.node.id, node.id] t (assign c t node op opSpan target value valueSpan).1 := by
  rw [assign]
  split
  · exact (moves_settle t node _).mono fun x => by simp [List.count_cons]
  · rename_i y z _
    split
    · rename_i himplicit
      have hnoted : Moves L [target.node.id] t _ :=
        (Moves.noteSymbol t y (.value value) (hc.implicit himplicit)).behind (.noteExpr _ target.node (.value value))
      exact hnoted.trans (moves_settle _ node value) fun x => by simp [List.count_cons]; omega
    · split
      · have hnoted : Moves L [target.node.id] t _ := .noteExpr t target.node (.value (t.typeOfSymbol y))
        have hchecked := hnoted.before
          (moves_checkAssigned _ op hop hvalue z.name (t.typeOfSymbol y) value)
        exact hchecked.trans (moves_settle _ node _) fun x => by simp [List.count_cons]; omega
      · exact (moves_reportSettle t (by nofun) htarget).mono fun x => by simp [List.count_cons]

theorem moves_namedCallee (hc : L.Allow c) {i : Ident} (hi : L.places i.node.span) :
    Moves L [i.node.id] t (namedCallee c t i).1 := by
  have hstay : Moves L [i.node.id] t t := (Moves.stay t).mono fun x => by simp
  rw [namedCallee]
  split
  · exact hstay
  · split
    · split
      · exact .noteExpr t _ _
      · exact hstay
    · exact hstay.before (.report t _ _ _ nofun hi (hc.notes _ _))

theorem moves_checkArguments (name : Bytes) (place : Nat) (params : List Ty) {args : List (Span × Ty)}
    (hargs : ∀ a ∈ args, L.places a.1) : Moves L [] t (t.checkArguments name place params args) := by
  induction params generalizing t place args with
  | nil => exact .stay t
  | cons param params ih =>
    cases args with
    | nil => exact .stay t
    | cons arg args =>
      rw [List.forall_mem_cons] at hargs
      rw [checkArguments]
      refine Moves.behind ?_ (ih _ _ hargs.2)
      split
      · exact .stay t
      · exact moves_report t nofun hargs.1

theorem moves_applyCall {node : Node} (hnode : L.places node.span) (callee : Option (Bytes × Signature))
    {args : List (Span × Ty)} (hargs : ∀ a ∈ args, L.places a.1) :
    Moves L [node.id] t (t.applyCall node callee args).1 := by
  unfold applyCall
  split
  · exact moves_settle t _ _
  · split
    · exact (moves_checkArguments t _ _ _ hargs).behind (moves_settle _ _ _)
    · exact moves_reportSettle t (by nofun) hnode

end Parts

/-! ### Expressions -/

/-- The operand of a prefix operator; a literal under a minus sign may be larger by one. -/
def operand (c : TypingContext) (t : Typing) (op : UnaryOp) (e : Expr) : Typing × Ty :=
  match op, e with
  | .minus, .constant m (.int text) => t.constant m (.int text) true
  | _, _ => consumed e.span (expr c t e)

theorem expr_unary (c : TypingContext) (t : Typing) (n : Node) (op : UnaryOp) (e : Expr) :
    expr c t (.unary n op e) = (operand c t op e).1.applyUnary n op (operand c t op e).2 := by
  conv => lhs; rw [expr.eq_def]
  rfl

theorem expr_binary (c : TypingContext) (t : Typing) (n : Node) (op : BinaryOp) (span : Span)
    (left right : Expr) : expr c t (.binary n op span left right) =
      (let l := consumed left.span (expr c t left)
       let r := consumed right.span (expr c l.1 right)
       r.1.applyBinary n op span l.2 r.2) := by
  conv => lhs; rw [expr]

theorem expr_call_ident (c : TypingContext) (t : Typing) (n : Node) (i : Ident) (args : List Expr) :
    expr c t (.call n (.ident i) args) =
      (let typed := arguments c t args
       let callee := namedCallee c typed.1 i
       callee.1.applyCall n callee.2 typed.2) := by
  conv => lhs; rw [expr]

theorem expr_assign (c : TypingContext) (t : Typing) (n : Node) (op : AssignOp) (span : Span)
    (i : Ident) (value : Expr) : expr c t (.assign n op span i value) =
      (let typed := consumed value.span (expr c t value)
       assign c typed.1 n op span i typed.2 value.span) := by
  conv => lhs; rw [expr]

theorem arguments_cons (c : TypingContext) (t : Typing) (e : Expr) (es : List Expr) :
    arguments c t (e :: es) =
      (let first := consumed e.span (expr c t e)
       let rest := arguments c first.1 es
       (rest.1, (e.span, first.2) :: rest.2)) := by
  conv => lhs; rw [arguments]

/-- The operand of a prefix operator is typed by itself, or it is a literal under a minus sign. -/
theorem operand_cases (c : TypingContext) (t : Typing) (op : UnaryOp) (e : Expr) :
    operand c t op e = consumed e.span (expr c t e) ∨
      ∃ m text, op = .minus ∧ e = .constant m (.int text) ∧
        operand c t op e = t.constant m (.int text) true := by
  unfold operand
  split
  · exact .inr ⟨_, _, rfl, rfl, rfl⟩
  · exact .inl rfl

/-- A call of what is no name is typed for its problems only. -/
theorem expr_call_other (c : TypingContext) (t : Typing) (n : Node) {target : Expr} (args : List Expr)
    (h : ∀ i, target ≠ .ident i) :
    expr c t (.call n target args) =
      (let typed := expr c (arguments c t args).1 target
       (if typed.2 = .invalid then typed.1
        else typed.1.report (.notCallable typed.2) target.span).settle n .invalid) := by
  conv => lhs; rw [expr.eq_def]
  cases target with
  | ident i => exact absurd rfl (h i)
  | _ => rfl

section Expressions

variable {L : Limits} {c : TypingContext}

/-- The places of arguments are those of their expressions. -/
theorem places_arguments (t : Typing) {es : List Expr} (h : L.Cover (Expr.framesOf es)) :
    ∀ a ∈ (arguments c t es).2, L.places a.1 := by
  induction es generalizing t with
  | nil =>
    rw [arguments]
    exact List.forall_mem_nil _
  | cons e es ih =>
    rw [Expr.framesOf, Limits.cover_append] at h
    rw [arguments_cons, List.forall_mem_cons]
    exact ⟨h.1.span, ih _ h.2⟩

mutual

theorem moves_expr (hc : L.Allow c) (t : Typing) :
    (e : Expr) → L.Cover e.frames → Moves L e.ids t (expr c t e).1
  | .error n, _ => by
    rw [expr, Expr.ids]
    exact moves_settle t n _
  | .constant n value, h => by
    rw [expr, Expr.ids]
    exact moves_constant t h.span value false
  | .ident i, h => by
    rw [expr, Expr.ids]
    exact moves_ident t h.span
  | .group n inner, h => by
    rw [Expr.frames, Limits.cover_cons] at h
    rw [expr, Expr.ids]
    exact (moves_expr hc t inner h.2).trans (moves_settle _ n _) fun x => by simp
  | .unary n op e, h => by
    rw [Expr.frames, Limits.cover_cons] at h
    have he : Moves L e.ids t (operand c t op e).1 := by
      rcases operand_cases c t op e with heq | ⟨m, text, -, rfl, heq⟩
      · rw [heq]
        exact moves_consumed t h.2.span (moves_expr hc t e h.2)
      · rw [heq, Expr.ids]
        exact moves_constant t h.2.span _ true
    rw [expr_unary, Expr.ids]
    exact he.trans (moves_applyUnary _ (h.1 _ (by simp [NodeFrame.places])) op _) fun x => by simp
  | .binary n op opSpan left right, h => by
    rw [Expr.frames, Limits.cover_cons, Limits.cover_append] at h
    obtain ⟨hplaces, hcleft, hcright⟩ := h
    have hleft := moves_consumed t hcleft.span (moves_expr hc t left hcleft)
    have hright := moves_consumed _ hcright.span
      (moves_expr hc (consumed left.span (expr c t left)).1 right hcright)
    have hboth : Moves L (left.ids ++ right.ids) t _ := hleft.trans hright fun x => by simp
    have hop : L.places opSpan := hplaces _ (by simp [NodeFrame.places])
    rw [expr_binary, Expr.ids]
    exact hboth.trans (moves_applyBinary _ n op hop _ _) fun x => by
      simp only [List.count_append]
      omega
  | .call n target args, h => by
    rw [Expr.frames, Limits.cover_cons, Limits.cover_append] at h
    obtain ⟨hplaces, htarget, hargs⟩ := h
    have hnode : L.places n.span := hplaces _ List.mem_cons_self
    have ha := moves_arguments hc t args hargs
    by_cases hname : ∃ i, target = .ident i
    · obtain ⟨i, rfl⟩ := hname
      have hcallee : Moves L (Expr.idsOf args ++ [i.node.id]) t _ :=
        ha.trans (moves_namedCallee _ hc htarget.span) fun x => by simp
      rw [expr_call_ident, Expr.ids, Expr.ids]
      exact hcallee.trans (moves_applyCall _ hnode _ (places_arguments t hargs)) fun x => by
        simp only [List.count_append]
        omega
    · have hcallee : Moves L (Expr.idsOf args ++ target.ids) t _ :=
        ha.trans (moves_expr hc (arguments c t args).1 target htarget) fun x => by simp
      rw [expr_call_other c t n args fun i hi => hname ⟨i, hi⟩, Expr.ids]
      dsimp only
      split
      · exact hcallee.trans (moves_settle _ n _) fun x => by
          simp only [List.count_append]
          omega
      · refine hcallee.trans (moves_reportSettle _ ?_ htarget.span) fun x => ?_
        · exact nofun
        · simp only [List.count_append]
          omega
  | .assign n op opSpan target value, h => by
    rw [Expr.frames, Limits.cover_cons, Limits.cover_cons] at h
    obtain ⟨hplaces, htarget, hvalue⟩ := h
    have hop : L.places opSpan := hplaces _ (by simp [NodeFrame.places])
    have hv := moves_consumed t hvalue.span (moves_expr hc t value hvalue)
    rw [expr_assign, Expr.ids]
    exact hv.trans (moves_assign _ hc n op hop (htarget _ List.mem_cons_self) _ hvalue.span) fun x => by simp

theorem moves_arguments (hc : L.Allow c) (t : Typing) :
    (es : List Expr) → L.Cover (Expr.framesOf es) → Moves L (Expr.idsOf es) t (arguments c t es).1
  | [], _ => by
    rw [arguments]
    exact .stay t
  | e :: es, h => by
    rw [Expr.framesOf, Limits.cover_append] at h
    have he := moves_consumed t h.1.span (moves_expr hc t e h.1)
    have hes := moves_arguments hc (consumed e.span (expr c t e)).1 es h.2
    rw [arguments_cons, Expr.idsOf]
    exact he.trans hes fun x => by simp

end

theorem moves_value (hc : L.Allow c) (t : Typing) {e : Expr} (h : L.Cover e.frames) :
    Moves L e.ids t (value c t e).1 := moves_consumed t h.span (moves_expr hc t e h)

end Expressions

/-! ### Statements -/

section Statements

variable {L : Limits} {c : TypingContext}

theorem moves_namedType (hc : L.Allow c) (t : Typing) (y : Nat) : Moves L [] t (t.namedType c y).1 := by
  rw [namedType, hc.resolution, hc.aliases]
  exact .ask t y

theorem moves_writtenType (hc : L.Allow c) (t : Typing) (type : Name) :
    Moves L [] t (t.writtenType c type).1 := moves_namedType hc t _

theorem condition_eq (c : TypingContext) (t : Typing) (cond : Expr) : condition c t cond =
    if (value c t cond).2 = .invalid || (value c t cond).2 = .bool then (value c t cond).1
    else (value c t cond).1.report (.notBoolean (value c t cond).2) cond.span := rfl

theorem moves_condition (hc : L.Allow c) (t : Typing) {cond : Expr} (h : L.Cover cond.frames) :
    Moves L cond.ids t (condition c t cond) := by
  have hv := moves_value hc t h
  rw [condition_eq]
  split
  · exact hv
  · exact hv.before (moves_report _ nofun h.span)

/-- The type of a variable that is declared. -/
def declaredType (c : TypingContext) (t : Typing) (name : Name) (type : Option Name)
    (init : Option Expr) : Typing × Ty :=
  match type, init with
  | some type, some e =>
    let (t, declared) := t.writtenType c type
    let (t, ty) := value c t e
    (if declared.accepts ty then t
      else t.report (.initMismatch name.text declared ty) e.span, declared)
  | some type, none => t.writtenType c type
  | none, some e => value c t e
  | none, none => (t.report (.untypedVariable name.text) name.span, .invalid)

theorem variableDecl_eq (c : TypingContext) (t : Typing) (node : Node) (name : Name) (type : Option Name)
    (init : Option Expr) : variableDecl c t node name type init =
      match c.resolution.declOf? node.id with
      | some y => (declaredType c t name type init).1.noteSymbol y
          (.value (declaredType c t name type init).2)
      | none => (declaredType c t name type init).1 := rfl

theorem moves_declaredType (hc : L.Allow c) (t : Typing) {name : Name} (hname : L.places name.span)
    (type : Option Name) {init : Option Expr} (h : L.Cover (Expr.frames? init)) :
    Moves L (Expr.idsOf? init) t (declaredType c t name type init).1 := by
  cases type with
  | none =>
    cases init with
    | none => exact moves_report t nofun hname
    | some e => exact moves_value hc t h
  | some type =>
    have hw := moves_writtenType hc t type
    cases init with
    | none => exact hw
    | some e =>
      have hv := hw.behind (moves_value hc (t.writtenType c type).1 h)
      rw [declaredType]
      dsimp only
      split
      · exact hv
      · exact hv.before (moves_report _ nofun (Limits.Cover.span h))

theorem moves_variableDecl (hc : L.Allow c) (t : Typing) (node : Node) {name : Name}
    (hname : L.places name.span) (type : Option Name) {init : Option Expr}
    (h : L.Cover (Expr.frames? init)) :
    Moves L (Expr.idsOf? init) t (variableDecl c t node name type init) := by
  have hd := moves_declaredType hc t hname type h
  rw [variableDecl_eq]
  split
  · rename_i hdecl
    exact hd.before (.noteSymbol _ _ _ (hc.decls hdecl))
  · exact hd

theorem moves_give (hc : L.Allow c) (t : Typing) {node : Node} (hnode : L.places node.span)
    {result : Option Expr} (h : L.Cover (Expr.frames? result)) :
    Moves L (Expr.idsOf? result) t (give c t node result) := by
  unfold give
  split
  · exact moves_report t nofun hnode
  · exact (moves_expr hc t _ h).before (moves_report _ nofun hnode)
  · split
    · exact .stay t
    · exact moves_report t nofun hnode
  · rename_i e _
    have he := moves_expr hc t e h
    have hv := moves_value hc t h
    have hspan : L.places e.span := Limits.Cover.span h
    split
    · dsimp only
      split
      · exact he
      · exact he.before (moves_report _ nofun hspan)
    · dsimp only
      split
      · exact hv
      · exact hv.before (moves_report _ nofun hspan)

mutual

theorem moves_stmt {c : TypingContext} (hc : L.Allow c) (t : Typing) :
    (s : Stmt) → L.Cover s.frames → Moves L s.ids t (stmt c t s)
  | .error _, _ | .command .., _ => by
    rw [stmt]
    exact (Moves.stay t).mono fun x => by simp
  | .leave n, h | .again n, h => by
    have hstay : Moves L [n.id] t t := (Moves.stay t).mono fun x => by simp
    rw [stmt]
    split
    · exact hstay
    · exact hstay.before (moves_report t nofun (h _ List.mem_cons_self _ List.mem_cons_self))
  | .var n name type init, h => by
    rw [Stmt.frames, Limits.cover_cons] at h
    have hname : L.places name.span := h.1 _ (by simp [NodeFrame.places])
    rw [stmt, Stmt.ids]
    exact (moves_variableDecl hc t n hname type h.2).mono fun x => by simp
  | .expr n e, h => by
    rw [Stmt.frames, Limits.cover_cons] at h
    rw [stmt, Stmt.ids]
    exact (moves_expr hc t e h.2).mono fun x => by simp
  | .branch n cond body otherwise, h => by
    rw [Stmt.frames, Limits.cover_cons, Limits.cover_append, Limits.cover_append] at h
    obtain ⟨-, ⟨hcond, hbody⟩, hotherwise⟩ := h
    have hfirst : Moves L (cond.ids ++ body.ids) t _ :=
      (moves_condition hc t hcond).trans (moves_block hc _ body hbody) fun x => by simp
    rw [stmt, Stmt.ids]
    exact hfirst.trans (moves_alternative hc _ otherwise hotherwise) fun x => by
      simp only [List.count_append]
      omega
  | .loop n .before cond body, h => by
    rw [Stmt.frames, Limits.cover_cons, Limits.cover_append] at h
    rw [stmt, Stmt.ids]
    exact (moves_condition hc t h.2.1).trans (moves_block hc.inLoop _ body h.2.2) fun x => by
      simp only [List.count_append]
      omega
  | .loop n .after cond body, h => by
    rw [Stmt.frames, Limits.cover_cons, Limits.cover_append] at h
    rw [stmt, Stmt.ids]
    exact (moves_block hc.inLoop t body h.2.1).trans (moves_condition hc _ h.2.2) fun x => by
      simp only [List.count_append]
      omega
  | .give n result, h => by
    rw [Stmt.frames, Limits.cover_cons] at h
    rw [stmt, Stmt.ids]
    exact (moves_give hc t (h.1 _ List.mem_cons_self) h.2).mono fun x => by simp

theorem moves_block {c : TypingContext} (hc : L.Allow c) (t : Typing) :
    (b : Block) → L.Cover b.frames → Moves L b.ids t (block c t b)
  | .mk n body, h => by
    rw [Block.frames, Limits.cover_cons] at h
    rw [block, Block.ids]
    exact (moves_stmts hc t body h.2).mono fun x => by simp

theorem moves_stmts {c : TypingContext} (hc : L.Allow c) (t : Typing) :
    (ss : List Stmt) → L.Cover (Stmt.framesOf ss) → Moves L (Stmt.idsOf ss) t (stmts c t ss)
  | [], _ => by
    rw [stmts]
    exact .stay t
  | s :: rest, h => by
    rw [Stmt.framesOf, Limits.cover_append] at h
    rw [stmts, Stmt.idsOf]
    exact (moves_stmt hc t s h.1).trans (moves_stmts hc _ rest h.2) fun x => by simp

theorem moves_alternative {c : TypingContext} (hc : L.Allow c) (t : Typing) :
    (o : Otherwise) → L.Cover o.frames → Moves L o.ids t (alternative c t o)
  | .none, _ => by
    rw [alternative]
    exact .stay t
  | .block body, h => by
    rw [alternative, Otherwise.ids]
    exact moves_block hc t body h
  | .chain s, h => by
    rw [alternative, Otherwise.ids]
    exact moves_stmt hc t s h

end

end Statements

/-! ### Signatures and items -/

/-- The signature of a function, found out from what is written. -/
def signature (c : TypingContext) (t : Typing) (f : Function) : Typing × Signature :=
  let typed := paramTypes c t f.params (c.resolution.namesOf f).params
  match f.result with
  | some type => ((typed.1.writtenType c type).1, ⟨typed.2, (typed.1.writtenType c type).2⟩)
  | none => (typed.1, ⟨typed.2, .void⟩)

/-- The types that are known once the signature of a function is. -/
def signed (c : TypingContext) (t : Typing) (f : Function) : Typing :=
  (signature c t f).1.noteSymbol (c.resolution.namesOf f).symbol (.function (signature c t f).2)

/-- What is known about a function that is declared. -/
def infoOf (c : TypingContext) (t : Typing) (f : Function) (tags : List Tag) : FunctionInfo :=
  ⟨f.node.id, (c.resolution.namesOf f).symbol, f.name.text, (c.resolution.namesOf f).params,
    (signature c t f).2, tags⟩

/-- A function with tags takes no parameters. -/
def checkTagged (t : Typing) (f : Function) : Typing :=
  match f.tags, f.params with
  | first :: _, _ :: _ =>
    t.report (.tagWithParams f.name.text) f.name.span [⟨first.span, "tag here"⟩]
  | _, _ => t

/-- Declaring a function finds out its signature and then looks at its tags. -/
theorem declareFunction_steps (c : TypingContext) (t : Typing) (f : Function) :
    declareFunction c t f = { (((signed c t f).checkTagged f).tags f.tags).1 with
      functions := (((signed c t f).checkTagged f).tags f.tags).1.functions
        ++ [infoOf c t f (((signed c t f).checkTagged f).tags f.tags).2] } := by
  cases hr : f.result with
  | none =>
    simp only [declareFunction, signed, signature, infoOf, hr]
    rfl
  | some type =>
    simp only [declareFunction, signed, signature, infoOf, hr]
    rfl

section Items

variable {L : Limits} {c : TypingContext}

theorem moves_paramTypes (hc : L.Allow c) (t : Typing) (ps : List Param) {ys : List Nat}
    (hys : ∀ y ∈ ys, L.symbols y) : Moves L [] t (paramTypes c t ps ys).1 := by
  induction ps generalizing t ys with
  | nil => exact .stay t
  | cons x ps ih =>
    have hw := moves_writtenType hc t x.type
    rw [paramTypes]
    dsimp only
    cases ys with
    | nil => exact hw.behind (ih _ hys)
    | cons y ys =>
      rw [List.forall_mem_cons] at hys
      exact hw.behind ((Moves.noteSymbol _ y _ hys.1).behind (ih _ hys.2))

theorem moves_signature (hc : L.Allow c) (t : Typing) {f : Function}
    (hys : ∀ y ∈ (c.resolution.namesOf f).params, L.symbols y) : Moves L [] t (signature c t f).1 := by
  have hp := moves_paramTypes hc t f.params hys
  rw [signature]
  split
  · exact hp.behind (moves_writtenType hc _ _)
  · exact hp

theorem moves_signed (hc : L.Allow c) (t : Typing) {f : Function}
    (hys : ∀ y ∈ (c.resolution.namesOf f).params, L.symbols y)
    (hy : L.symbols (c.resolution.namesOf f).symbol) : Moves L [] t (signed c t f) :=
  (moves_signature hc t hys).behind (.noteSymbol _ _ _ hy)

theorem moves_checkTagged (t : Typing) {f : Function} (hname : L.places f.name.span)
    (htags : ∀ n ∈ f.tags, L.places n.span) : Moves L [] t (t.checkTagged f) := by
  rw [checkTagged]
  split
  · rename_i first rest _ _ heq _
    refine .report t _ _ _ nofun hname fun n hn => ?_
    rw [List.mem_singleton.mp hn]
    exact htags first (heq ▸ List.mem_cons_self)
  · exact .stay t

theorem moves_tags (t : Typing) {names : List DottedName} (h : ∀ n ∈ names, L.places n.span) :
    Moves L [] t (t.tags names).1 := by
  induction names generalizing t with
  | nil => exact .stay t
  | cons name names ih =>
    rw [List.forall_mem_cons] at h
    rw [tags]
    split
    · exact ih t h.2
    · refine .behind (moves_report t ?_ h.1) (ih _ h.2)
      exact nofun

/-- Declaring a function moves to where its tags are known, and then the function is added. -/
theorem moves_declareFunction (hc : L.Allow c) (t : Typing) {f : Function}
    (hys : ∀ y ∈ (c.resolution.namesOf f).params, L.symbols y)
    (hy : L.symbols (c.resolution.namesOf f).symbol) (h : ∀ x ∈ f.spans, L.places x) :
    ∃ u tags, Moves L [] t u ∧
      declareFunction c t f = { u with functions := u.functions ++ [infoOf c t f tags] } := by
  have hname : L.places f.name.span := h _ (List.mem_append_right _ List.mem_cons_self)
  have htags : ∀ n ∈ f.tags, L.places n.span := fun n hn =>
    h _ (List.mem_append_left _ (List.mem_map_of_mem hn))
  refine ⟨_, _, ?_, declareFunction_steps c t f⟩
  exact (moves_signed hc t hys hy).behind ((moves_checkTagged _ hname htags).behind (moves_tags _ htags))

theorem moves_function (hc : L.Allow c) (t : Typing) {f : Function} (hname : L.places f.name.span)
    (h : L.Cover f.body.frames) : Moves L (f.body.ids ++ [f.node.id]) t (function c t f) := by
  rw [function]
  split
  · exact (Moves.stay t).mono fun x => by simp
  · rename_i info _
    have hb : Moves L (f.body.ids ++ [f.node.id]) t _ :=
      (moves_block (hc.inFunction info) t f.body h).mono fun x => by simp
    dsimp only
    split
    · exact hb
    · exact hb.before (moves_report _ nofun hname)

theorem moves_item (hc : L.Allow c) (t : Typing) {i : Item} (h : L.Cover i.frames) :
    Moves L i.ids t (item c t i) := by
  cases i with
  | error n => exact (Moves.stay t).mono fun x => by simp
  | function f =>
    rw [Item.frames, Limits.cover_cons] at h
    exact moves_function hc t (h.1 _ (by simp [NodeFrame.places, Function.spans])) h.2
  | typeAlias a => exact (moves_namedType hc t _).mono fun x => by simp
  | stmt n s =>
    rw [Item.frames, Limits.cover_cons] at h
    exact (moves_stmt hc t s h.2).mono fun x => by simp [Item.ids]

theorem moves_items (hc : L.Allow c) (t : Typing) {is : List Item} (h : ∀ i ∈ is, L.Cover i.frames) :
    Moves L (is.flatMap Item.ids) t (is.foldl (item c) t) := by
  induction is generalizing t with
  | nil => exact .stay t
  | cons i is ih =>
    rw [List.forall_mem_cons] at h
    rw [List.flatMap_cons]
    exact (moves_item hc t h.1).trans (ih _ h.2) fun x => by simp

end Items

end Typing

end Craftlang
