import Craftlang.Proofs.Tree.Frames
import Craftlang.Proofs.Scope.Valid
import Craftlang.Proofs.Typing.Growth
import Craftlang.Scope.Resolution

/-!
# Where names and types are reported

Whatever is reported about a name stands where names are written. The first file of a set has the number
zero, and so has a place that is nowhere, as where a name was declared that comes with the language. So
all that is reported about the names of a program in the first file is shown in that file.
-/

namespace Craftlang

namespace Resolution

/-- All that was declared and reported is shown in a file, the first one. -/
structure StandsIn (g : File) (r : Resolution) : Prop where
  first : g.id = 0
  symbols : ∀ z ∈ r.table.symbols, g.Shows z.span
  diagnostics : ∀ d ∈ r.diagnostics, d.StandsIn g

namespace StandsIn

variable {g : File} {r : Resolution} {path : List Nat} {w : Bool}

theorem report (hr : r.StandsIn g) (problem : NameProblem) {span : Span} {notes : List Note}
    (hspan : g.Shows span) (hnotes : ∀ n ∈ notes, g.Shows n.span) :
    (r.report problem span notes).StandsIn g := by
  refine ⟨hr.first, hr.symbols, fun d hd => ?_⟩
  rcases List.mem_append.mp hd with hd | hd
  · exact hr.diagnostics d hd
  · rw [List.mem_singleton.mp hd]
    exact Diagnostic.standsIn_of_notes hspan hnotes

theorem spanOf (hr : r.StandsIn g) (y : Nat) : g.Shows (r.spanOf y) := by
  rw [Resolution.spanOf]
  cases hz : r.table.symbol? y with
  | none => exact .nowhere hr.first
  | some z => exact hr.symbols z (SymbolTable.mem_of_symbol? hz)

theorem noteAt (hr : r.StandsIn g) (y : Nat) (message : Bytes) :
    ∀ n ∈ r.noteAt y message, g.Shows n.span := by
  intro n hn
  rw [Resolution.noteAt] at hn
  split at hn
  · rename_i z hz
    split at hn
    · cases hn
    · rw [List.mem_singleton.mp hn]
      exact hr.symbols z (SymbolTable.mem_of_symbol? hz)
  · cases hn

theorem checkDeclaration (hr : r.StandsIn g) (w : Bool) (path : List Nat) {symbol : Symbol}
    (hs : g.Shows symbol.span) : (r.checkDeclaration w path symbol).StandsIn g := by
  unfold Resolution.checkDeclaration
  split
  · exact hr
  · split
    · exact hr.report _ hs fun n hn => by
        rw [List.mem_singleton.mp hn]
        exact hr.spanOf _
    · split
      · exact hr
      · split
        · exact hr.report _ hs (hr.noteAt _ _)
        · exact hr

theorem declare (hr : r.StandsIn g) (w : Bool) (path : List Nat) {symbol : Symbol} (hs : g.Shows symbol.span) :
    (r.declare w path symbol).1.StandsIn g := by
  have hchecked := hr.checkDeclaration w path hs
  unfold Resolution.declare
  dsimp only
  split
  · rename_i table id hd
    refine ⟨hr.first, fun z hz => ?_, hchecked.diagnostics⟩
    change z ∈ table.symbols at hz
    rw [(SymbolTable.symbols_declare hd).1] at hz
    rcases List.mem_append.mp hz with hz | hz
    · exact hchecked.symbols z hz
    · rw [List.mem_singleton.mp hz]
      exact hs
  · exact hchecked

theorem openScope (hr : r.StandsIn g) (kind : ScopeKind) (path : List Nat) (span : Span) :
    (r.openScope kind path span).1.StandsIn g := by
  refine ⟨hr.first, fun z hz => hr.symbols z ?_, hr.diagnostics⟩
  rw [← SymbolTable.symbols_openScope r.table kind (path.headD 0) span]
  exact hz

theorem ident (hr : r.StandsIn g) {i : Ident} (hi : g.Shows i.node.span) :
    (Resolution.ident path r i).StandsIn g := by
  unfold Resolution.ident
  split
  · exact ⟨hr.first, hr.symbols, hr.diagnostics⟩
  · have h := hr.report (.undefined i.name) hi (List.forall_mem_nil _)
    exact ⟨hr.first, h.symbols, h.diagnostics⟩

theorem target (hr : r.StandsIn g) (op : AssignOp) {i : Ident} (hi : g.Shows i.node.span) :
    (Resolution.target w path r op i).StandsIn g := by
  unfold Resolution.target
  split
  · exact ⟨hr.first, hr.symbols, hr.diagnostics⟩
  · split
    · have h : (r.declare w path
          { name := i.name, kind := .var, span := i.node.span, flags := { implicit := true } }).1.StandsIn g :=
        hr.declare w path hi
      exact ⟨hr.first, h.symbols, h.diagnostics⟩
    · have h := hr.report (.undeclared op i.name) hi (List.forall_mem_nil _)
      exact ⟨hr.first, h.symbols, h.diagnostics⟩

theorem typeRef (hr : r.StandsIn g) {type : Name} (ht : g.Shows type.span) :
    (Resolution.typeRef path r type).StandsIn g := by
  unfold Resolution.typeRef
  dsimp only
  split
  · have h := hr.report (.unknownType type.text) ht (List.forall_mem_nil _)
    exact ⟨hr.first, h.symbols, h.diagnostics⟩
  · rename_i y _
    split
    · exact ⟨hr.first, hr.symbols, hr.diagnostics⟩
    · have h := hr.report (.notAType type.text (((r.table.symbol? y).map (·.kind)).getD .invalid)) ht
        (hr.noteAt y "declared here")
      exact ⟨hr.first, h.symbols, h.diagnostics⟩

theorem typeRef? (hr : r.StandsIn g) (path : List Nat) {type : Option Name}
    (ht : ∀ x ∈ Name.spans? type, g.Shows x) : (Resolution.typeRef? path r type).StandsIn g := by
  cases type with
  | none => exact hr
  | some type => exact hr.typeRef (ht type.span (List.mem_singleton_self _))

theorem checkResource (hr : r.StandsIn g) (y : Nat) {name : Name} (hn : g.Shows name.span) :
    (r.checkResource y name).StandsIn g := by
  unfold Resolution.checkResource
  dsimp only
  split
  · exact hr.report _ hn nofun
  · split
    · exact ⟨hr.first, hr.symbols, hr.diagnostics⟩
    · split
      · exact hr
      · exact hr.report _ hn fun n hn => by
          rw [List.mem_singleton.mp hn]
          exact hr.spanOf _

section Walks

/- The frames of a piece are those of its parts, one part after the other. -/

mutual

theorem expr {r : Resolution} (hr : r.StandsIn g) :
    (e : Expr) → (∀ fr ∈ e.frames, fr.StandsIn g) → (Resolution.expr w path r e).StandsIn g
  | .error _, _ | .constant .., _ => by
    rw [Resolution.expr]
    exact hr
  | .ident i, h => by
    rw [Resolution.expr]
    exact hr.ident (h _ List.mem_cons_self _ List.mem_cons_self)
  | .binary _ _ _ left right, h => by
    rw [Expr.frames, List.forall_mem_cons, List.forall_mem_append] at h
    rw [Resolution.expr]
    exact (hr.expr left h.2.1).expr right h.2.2
  | .unary _ _ operand, h => by
    rw [Expr.frames, List.forall_mem_cons] at h
    rw [Resolution.expr]
    exact hr.expr operand h.2
  | .group _ inner, h => by
    rw [Expr.frames, List.forall_mem_cons] at h
    rw [Resolution.expr]
    exact hr.expr inner h.2
  | .call _ callee args, h => by
    rw [Expr.frames, List.forall_mem_cons, List.forall_mem_append] at h
    rw [Resolution.expr]
    exact (hr.expr callee h.2.1).exprs args h.2.2
  | .assign _ op _ i value, h => by
    rw [Expr.frames, List.forall_mem_cons, List.forall_mem_cons] at h
    rw [Resolution.expr]
    exact (hr.expr value h.2.2).target op (h.2.1 _ List.mem_cons_self)

theorem exprs {r : Resolution} (hr : r.StandsIn g) :
    (es : List Expr) → (∀ fr ∈ Expr.framesOf es, fr.StandsIn g) → (Resolution.exprs w path r es).StandsIn g
  | [], _ => by
    rw [Resolution.exprs]
    exact hr
  | e :: es, h => by
    rw [Expr.framesOf, List.forall_mem_append] at h
    rw [Resolution.exprs]
    exact (hr.expr e h.1).exprs es h.2

end

theorem expr? (hr : r.StandsIn g) (w : Bool) (path : List Nat) {e : Option Expr}
    (h : ∀ fr ∈ Expr.frames? e, fr.StandsIn g) : (Resolution.expr? w path r e).StandsIn g := by
  cases e with
  | none => exact hr
  | some e => exact hr.expr e h

mutual

theorem stmt {r : Resolution} {path : List Nat} (hr : r.StandsIn g) :
    (s : Stmt) → (∀ fr ∈ s.frames, fr.StandsIn g) → (Resolution.stmt w path r s).StandsIn g
  | .error _, _ | .leave _, _ | .again _, _ | .command .., _ => by
    rw [Resolution.stmt]
    exact hr
  | .var n name type value, h => by
    rw [Stmt.frames, List.forall_mem_cons] at h
    have hheld : ∀ x ∈ name.span :: (Name.spans? type ++ Expr.spans? value), g.Shows x :=
      fun x hx => h.1 x (List.mem_cons_of_mem _ hx)
    rw [List.forall_mem_cons, List.forall_mem_append] at hheld
    have hvalue := (hr.typeRef? path hheld.2.1).expr? w path h.2
    have hvar : (Resolution.declare _ w path
        { name := name.text, kind := .var, span := name.span }).1.StandsIn g := hvalue.declare w path hheld.1
    rw [Resolution.stmt]
    exact ⟨hr.first, hvar.symbols, hvar.diagnostics⟩
  | .expr _ e, h => by
    rw [Stmt.frames, List.forall_mem_cons] at h
    rw [Resolution.stmt]
    exact hr.expr e h.2
  | .branch _ cond body otherwise, h => by
    rw [Stmt.frames, List.forall_mem_cons, List.forall_mem_append, List.forall_mem_append] at h
    rw [Resolution.stmt]
    exact ((hr.expr cond h.2.1.1).block body h.2.1.2).alternative otherwise h.2.2
  | .loop _ .before cond body, h => by
    rw [Stmt.frames, List.forall_mem_cons, List.forall_mem_append] at h
    rw [Resolution.stmt]
    exact (hr.expr cond h.2.1).block body h.2.2
  | .loop _ .after cond body, h => by
    rw [Stmt.frames, List.forall_mem_cons, List.forall_mem_append] at h
    rw [Resolution.stmt]
    exact (hr.block body h.2.1).expr cond h.2.2
  | .give _ value, h => by
    rw [Stmt.frames, List.forall_mem_cons] at h
    rw [Resolution.stmt]
    exact hr.expr? w path h.2

theorem block {r : Resolution} {path : List Nat} (hr : r.StandsIn g) :
    (b : Block) → (∀ fr ∈ b.frames, fr.StandsIn g) → (Resolution.block w path r b).StandsIn g
  | .mk n body, h => by
    rw [Block.frames, List.forall_mem_cons] at h
    rw [Resolution.block]
    exact (hr.openScope .block path n.span).stmts body h.2

theorem stmts {r : Resolution} {path : List Nat} (hr : r.StandsIn g) :
    (ss : List Stmt) → (∀ fr ∈ Stmt.framesOf ss, fr.StandsIn g) → (Resolution.stmts w path r ss).StandsIn g
  | [], _ => by
    rw [Resolution.stmts]
    exact hr
  | s :: rest, h => by
    rw [Stmt.framesOf, List.forall_mem_append] at h
    rw [Resolution.stmts]
    exact (hr.stmt s h.1).stmts rest h.2

theorem alternative {r : Resolution} {path : List Nat} (hr : r.StandsIn g) :
    (o : Otherwise) → (∀ fr ∈ o.frames, fr.StandsIn g) → (Resolution.alternative w path r o).StandsIn g
  | .none, _ => by
    rw [Resolution.alternative]
    exact hr
  | .block body, h => by
    rw [Resolution.alternative]
    exact hr.block body h
  | .chain s, h => by
    rw [Resolution.alternative]
    exact hr.stmt s h

end

theorem params (hr : r.StandsIn g) (w : Bool) (path : List Nat) (ps : List Param)
    (h : ∀ p ∈ ps, ∀ x ∈ p.spans, g.Shows x) : (Resolution.params w path r ps).1.StandsIn g := by
  induction ps generalizing r with
  | nil => exact hr
  | cons p ps ih =>
    have hp : g.Shows p.name.span := h p List.mem_cons_self _ List.mem_cons_self
    have hdeclared : (r.declare w path
        { name := p.name.text, kind := .param, span := p.name.span }).1.StandsIn g := hr.declare w path hp
    exact ih hdeclared fun q hq => h q (List.mem_cons_of_mem _ hq)

theorem function (hr : r.StandsIn g) {f : Function} (hspans : ∀ x ∈ f.spans, g.Shows x)
    (hbody : ∀ fr ∈ f.body.frames, fr.StandsIn g) : (Resolution.function w path r f).StandsIn g := by
  rw [Function.spans, List.forall_mem_append, List.forall_mem_cons, List.forall_mem_append,
    List.forall_mem_append] at hspans
  obtain ⟨-, -, ⟨hparams, hresult⟩, -⟩ := hspans
  have heach : ∀ p ∈ f.params, ∀ x ∈ p.spans, g.Shows x := fun p hp x hx =>
    hparams x (List.mem_flatMap.mpr ⟨p, hp, hx⟩)
  have htypes : ∀ ps : List Param, (∀ p ∈ ps, ∀ x ∈ p.spans, g.Shows x) → ∀ r : Resolution, r.StandsIn g →
      (ps.foldl (fun r p => Resolution.typeRef path r p.type) r).StandsIn g := by
    intro ps
    induction ps with
    | nil => exact fun _ r hr => hr
    | cons p ps ih =>
      intro hps r hr
      exact ih (fun q hq => hps q (List.mem_cons_of_mem _ hq)) _
        (hr.typeRef (hps p List.mem_cons_self _ (List.mem_cons_of_mem _ List.mem_cons_self)))
  have htyped := (htypes f.params heach r hr).typeRef? path hresult
  generalize hstart : Resolution.typeRef? path _ f.result = start at htyped
  have hopened := htyped.openScope .function path f.node.span
  have hnamed := hopened.params w ((start.openScope .function path f.node.span).2 :: path) f.params heach
  have hstmts : ∀ fr ∈ Stmt.framesOf f.body.stmts, fr.StandsIn g := by
    cases hb : f.body with
    | mk n body =>
      rw [hb, Block.frames, List.forall_mem_cons] at hbody
      exact hbody.2
  unfold Resolution.function
  dsimp only
  rw [hstart]
  refine stmts ?_ f.body.stmts hstmts
  exact ⟨hr.first, hnamed.symbols, hnamed.diagnostics⟩

theorem hoist (hr : r.StandsIn g) (i : Item) (h : ∀ fr ∈ i.frames, fr.StandsIn g) :
    (Resolution.hoist w path r i).StandsIn g := by
  cases i with
  | error n | stmt n s => exact hr
  | function f =>
    have hspans := h _ List.mem_cons_self
    have hname : g.Shows f.name.span :=
      hspans _ (List.mem_cons_of_mem _ (List.mem_append_right _ List.mem_cons_self))
    have hdeclared : (r.declare w path
        { name := f.name.text, kind := .function, span := f.name.span,
          flags := { hoisted := true, isGlobal := true } }).1.StandsIn g := hr.declare w path hname
    refine checkResource ?_ _ hname
    exact ⟨hr.first, hdeclared.symbols, hdeclared.diagnostics⟩
  | typeAlias a =>
    have hname : g.Shows a.name.span :=
      h _ List.mem_cons_self _ (List.mem_cons_of_mem _ List.mem_cons_self)
    have hdeclared : (r.declare w path
        { name := a.name.text, kind := .type, span := a.name.span, flags := { hoisted := true } }).1.StandsIn g :=
      hr.declare w path hname
    exact ⟨hr.first, hdeclared.symbols, hdeclared.diagnostics⟩

theorem item (hr : r.StandsIn g) (i : Item) (h : ∀ fr ∈ i.frames, fr.StandsIn g) :
    (Resolution.item w path r i).StandsIn g := by
  cases i with
  | error n => exact hr
  | function f =>
    rw [Item.frames, List.forall_mem_cons] at h
    exact hr.function (fun x hx => h.1 x (List.mem_cons_of_mem _ hx)) h.2
  | typeAlias a =>
    exact hr.typeRef (h _ List.mem_cons_self _
      (List.mem_cons_of_mem _ (List.mem_cons_of_mem _ List.mem_cons_self)))
  | stmt n s =>
    rw [Item.frames, List.forall_mem_cons] at h
    exact hr.stmt s h.2

/-- What all items of a program do, one after the other. -/
theorem foldl {step : Resolution → Item → Resolution} {items : List Item} (hr : r.StandsIn g)
    (hstep : ∀ r : Resolution, r.StandsIn g → ∀ i ∈ items, (step r i).StandsIn g) :
    (items.foldl step r).StandsIn g := by
  induction items generalizing r with
  | nil => exact hr
  | cons i is ih =>
    exact ih (hstep r hr i List.mem_cons_self) fun r hr j hj => hstep r hr j (List.mem_cons_of_mem _ hj)

end Walks

end StandsIn

end Resolution

/-- Whatever is reported about the names of a program in the first file is shown in that file. -/
theorem Program.resolve_standsIn {p : Program} {g : File} (hg : g.id = 0)
    (h : ∀ fr ∈ p.frames, fr.StandsIn g) (w : Bool) : (p.resolve w).StandsIn g := by
  have hitems : ∀ i ∈ p.items, ∀ fr ∈ i.frames, fr.StandsIn g := fun i hi fr hfr =>
    h fr (List.mem_flatMap.mpr ⟨i, hi, hfr⟩)
  have hnowhere : ∀ z ∈ SymbolTable.start.symbols, z.span = ⟨0, 0, 0⟩ := by decide
  have hstart : ({ table := .start } : Resolution).StandsIn g := by
    refine ⟨hg, fun z hz => ?_, nofun⟩
    rw [hnowhere z hz]
    exact .nowhere hg
  have hopened := hstart.openScope .file [SymbolTable.outermost] p.span
  rw [Program.resolve]
  exact (hopened.foldl fun r hr i hi => hr.hoist i (hitems i hi)).foldl fun r hr i hi =>
    hr.item i (hitems i hi)

/-!
## Types

Whatever is reported about types stands where an expression, an operator, a statement or a name is written.
The sign of a prefix operator is the first byte of its expression, which is never empty.
-/

/-- The places of a node are shown: its own, its first byte, and those of what it holds. -/
theorem NodeFrame.Sound.shows {g : File} {fr : NodeFrame} (h : fr.Sound g) : ∀ x ∈ fr.places, g.Shows x := by
  have hfirst : g.Shows ⟨fr.span.file, fr.span.start, fr.span.start + 1⟩ :=
    ⟨h.inFile.1, Nat.le_succ _, Nat.le_trans h.inFile.2.2.1 h.inFile.2.2.2⟩
  obtain ⟨hspan, hheld⟩ := List.forall_mem_cons.mp h.standsIn
  exact List.forall_mem_cons.mpr ⟨hspan, List.forall_mem_cons.mpr ⟨hfirst, hheld⟩⟩

namespace Typing

/-- Typing that reports what a file shows, and nothing else. -/
def Limits.shown (g : File) (c : TypingContext) : Limits := ⟨c.resolution, c.aliases, fun _ => True, g.Shows⟩

section

variable {g : File} {c : TypingContext} {t u : Typing}

theorem Limits.Allow.shown (hc : c.resolution.StandsIn g) : (Limits.shown g c).Allow c :=
  ⟨rfl, rfl, fun _ => trivial, fun _ => trivial, hc.noteAt⟩

theorem Limits.Cover.shown {frames : List NodeFrame} (h : ∀ fr ∈ frames, fr.Sound g) :
    (Limits.shown g c).Cover frames := fun fr hfr => (h fr hfr).shows

/-- All that was reported about types is shown in a file. -/
def StandsIn (g : File) (t : Typing) : Prop := ∀ d ∈ t.diagnostics, d.StandsIn g

theorem StandsIn.report (ht : t.StandsIn g) (problem : TypeProblem) {span : Span} {notes : List Note}
    (hspan : g.Shows span) (hnotes : ∀ n ∈ notes, g.Shows n.span) :
    (t.report problem span notes).StandsIn g := by
  intro d hd
  rcases List.mem_append.mp hd with hd | hd
  · exact ht d hd
  · rw [List.mem_singleton.mp hd]
    exact Diagnostic.standsIn_of_notes hspan hnotes

/-- A cycle of aliases is reported where one of them is declared. -/
theorem StandsIn.records (ht : t.StandsIn g) {r : Resolution} (hr : r.StandsIn g) {walk : List Nat × AliasEnd}
    {answer : Typing × Ty} (h : Records t r walk answer) : answer.1.StandsIn g := by
  cases h with
  | type => exact ht
  | cycle => exact ht.report _ (hr.spanOf _) (List.forall_mem_nil _)

theorem Moves.standsIn {ids : List Nat} (h : Moves (.shown g c) ids t u) (hc : c.resolution.StandsIn g)
    (ht : t.StandsIn g) : u.StandsIn g := by
  induction h with
  | stay | noteExpr | noteSymbol => exact ht
  | report t problem span notes _ hspan hnotes => exact ht.report problem hspan hnotes
  | ask t y => exact ht.records hc (resolveAlias_records t _ _ y)
  | trans _ _ _ ih ih' => exact ih' (ih ht)

theorem StandsIn.declareFunctions (hc : c.resolution.StandsIn g) {fs : List Function}
    (h : ∀ f ∈ fs, ∀ x ∈ f.spans, g.Shows x) (ht : t.StandsIn g) :
    (fs.foldl (declareFunction c) t).StandsIn g := by
  induction fs generalizing t with
  | nil => exact ht
  | cons f fs ih =>
    rw [List.forall_mem_cons] at h
    obtain ⟨u, tags, hmoves, heq⟩ :=
      moves_declareFunction (.shown hc) t (fun _ _ => trivial) trivial h.1
    have hdeclared : (declareFunction c t f).StandsIn g := by
      rw [heq]
      exact hmoves.standsIn hc ht
    exact ih h.2 hdeclared

end

end Typing

/-- Whatever is reported about the types of a program that stands in a file is shown there. -/
theorem Program.typed_standsIn {p : Program} {r : Resolution} {g : File} (h : ∀ fr ∈ p.frames, fr.Sound g)
    (hr : r.StandsIn g) : (p.typed r).StandsIn g := by
  have hitems : ∀ i ∈ p.items, ∀ fr ∈ i.frames, fr.Sound g := fun i hi fr hfr =>
    h fr (List.mem_flatMap.mpr ⟨i, hi, hfr⟩)
  have hfunctions : ∀ f ∈ p.functions, ∀ x ∈ f.spans, g.Shows x := fun f hf x hx =>
    (hitems _ (Item.mem_functionsOf.mp hf) _ List.mem_cons_self).standsIn x (List.mem_cons_of_mem _ hx)
  have hstart : (Typing.start r).StandsIn g := by
    rw [Typing.start]
    split <;> exact List.forall_mem_nil _
  let c : TypingContext := { resolution := r, aliases := p.aliases r }
  have hmoves := Typing.moves_items (.shown (c := c) hr) (p.functions.foldl (Typing.declareFunction c) (.start r))
    fun i hi => .shown (hitems i hi)
  exact hmoves.standsIn hr (hstart.declareFunctions (c := c) hr hfunctions)

end Craftlang
