import Craftlang.Proofs.Scope.Functions
import Craftlang.Proofs.Typing.StmtSound

/-!
# Signatures that are known before anything else

All functions are declared before any body is typed. Afterwards every parameter has a type of values,
every function has its signature, and no variable has a type yet.
-/

namespace Craftlang.Typing

open Resolution

/-- Besides names of types, the symbols with types are in a list. -/
def Keyed (q : Resolution) (ys : List Nat) (t : Typing) : Prop :=
  ∀ e ∈ t.symbols, q.HasKind e.1 .type ∨ e.1 ∈ ys

section

variable {p : Program} {q : Resolution} {ys : List Nat} {t t' : Typing} {y : Nat}

theorem Keyed.after (h : Keyed q ys t) (hn : Notes p q 0 0 t t') : Keyed q ys t' := by
  intro e he
  rcases hn e he with he | ⟨hk, -⟩ | ⟨hlt, hle, -⟩
  · exact h e he
  · exact .inl hk
  · omega

theorem Keyed.note (h : Keyed q ys t) (info : TypeInfo) :
    Keyed q (ys ++ [y]) (t.noteSymbol y info) := by
  intro e he
  rcases List.mem_append.mp he with he | he
  · exact (h e he).imp_right (List.mem_append_left _)
  · rw [List.mem_singleton.mp he]
    exact .inr (List.mem_append_right _ (List.mem_singleton.mpr rfl))

theorem Keyed.lookup_noteSymbol (h : Keyed q ys t) (hy : y ∉ ys) (hk : ¬ q.HasKind y .type)
    (info : TypeInfo) : (t.noteSymbol y info).symbols.lookup y = some info := by
  have hnone : t.symbols.lookup y = none := by
    rw [List.lookup_eq_none_iff]
    intro e he
    refine bne_iff_ne.mpr fun heq => ?_
    rcases h e he with htype | hmem
    · exact hk (heq ▸ htype)
    · exact hy (heq ▸ hmem)
  rw [noteSymbol, List.lookup_append, hnone]
  simp

theorem KnowsTypes.note (h : KnowsTypes p q t) (hk : ¬ q.HasKind y .type) (info : TypeInfo) :
    KnowsTypes p q (t.noteSymbol y info) := by
  intro e he htype
  rcases List.mem_append.mp he with he | he
  · exact h e he htype
  · rw [List.mem_singleton.mp he] at htype
    exact absurd htype hk

end

section

variable {p : Program} {c : TypingContext}

/-- What is known about parameters that were declared. -/
structure ParamsKnown (q : Resolution) (ys : List Nat) (typed : Typing × List Ty) : Prop where
  types : typed.2 = ys.map typed.1.typeOfSymbol
  values : ∀ y ∈ ys, ∃ ty, typed.1.symbols.lookup y = some (.value ty) ∧ ty.isValue = true

/-- The types of parameters are those that are written. -/
def ParamsWritten (p : Program) (q : Resolution) (ps : List Param) (tys : List Ty) : Prop :=
  List.Forall₂ (fun x ty => p.Writes q (Param.type x) ty) ps tys

theorem paramTypes_sound (hq : c.resolution.Sound p)
    (ha : AliasesFit p c) {ps : List Param} {t : Typing}
    {ys zs : List Nat} (ht : KnowsTypes p c.resolution t) (hkeyed : Keyed c.resolution zs t)
    (hlen : ys.length = ps.length) (hnodup : (zs ++ ys).Nodup)
    (hkinds : ∀ y ∈ ys, c.resolution.HasKind y .param)
    (hn : ∀ x ∈ ps, c.resolution.NamesType x.type) (hc : (paramTypes c t ps ys).1.IsClean) :
    KnowsTypes p c.resolution (paramTypes c t ps ys).1 ∧
      Keyed c.resolution (zs ++ ys) (paramTypes c t ps ys).1 ∧
      ParamsKnown c.resolution ys (paramTypes c t ps ys) ∧
      ParamsWritten p c.resolution ps (paramTypes c t ps ys).2 := by
  induction ps generalizing t ys zs with
  | nil =>
    rw [List.length_eq_zero_iff.mp hlen, List.append_nil]
    exact ⟨ht, hkeyed, ⟨rfl, fun y hy => (by cases hy)⟩, .nil⟩
  | cons x ps ih =>
    cases ys with
    | nil => cases hlen
    | cons y ys =>
      rw [List.forall_mem_cons] at hkinds hn
      have heq : paramTypes c t (x :: ps) (y :: ys) =
          ((paramTypes c ((t.writtenType c x.type).1.noteSymbol y
              (.value (t.writtenType c x.type).2)) ps ys).1,
            (t.writtenType c x.type).2 :: (paramTypes c ((t.writtenType c x.type).1.noteSymbol y
              (.value (t.writtenType c x.type).2)) ps ys).2) := rfl
      rw [heq] at hc ⊢
      have hrest := extends_paramTypes c ((t.writtenType c x.type).1.noteSymbol y
        (.value (t.writtenType c x.type).2)) ps ys
      have hnote := hrest.isClean hc
      obtain ⟨hwrites, hnotes⟩ := writtenType_sound (n := 0) (m := 0) hq ha ht hn.1
        ((extends_noteSymbol _ y _).isClean hnote)
      have hk : ¬ c.resolution.HasKind y .type := fun hk => (by cases hk.unique hkinds.1)
      have hy : y ∉ zs := fun hmem =>
        (List.nodup_append.mp hnodup).2.2 y hmem y (List.mem_cons_self ..) rfl
      have happend : zs ++ y :: ys = zs ++ [y] ++ ys := by simp
      rw [happend] at hnodup ⊢
      obtain ⟨htypes, hkeyed', hknown, hwritten⟩ := ih ((ht.after hnotes).note hk _)
        ((hkeyed.after hnotes).note _) (Nat.succ.inj hlen) hnodup hkinds.2 hn.2 hc
      have hl := lookup_of_isPrefix hrest.symbols ((hkeyed.after hnotes).lookup_noteSymbol hy hk _)
      refine ⟨htypes, hkeyed', ⟨?_, fun y' hy' => ?_⟩, .cons hwrites hwritten⟩
      · rw [List.map_cons, typeOfSymbol_eq hl, hknown.types]
      · rcases List.mem_cons.mp hy' with rfl | hy'
        · exact ⟨_, hl, hwrites.isValue⟩
        · exact hknown.values y' hy'

/-- Tags are only reported. -/
theorem tags_eq (t : Typing) (names : List DottedName) : ∃ ds tags,
    t.tags names = ({ t with diagnostics := t.diagnostics ++ ds }, tags) := by
  induction names generalizing t with
  | nil => exact ⟨[], [], by simp [tags]⟩
  | cons name names ih =>
    rw [tags]
    split
    · rename_i tag htag
      obtain ⟨ds, rest, heq⟩ := ih t
      exact ⟨ds, tag :: rest, by rw [heq]⟩
    · rename_i part hpart
      obtain ⟨ds, rest, heq⟩ := ih (t.report (.badTag name.render part) name.span)
      refine ⟨.error (TypeProblem.badTag name.render part).code name.span
        (TypeProblem.badTag name.render part).message :: ds, rest, ?_⟩
      rw [heq]
      simp [report]

theorem checkTagged_eq (t : Typing) (f : Function) : ∃ ds,
    t.checkTagged f = { t with diagnostics := t.diagnostics ++ ds } := by
  rw [checkTagged]
  split
  · exact ⟨_, rfl⟩
  · exact ⟨[], by simp⟩

/-- Declaring a function records its signature. -/
theorem declareFunction_eq (c : TypingContext) (t : Typing) (f : Function) : ∃ ds tags,
    declareFunction c t f = { signed c t f with
      diagnostics := (signed c t f).diagnostics ++ ds
      functions := (signed c t f).functions ++ [infoOf c t f tags] } := by
  obtain ⟨ds, hds⟩ := checkTagged_eq (signed c t f) f
  obtain ⟨ds', tags, htags⟩ := tags_eq ((signed c t f).checkTagged f) f.tags
  refine ⟨ds ++ ds', tags, ?_⟩
  rw [declareFunction_steps, htags, hds]
  simp

/-- What is known about a declared function. -/
structure DeclaredAs (p : Program) (q : Resolution) (t : Typing) (f : Function) (info : FunctionInfo) :
    Prop where
  item : info.item = f.node.id
  name : info.name = f.name.text
  symbol : info.symbol = (q.namesOf f).symbol
  names : info.params = (q.namesOf f).params
  params : ParamsKnown q info.params (t, info.signature.params)
  written : ParamsWritten p q f.params info.signature.params
  result : p.WritesResult q f.result info.result
  tags : f.TagsFit
  signature : t.symbols.lookup info.symbol = some (.function info.signature)

theorem ParamsKnown.mono {q : Resolution} {ys : List Nat} {t t' : Typing} {tys : List Ty}
    (h : ParamsKnown q ys (t, tys)) (ht : t.symbols <+: t'.symbols) : ParamsKnown q ys (t', tys) := by
  refine ⟨?_, fun y hy => ?_⟩
  · rw [h.types]
    refine List.map_congr_left fun y hy => ?_
    obtain ⟨ty, hl, -⟩ := h.values y hy
    exact (typeOfSymbol_eq hl).trans (typeOfSymbol_eq (lookup_of_isPrefix ht hl)).symm
  · obtain ⟨ty, hl, hv⟩ := h.values y hy
    exact ⟨ty, lookup_of_isPrefix ht hl, hv⟩

theorem ParamsKnown.isValue {q : Resolution} {ys : List Nat} {typed : Typing × List Ty}
    (h : ParamsKnown q ys typed) : ∀ ty ∈ typed.2, ty.isValue = true := by
  intro ty hty
  rw [h.types] at hty
  obtain ⟨y, hy, rfl⟩ := List.mem_map.mp hty
  obtain ⟨ty, hl, hv⟩ := h.values y hy
  rw [typeOfSymbol_eq hl]
  exact hv

theorem DeclaredAs.mono {p : Program} {q : Resolution} {t t' : Typing} {f : Function} {info : FunctionInfo}
    (h : DeclaredAs p q t f info) (ht : t.symbols <+: t'.symbols) : DeclaredAs p q t' f info :=
  { h with params := h.params.mono ht, signature := lookup_of_isPrefix ht h.signature }

/-- What is known once some functions are declared. -/
structure Declared (p : Program) (q : Resolution) (fs : List Function) (t : Typing) : Prop where
  exprs : t.exprs = []
  types : KnowsTypes p q t
  keyed : Keyed q (5 :: fs.flatMap q.notedBy) t
  print : t.symbols.lookup 5 = some (.function ⟨[.any], .void⟩)
  functions : List.Forall₂ (DeclaredAs p q t) fs t.functions

/-- The signature of a declared function has the types that are written. -/
theorem signature_sound (hq : c.resolution.Sound p)
    (ha : AliasesFit p c) {t : Typing} {zs : List Nat} {f : Function}
    (ht : KnowsTypes p c.resolution t) (hkeyed : Keyed c.resolution zs t) (hf : c.resolution.Declares f)
    (hnodup : (zs ++ (c.resolution.namesOf f).params).Nodup) (hc : (signature c t f).1.IsClean) :
    KnowsTypes p c.resolution (signature c t f).1 ∧
      Keyed c.resolution (zs ++ (c.resolution.namesOf f).params) (signature c t f).1 ∧
      ParamsKnown c.resolution (c.resolution.namesOf f).params
        ((signature c t f).1, (signature c t f).2.params) ∧
      ParamsWritten p c.resolution f.params (signature c t f).2.params ∧
      p.WritesResult c.resolution f.result (signature c t f).2.result := by
  cases hr : f.result with
  | none =>
    have heq : signature c t f = ((paramTypes c t f.params (c.resolution.namesOf f).params).1,
        ⟨(paramTypes c t f.params (c.resolution.namesOf f).params).2, .void⟩) := by
      rw [signature, hr]
    rw [heq] at hc ⊢
    obtain ⟨htypes, hkeyed', hparams, hwritten⟩ := paramTypes_sound hq ha ht hkeyed hf.length hnodup
      hf.kinds hf.types hc
    exact ⟨htypes, hkeyed', hparams, hwritten, .none⟩
  | some type =>
    generalize hps : paramTypes c t f.params (c.resolution.namesOf f).params = typed
    have heq : signature c t f =
        ((typed.1.writtenType c type).1, ⟨typed.2, (typed.1.writtenType c type).2⟩) := by
      rw [signature, hr, hps]
    have hext := extends_writtenType typed.1 c type
    rw [heq] at hc ⊢
    obtain ⟨htypes, hkeyed', hparams, hwritten⟩ := paramTypes_sound hq ha ht hkeyed hf.length hnodup
      hf.kinds hf.types (hps ▸ hext.isClean hc)
    rw [hps] at htypes hkeyed' hparams hwritten
    obtain ⟨hwrites, hnotes⟩ := writtenType_sound (n := 0) (m := 0) hq ha htypes (hf.result type hr) hc
    exact ⟨htypes.after hnotes, hkeyed'.after hnotes, hparams.mono hext.symbols, hwritten,
      .some hwrites⟩

/-- Tags about which nothing is reported are locations. -/
theorem isLocation_of_tags {names : List DottedName} {t : Typing} (h : (t.tags names).1.IsClean) :
    ∀ name ∈ names, name.IsLocation := by
  induction names generalizing t with
  | nil => exact nofun
  | cons name names ih =>
    rw [tags] at h
    split at h
    · rename_i tag htag
      exact List.forall_mem_cons.mpr ⟨DottedName.isLocation_iff.mpr ⟨tag, htag⟩, ih h⟩
    · exact absurd ((extends_tags _ names).isClean h) not_isClean_report

theorem params_of_checkTagged {t : Typing} {f : Function} (h : (t.checkTagged f).IsClean)
    (htags : f.tags ≠ []) : f.params = [] := by
  rw [checkTagged] at h
  split at h
  · exact absurd h not_isClean_report
  · rename_i hno
    cases hf : f.tags with
    | nil => exact absurd hf htags
    | cons first rest =>
      cases hp : f.params with
      | nil => rfl
      | cons x xs => exact absurd hp (hno first rest x xs hf)

theorem tagsFit_of_declareFunction {t : Typing} {f : Function}
    (h : (declareFunction c t f).IsClean) : f.TagsFit := by
  rw [declareFunction_steps] at h
  have hchecked := (extends_tags _ f.tags).isClean h
  exact ⟨isLocation_of_tags h, params_of_checkTagged hchecked⟩

theorem Declared.step (hq : c.resolution.Sound p)
    (ha : AliasesFit p c) {t : Typing} {fs : List Function}
    {f : Function} (h : Declared p c.resolution fs t) (hf : c.resolution.Declares f)
    (hnodup : (5 :: (fs ++ [f]).flatMap c.resolution.notedBy).Nodup)
    (hc : (declareFunction c t f).IsClean) :
    Declared p c.resolution (fs ++ [f]) (declareFunction c t f) := by
  have htags := tagsFit_of_declareFunction hc
  obtain ⟨ds, tags, heq⟩ := declareFunction_eq c t f
  have hnoted : 5 :: (fs ++ [f]).flatMap c.resolution.notedBy =
      5 :: fs.flatMap c.resolution.notedBy ++ (c.resolution.namesOf f).params
        ++ [(c.resolution.namesOf f).symbol] := by
    simp [Resolution.notedBy]
  rw [hnoted] at hnodup
  have hsplit := List.nodup_append.mp hnodup
  have hclean : (signature c t f).1.IsClean := by
    rw [heq] at hc
    exact fun d hd => hc d (List.mem_append_left _ hd)
  obtain ⟨htypes, hkeyed, hparams, hwritten, hresult⟩ := signature_sound hq ha h.types h.keyed hf hsplit.1 hclean
  have hk : ¬ c.resolution.HasKind (c.resolution.namesOf f).symbol .type := by
    obtain ⟨z, hz, hkind, -⟩ := hf.symbol
    intro hk
    cases hk.unique ⟨z, hz, hkind⟩
  have hsymbol := hkeyed.lookup_noteSymbol
    (fun hmem => hsplit.2.2 _ hmem _ (List.mem_singleton.mpr rfl) rfl) hk
    (.function (signature c t f).2)
  have hext := extends_signature c t f
  have hsigned := (extends_noteSymbol (signature c t f).1 (c.resolution.namesOf f).symbol
    (.function (signature c t f).2))
  have hprefix := (hext.trans_nil hsigned).symbols
  rw [heq]
  refine ⟨?_, htypes.note hk _, ?_, lookup_of_isPrefix hprefix h.print, ?_⟩
  · have hkeys := (hext.trans_nil hsigned).keys
    refine List.eq_nil_iff_forall_not_mem.mpr fun e he => ?_
    have hcount := hkeys e.1
    rw [h.exprs] at hcount
    have hpos := List.count_pos_iff.mpr (List.mem_map_of_mem (f := (·.1)) he)
    simp only [List.map_nil, List.count_nil] at hcount
    exact absurd hpos (by simp only [signed]; omega)
  · rw [hnoted]
    exact hkeyed.note _
  · have hfunctions : (signed c t f).functions = t.functions := (hext.trans_nil hsigned).functions.symm
    change List.Forall₂ _ (fs ++ [f]) ((signed c t f).functions ++ [infoOf c t f tags])
    rw [hfunctions]
    exact List.rel_append (h.functions.imp fun g info hg => hg.mono hprefix)
      (.cons ⟨rfl, rfl, rfl, rfl, hparams.mono hsigned.symbols, hwritten, hresult, htags, hsymbol⟩ .nil)

/-- In the beginning only the function that prints is known. -/
theorem Declared.start {q : Resolution} (hq : q.Settles p) : Declared p q [] (start q) := by
  have hfind : q.table.findLocal? SymbolTable.outermost "print" = some 5 :=
    hq.final.sound.provided.found _ _ _ (by decide)
  obtain ⟨z, hz, hk, -⟩ := hq.symbol?_print
  have hstart : Typing.start q = ({} : Typing).noteSymbol 5 (.function ⟨[.any], .void⟩) := by
    rw [Typing.start, hfind]
  rw [hstart]
  refine ⟨rfl, fun e he htype => ?_, fun e he => ?_, rfl, .nil⟩
  · rw [List.mem_singleton.mp he] at htype
    cases htype.unique ⟨z, hz, hk⟩
  · rw [List.mem_singleton.mp he]
    exact .inr (List.mem_cons_self ..)

theorem diagnostics_declareFunction (c : TypingContext) (t : Typing) (f : Function) :
    t.diagnostics <+: (declareFunction c t f).diagnostics := by
  obtain ⟨ds, tags, heq⟩ := declareFunction_eq c t f
  rw [heq]
  exact (extends_signature c t f).diagnostics.trans (List.prefix_append _ _)

/-- Whatever is reported about declarations is about types. -/
theorem reports_declareFunctions (c : TypingContext) (t : Typing) (fs : List Function) :
    ∀ d ∈ (fs.foldl (declareFunction c) t).diagnostics, d ∈ t.diagnostics ∨ d.IsOfTypes := by
  induction fs generalizing t with
  | nil => exact fun _ h => .inl h
  | cons f fs ih =>
    intro d hd
    rcases ih _ d hd with hd | hd
    · rw [declareFunction_steps] at hd
      have hsigned : Extends [] t (signed c t f) :=
        (extends_signature c t f).trans_nil (extends_noteSymbol _ _ _)
      exact ((hsigned.trans_nil (extends_checkTagged _ f)).trans_nil
        (extends_tags _ f.tags)).reports d hd
    · exact .inr hd

theorem diagnostics_declareFunctions (c : TypingContext) (t : Typing) (fs : List Function) :
    t.diagnostics <+: (fs.foldl (declareFunction c) t).diagnostics := by
  induction fs generalizing t with
  | nil => exact List.prefix_rfl
  | cons f fs ih => exact (diagnostics_declareFunction c t f).trans (ih _)

theorem Declared.run (hq : c.resolution.Sound p)
    (ha : AliasesFit p c) {t : Typing} {done fs : List Function}
    (h : Declared p c.resolution done t) (hfs : ∀ f ∈ fs, c.resolution.Declares f)
    (hnodup : (5 :: (done ++ fs).flatMap c.resolution.notedBy).Nodup)
    (hc : (fs.foldl (declareFunction c) t).IsClean) :
    Declared p c.resolution (done ++ fs) (fs.foldl (declareFunction c) t) := by
  induction fs generalizing t done with
  | nil =>
    rw [List.append_nil]
    exact h
  | cons f fs ih =>
    rw [List.forall_mem_cons] at hfs
    have happend : done ++ f :: fs = done ++ [f] ++ fs := by simp
    rw [happend] at hnodup ⊢
    have hfirst : (5 :: (done ++ [f]).flatMap c.resolution.notedBy).Nodup := by
      rw [List.flatMap_append, ← List.cons_append] at hnodup
      exact (List.nodup_append.mp hnodup).1
    have hclean : (declareFunction c t f).IsClean :=
      fun d hd => hc d ((diagnostics_declareFunctions c _ fs).subset hd)
    exact ih (h.step hq ha hfs.1 hfirst hclean) hfs.2 hnodup hc

end

end Craftlang.Typing
