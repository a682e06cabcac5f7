import Craftlang.Proofs.Typing.StmtComplete

/-!
# Well-typed programs are accepted

Functions are declared with the signatures that a derivation assumes, so their bodies and all other items
are typed as the derivation says.
-/

namespace Craftlang

open Resolution

theorem Program.Writes.unique {p : Program} {q : Resolution} (hq : q.Settles p) (hids : p.ids.Nodup)
    {type : Name} {ty ty' : Ty} (h : p.Writes q type ty) (h' : p.Writes q type ty') : ty = ty' := by
  obtain ⟨y, hy, hd⟩ := h
  obtain ⟨y', hy', hd'⟩ := h'
  obtain rfl : y = y' := Option.some.inj (hy.symm.trans hy')
  exact hd.unique hq.hoists hids hd'

theorem Program.WritesResult.unique {p : Program} {q : Resolution} (hq : q.Settles p)
    (hids : p.ids.Nodup) {type : Option Name} {ty ty' : Ty} (h : p.WritesResult q type ty)
    (h' : p.WritesResult q type ty') : ty = ty' := by
  cases h with
  | none =>
    cases h'
    rfl
  | some hw =>
    cases h' with
    | some hw' => exact hw.unique hq hids hw'

namespace Typing

theorem ParamsWritten.unique {p : Program} {q : Resolution} (hq : q.Settles p) (hids : p.ids.Nodup)
    {ps : List Param} {tys tys' : List Ty} (h : ParamsWritten p q ps tys)
    (h' : ParamsWritten p q ps tys') : tys = tys' := by
  induction h generalizing tys' with
  | nil =>
    cases h'
    rfl
  | cons hw _ ih =>
    cases h' with
    | cons hw' hrest => rw [hw.unique hq hids hw', ih hrest]

section

variable {p : Program} {c : TypingContext} {types : Nat → TypeInfo} {t : Typing}

theorem paramTypes_complete (hg : Grounds p c) {ps : List Param} {t : Typing} {ys : List Nat}
    {tys : List Ty} (ht : KnowsTypes p c.resolution t) (hc : t.IsClean)
    (hkinds : ∀ y ∈ ys, c.resolution.HasKind y .param) (hw : ParamsWritten p c.resolution ps tys) :
    (paramTypes c t ps ys).2 = tys ∧ Accepts t (paramTypes c t ps ys).1 [] ∧
      KnowsTypes p c.resolution (paramTypes c t ps ys).1 := by
  induction hw generalizing t ys with
  | nil => exact ⟨rfl, .refl t, ht⟩
  | cons hw hrest ih =>
    rename_i x ty ps tys
    obtain ⟨hty, haccepts⟩ := writtenType_complete hg ht hw
    have hclean := haccepts.isClean hc
    obtain ⟨y, hy, hd⟩ := hw
    obtain ⟨z, hz, hk⟩ := hd.hasKind hg.settles.hoists
    obtain ⟨-, hnotes⟩ := writtenType_sound (n := 0) (m := 0) hg.settles.final.sound hg.fit ht
      ⟨y, z, hy, hz, hk⟩ hclean
    cases ys with
    | nil =>
      have heq : paramTypes c t (x :: ps) [] = ((paramTypes c (t.writtenType c x.type).1 ps []).1,
        (t.writtenType c x.type).2 :: (paramTypes c (t.writtenType c x.type).1 ps []).2) := rfl
      have hnone : ∀ y ∈ ([] : List Nat), c.resolution.HasKind y .param := fun y hy => by cases hy
      obtain ⟨htypes, hrest, hknows⟩ := ih (ht.after hnotes) hclean hnone
      rw [heq, hty, htypes]
      exact ⟨rfl, haccepts.append hrest, hknows⟩
    | cons y ys =>
      rw [List.forall_mem_cons] at hkinds
      have heq : paramTypes c t (x :: ps) (y :: ys) =
          ((paramTypes c ((t.writtenType c x.type).1.noteSymbol y
              (.value (t.writtenType c x.type).2)) ps ys).1,
            (t.writtenType c x.type).2 :: (paramTypes c ((t.writtenType c x.type).1.noteSymbol y
              (.value (t.writtenType c x.type).2)) ps ys).2) := rfl
      have hnote : ¬ c.resolution.HasKind y .type := fun hk => (by cases hk.unique hkinds.1)
      obtain ⟨htypes, hrest, hknows⟩ := ih ((ht.after hnotes).note hnote _) hclean hkinds.2
      rw [heq, htypes]
      exact ⟨by rw [hty], (haccepts.append (.noteSymbol _ y _)).append hrest, hknows⟩

theorem signature_complete (hg : Grounds p c) (ht : KnowsTypes p c.resolution t) (hc : t.IsClean)
    {f : Function} {s : Signature} (hf : c.resolution.Declares f)
    (hs : f.Signed ⟨p, c.resolution, types⟩ s) : Accepts t (signature c t f).1 [] := by
  obtain ⟨-, hparams, hknows⟩ := paramTypes_complete hg ht hc hf.kinds hs.written
  have hresult := hs.result
  cases hr : f.result with
  | none =>
    have heq : (signature c t f).1 = (paramTypes c t f.params (c.resolution.namesOf f).params).1 := by
      rw [signature, hr]
    rw [heq]
    exact hparams
  | some type =>
    have heq : (signature c t f).1 =
        ((paramTypes c t f.params (c.resolution.namesOf f).params).1.writtenType c type).1 := by
      rw [signature, hr]
    rw [hr] at hresult
    rw [heq]
    cases hresult with
    | some hw => exact hparams.append (writtenType_complete hg hknows hw).2

theorem checkTagged_complete {f : Function} (h : f.TagsFit) (t : Typing) : t.checkTagged f = t := by
  rw [checkTagged]
  split
  · rename_i first rest x xs htags hparams
    have := h.params (by rw [htags]; exact List.cons_ne_nil _ _)
    rw [hparams] at this
    cases this
  · rfl

theorem tags_complete {names : List DottedName} (h : ∀ name ∈ names, name.IsLocation) (t : Typing) :
    (t.tags names).1 = t := by
  induction names with
  | nil => rfl
  | cons name names ih =>
    rw [List.forall_mem_cons] at h
    obtain ⟨tag, htag⟩ := DottedName.isLocation_iff.mp h.1
    rw [tags, htag]
    exact ih h.2

/-- A function is declared without a report if its types can be found and its tags are right. -/
theorem declareFunction_complete (hg : Grounds p c) (ht : KnowsTypes p c.resolution t) (hc : t.IsClean)
    {f : Function} {s : Signature} (hf : c.resolution.Declares f)
    (hs : f.Signed ⟨p, c.resolution, types⟩ s) (htags : f.TagsFit) :
    Accepts t (declareFunction c t f) [] := by
  have hsigned := signature_complete hg ht hc hf hs
  rw [declareFunction_steps, checkTagged_complete htags, tags_complete htags.locations]
  exact ⟨hsigned.exprs, hsigned.diagnostics⟩

theorem declareFunctions_complete (hg : Grounds p c) {done fs : List Function} {t : Typing}
    (h : Declared p c.resolution done t) (hc : t.IsClean)
    (hfs : ∀ f ∈ fs, c.resolution.Declares f ∧ (∃ s, f.Signed ⟨p, c.resolution, types⟩ s) ∧ f.TagsFit)
    (hnodup : (5 :: (done ++ fs).flatMap c.resolution.notedBy).Nodup) :
    Accepts t (fs.foldl (declareFunction c) t) [] := by
  induction fs generalizing t done with
  | nil => exact .refl t
  | cons f fs ih =>
    rw [List.forall_mem_cons] at hfs
    obtain ⟨⟨hf, ⟨s, hs⟩, htags⟩, hfs⟩ := hfs
    have happend : done ++ f :: fs = done ++ [f] ++ fs := by simp
    rw [happend] at hnodup
    have hfirst : (5 :: (done ++ [f]).flatMap c.resolution.notedBy).Nodup := by
      rw [List.flatMap_append, ← List.cons_append] at hnodup
      exact (List.nodup_append.mp hnodup).1
    have haccepts := declareFunction_complete hg h.types hc hf hs htags
    have hclean := haccepts.isClean hc
    exact haccepts.append
      (ih (h.step hg.settles.final.sound hg.fit hf hfirst hclean) hclean hfs hnodup)

end

section

variable {p : Program} {q : Resolution} {types : Nat → TypeInfo} {t : Typing}

theorem itemContext_grounds (hq : q.Settles p) (hids : p.ids.Nodup) : Grounds p (itemContext p q) :=
  ⟨hq, hids, rfl⟩

/-- The signature that is recorded is the one that a derivation assumes. -/
theorem DeclaredAs.signature_eq (hq : q.Settles p) (hids : p.ids.Nodup) {f : Function}
    {info : FunctionInfo} {s : Signature} (h : DeclaredAs p q t f info)
    (hs : f.Signed ⟨p, q, types⟩ s) : info.signature = s := by
  have hparams := h.written.unique hq hids hs.written
  have hresult := h.result.unique hq hids hs.result
  obtain ⟨params, result⟩ := s
  rw [← show info.signature.params = params from hparams, ← show info.result = result from hresult]
  rfl

/-- The types of parameters are recorded as a derivation assumes them. -/
theorem DeclaredAs.lookup_param (hq : q.Settles p) (hids : p.ids.Nodup) {f : Function}
    {info : FunctionInfo} {s : Signature} (h : DeclaredAs p q t f info)
    (hs : f.Signed ⟨p, q, types⟩ s) {y : Nat} (hy : y ∈ (q.namesOf f).params) :
    t.symbols.lookup y = some (types y) := by
  have htypes : info.signature.params = info.params.map t.typeOfSymbol := h.params.types
  have hassumed : (q.namesOf f).params.map types = s.params.map .value := hs.params
  rw [← h.signature_eq hq hids hs, htypes, h.names, List.map_map] at hassumed
  have hty := List.map_inj_left.mp hassumed y hy
  obtain ⟨ty, hl, -⟩ := h.params.values y (h.names ▸ hy)
  rw [hl, hty, Function.comp_apply, typeOfSymbol_eq hl]

/-- What a derivation says of the functions of a program. -/
def FunctionsFit (p : Program) (q : Resolution) (types : Nat → TypeInfo) : Prop :=
  ∀ f ∈ p.functions, (∃ s, f.Signed ⟨p, q, types⟩ s) ∧ f.TagsFit

/-- Once functions are declared, what is recorded is what a derivation assumes. -/
theorem Declared.agrees (h : Declared p q p.functions t) (hq : q.Settles p) (hids : p.ids.Nodup)
    (hf : FunctionsFit p q types) (hprint : types 5 = .function ⟨[.any], .void⟩) {n : Nat}
    (hn : ∀ y z, y ≤ n → q.table.symbol? y = some z → z.kind ≠ .var ∧ z.kind ≠ .param) :
    Agrees ⟨p, q, types⟩ n t := by
  refine ⟨fun y ty hy hv => ?_, fun y s hk hs => ?_⟩
  · rcases hv.kind with ⟨z, hz, hk⟩ | ⟨z, hz, hk⟩
    · exact absurd hk (hn y z hy hz).1
    · exact absurd hk (hn y z hy hz).2
  · rcases hq.exists_function hk with rfl | ⟨f, hmem, rfl⟩
    · rw [h.print, ← TypeInfo.function.inj (hprint.symm.trans hs)]
    · obtain ⟨⟨s', hs'⟩, -⟩ := hf f hmem
      obtain ⟨info, -, hd, -⟩ := h.info hids hmem
      rw [← hd.symbol, hd.signature, hd.signature_eq hq hids hs',
        ← TypeInfo.function.inj (hs'.symbol.symm.trans hs)]

/-- The items of a well-typed program are typed after its functions are declared. -/
structure Started (p : Program) (q : Resolution) (types : Nat → TypeInfo) (t : Typing) : Prop where
  settles : q.Settles p
  ids : p.ids.Nodup
  declared : Declared p q p.functions t
  functions : FunctionsFit p q types

theorem function_complete {t₀ : Typing} (h : Started p q types t₀) {f : Function} {n m : Nat}
    {js : NodeTypes} (hf : f ∈ p.functions) (hd : Item.Derives ⟨p, q, types⟩ (.function f) js)
    (hb : Item.Bound q n (.function f) m) (ht : Prepared ⟨p, q, types⟩ n m t) (hpre : t₀.Precedes t) :
    Completes ⟨p, q, types⟩ n m t js (function (itemContext p q) t f) := by
  obtain ⟨info, -, hdeclared, hfind, -⟩ := h.declared.info h.ids hf
  have hitem : t.functionOfItem? f.node.id = some info := by
    rw [functionOfItem?, ← hpre.functions]
    exact hfind
  cases hd with
  | function hs htags hbody hreturns =>
    rename_i s
    have hsignature := hdeclared.signature_eq h.settles h.ids hs
    cases hb with
    | function hptypes hresult hitemOf hparams hkinds hbound =>
      rename_i e
      have hnames : q.namesOf f = e := by
        rw [namesOf, hitemOf]
        rfl
      have hle := hbound.le
      have hagrees : Agrees ⟨p, q, types⟩ (n + f.params.length) t := by
        refine ⟨fun y ty hy hv => ?_, ht.agrees.functions⟩
        by_cases hn : y ≤ n
        · exact ht.agrees.values y ty hn hv
        · have hmem : y ∈ (q.namesOf f).params := by
            rw [hnames, hparams, List.mem_range'_1]
            omega
          have hl := hdeclared.lookup_param h.settles h.ids hs hmem
          have htype : types y = .value ty := hv.type
          rw [htype] at hl
          exact lookup_of_isPrefix hpre.symbols hl
      have hclear : Clear q (n + f.params.length) m t := by
        intro e he hk
        have : e.1 ≤ n ∨ m < e.1 := ht.clear e he hk
        omega
      have hblock : f.body.Bound q (n + f.params.length) m := by
        cases hbody' : f.body with
        | mk k ss =>
          rw [hbody'] at hbound
          exact .mk hbound
      have hgrounds : Grounds p { itemContext p q with function := some info } := ⟨h.settles, h.ids, rfl⟩
      have hderives : f.body.Derives ⟨p, q, types⟩
          (resultOf { itemContext p q with function := some info }) false js := by
        rw [← hsignature] at hbody
        exact hbody
      have hcomp := block_complete hgrounds f.body hderives hblock
        ⟨hagrees, hclear, ht.types, ht.clean⟩
      have hclosed : (info.result = .void || info.result = .invalid || f.body.isClosed) = true := by
        rw [← hsignature] at hreturns
        rcases hreturns with hvoid | hreturns
        · simp [show info.result = .void from hvoid]
        · simp [(Block.returns_iff f.body).mp hreturns]
      rw [function, hitem]
      dsimp only
      rw [if_pos hclosed]
      exact ⟨hcomp.accepts, hcomp.agrees, hcomp.notes.widen (by omega) (Nat.le_refl m)⟩

theorem item_complete {t₀ : Typing} (h : Started p q types t₀) {i : Item} {n m : Nat} {js : NodeTypes}
    (hi : i ∈ p.items) (hd : i.Derives ⟨p, q, types⟩ js) (hb : i.Bound q n m)
    (ht : Prepared ⟨p, q, types⟩ n m t) (hpre : t₀.Precedes t) :
    Completes ⟨p, q, types⟩ n m t js (item (itemContext p q) t i) := by
  have hgrounds := itemContext_grounds h.settles h.ids
  cases i with
  | error k => cases hd
  | function f => exact function_complete h (Item.mem_functionsOf.mpr hi) hd hb ht hpre
  | typeAlias a =>
    cases hd with
    | typeAlias hitem hd =>
      rename_i e ty
      cases hb
      have hitem' : q.itemOf? a.node.id = some e := hitem
      have heq : item (itemContext p q) t (.typeAlias a) =
          (t.namedType (itemContext p q) e.symbol).1 := by
        rw [item]
        refine congrArg (fun y => (t.namedType (itemContext p q) y).1) ?_
        change ((q.itemOf? a.node.id).map (·.symbol)).getD 0 = e.symbol
        rw [hitem']
        rfl
      rw [heq]
      exact (namedType_completes hgrounds hd ht).2
  | stmt k s =>
    cases hd with
    | stmt hd =>
      cases hb with
      | stmt hb => exact stmt_complete hgrounds s hd hb ht

theorem items_complete {t₀ : Typing} (h : Started p q types t₀) {is : List Item} {n m : Nat}
    {js : NodeTypes} (hi : ∀ i ∈ is, i ∈ p.items) (hd : Item.AllDerive ⟨p, q, types⟩ is js)
    (hb : Item.AllBound q n is m) (ht : Prepared ⟨p, q, types⟩ n m t) (hpre : t₀.Precedes t) :
    Completes ⟨p, q, types⟩ n m t js (is.foldl (item (itemContext p q)) t) := by
  induction hb generalizing t js with
  | nil =>
    cases hd
    exact ht.same rfl
  | cons hbi hbis ih =>
    rename_i i is
    rw [List.forall_mem_cons] at hi
    cases hd with
    | cons hdi hdis =>
      have hitem := item_complete h hi.1 hdi hbi (ht.shrink hbis.le) hpre
      have hnext := (extends_item (itemContext p q) t i).toPrecedes
      exact hitem.seq (ih hi.2 hdis (ht.after hitem hbi.le) (hpre.trans hnext)) hbi.le hbis.le

end

end Typing

open Typing

theorem Item.AllDerive.exists_derives {Γ : Assumptions} {is : List Item} {js : NodeTypes}
    (h : Item.AllDerive Γ is js) {i : Item} (hi : i ∈ is) : ∃ ks, i.Derives Γ ks ∧ ks ⊆ js := by
  induction h with
  | nil => cases hi
  | cons hd _ ih =>
    rcases List.mem_cons.mp hi with rfl | hi
    · exact ⟨_, hd, List.subset_append_left _ _⟩
    · obtain ⟨ks, hd, hsub⟩ := ih hi
      exact ⟨ks, hd, List.subset_append_of_subset_right _ hsub⟩

/-- Typing a well-typed program reports nothing and records what its derivation gives. -/
theorem Program.Derives.accepted {p : Program} {q : Resolution} {types : Nat → TypeInfo}
    {js : NodeTypes} (h : p.Derives q types js) (hids : p.ids.Nodup) (hq : q.Settles p) :
    (p.typed q).diagnostics = [] ∧ (p.typed q).exprs = js := by
  have hfit : FunctionsFit p q types := by
    intro f hf
    obtain ⟨ks, hd, -⟩ := h.items.exists_derives (Item.mem_functionsOf.mp hf)
    cases hd with
    | function hs htags _ _ => exact ⟨⟨_, hs⟩, htags⟩
  have hfind : q.table.findLocal? SymbolTable.outermost "print" = some 5 :=
    hq.final.sound.provided.found _ _ _ (by decide)
  have hstart : (Typing.start q).diagnostics = [] ∧ (Typing.start q).exprs = [] := by
    rw [Typing.start, hfind]
    exact ⟨rfl, rfl⟩
  have hclean : (Typing.start q).IsClean := by
    intro d hd
    rw [hstart.1] at hd
    cases hd
  have hgrounds := itemContext_grounds hq hids
  have hdeclares : Accepts (Typing.start q) (p.declared q) [] :=
    declareFunctions_complete hgrounds (.start hq) hclean
      (fun f hf => ⟨hq.declares hf, hfit f hf⟩) (hq.noted_nodup hids)
  have hclean' := hdeclares.isClean hclean
  have hdeclared : Declared p q p.functions (p.declared q) :=
    (Declared.start hq).run (c := itemContext p q) hq.final.sound (aliasesFit hq)
      (fun f hf => hq.declares hf) (hq.noted_nodup hids) hclean'
  obtain ⟨n, hb, hn⟩ := hq.bound
  have hprepared : Prepared ⟨p, q, types⟩ n q.table.symbols.length (p.declared q) :=
    ⟨hdeclared.agrees hq hids hfit (h.print 5 hfind) hn, hdeclared.clear hq n _, hdeclared.types,
      hclean'⟩
  have hcomp := items_complete ⟨hq, hids, hdeclared, hfit⟩ (fun _ hi => hi) h.items hb hprepared
    (.refl _)
  rw [p.typed_eq]
  exact ⟨hcomp.accepts.diagnostics.trans (hdeclares.diagnostics.trans hstart.1), by
    rw [hcomp.accepts.exprs, hdeclares.exprs, hstart.2]
    rfl⟩

end Craftlang
