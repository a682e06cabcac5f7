import Craftlang.Proofs.Typing.ExprSound

/-!
# Statements that are accepted are well typed

What is written as a type stands for a type of values, because aliases that form a cycle are reported.
So every variable that a statement declares has a type of values, and the statements after it can use
it.
-/

namespace Craftlang

/-- What following aliases finds holds of the symbol and of the aliases on the way, if it holds of what is
known and an alias has it from its target. -/
theorem followAlias_spec (known : Nat → Option Ty) (K : Nat → Prop) (D : Nat → Ty → Prop)
    (hknown : ∀ y ty, K y → known y = some ty → D y ty) (aliases : List (Nat × Nat)) (y : Nat)
    (ha : ∀ a ∈ aliases, K a.2 ∧ ∀ ty, D a.2 ty → D a.1 ty) (hy : K y) {ty : Ty}
    (h : (followAlias known aliases y).2 = .type ty) :
    D y ty ∧ ∀ x ∈ (followAlias known aliases y).1, known x = none ∧ D x ty := by
  fun_induction followAlias known aliases y with
  | case1 aliases y t ht =>
    cases h
    exact ⟨hknown y _ hy ht, List.forall_mem_nil _⟩
  | case2 aliases y hn hf => cases h
  | case3 aliases y hn a hf hfewer met last heq ih =>
    obtain ⟨htarget, hsame⟩ := ha a (List.mem_of_find?_eq_some hf)
    obtain ⟨hlast, hmet⟩ := ih (fun b hb => ha b (List.mem_of_mem_eraseP hb)) htarget (heq ▸ h)
    have hfirst : a.1 = y := by simpa using List.find?_some hf
    have hd : D y ty := hfirst ▸ hsame ty hlast
    rw [heq] at hmet
    exact ⟨hd, List.forall_mem_cons.mpr ⟨⟨hn, hd⟩, hmet⟩⟩

namespace Typing

/-- What is recorded for types is what they stand for. -/
def KnowsTypes (p : Program) (q : Resolution) (t : Typing) : Prop :=
  ∀ e ∈ t.symbols, q.HasKind e.1 .type → Names p q e

/-- The targets of aliases are types, and an alias stands for what its target stands for. -/
def AliasesFit (p : Program) (c : TypingContext) : Prop :=
  ∀ a ∈ c.aliases, c.resolution.HasKind a.2 .type ∧
    ∀ ty, p.Denotes c.resolution a.2 ty → p.Denotes c.resolution a.1 ty

/-- What is known before a piece whose names are bound to the first `n` symbols, after which `m` symbols
are declared. -/
structure Ready (p : Program) (q : Resolution) (n m : Nat) (t : Typing) : Prop where
  knows : Knows q n t
  clear : Clear q n m t
  types : KnowsTypes p q t

/-- What is known after such a piece. -/
structure Reaches (p : Program) (q : Resolution) (n m : Nat) (t t' : Typing) : Prop where
  knows : Knows q m t'
  notes : Notes p q n m t t'

section

variable {p : Program} {q : Resolution} {n m o : Nat} {t t' t'' : Typing}

theorem KnowsTypes.after (h : KnowsTypes p q t) (hn : Notes p q n m t t') : KnowsTypes p q t' := by
  intro e he hk
  rcases hn e he with he | he | ⟨-, -, hvar⟩
  · exact h e he hk
  · exact he
  · cases hk.unique hvar

theorem Ready.shrink (h : Ready p q n o t) (hm : m ≤ o) : Ready p q n m t :=
  ⟨h.knows, h.clear.shrink hm, h.types⟩

theorem Ready.after (h : Ready p q n o t) (hr : Reaches p q n m t t') (hle : n ≤ m) : Ready p q m o t' :=
  ⟨hr.knows, h.clear.after hr.notes hle, h.types.after hr.notes⟩

theorem Ready.same (h : Ready p q n m t) (hn : n = m) : Reaches p q n m t t := ⟨hn ▸ h.knows, .refl rfl⟩

theorem Reaches.seq (h : Reaches p q n m t t') (h' : Reaches p q m o t' t'') (hnm : n ≤ m) (hmo : m ≤ o) :
    Reaches p q n o t t'' := ⟨h'.knows, h.notes.seq h'.notes hnm hmo⟩

end

/-- The types of the language have names that stand for types of values. -/
theorem ofName?_of_builtin {p : Program} {q : Resolution} (hq : q.Sound p) {y : Nat} {z : Symbol}
    (hz : q.table.symbol? y = some z) (hk : z.kind = .type) (hb : z.flags.builtin = true) :
    Ty.ofName? z.name = some ((Ty.ofName? z.name).getD .invalid) := by
  rcases hq.origin y z hz with hs | ⟨hn, -⟩
  · have hs := SymbolTable.symbol?_start hs
    simp only [List.mem_cons, Prod.mk.injEq, List.not_mem_nil, or_false] at hs
    rcases hs with ⟨-, hkind, hname, -⟩ | ⟨-, -, hname, -⟩ | ⟨-, -, hname, -⟩ | ⟨-, -, hname, -⟩ |
      ⟨-, hkind, hname, -⟩
    · rw [hkind] at hk
      cases hk
    · rw [hname]
      decide
    · rw [hname]
      decide
    · rw [hname]
      decide
    · rw [hkind] at hk
      cases hk
  · rw [hn] at hb
    cases hb

section

variable {p : Program} {c : TypingContext} {u t : Typing} {n m : Nat}

/-- What is known of a type is what it stands for. -/
theorem denotes_of_namedType? (hq : c.resolution.Sound p) (ht : KnowsTypes p c.resolution t) {y : Nat}
    {ty : Ty} (hy : c.resolution.HasKind y .type) (h : t.namedType? c.resolution y = some ty) :
    p.Denotes c.resolution y ty := by
  obtain ⟨z, hz, hk⟩ := hy
  rw [namedType?, hz] at h
  simp only [hk, ne_eq, not_true_eq_false, if_false] at h
  split at h
  · rename_i hb
    cases h
    exact .builtin hz hk hb (ofName?_of_builtin hq hz hk hb)
  · split at h
    · rename_i ty' hl
      cases h
      obtain ⟨-, ty'', hty, hd⟩ := ht _ (mem_of_lookup_eq_some hl) ⟨z, hz, hk⟩
      cases hty
      exact hd
    · cases h

theorem hasKind_of_namedType?_none {y : Nat} {q : Resolution} (h : t.namedType? q y = none) :
    q.HasKind y .type := by
  rw [namedType?] at h
  split at h
  · cases h
  · rename_i z hz
    by_cases hk : z.kind = .type
    · exact ⟨z, hz, hk⟩
    · rw [if_pos hk] at h
      cases h

theorem notes_noteAll {q : Resolution} {ys : List Nat} {ty : Ty}
    (hys : ∀ y ∈ ys, q.HasKind y .type ∧ p.Denotes q y ty) (t : Typing) :
    Notes p q n m t (t.noteAll ys (.value ty)) := by
  intro e he
  rcases List.mem_append.mp he with he | he
  · exact .inl he
  · obtain ⟨y, hy, rfl⟩ := List.mem_map.mp he
    exact .inr (.inl ⟨(hys y hy).1, ty, rfl, (hys y hy).2⟩)

/-- A type that is named without a report stands for what is found. -/
theorem namedType_sound (hq : c.resolution.Sound p) (ha : AliasesFit p c)
    (ht : KnowsTypes p c.resolution t) {y : Nat} (hy : c.resolution.HasKind y .type)
    (h : (t.namedType c y).1.IsClean) :
    p.Denotes c.resolution y (t.namedType c y).2 ∧
      Notes p c.resolution n m t (t.namedType c y).1 := by
  have hspec := @followAlias_spec (t.namedType? c.resolution) (c.resolution.HasKind · .type)
    (p.Denotes c.resolution) (fun _ _ => denotes_of_namedType? hq ht) c.aliases y ha hy
  have hrecords := t.namedType_records c y
  generalize followAlias (t.namedType? c.resolution) c.aliases y = walk at hspec hrecords
  generalize t.namedType c y = answer at h hrecords ⊢
  cases hrecords with
  | type hxs =>
    obtain ⟨hd, hmet⟩ := hspec rfl
    refine ⟨hd, notes_noteAll (fun x hx => ?_) t⟩
    obtain ⟨hnone, hx⟩ := hmet x ((hxs x).mp hx)
    exact ⟨hasKind_of_namedType?_none hnone, hx⟩
  | cycle => exact absurd ((extends_noteAll _ _ _).isClean h) not_isClean_report

theorem writtenType_sound (hq : c.resolution.Sound p) (ha : AliasesFit p c)
    (ht : KnowsTypes p c.resolution t) {type : Name} (hn : c.resolution.NamesType type)
    (h : (t.writtenType c type).1.IsClean) :
    p.Writes c.resolution type (t.writtenType c type).2 ∧
      Notes p c.resolution n m t (t.writtenType c type).1 := by
  obtain ⟨y, z, hy, hz, hk⟩ := hn
  rw [writtenType, hy] at h ⊢
  obtain ⟨hd, hnotes⟩ := namedType_sound hq ha ht ⟨z, hz, hk⟩ h
  exact ⟨⟨y, hy, hd⟩, hnotes⟩

/-- Where statements are typed: the names are sound, aliases stand for types, and a function gives a value
or nothing. The types that are known in the end are `u`. -/
structure Stage (p : Program) (c : TypingContext) (u : Typing) : Prop where
  sound : c.resolution.Sound p
  clean : u.IsClean
  aliases : AliasesFit p c
  result : ∀ f, c.function = some f → f.result.isValue = true ∨ f.result = .void

theorem Stage.inLoop (h : Stage p c u) : Stage p { c with inLoop := true } u :=
  ⟨h.sound, h.clean, h.aliases, h.result⟩

/-- The type of what a statement gives, if it stands in a function. -/
def resultOf (c : TypingContext) : Option Ty := c.function.map (·.result)

theorem exprStmt_sound (hs : Stage p c u) {e : Expr} (hw : e.isWhole = true)
    (hb : Expr.Bound c.resolution n e m) (hr : Ready p c.resolution n m t)
    (h : (expr c t e).1.Precedes u) : ExprSound p c.resolution m u e (expr c t e) ∧
      Reaches p c.resolution n m t (expr c t e).1 := by
  have he := expr_sound hs.sound hs.clean e hw hb hr.knows hr.clear h
  exact ⟨he, he.knows, notes_expr t e hb⟩

/-- An expression whose value is needed has one. -/
theorem value_sound (hs : Stage p c u) {e : Expr} (hw : e.isWhole = true)
    (hb : Expr.Bound c.resolution n e m) (hr : Ready p c.resolution n m t)
    (h : (value c t e).1.Precedes u) : (∃ js, e.Derives ⟨p, c.resolution, u.types⟩ (value c t e).2 js) ∧
      (value c t e).2.isValue = true ∧ Reaches p c.resolution n m t (value c t e).1 := by
  rw [value] at h ⊢
  obtain ⟨hcons, hv⟩ := hs.clean.consumed h
  rw [hcons] at h ⊢
  obtain ⟨he, hreach⟩ := exprStmt_sound hs hw hb hr h
  exact ⟨he.type, he.isValue hv, hreach⟩

theorem condition_sound (hs : Stage p c u) {e : Expr} (hw : e.isWhole = true)
    (hb : Expr.Bound c.resolution n e m) (hr : Ready p c.resolution n m t)
    (h : (condition c t e).Precedes u) : (∃ js, e.Derives ⟨p, c.resolution, u.types⟩ .bool js) ∧
      Reaches p c.resolution n m t (condition c t e) := by
  rw [condition_eq] at h ⊢
  by_cases hty : (value c t e).2 = .bool
  · rw [if_pos (by simp [hty])] at h ⊢
    obtain ⟨he, -, hreach⟩ := value_sound hs hw hb hr h
    exact ⟨hty ▸ he, hreach⟩
  · by_cases hin : (value c t e).2 = .invalid
    · rw [if_pos (by simp [hin])] at h
      obtain ⟨-, hv, -⟩ := value_sound hs hw hb hr h
      exact absurd hin (Ty.ne_invalid hv)
    · rw [if_neg (by simp [hin, hty])] at h
      exact absurd h hs.clean.not_report

/-- A variable is declared with a type of values, and the declaration is well typed once its symbol has
that type. -/
theorem declaredType_sound (hs : Stage p c u) {k : Node} {name : Name} {type : Option Name}
    {init : Option Expr} {b : Bool} (hw : Expr.isWholeIfAny init = true)
    (hn : ∀ x ∈ type, c.resolution.NamesType x) (hb : Expr.MaybeBound c.resolution n init m)
    (hr : Ready p c.resolution n m t) (h : (declaredType c t name type init).1.Precedes u) :
    (declaredType c t name type init).2.isValue = true ∧
      (∀ y, c.resolution.declOf? k.id = some y →
        u.types y = .value (declaredType c t name type init).2 →
        ∃ js, Stmt.Derives ⟨p, c.resolution, u.types⟩ (resultOf c) b (.var k name type init) js) ∧
      Reaches p c.resolution n m t (declaredType c t name type init).1 := by
  cases type with
  | none =>
    cases hb with
    | none => exact absurd h hs.clean.not_report
    | some he =>
      obtain ⟨⟨js, htype⟩, hv, hreach⟩ := value_sound hs hw he hr h
      exact ⟨hv, fun y hy ht => ⟨_, .inferred htype hv hy ht⟩, hreach⟩
  | some type =>
    have hn := hn type rfl
    cases hb with
    | none =>
      obtain ⟨hwrites, hnotes⟩ := writtenType_sound hs.sound hs.aliases hr.types hn
        (h.isClean hs.clean)
      exact ⟨hwrites.isValue, fun y hy ht => ⟨_, .declared hwrites hy ht⟩,
        hr.knows.mono (extends_writtenType t c type).toPrecedes, hnotes⟩
    | some he =>
      rename_i e
      have heq : declaredType c t name (some type) (some e) =
          (if (t.writtenType c type).2.accepts (value c (t.writtenType c type).1 e).2 then
            (value c (t.writtenType c type).1 e).1 else (value c (t.writtenType c type).1 e).1.report
              (.initMismatch name.text (t.writtenType c type).2
                (value c (t.writtenType c type).1 e).2) e.span, (t.writtenType c type).2) := rfl
      rw [heq] at h ⊢
      by_cases ha : (t.writtenType c type).2.accepts (value c (t.writtenType c type).1 e).2 = true
      · simp only [if_pos ha] at h ⊢
        have hpw := (extends_value c _ e).toPrecedes.trans h
        obtain ⟨hwrites, hnotes⟩ := writtenType_sound hs.sound hs.aliases hr.types hn
          (hpw.isClean hs.clean)
        have hknows := hr.knows.mono (extends_writtenType t c type).toPrecedes
        have hready := hr.after ⟨hknows, hnotes⟩ (Nat.le_refl n)
        obtain ⟨⟨js, htype⟩, hev, hreach⟩ := value_sound hs hw he hready h
        rw [← Ty.eq_of_accepts hwrites.isValue hev ha] at htype
        exact ⟨hwrites.isValue, fun y hy ht => ⟨_, .annotated hwrites htype hy ht⟩, hreach.knows,
          hnotes.seq hreach.notes (Nat.le_refl n) he.le⟩
      · simp only [if_neg ha] at h
        exact absurd h hs.clean.not_report

theorem variableDecl_sound (hs : Stage p c u) {k : Node} {name : Name} {type : Option Name}
    {init : Option Expr} {b : Bool} (hw : Expr.isWholeIfAny init = true)
    (hb : Stmt.Bound c.resolution n (.var k name type init) m) (hr : Ready p c.resolution n m t)
    (h : (variableDecl c t k name type init).Precedes u) :
    (∃ js, Stmt.Derives ⟨p, c.resolution, u.types⟩ (resultOf c) b (.var k name type init) js) ∧
      Reaches p c.resolution n m t (variableDecl c t k name type init) := by
  cases hb with
  | var hn hinit hdecl hz hk =>
    rename_i m z
    have hkind : c.resolution.HasKind (m + 1) .var := ⟨z, hz, hk⟩
    rw [variableDecl_eq, hdecl] at h ⊢
    have hnote := (extends_noteSymbol (declaredType c t name type init).1 (m + 1)
      (.value (declaredType c t name type init).2)).toPrecedes
    have hle := hinit.le
    obtain ⟨hv, hderives, hreach⟩ := declaredType_sound hs hw hn hinit (hr.shrink (Nat.le_succ _))
      (hnote.trans h)
    have hclear := (hr.after hreach hle).clear
    have hl := hclear.lookup_noteSymbol (Nat.lt_succ_self m) (Nat.le_refl _) hkind
      (.value (declaredType c t name type init).2)
    exact ⟨hderives (m + 1) hdecl (types_eq hl h), hreach.knows.noteVar hclear hkind hv,
      hreach.notes.seq (.noteVar hkind _) hle (Nat.le_succ _)⟩

/-- A value is returned from a function that has a result. -/
theorem give_value {k : Node} {f : FunctionInfo} {e : Expr} (hf : c.function = some f)
    (hv : f.result ≠ .void) : give c t k (some e) =
      if f.result.accepts (value c t e).2 then (value c t e).1
      else (value c t e).1.report (.resultMismatch (value c t e).2 f.name f.result) e.span := by
  unfold give
  rw [hf]
  exact if_neg hv

theorem give_sound (hs : Stage p c u) {k : Node} {result : Option Expr} {b : Bool}
    (hw : Expr.isWholeIfAny result = true) (hb : Expr.MaybeBound c.resolution n result m)
    (hr : Ready p c.resolution n m t) (h : (give c t k result).Precedes u) :
    (∃ js, Stmt.Derives ⟨p, c.resolution, u.types⟩ (resultOf c) b (.give k result) js) ∧
      Reaches p c.resolution n m t (give c t k result) := by
  cases hf : c.function with
  | none =>
    unfold give at h
    rw [hf] at h
    cases result <;> exact absurd h hs.clean.not_report
  | some f =>
    have hresult := hs.result f hf
    have hof : resultOf c = some f.result := by rw [resultOf, hf]; rfl
    cases hb with
    | none =>
      unfold give at h ⊢
      rw [hf] at h ⊢
      by_cases hvoid : f.result = .void
      · simp only [if_pos (show (f.result = .void || f.result = .invalid) = true by simp [hvoid])]
        exact ⟨⟨_, .give (by rw [hof, hvoid])⟩, hr.same rfl⟩
      · have hin := Ty.ne_invalid (hresult.resolve_right hvoid)
        simp only [hvoid, hin, decide_false, Bool.or_self, Bool.false_eq_true, if_false] at h
        exact absurd h hs.clean.not_report
    | some he =>
      rename_i e
      by_cases hvoid : f.result = .void
      · have heq : give c t k (some e) = if (expr c t e).2 = .invalid then (expr c t e).1 else
            (expr c t e).1.report (.givesNothing f.name) e.span := by
          unfold give
          rw [hf]
          exact if_pos hvoid
        rw [heq] at h
        split at h
        · rename_i hin
          obtain ⟨he, -⟩ := exprStmt_sound hs hw he hr h
          rcases he.value with hv | hv
          · exact absurd hin (Ty.ne_invalid hv)
          · rw [hv] at hin
            cases hin
        · exact absurd h hs.clean.not_report
      · rw [give_value hf hvoid] at h ⊢
        split at h
        · rename_i ha
          have hv := hresult.resolve_right hvoid
          rw [if_pos ha]
          obtain ⟨⟨js, htype⟩, hev, hreach⟩ := value_sound hs hw he hr h
          rw [← Ty.eq_of_accepts hv hev ha] at htype
          exact ⟨⟨_, .giveValue hof hv htype⟩, hreach⟩
        · exact absurd h hs.clean.not_report

end

section

variable {p : Program} {u : Typing}

mutual

/-- A statement that is typed without errors is well typed. -/
theorem stmt_sound {c : TypingContext} (hs : Stage p c u) {t : Typing} {n m : Nat} : (s : Stmt) →
    s.isWhole = true → s.Bound c.resolution n m → Ready p c.resolution n m t →
    (stmt c t s).Precedes u → (∃ js, s.Derives ⟨p, c.resolution, u.types⟩ (resultOf c) c.inLoop js) ∧
      Reaches p c.resolution n m t (stmt c t s)
  | .error _, hw, _, _, _ => by cases hw
  | .command .., _, hb, hr, _ => by
    cases hb
    rw [stmt]
    exact ⟨⟨_, .command⟩, hr.same rfl⟩
  | .leave _, _, hb, hr, h => by
    cases hb
    rw [stmt] at h ⊢
    cases hl : c.inLoop with
    | true => exact ⟨⟨_, .leave rfl⟩, hr.same rfl⟩
    | false =>
      rw [hl] at h
      exact absurd h hs.clean.not_report
  | .again _, _, hb, hr, h => by
    cases hb
    rw [stmt] at h ⊢
    cases hl : c.inLoop with
    | true => exact ⟨⟨_, .again rfl⟩, hr.same rfl⟩
    | false =>
      rw [hl] at h
      exact absurd h hs.clean.not_report
  | .var k name type init, hw, hb, hr, h => by
    rw [stmt] at h ⊢
    exact variableDecl_sound hs hw hb hr h
  | .expr _ e, hw, hb, hr, h => by
    cases hb with
    | expr he =>
      rw [stmt] at h ⊢
      obtain ⟨hsound, hreach⟩ := exprStmt_sound hs hw he hr h
      obtain ⟨js, htype⟩ := hsound.type
      exact ⟨⟨_, .expr htype⟩, hreach⟩
  | .branch _ cond body otherwise, hw, hb, hr, h => by
    cases hb with
    | branch hc hbody ho =>
      rw [Stmt.isWhole, Bool.and_eq_true, Bool.and_eq_true] at hw
      rw [stmt] at h ⊢
      have hpb := (extends_alternative c _ otherwise).toPrecedes.trans h
      have hpc := (extends_block c _ body).toPrecedes.trans hpb
      obtain ⟨⟨js, htype⟩, hreach⟩ := condition_sound hs hw.1.1 hc
        (hr.shrink (Nat.le_trans hbody.le ho.le)) hpc
      have hr' := hr.after hreach hc.le
      obtain ⟨⟨ks, htyped⟩, hreach'⟩ := block_sound hs body hw.1.2 hbody (hr'.shrink ho.le) hpb
      obtain ⟨⟨ls, htyped'⟩, hreach''⟩ := alternative_sound hs otherwise hw.2 ho (hr'.after hreach' hbody.le) h
      exact ⟨⟨_, .branch htype htyped htyped'⟩, hreach.seq (hreach'.seq hreach'' hbody.le ho.le) hc.le
        (Nat.le_trans hbody.le ho.le)⟩
  | .loop _ .before cond body, hw, hb, hr, h => by
    cases hb with
    | loopBefore hc hbody =>
      rw [Stmt.isWhole, Bool.and_eq_true] at hw
      rw [stmt] at h ⊢
      have hpc := (extends_block _ _ body).toPrecedes.trans h
      obtain ⟨⟨js, htype⟩, hreach⟩ := condition_sound hs hw.1 hc (hr.shrink hbody.le) hpc
      obtain ⟨⟨ks, htyped⟩, hreach'⟩ := block_sound hs.inLoop body hw.2 hbody (hr.after hreach hc.le) h
      exact ⟨⟨_, .loopBefore htype htyped⟩, hreach.seq hreach' hc.le hbody.le⟩
  | .loop _ .after cond body, hw, hb, hr, h => by
    cases hb with
    | loopAfter hbody hc =>
      rw [Stmt.isWhole, Bool.and_eq_true] at hw
      rw [stmt] at h ⊢
      have hpb := (extends_condition _ c cond).toPrecedes.trans h
      obtain ⟨⟨js, htyped⟩, hreach⟩ := block_sound hs.inLoop body hw.2 hbody (hr.shrink hc.le) hpb
      obtain ⟨⟨ks, htype⟩, hreach'⟩ := condition_sound hs hw.1 hc (hr.after hreach hbody.le) h
      exact ⟨⟨_, .loopAfter htyped htype⟩, hreach.seq hreach' hbody.le hc.le⟩
  | .give k result, hw, hb, hr, h => by
    cases hb with
    | give hv =>
      rw [stmt] at h ⊢
      exact give_sound hs hw hv hr h

theorem block_sound {c : TypingContext} (hs : Stage p c u) {t : Typing} {n m : Nat} : (b : Block) →
    b.isWhole = true → b.Bound c.resolution n m → Ready p c.resolution n m t →
    (block c t b).Precedes u → (∃ js, b.Derives ⟨p, c.resolution, u.types⟩ (resultOf c) c.inLoop js) ∧
      Reaches p c.resolution n m t (block c t b)
  | .mk _ body, hw, hb, hr, h => by
    cases hb with
    | mk hbody =>
      rw [block] at h ⊢
      obtain ⟨⟨js, htyped⟩, hreach⟩ := stmts_sound hs body hw hbody hr h
      exact ⟨⟨_, .mk htyped⟩, hreach⟩

theorem stmts_sound {c : TypingContext} (hs : Stage p c u) {t : Typing} {n m : Nat} :
    (ss : List Stmt) → Stmt.areWhole ss = true → Stmt.AllBound c.resolution n ss m →
    Ready p c.resolution n m t → (stmts c t ss).Precedes u →
    (∃ js, Stmt.AllDerive ⟨p, c.resolution, u.types⟩ (resultOf c) c.inLoop ss js) ∧
      Reaches p c.resolution n m t (stmts c t ss)
  | [], _, hb, hr, _ => by
    cases hb
    rw [stmts]
    exact ⟨⟨_, .nil⟩, hr.same rfl⟩
  | s :: rest, hw, hb, hr, h => by
    cases hb with
    | cons hsb hrest =>
      rw [Stmt.areWhole, Bool.and_eq_true] at hw
      rw [stmts] at h ⊢
      have hps := (extends_stmts c _ rest).toPrecedes.trans h
      obtain ⟨⟨js, htyped⟩, hreach⟩ := stmt_sound hs s hw.1 hsb (hr.shrink hrest.le) hps
      obtain ⟨⟨ks, htyped'⟩, hreach'⟩ := stmts_sound hs rest hw.2 hrest (hr.after hreach hsb.le) h
      exact ⟨⟨_, .cons htyped htyped'⟩, hreach.seq hreach' hsb.le hrest.le⟩

theorem alternative_sound {c : TypingContext} (hs : Stage p c u) {t : Typing} {n m : Nat} :
    (o : Otherwise) → o.isWhole = true → o.Bound c.resolution n m → Ready p c.resolution n m t →
    (alternative c t o).Precedes u → (∃ js, o.Derives ⟨p, c.resolution, u.types⟩ (resultOf c) c.inLoop js) ∧
      Reaches p c.resolution n m t (alternative c t o)
  | .none, _, hb, hr, _ => by
    cases hb
    rw [alternative]
    exact ⟨⟨_, .none⟩, hr.same rfl⟩
  | .block body, hw, hb, hr, h => by
    cases hb with
    | block hbody =>
      rw [alternative] at h ⊢
      obtain ⟨⟨js, htyped⟩, hreach⟩ := block_sound hs body hw hbody hr h
      exact ⟨⟨_, .block htyped⟩, hreach⟩
  | .chain s, hw, hb, hr, h => by
    cases hb with
    | chain hsb =>
      rw [alternative] at h ⊢
      obtain ⟨⟨js, htyped⟩, hreach⟩ := stmt_sound hs s hw hsb hr h
      exact ⟨⟨_, .chain htyped⟩, hreach⟩

end

end

end Typing

end Craftlang
