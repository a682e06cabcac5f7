import Craftlang.Proofs.Scope.Misspelling
import Craftlang.Proofs.Typing.ProgramComplete

/-!
# A name that is written wrong costs no type

Where one name of a well-typed program is written wrong, a type is found as a derivation says, or it has faded:
it is invalid. What is made of a faded type may fade too, and it fits wherever it is put. So nothing is
reported about types.
-/

namespace Craftlang

/-- A type is found as it is, or it has faded. -/
def Ty.Fades (ty found : Ty) : Prop := found = ty ∨ found = .invalid

def TypeInfo.Fades : TypeInfo → TypeInfo → Prop
  | .value ty, .value found => ty.Fades found
  | .function s, .function found => List.Forall₂ Ty.Fades s.params found.params ∧ s.result.Fades found.result
  | _, _ => False

theorem Ty.Fades.refl (ty : Ty) : ty.Fades ty := .inl rfl

theorem Ty.Fades.ne_void {ty found : Ty} (h : ty.Fades found) (hv : ty.isValue = true) : found ≠ .void := by
  rintro rfl
  rcases h with rfl | h
  · cases hv
  · cases h

/-- What has faded fits wherever its type fits. -/
theorem Ty.Fits.accepts_faded {s ty s' ty' : Ty} (h : s.Fits ty) (hs : s.Fades s') (hty : ty.Fades ty') :
    s'.accepts ty' = true := by
  rw [Ty.accepts]
  rcases hs with rfl | rfl
  · rcases hty with rfl | rfl
    · exact h.accepts
    · exact if_pos (by simp)
  · exact if_pos (by simp)

theorem Ty.accepts_faded {ty target value : Ty} (hv : ty.isValue = true) (ht : ty.Fades target)
    (hvalue : ty.Fades value) : target.accepts value = true :=
  (Ty.Fits.same hv).accepts_faded ht hvalue

/-- A compound assignment keeps the type of its target. -/
theorem BinaryOp.Takes.right_eq {op : BinaryOp} {s ty : Ty} (h : op.Takes ty s ty) : s = ty := by
  cases h <;> rfl

/-- What is looked up in a list is looked up in one that goes along with it, if no other key goes along with
the one that is looked for. -/
theorem lookup_of_forall₂ {κ κ' α β : Type} [BEq κ] [LawfulBEq κ] [BEq κ'] [LawfulBEq κ'] {R : α → β → Prop}
    {f : κ → κ'} {xs : List (κ × α)} {ys : List (κ' × β)}
    (h : List.Forall₂ (fun e e' => e'.1 = f e.1 ∧ R e.2 e'.2) xs ys) {x : κ}
    (hf : ∀ e ∈ xs, f e.1 = f x → e.1 = x) {v : α} (hx : xs.lookup x = some v) :
    ∃ v', ys.lookup (f x) = some v' ∧ R v v' := by
  induction h with
  | nil => cases hx
  | cons he _ ih =>
    rename_i e e' xs ys _
    obtain ⟨k, a⟩ := e
    obtain ⟨k', b⟩ := e'
    obtain ⟨rfl, hab⟩ := he
    rw [List.forall_mem_cons] at hf
    by_cases hk : k = x
    · subst hk
      rw [List.lookup_cons_self] at hx ⊢
      exact ⟨b, rfl, Option.some.inj hx ▸ hab⟩
    · have hne : (x == k) = false := beq_false_of_ne fun h => hk h.symm
      have hne' : (f x == f k) = false := beq_false_of_ne fun h => hk (hf.1 h.symm)
      rw [List.lookup_cons, hne] at hx
      rw [List.lookup_cons, hne']
      exact ih hf.2 hx

theorem Assumptions.IsVariable.exists_symbol {Γ : Assumptions} {y : Nat} {ty : Ty} (h : Γ.IsVariable y ty) :
    ∃ z, Γ.names.table.symbol? y = some z ∧ (z.kind = .var ∨ z.kind = .param) := by
  rcases h.kind with ⟨z, hz, hk⟩ | ⟨z, hz, hk⟩
  · exact ⟨z, hz, .inl hk⟩
  · exact ⟨z, hz, .inr hk⟩

theorem Assumptions.IsVariable.not_type {Γ : Assumptions} {y : Nat} {ty : Ty} (h : Γ.IsVariable y ty) :
    ¬ Γ.names.HasKind y .type := by
  intro hk
  rcases h.kind with hkind | hkind
  · cases hk.unique hkind
  · cases hk.unique hkind

theorem Program.DenotesIn.denotes {p : Program} {q : Resolution} {k y : Nat} {ty : Ty} (h : p.DenotesIn q k y ty) :
    p.Denotes q y ty := by
  induction h with
  | builtin hz hk hb hname => exact .builtin hz hk hb hname
  | synonym ha hi ht _ ih => exact .synonym ha hi ht ih

namespace Misspelling

open Resolution Typing

variable {p : Program} {σ : Misspelling p} {q r : Resolution}

/-! ## What names are bound to -/

theorem Blurs.symbol? (h : σ.Blurs q r) {y : Nat} {z : Symbol} (hz : q.table.symbol? y = some z) :
    ∃ z', r.table.symbol? y = some z' ∧ z'.name = z.name ∧ z'.kind = z.kind ∧ z'.flags = z.flags := by
  have heq := SymbolTable.symbol?_congr h.table (f := fun z => (z.name, z.kind, z.flags)) (fun _ => rfl) y
  rw [hz] at heq
  obtain ⟨z', hz', hsame⟩ := Option.map_eq_some_iff.mp heq
  obtain ⟨hname, hsame⟩ := Prod.mk.inj hsame
  exact ⟨z', hz', hname, Prod.mk.inj hsame⟩

theorem Blurs.refOf? (h : σ.Blurs q r) {k y : Nat} (hy : q.refOf? k = some y) :
    ∃ y', r.refOf? k = some y' ∧ (y' = y ∨ y' = SymbolTable.errorSymbol) :=
  lookup_of_forall₂ (R := fun y y' => y' = y ∨ y' = SymbolTable.errorSymbol) (f := id) h.refs
    (fun _ _ heq => heq) hy

theorem Blurs.typeOf? (h : σ.Blurs q r) {x : Span} {y : Nat} (hy : q.typeOf? x = some y) :
    ∃ y', r.typeOf? (σ.moves.span x) = some y' ∧ (y' = y ∨ y' = SymbolTable.errorSymbol) := by
  have hmention : ∀ e ∈ q.types, ∃ m ∈ p.mentions, m.span = e.1 := by
    intro e he
    obtain ⟨e', -, hm, -⟩ := exists_of_forall₂ h.types he
    exact hm
  refine lookup_of_forall₂ (R := fun y y' => y' = y ∨ y' = SymbolTable.errorSymbol) (f := σ.moves.span)
    (h.types.imp fun _ _ he => he.2) (fun e he heq => ?_) hy
  obtain ⟨m, hm, hspan⟩ := hmention e he
  obtain ⟨k, hk, rfl⟩ := hmention _ (mem_of_lookup_eq_some hy)
  rw [← hspan] at heq ⊢
  exact σ.apart m hm k hk heq

/-- Where the program is typed in which a name is written wrong. -/
structure Setting (σ : Misspelling p) (q : Resolution) (c : TypingContext) : Prop where
  settles : q.Settles p
  ids : p.ids.Nodup
  apart : q.TellsApart p
  blurs : σ.Blurs q c.resolution
  aliases : ∃ p' : Program, p'.items = p.items.map (Item.relabel σ.moves) ∧ c.aliases = p'.aliases c.resolution

section

variable {c : TypingContext}

theorem Setting.inLoop (h : σ.Setting q c) : σ.Setting q { c with inLoop := true } :=
  ⟨h.settles, h.ids, h.apart, h.blurs, h.aliases⟩

/-- A name refers to what it did, or to nothing. -/
theorem Setting.boundTo?_cases (h : σ.Setting q c) {i : Ident} {y : Nat} {z : Symbol}
    (hy : q.refOf? i.node.id = some y) (hz : q.table.symbol? y = some z) :
    boundTo? c (σ.moves.ident i) = none ∨
      ∃ z', boundTo? c (σ.moves.ident i) = some (y, z') ∧ z'.kind = z.kind := by
  obtain ⟨y', hy', hsame⟩ := h.blurs.refOf? hy
  have hid : (σ.moves.ident i).node.id = i.node.id := rfl
  by_cases herror : y' = SymbolTable.errorSymbol
  · left
    rw [boundTo?, hid, hy', herror]
    rfl
  · right
    obtain rfl := hsame.resolve_right herror
    obtain ⟨z', hz', -, hkind, -⟩ := h.blurs.symbol? hz
    refine ⟨z', ?_, hkind⟩
    rw [boundTo?, hid, hy']
    simp [SymbolTable.isError, herror, hz']

/-- An alias has the target that it had, or none. -/
theorem Setting.find?_aliases (h : σ.Setting q c) {a : Alias} {i : ItemSymbols} {y : Nat}
    (ha : Item.typeAlias a ∈ p.items) (hi : q.itemOf? a.node.id = some i)
    (hy : q.typeOf? a.target.span = some y) :
    ∃ y', c.aliases.find? (fun b => b.1 == i.symbol) = some (i.symbol, y') ∧
      (y' = y ∨ y' = SymbolTable.errorSymbol) := by
  obtain ⟨y', hy', hsame⟩ := h.blurs.typeOf? hy
  obtain ⟨p', hitems, haliases⟩ := h.aliases
  have hitemOf : ∀ k, c.resolution.itemOf? k = q.itemOf? k := fun k => by
    rw [itemOf?, itemOf?, h.blurs.items]
  have hmem : (i.symbol, y') ∈ c.aliases := by
    rw [haliases, Program.mem_aliases]
    refine ⟨a.relabel σ.moves, i, ?_, (hitemOf _).trans hi, ?_⟩
    · rw [hitems]
      exact List.mem_map.mpr ⟨_, ha, rfl⟩
    · exact congrArg (i.symbol, ·) (congrArg (Option.getD · 0) hy').symm
  refine ⟨y', ?_, hsame⟩
  cases hf : c.aliases.find? (fun b => b.1 == i.symbol) with
  | none => simpa using List.find?_eq_none.mp hf _ hmem
  | some b =>
    have hb := List.mem_of_find?_eq_some hf
    rw [haliases, Program.mem_aliases, hitems] at hb
    obtain ⟨a', j, ha', hj, rfl⟩ := hb
    obtain ⟨k, hk, hrelabel⟩ := List.mem_map.mp ha'
    have hs : j.symbol = i.symbol := by simpa using List.find?_some hf
    cases k with
    | typeAlias b =>
      cases hrelabel
      obtain rfl := h.settles.hoists.alias_eq h.ids hk ha ((hitemOf _).symm.trans hj) hi hs
      have htarget : c.resolution.typeOf? (b.relabel σ.moves).target.span = some y' := hy'
      rw [htarget, hs]
      rfl
    | error n => cases hrelabel
    | function f => cases hrelabel
    | stmt n s => cases hrelabel

end

end Misspelling

/-! ## What is recorded -/

namespace Typing

/-- Nothing was reported, and what is recorded is what a derivation assumes, or it has faded. -/
structure Faded (Γ : Assumptions) (t : Typing) : Prop where
  silent : t.diagnostics = []
  values : ∀ e ∈ t.symbols, ¬ Γ.names.HasKind e.1 .type → (Γ.types e.1).Fades e.2
  types : ∀ e ∈ t.symbols, ∀ ty, Γ.program.Denotes Γ.names e.1 ty → (TypeInfo.value ty).Fades e.2
  functions : ∀ g ∈ t.functions, ∀ f : Function, g.item = f.node.id →
    (Γ.types (Γ.names.namesOf f).symbol).Fades (.function g.signature)

/-- The type that was found is the one that it should be, or it has faded. -/
structure FadesTo (Γ : Assumptions) (ty : Ty) (typed : Typing × Ty) : Prop where
  faded : typed.1.Faded Γ
  type : ty.Fades typed.2

section

variable {Γ : Assumptions} {t : Typing}

theorem Faded.noteExpr (h : t.Faded Γ) (n : Node) (info : TypeInfo) : (t.noteExpr n info).Faded Γ :=
  ⟨h.silent, h.values, h.types, h.functions⟩

theorem Faded.settle (h : t.Faded Γ) (n : Node) {ty found : Ty} (hty : ty.Fades found) :
    FadesTo Γ ty (t.settle n found) := ⟨h.noteExpr n _, hty⟩

theorem Faded.noteSymbol (h : t.Faded Γ) {y : Nat} {info : TypeInfo}
    (hv : ¬ Γ.names.HasKind y .type → (Γ.types y).Fades info)
    (hd : ∀ ty, Γ.program.Denotes Γ.names y ty → (TypeInfo.value ty).Fades info) :
    (t.noteSymbol y info).Faded Γ := by
  refine ⟨h.silent, fun e he => ?_, fun e he => ?_, h.functions⟩
  · rcases List.mem_append.mp he with he | he
    · exact h.values e he
    · rw [List.mem_singleton.mp he]
      exact hv
  · rcases List.mem_append.mp he with he | he
    · exact h.types e he
    · rw [List.mem_singleton.mp he]
      exact hd

/-- The symbol of a value or of a function is none of a type. -/
theorem Faded.noteValue (h : t.Faded Γ) (hq : Γ.names.Settles Γ.program) {y : Nat}
    (hk : ¬ Γ.names.HasKind y .type) {info : TypeInfo} (hinfo : (Γ.types y).Fades info) :
    (t.noteSymbol y info).Faded Γ :=
  h.noteSymbol (fun _ => hinfo) fun _ hd => absurd (hd.hasKind hq.hoists) hk

theorem Faded.typeOfSymbol (h : t.Faded Γ) {y : Nat} {ty : Ty} (hy : Γ.IsVariable y ty) :
    ty.Fades (t.typeOfSymbol y) := by
  rw [Typing.typeOfSymbol]
  split
  · rename_i found hl
    have hfades := h.values _ (mem_of_lookup_eq_some hl) hy.not_type
    rw [hy.type] at hfades
    exact hfades
  · exact .inr rfl

/-- A value that is needed is there, or it has faded. -/
theorem FadesTo.consumed_eq {ty : Ty} {typed : Typing × Ty} (h : FadesTo Γ ty typed) (hv : ty.isValue = true)
    (x : Span) : consumed x typed = typed := by
  rw [consumed, if_neg (h.type.ne_void hv)]

theorem FadesTo.of_eq {ty : Ty} {typed typed' : Typing × Ty} (h : FadesTo Γ ty typed) (heq : typed' = typed) :
    FadesTo Γ ty typed' := heq ▸ h

/-! ### Operators and calls -/

theorem applyUnary_faded (h : t.Faded Γ) (n : Node) {op : UnaryOp} {s found ty : Ty} (hop : op.Takes s ty)
    (hs : s.Fades found) : FadesTo Γ ty (t.applyUnary n op found) := by
  rcases hs with rfl | rfl
  · rw [applyUnary_complete hop]
    exact h.settle n (.refl ty)
  · exact h.settle n (.inr rfl)

theorem applyBinary_faded (h : t.Faded Γ) (n : Node) {op : BinaryOp} (x : Span) {l r l' r' ty : Ty}
    (hop : op.Takes l r ty) (hl : l.Fades l') (hr : r.Fades r') : FadesTo Γ ty (t.applyBinary n op x l' r') := by
  by_cases hin : (decide (l' = .invalid) || decide (r' = .invalid)) = true
  · rw [applyBinary, if_pos hin]
    exact h.settle n (.inr rfl)
  · rw [Bool.or_eq_true, decide_eq_true_eq, decide_eq_true_eq, not_or] at hin
    obtain rfl := hl.resolve_right hin.1
    obtain rfl := hr.resolve_right hin.2
    rw [applyBinary_complete hop]
    exact h.settle n (.refl ty)

theorem checkAssigned_faded {op : AssignOp} {x vx : Span} {name : Bytes} {target value target' value' : Ty}
    (hv : target.isValue = true)
    (h : op.binary? = none ∧ value = target ∨ ∃ b, op.binary? = some b ∧ b.Takes target value target)
    (ht : target.Fades target') (hvalue : value.Fades value') :
    t.checkAssigned op x name target' value' vx = t := by
  by_cases hin : (decide (target' = .invalid) || decide (value' = .invalid)) = true
  · rw [checkAssigned, if_pos hin]
  · rw [Bool.or_eq_true, decide_eq_true_eq, decide_eq_true_eq, not_or] at hin
    obtain rfl := ht.resolve_right hin.1
    obtain rfl := hvalue.resolve_right hin.2
    exact checkAssigned_complete hv h

theorem checkArguments_faded {name : Bytes} {place : Nat} {params params' tys : List Ty}
    {args : List (Span × Ty)} (h : List.Forall₂ Ty.Fits params tys) (hp : List.Forall₂ Ty.Fades params params')
    (ha : List.Forall₂ Ty.Fades tys (args.map (·.2))) : t.checkArguments name place params' args = t := by
  induction h generalizing place params' args with
  | nil =>
    cases hp
    rw [checkArguments.eq_def]
  | cons hfits _ ih =>
    cases args with
    | nil => cases ha
    | cons arg args =>
      cases hp with
      | cons hparam hparams =>
        cases ha with
        | cons harg hargs =>
          rw [checkArguments]
          simp only [hfits.accepts_faded hparam harg, if_true]
          exact ih hparams hargs

/-- A call of a function whose signature is known, but for what has faded. -/
theorem applyCall_faded (h : t.Faded Γ) (n : Node) {name : Bytes} {s s' : Signature} {tys : List Ty}
    {args : List (Span × Ty)} (hfits : List.Forall₂ Ty.Fits s.params tys)
    (hs : (TypeInfo.function s).Fades (.function s')) (ha : List.Forall₂ Ty.Fades tys (args.map (·.2))) :
    FadesTo Γ s.result (t.applyCall n (some (name, s')) args) := by
  have hlength : args.length = s'.params.length := by
    rw [← hs.1.length_eq, hfits.length_eq, ha.length_eq, List.length_map]
  rw [applyCall, if_pos hlength, checkArguments_faded hfits hs.1 ha]
  exact h.settle n hs.2

end

/-! ### Types that are written -/

/-- Following aliases ends where a chain does, or where it has faded; all aliases on the way have chains that
end in the same type. -/
theorem followAlias_fades {known : Nat → Option Ty} {aliases : List (Nat × Nat)} {D : Nat → Nat → Ty → Prop}
    (hstep : ∀ k y ty, D k y ty → (∃ found, known y = some found ∧ ty.Fades found) ∨
      known y = none ∧ ∃ j z z', k = j + 1 ∧ aliases.find? (fun a => a.1 == y) = some (y, z') ∧ D j z ty ∧
        (z' = z ∨ known z' = some .invalid))
    (hunique : ∀ j k y ty ty', D j y ty → D k y ty' → j = k) {k y : Nat} {ty : Ty} (h : D k y ty)
    (left : List (Nat × Nat)) (hleft : ∀ j z ty', D j z ty' → j ≤ k →
      left.find? (fun a => a.1 == z) = aliases.find? fun a => a.1 == z) :
    ∃ found, ty.Fades found ∧ (followAlias known left y).2 = .type found ∧
      ∀ x ∈ (followAlias known left y).1, ∃ j, D j x ty := by
  induction k generalizing y left with
  | zero =>
    rcases hstep 0 y ty h with ⟨found, hk, hf⟩ | ⟨-, j, z, z', hj, -⟩
    · rw [followAlias, hk]
      exact ⟨found, hf, rfl, List.forall_mem_nil _⟩
    · cases hj
  | succ k ih =>
    rcases hstep (k + 1) y ty h with ⟨found, hk, hf⟩ | ⟨hn, j, z, z', hj, hf, hz, hsame⟩
    · rw [followAlias, hk]
      exact ⟨found, hf, rfl, List.forall_mem_nil _⟩
    · obtain rfl : j = k := (Nat.succ.inj hj).symm
      have hfound : left.find? (fun a => a.1 == y) = some (y, z') :=
        (hleft (j + 1) y ty h (Nat.le_refl _)).trans hf
      have hrest : ∃ found, ty.Fades found ∧
          (followAlias known (left.eraseP fun a => a.1 == y) z').2 = .type found ∧
          ∀ x ∈ (followAlias known (left.eraseP fun a => a.1 == y) z').1, ∃ j, D j x ty := by
        rcases hsame with rfl | hin
        · refine ih hz (left.eraseP fun a => a.1 == y) fun i x ty' hx hi => ?_
          have hne : x ≠ y := by
            rintro rfl
            have := hunique _ _ _ _ _ hx h
            omega
          exact (find?_eraseP_of_ne hne).trans (hleft i x ty' hx (Nat.le_succ_of_le hi))
        · rw [followAlias, hin]
          exact ⟨.invalid, .inr rfl, rfl, List.forall_mem_nil _⟩
      obtain ⟨found, hfades, hend, hmet⟩ := hrest
      rw [followAlias, hn]
      dsimp only
      split
      · rename_i hno
        rw [hfound] at hno
        cases hno
      · rename_i a ha
        rw [hfound] at ha
        cases ha
        exact ⟨found, hfades, hend, List.forall_mem_cons.mpr ⟨⟨_, h⟩, hmet⟩⟩

section

variable {p : Program} {σ : Misspelling p} {q : Resolution} {types : Nat → TypeInfo} {c : TypingContext}
variable {t : Typing}

/-- The error symbol is no type. -/
theorem namedType?_error (h : σ.Setting q c) :
    t.namedType? c.resolution SymbolTable.errorSymbol = some .invalid := by
  obtain ⟨z, hz⟩ := SymbolTable.exists_symbol? (t := .start) (y := 1) (by decide) (by decide)
  have hkind : z.kind ≠ .type := by
    have hs := SymbolTable.symbol?_start hz
    simp only [List.mem_cons, Prod.mk.injEq, List.not_mem_nil, or_false] at hs
    rcases hs with hs | hs | hs | hs | hs
    · rw [hs.2.1]
      decide
    all_goals exact absurd hs.1 (by decide)
  obtain ⟨z', hz', -, hkind', -⟩ := h.blurs.symbol? (h.settles.final.sound.provided.symbol? hz)
  rw [namedType?, show SymbolTable.errorSymbol = 1 from rfl, hz']
  exact if_pos (hkind' ▸ hkind)

theorem namedType?_fades (h : σ.Setting q c) (ht : t.Faded ⟨p, q, types⟩) {k y : Nat} {ty : Ty}
    (hd : p.DenotesIn q k y ty) : (∃ found, t.namedType? c.resolution y = some found ∧ ty.Fades found) ∨
      t.namedType? c.resolution y = none ∧ ∃ j z z', k = j + 1 ∧
        c.aliases.find? (fun a => a.1 == y) = some (y, z') ∧ p.DenotesIn q j z ty ∧
        (z' = z ∨ t.namedType? c.resolution z' = some .invalid) := by
  cases hd with
  | builtin hz hk hb hname =>
    obtain ⟨z', hz', hname', hk', hflags⟩ := h.blurs.symbol? hz
    left
    refine ⟨ty, ?_, .refl ty⟩
    rw [namedType?, hz']
    simp [hname', hk', hflags, hk, hb, hname]
  | synonym ha hi hy hd =>
    rename_i j a i y
    obtain ⟨z, hz, hk, hb⟩ := h.settles.hoists.alias_symbol ha hi
    obtain ⟨z', hz', -, hk', hflags⟩ := h.blurs.symbol? hz
    simp only [namedType?, hz', hk', hflags, hk, hb, ne_eq, not_true_eq_false, if_false, Bool.false_eq_true]
    cases hl : t.symbols.lookup i.symbol with
    | none =>
      obtain ⟨y', hfind, hsame⟩ := h.find?_aliases ha hi hy
      refine .inr ⟨rfl, j, y, y', rfl, hfind, hd, hsame.imp_right ?_⟩
      rintro rfl
      exact namedType?_error h
    | some info =>
      have hfades := ht.types _ (mem_of_lookup_eq_some hl) ty (.synonym ha hi hy hd.denotes)
      cases info with
      | value found => exact .inl ⟨found, rfl, hfades⟩
      | function s => exact hfades.elim

/-- All aliases on the way get the type that was found. -/
theorem Faded.noteAll (ht : t.Faded ⟨p, q, types⟩) (hq : q.Settles p) (hids : p.ids.Nodup) {ty found : Ty}
    (hfades : ty.Fades found) {ys : List Nat} (hys : ∀ y ∈ ys, p.Denotes q y ty) :
    (t.noteAll ys (.value found)).Faded ⟨p, q, types⟩ := by
  rw [← foldl_noteSymbol]
  induction ys generalizing t with
  | nil => exact ht
  | cons y ys ih =>
    rw [List.forall_mem_cons] at hys
    refine ih (ht.noteSymbol (fun hk => absurd (hys.1.hasKind hq.hoists) hk) fun ty' hd => ?_) hys.2
    rw [hd.unique hq.hoists hids hys.1]
    exact hfades

theorem namedType_fades (h : σ.Setting q c) (ht : t.Faded ⟨p, q, types⟩) {y : Nat} {ty : Ty}
    (hd : p.Denotes q y ty) : FadesTo ⟨p, q, types⟩ ty (t.namedType c y) := by
  obtain ⟨k, hk⟩ := hd.exists_depth
  obtain ⟨found, hfades, hend, hmet⟩ := followAlias_fades (fun k y ty => namedType?_fades h ht)
    (fun j k y ty ty' hj hk => (hj.unique h.settles.hoists h.ids hk).1) hk c.aliases fun _ _ _ _ _ => rfl
  have hrecords := t.namedType_records c y
  generalize followAlias (t.namedType? c.resolution) c.aliases y = walk at hend hmet hrecords
  generalize t.namedType c y = answer at hrecords ⊢
  cases hrecords with
  | type hxs =>
    cases hend
    refine ⟨ht.noteAll h.settles h.ids hfades fun x hx => ?_, hfades⟩
    obtain ⟨j, hj⟩ := hmet x ((hxs x).mp hx)
    exact hj.denotes
  | cycle => cases hend

/-- A type that is written is found, or it has faded. -/
theorem writtenType_fades (h : σ.Setting q c) (ht : t.Faded ⟨p, q, types⟩) {type : Name} {ty : Ty}
    (hw : p.Writes q type ty) : FadesTo ⟨p, q, types⟩ ty (t.writtenType c (σ.moves.name type)) := by
  obtain ⟨y, hy, hd⟩ := hw
  obtain ⟨y', hy', hsame⟩ := h.blurs.typeOf? hy
  rw [writtenType, show (σ.moves.name type).span = σ.moves.span type.span from rfl, hy']
  rcases hsame with rfl | rfl
  · exact namedType_fades h ht hd
  · have hinvalid : t.namedType c SymbolTable.errorSymbol = (t, .invalid) := by
      exact resolveAlias_of_done (by rw [aliasState, namedType?_error h])
    exact FadesTo.of_eq ⟨ht, .inr rfl⟩ hinvalid

/-! ### Expressions -/

theorem ident_fades (h : σ.Setting q c) (ht : t.Faded ⟨p, q, types⟩) {i : Ident} {ty : Ty}
    (hi : Assumptions.Holds ⟨p, q, types⟩ i ty) : FadesTo ⟨p, q, types⟩ ty (ident c t (σ.moves.ident i)) := by
  obtain ⟨y, hy, hv⟩ := hi
  obtain ⟨z, hz, hk⟩ := hv.exists_symbol
  rw [ident]
  rcases h.boundTo?_cases hy hz with hb | ⟨z', hb, hk'⟩
  · rw [hb]
    exact ht.settle _ (.inr rfl)
  · rw [hb]
    dsimp only
    rw [hk']
    rcases hk with hk | hk
    · rw [hk]
      exact ht.settle _ (ht.typeOfSymbol hv)
    · rw [hk]
      exact ht.settle _ (ht.typeOfSymbol hv)

/-- A call of what is no longer known is not known either. -/
theorem call_fades (h : σ.Setting q c) (ht : t.Faded ⟨p, q, types⟩) (n : Node) {i : Ident} {s : Signature}
    {tys : List Ty} {args : List (Span × Ty)} (hs : Assumptions.Calls ⟨p, q, types⟩ i s)
    (hfits : List.Forall₂ Ty.Fits s.params tys) (ha : List.Forall₂ Ty.Fades tys (args.map (·.2))) :
    FadesTo ⟨p, q, types⟩ s.result ((namedCallee c t (σ.moves.ident i)).1.applyCall n
      (namedCallee c t (σ.moves.ident i)).2 args) := by
  obtain ⟨y, hy, hkind, htype⟩ := hs
  obtain ⟨z, hz, hk⟩ := hkind
  rw [namedCallee]
  rcases h.boundTo?_cases hy hz with hb | ⟨z', hb, hk'⟩
  · rw [hb]
    exact ht.settle n (.inr rfl)
  · rw [hb]
    dsimp only
    rw [if_pos (hk'.trans hk)]
    cases hl : t.signatureOf? y with
    | none => exact ht.settle n (.inr rfl)
    | some found =>
      have hlookup : t.symbols.lookup y = some (.function found) := by
        rw [signatureOf?] at hl
        split at hl
        · rename_i s' hs'
          rw [hs', Option.some.inj hl]
        · cases hl
      have hnot : ¬ q.HasKind y .type := by
        intro hkind
        cases hkind.unique ⟨z, hz, hk⟩
      have hfades : (types y).Fades (.function found) := ht.values _ (mem_of_lookup_eq_some hlookup) hnot
      rw [show types y = .function s from htype] at hfades
      exact applyCall_faded (ht.noteExpr _ _) n hfits hfades ha

theorem assign_fades (h : σ.Setting q c) (ht : t.Faded ⟨p, q, types⟩) (n : Node) {op : AssignOp} (x vx : Span)
    {i : Ident} {s ty found : Ty} (hi : Assumptions.Holds ⟨p, q, types⟩ i ty)
    (hop : op.binary? = none ∧ s = ty ∨ ∃ b, op.binary? = some b ∧ b.Takes ty s ty) (hs : s.Fades found) :
    FadesTo ⟨p, q, types⟩ ty (assign c t n op x (σ.moves.ident i) found vx) := by
  obtain ⟨y, hy, hv⟩ := hi
  obtain ⟨z, hz, hk⟩ := hv.exists_symbol
  rw [assign]
  rcases h.boundTo?_cases hy hz with hb | ⟨z', hb, hk'⟩
  · rw [hb]
    exact ht.settle n (.inr rfl)
  · rw [hb]
    dsimp only
    split
    · -- The target is declared with the type of the value, whatever became of it.
      have hsame : s = ty := by
        rcases hop with ⟨-, heq⟩ | ⟨b, -, htakes⟩
        · exact heq
        · exact htakes.right_eq
      subst hsame
      have hinfo : (types y).Fades (.value found) := by
        rw [show types y = .value s from hv.type]
        exact hs
      exact ((ht.noteValue h.settles hv.not_type hinfo).noteExpr _ _).settle n hs
    · have hkind : (decide (z'.kind = .var) || decide (z'.kind = .param)) = true := by
        rw [hk', Bool.or_eq_true, decide_eq_true_eq, decide_eq_true_eq]
        exact hk
      have htype := ht.typeOfSymbol hv
      rw [if_pos hkind, checkAssigned_faded hv.isValue hop htype hs]
      exact (ht.noteExpr _ _).settle n htype

/-- A constant behind a sign is read with the sign. -/
theorem operand_fades (op : UnaryOp) {e : Expr} {s : Ty} {js : NodeTypes} (hd : e.Derives ⟨p, q, types⟩ s js)
    (hv : s.isValue = true) (ht : t.Faded ⟨p, q, types⟩)
    (he : FadesTo ⟨p, q, types⟩ s (expr c t (e.relabel σ.moves))) :
    FadesTo ⟨p, q, types⟩ s (operand c t op (e.relabel σ.moves)) := by
  rcases operand_cases c t op (e.relabel σ.moves) with heq | ⟨m, text, -, hliteral, heq⟩
  · rw [heq, he.consumed_eq hv]
    exact he
  · cases e with
    | constant k v =>
      cases hliteral
      cases hd with
      | constant hconstant =>
        rw [heq, constant_complete true (hconstant.mono (Nat.le_succ _))]
        exact ht.settle _ (.refl _)
    | _ => cases hliteral

end

section

variable {p : Program} {σ : Misspelling p} {q : Resolution} {types : Nat → TypeInfo} {c : TypingContext}

mutual

/-- An expression with a derivation has its type, or one that has faded. -/
theorem expr_fades (h : σ.Setting q c) {t : Typing} {ty : Ty} {js : NodeTypes} : (e : Expr) →
    e.Derives ⟨p, q, types⟩ ty js → t.Faded ⟨p, q, types⟩ →
    FadesTo ⟨p, q, types⟩ ty (expr c t (e.relabel σ.moves))
  | .error _, hd, _ => by cases hd
  | .constant n v, hd, ht => by
    cases hd with
    | constant hv =>
      rw [Expr.relabel, expr, constant_complete false hv]
      exact ht.settle _ (.refl _)
  | .ident i, hd, ht => by
    cases hd with
    | ident hi =>
      rw [Expr.relabel, expr]
      exact ident_fades h ht hi
  | .group n inner, hd, ht => by
    cases hd with
    | group hd =>
      have hinner := expr_fades h inner hd ht
      rw [Expr.relabel, expr]
      exact hinner.faded.settle _ hinner.type
  | .unary n op operand, hd, ht => by
    rw [Expr.relabel, expr_unary]
    cases hd with
    | negative hv =>
      rw [Expr.relabel, Typing.operand, constant_complete true hv]
      exact applyUnary_faded (ht.settle _ (.refl .int)).faded _ (.sign (by decide)) (.refl .int)
    | unary hd htakes =>
      have hoperand := operand_fades op hd htakes.isValue ht (expr_fades h operand hd ht)
      exact applyUnary_faded hoperand.faded _ htakes hoperand.type
  | .binary n op x left right, hd, ht => by
    cases hd with
    | binary hdl hdr htakes =>
      have hl := expr_fades h left hdl ht
      have hr := expr_fades h right hdr hl.faded
      rw [Expr.relabel, expr_binary]
      dsimp only
      rw [hl.consumed_eq htakes.isValue.1, hr.consumed_eq htakes.isValue.2]
      exact applyBinary_faded hr.faded _ _ htakes hl.type hr.type
  | .call n target args, hd, ht => by
    cases hd with
    | call hs hdargs hfits =>
      obtain ⟨hfaded, htypes⟩ := arguments_fades h args hdargs ht (isValue_of_allFit hfits)
      rw [Expr.relabel, Expr.relabel, expr_call_ident]
      exact call_fades h hfaded _ hs hfits htypes
  | .assign n op x i value, hd, ht => by
    have hassign : ∀ s ks, value.Derives ⟨p, q, types⟩ s ks → s.isValue = true →
        (op.binary? = none ∧ s = ty ∨ ∃ b, op.binary? = some b ∧ b.Takes ty s ty) →
        Assumptions.Holds ⟨p, q, types⟩ i ty →
        FadesTo ⟨p, q, types⟩ ty (expr c t ((Expr.assign n op x i value).relabel σ.moves)) := by
      intro s ks hd hv hop hi
      have hvalue := expr_fades h value hd ht
      rw [Expr.relabel, expr_assign]
      dsimp only
      rw [hvalue.consumed_eq hv]
      exact assign_fades h hvalue.faded _ _ _ hi hop hvalue.type
    cases hd with
    | assign hi hd =>
      obtain ⟨y, -, hv⟩ := id hi
      exact hassign ty _ hd hv.isValue (.inl ⟨rfl, rfl⟩) hi
    | update hop hi hd htakes => exact hassign _ _ hd htakes.isValue.2 (.inr ⟨_, hop, htakes⟩) hi

theorem arguments_fades (h : σ.Setting q c) {t : Typing} {tys : List Ty} {js : NodeTypes} : (es : List Expr) →
    Expr.AllDerive ⟨p, q, types⟩ es tys js → t.Faded ⟨p, q, types⟩ → (∀ ty ∈ tys, ty.isValue = true) →
    (arguments c t (Expr.relabelAll σ.moves es)).1.Faded ⟨p, q, types⟩ ∧
      List.Forall₂ Ty.Fades tys ((arguments c t (Expr.relabelAll σ.moves es)).2.map (·.2))
  | [], hd, ht, _ => by
    cases hd
    rw [Expr.relabelAll, arguments]
    exact ⟨ht, .nil⟩
  | e :: es, hd, ht, hv => by
    cases hd with
    | cons hde hdes =>
      rw [List.forall_mem_cons] at hv
      have he := expr_fades h e hde ht
      obtain ⟨hfaded, htypes⟩ := arguments_fades h es hdes he.faded hv.2
      rw [Expr.relabelAll, arguments_cons]
      dsimp only
      rw [he.consumed_eq hv.1]
      exact ⟨hfaded, .cons he.type htypes⟩

end

theorem value_fades (h : σ.Setting q c) {t : Typing} (ht : t.Faded ⟨p, q, types⟩) {e : Expr} {ty : Ty}
    {js : NodeTypes} (hd : e.Derives ⟨p, q, types⟩ ty js) (hv : ty.isValue = true) :
    FadesTo ⟨p, q, types⟩ ty (value c t (e.relabel σ.moves)) := by
  have he := expr_fades h e hd ht
  rw [value, he.consumed_eq hv]
  exact he

end

end Typing

end Craftlang
