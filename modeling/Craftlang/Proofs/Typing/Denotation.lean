import Craftlang.Proofs.Scope.Declarers
import Craftlang.Proofs.Typing.ExprComplete
import Craftlang.Proofs.Typing.ProgramSound

/-!
# What types stand for is found

A type that stands for a type of values does so by a chain of aliases of some length, which is the only
one. So no alias is met twice on the way, and following aliases ends where the chain does.
-/

namespace Craftlang

/-- A type stands for a type of values by a chain of so many aliases. -/
inductive Program.DenotesIn (p : Program) (q : Resolution) : Nat → Nat → Ty → Prop
  | builtin {y z ty} : q.table.symbol? y = some z → z.kind = .type → z.flags.builtin = true →
    Ty.ofName? z.name = some ty → Program.DenotesIn p q 0 y ty
  | synonym {k a i y ty} : Item.typeAlias a ∈ p.items → q.itemOf? a.node.id = some i →
    q.typeOf? a.target.span = some y → Program.DenotesIn p q k y ty →
    Program.DenotesIn p q (k + 1) i.symbol ty

section

variable {p : Program} {q : Resolution}

theorem Program.Denotes.exists_depth {y : Nat} {ty : Ty} (h : p.Denotes q y ty) :
    ∃ k, p.DenotesIn q k y ty := by
  induction h with
  | builtin hz hk hb hname => exact ⟨0, .builtin hz hk hb hname⟩
  | synonym hi he ht _ ih =>
    obtain ⟨k, hk⟩ := ih
    exact ⟨k + 1, .synonym hi he ht hk⟩

/-- The symbol of an alias belongs to no other alias. -/
theorem Resolution.Hoists.alias_eq (hq : q.Hoists p) (hids : p.ids.Nodup) {a b : Alias}
    {i j : ItemSymbols} (ha : Item.typeAlias a ∈ p.items) (hb : Item.typeAlias b ∈ p.items)
    (hi : q.itemOf? a.node.id = some i) (hj : q.itemOf? b.node.id = some j)
    (h : i.symbol = j.symbol) : a = b := by
  have hsame := List.inj_on_of_nodup_map hq.symbols (List.mem_of_find?_eq_some hi)
    (List.mem_of_find?_eq_some hj) h
  have hitem : i.item = a.node.id := by simpa using List.find?_some hi
  have hitem' : j.item = b.node.id := by simpa using List.find?_some hj
  have hid : a.node.id = b.node.id := by rw [← hitem, ← hitem', hsame]
  have heq := Item.eq_of_mem hids ha hb (x := a.node.id) (List.mem_singleton.mpr rfl)
    (List.mem_singleton.mpr hid)
  cases heq
  rfl

/-- The symbol of an alias does not come with the language. -/
theorem Resolution.Hoists.alias_symbol (hq : q.Hoists p) {a : Alias} {i : ItemSymbols}
    (ha : Item.typeAlias a ∈ p.items) (hi : q.itemOf? a.node.id = some i) :
    ∃ z, q.table.symbol? i.symbol = some z ∧ z.kind = .type ∧ z.flags.builtin = false := by
  obtain ⟨e, he, hid, z, hz, hk, -, hb⟩ := hq.stored _ ha _ _ rfl
  have hitem : q.itemOf? a.node.id = some e := hid ▸ Resolution.itemOf?_eq_some hq.items he
  obtain rfl : e = i := Option.some.inj (hitem.symm.trans hi)
  exact ⟨z, hz, hk, hb⟩

/-- There is one chain only. -/
theorem Program.DenotesIn.unique (hq : q.Hoists p) (hids : p.ids.Nodup) {j k y : Nat} {ty ty' : Ty}
    (h : p.DenotesIn q j y ty) (h' : p.DenotesIn q k y ty') : j = k ∧ ty = ty' := by
  induction h generalizing k ty' with
  | builtin hz hk hb hname =>
    cases h' with
    | builtin hz' _ _ hname' =>
      rw [hz] at hz'
      cases hz'
      rw [hname] at hname'
      exact ⟨rfl, Option.some.inj hname'⟩
    | synonym ha hi _ _ =>
      obtain ⟨z', hz', -, hb'⟩ := hq.alias_symbol ha hi
      rw [hz] at hz'
      cases hz'
      exact absurd (hb.symm.trans hb') (by decide)
  | synonym ha hi ht _ ih =>
    rename_i a i y ty _
    generalize hs : i.symbol = s at h'
    cases h' with
    | builtin hz' _ hb' _ =>
      obtain ⟨z, hz, -, hb⟩ := hq.alias_symbol ha hi
      rw [hs, hz'] at hz
      cases hz
      exact absurd (hb'.symm.trans hb) (by decide)
    | synonym ha' hi' ht' hd' =>
      obtain rfl := hq.alias_eq hids ha ha' hi hi' hs
      obtain rfl : _ = _ := Option.some.inj (ht.symm.trans ht')
      obtain ⟨rfl, rfl⟩ := ih hd'
      exact ⟨rfl, rfl⟩

theorem Program.Denotes.unique (hq : q.Hoists p) (hids : p.ids.Nodup) {y : Nat} {ty ty' : Ty}
    (h : p.Denotes q y ty) (h' : p.Denotes q y ty') : ty = ty' := by
  obtain ⟨j, hj⟩ := h.exists_depth
  obtain ⟨k, hk⟩ := h'.exists_depth
  exact (hj.unique hq hids hk).2

theorem Program.Denotes.hasKind (hq : q.Hoists p) {y : Nat} {ty : Ty} (h : p.Denotes q y ty) :
    q.HasKind y .type := by
  cases h with
  | builtin hz hk _ _ => exact ⟨_, hz, hk⟩
  | synonym ha hi _ _ =>
    obtain ⟨z, hz, hk, -⟩ := hq.alias_symbol ha hi
    exact ⟨z, hz, hk⟩

theorem Program.mem_aliases {b : Nat × Nat} : b ∈ p.aliases q ↔ ∃ a i,
    Item.typeAlias a ∈ p.items ∧ q.itemOf? a.node.id = some i ∧
      b = (i.symbol, (q.typeOf? a.target.span).getD 0) := by
  rw [Program.aliases, List.mem_filterMap]
  constructor
  · rintro ⟨i, hi, hb⟩
    cases i with
    | error n => cases hb
    | function f => cases hb
    | stmt n s => cases hb
    | typeAlias a =>
      obtain ⟨e, he, rfl⟩ := Option.map_eq_some_iff.mp hb
      exact ⟨a, e, hi, he, rfl⟩
  · rintro ⟨a, e, hi, he, rfl⟩
    exact ⟨.typeAlias a, hi, Option.map_eq_some_iff.mpr ⟨e, he, rfl⟩⟩

/-- An alias is found by its symbol. -/
theorem Program.find?_aliases (hq : q.Hoists p) (hids : p.ids.Nodup) {a : Alias} {i : ItemSymbols}
    {y : Nat} (ha : Item.typeAlias a ∈ p.items) (hi : q.itemOf? a.node.id = some i)
    (hy : q.typeOf? a.target.span = some y) :
    (p.aliases q).find? (fun b => b.1 == i.symbol) = some (i.symbol, y) := by
  have hmem : (i.symbol, y) ∈ p.aliases q := Program.mem_aliases.mpr ⟨a, i, ha, hi, by rw [hy]; rfl⟩
  cases hf : (p.aliases q).find? (fun b => b.1 == i.symbol) with
  | none =>
    have := List.find?_eq_none.mp hf _ hmem
    simp at this
  | some b =>
    obtain ⟨a', i', ha', hi', rfl⟩ := Program.mem_aliases.mp (List.mem_of_find?_eq_some hf)
    have hs : i'.symbol = i.symbol := by simpa using List.find?_some hf
    obtain rfl := hq.alias_eq hids ha' ha hi' hi hs
    rw [hy, hs]
    rfl

end

/-- What is looked up is found whether something else is left out or not. -/
theorem find?_eraseP_of_ne {aliases : List (Nat × Nat)} {y z : Nat} (h : z ≠ y) :
    (aliases.eraseP fun a => a.1 == y).find? (fun a => a.1 == z) =
      aliases.find? fun a => a.1 == z := by
  induction aliases with
  | nil => rfl
  | cons a rest ih =>
    by_cases hy : a.1 = y
    · have hz : ¬ y = z := fun hyz => h hyz.symm
      simp [hy, hz]
    · by_cases hz : a.1 = z
      · simp [hz, h]
      · simp [hy, hz, ih]

/-- Following aliases ends where a chain does, if the chain stands for the types that are known and no
symbol has chains of different lengths. -/
theorem followAlias_complete {known : Nat → Option Ty} {aliases : List (Nat × Nat)}
    {D : Nat → Nat → Ty → Prop}
    (hstep : ∀ k y ty, D k y ty → known y = some ty ∨ known y = none ∧ ∃ j z,
      k = j + 1 ∧ aliases.find? (fun a => a.1 == y) = some (y, z) ∧ D j z ty)
    (hunique : ∀ j k y ty ty', D j y ty → D k y ty' → j = k) {k y : Nat} {ty : Ty} (h : D k y ty)
    (left : List (Nat × Nat)) (hleft : ∀ j z ty', D j z ty' → j ≤ k →
      left.find? (fun a => a.1 == z) = aliases.find? fun a => a.1 == z) :
    (followAlias known left y).2 = .type ty := by
  induction k generalizing y ty left with
  | zero =>
    rcases hstep 0 y ty h with hk | ⟨-, j, z, hj, -⟩
    · rw [followAlias, hk]
    · cases hj
  | succ k ih =>
    rcases hstep (k + 1) y ty h with hk | ⟨hn, j, z, hj, hf, hz⟩
    · rw [followAlias, hk]
    · obtain rfl : j = k := (Nat.succ.inj hj).symm
      have hfound : left.find? (fun a => a.1 == y) = some (y, z) :=
        (hleft (j + 1) y ty h (Nat.le_refl _)).trans hf
      have hrest := ih hz (left.eraseP fun a => a.1 == y) fun i x ty' hx hi => by
        have hne : x ≠ y := by
          rintro rfl
          have := hunique _ _ _ _ _ hx h
          omega
        exact (find?_eraseP_of_ne hne).trans (hleft i x ty' hx (Nat.le_succ_of_le hi))
      rw [followAlias, hn]
      dsimp only
      split
      · rename_i hno
        rw [hfound] at hno
        cases hno
      · rename_i a ha
        rw [hfound] at ha
        cases ha
        exact hrest

namespace Typing

variable {p : Program} {c : TypingContext} {t : Typing}

/-- What finding out about types rests on: the names are settled, no two nodes have the same number, and
the aliases are those of the program. -/
structure Grounds (p : Program) (c : TypingContext) : Prop where
  settles : c.resolution.Settles p
  ids : p.ids.Nodup
  aliases : c.aliases = p.aliases c.resolution

theorem Grounds.fit (h : Grounds p c) : AliasesFit p c := by
  rw [AliasesFit, h.aliases]
  exact aliasesFit h.settles

theorem namedType?_cases (h : Grounds p c) (ht : KnowsTypes p c.resolution t) {k y : Nat} {ty : Ty}
    (hd : p.DenotesIn c.resolution k y ty) : t.namedType? c.resolution y = some ty ∨
      t.namedType? c.resolution y = none ∧ ∃ j z, k = j + 1 ∧
        c.aliases.find? (fun a => a.1 == y) = some (y, z) ∧ p.DenotesIn c.resolution j z ty := by
  cases hn : t.namedType? c.resolution y with
  | some ty' =>
    have hkind : c.resolution.HasKind y .type := by
      cases hd with
      | builtin hz hk _ _ => exact ⟨_, hz, hk⟩
      | synonym ha hi _ _ =>
        obtain ⟨z, hz, hk, -⟩ := h.settles.hoists.alias_symbol ha hi
        exact ⟨z, hz, hk⟩
    have hd' := denotes_of_namedType? h.settles.final.sound ht hkind hn
    obtain ⟨k', hk'⟩ := hd'.exists_depth
    rw [(hd.unique h.settles.hoists h.ids hk').2]
    exact .inl rfl
  | none =>
    refine .inr ⟨rfl, ?_⟩
    cases hd with
    | builtin hz hk hb hname =>
      rw [namedType?, hz] at hn
      simp [hk, hb] at hn
    | synonym ha hi hy hd =>
      rw [h.aliases]
      exact ⟨_, _, rfl, Program.find?_aliases h.settles.hoists h.ids ha hi hy, hd⟩

/-- Where the walk ends at a type, that type is the answer, and nothing is reported. -/
theorem Records.accepts {r : Resolution} {walk : List Nat × AliasEnd} {answer : Typing × Ty} {ty : Ty}
    (h : Records t r walk answer) (hend : walk.2 = .type ty) : answer.2 = ty ∧ Accepts t answer.1 [] := by
  cases h with
  | type =>
    cases hend
    exact ⟨rfl, (List.append_nil _).symm, rfl⟩
  | cycle => cases hend

/-- A type is what it stands for. -/
theorem namedType_complete (h : Grounds p c) (ht : KnowsTypes p c.resolution t) {y : Nat} {ty : Ty}
    (hd : p.Denotes c.resolution y ty) :
    (t.namedType c y).2 = ty ∧ Accepts t (t.namedType c y).1 [] := by
  obtain ⟨k, hk⟩ := hd.exists_depth
  have hend := followAlias_complete (fun k y ty => namedType?_cases h ht)
    (fun j k y ty ty' hj hk => (hj.unique h.settles.hoists h.ids hk).1) hk c.aliases
    fun _ _ _ _ _ => rfl
  exact (t.namedType_records c y).accepts hend

/-- What is written as a type is what it stands for. -/
theorem writtenType_complete (h : Grounds p c) (ht : KnowsTypes p c.resolution t) {type : Name}
    {ty : Ty} (hw : p.Writes c.resolution type ty) :
    (t.writtenType c type).2 = ty ∧ Accepts t (t.writtenType c type).1 [] := by
  obtain ⟨y, hy, hd⟩ := hw
  rw [writtenType, hy]
  exact namedType_complete h ht hd

end Typing

end Craftlang
