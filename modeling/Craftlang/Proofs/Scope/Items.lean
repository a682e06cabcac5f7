import Craftlang.Proofs.Scope.Bound

/-!
# The names of a whole program

First the functions and type aliases are declared, each with a symbol of its own, then all items are
resolved in order. So in a program whose names are resolved without errors every function has a symbol
and every item has its names bound.
-/

namespace Craftlang

/-- The names of an item are bound. The parameters of a function are the next symbols. -/
inductive Item.Bound (r : Resolution) : Nat → Item → Nat → Prop
  | error {n k} : Item.Bound r n (.error k) n
  | function {n m f i} : (∀ x ∈ f.params, r.NamesType x.type) → (∀ t ∈ f.result, r.NamesType t) →
    r.itemOf? f.node.id = some i → i.params = List.range' (n + 1) f.params.length →
    (∀ y ∈ i.params, ∃ z, r.table.symbol? y = some z ∧ z.kind = .param) →
    Stmt.AllBound r (n + f.params.length) f.body.stmts m → Item.Bound r n (.function f) m
  | typeAlias {n a} : r.NamesType a.target → Item.Bound r n (.typeAlias a) n
  | stmt {n m k s} : Stmt.Bound r n s m → Item.Bound r n (.stmt k s) m

inductive Item.AllBound (r : Resolution) : Nat → List Item → Nat → Prop
  | nil {n} : Item.AllBound r n [] n
  | cons {n m o i is} : Item.Bound r n i m → Item.AllBound r m is o → Item.AllBound r n (i :: is) o

namespace Resolution

variable {p : Program} {q r : Resolution} {path : List Nat} (w : Bool)

theorem itemOf?_eq_some (h : (q.items.map (·.item)).Nodup) {i : ItemSymbols} (hi : i ∈ q.items) :
    q.itemOf? i.item = some i := find?_eq_some_of_mem h hi

theorem extends_typeRefs (path : List Nat) (hr : r.Sound p) (ps : List Param) :
    r.Extends p [] (ps.foldl (fun r x => typeRef path r x.type) r) := by
  induction ps generalizing r with
  | nil => exact .refl hr _
  | cons x rest ih =>
    have hx := extends_typeRef path hr x.type
    exact hx.trans (ih hx.sound) fun _ => by simp

theorem typeRefs_bound (hq : q.Final p) (hr : r.Sound p) (ps : List Param)
    (hg : (ps.foldl (fun r x => typeRef path r x.type) r).Grows q) :
    ∀ x ∈ ps, q.NamesType x.type := by
  induction ps generalizing r with
  | nil => intro x hx; cases hx
  | cons x rest ih =>
    have hx := extends_typeRef path hr x.type
    have hrest := extends_typeRefs path hx.sound rest
    intro y hy
    rcases List.mem_cons.mp hy with rfl | hy
    · exact typeRef_bound hq _ (hrest.grows.trans hg)
    · exact ih hx.sound hg y hy

theorem table_typeRefs (path : List Nat) (r : Resolution) (ps : List Param) :
    (ps.foldl (fun r x => typeRef path r x.type) r).table = r.table := by
  induction ps generalizing r with
  | nil => rfl
  | cons x rest ih => exact (ih _).trans (table_typeRef path r x.type)

/-- A parameter as it is declared. -/
def namedParam (x : Param) : Symbol := { name := x.name.text, kind := .param, span := x.name.span }

theorem params_cons (path : List Nat) (r : Resolution) (x : Param) (rest : List Param) :
    params w path r (x :: rest) =
      ((params w path (r.declare w path (namedParam x)).1 rest).1,
        (r.declare w path (namedParam x)).2
          :: (params w path (r.declare w path (namedParam x)).1 rest).2) := rfl

/-- Parameters are the next symbols, in order. -/
theorem params_spec (hr : r.Sound p) (hp : r.Stands path) (ps : List Param) :
    r.Extends p [] (params w path r ps).1 ∧
      (params w path r ps).2 = List.range' (r.table.symbols.length + 1) ps.length ∧
      (params w path r ps).1.table.symbols.length = r.table.symbols.length + ps.length := by
  induction ps generalizing r with
  | nil => exact ⟨.refl hr _, rfl, rfl⟩
  | cons x rest ih =>
    have hd : r.Extends p [] (r.declare w path (namedParam x)).1 :=
      extends_declare w hr hp (.inr ⟨rfl, rfl⟩) rfl
    obtain ⟨-, hnew, hlen⟩ := symbol?_of_declare w hp (namedParam x) (.refl _)
    obtain ⟨hrest, hsymbols, hlen'⟩ := ih hd.sound (hd.grows.stands hp)
    rw [hlen] at hsymbols hlen'
    rw [params_cons]
    refine ⟨hd.trans hrest fun _ => by simp, ?_, ?_⟩
    · rw [hnew, hsymbols, List.length_cons, List.range'_succ]
    · rw [hlen', List.length_cons]
      omega

theorem params_bound (hr : r.Sound p) (hp : r.Stands path) (ps : List Param)
    (hg : (params w path r ps).1.Grows q) :
    ∀ y ∈ (params w path r ps).2, ∃ z, q.table.symbol? y = some z ∧ z.kind = .param := by
  induction ps generalizing r with
  | nil => intro y hy; cases hy
  | cons x rest ih =>
    have hd : r.Extends p [] (r.declare w path (namedParam x)).1 :=
      extends_declare w hr hp (.inr ⟨rfl, rfl⟩) rfl
    have hpd := hd.grows.stands hp
    have hrest := (params_spec w hd.sound hpd rest).1
    obtain ⟨hsymbol, hnew, -⟩ := symbol?_of_declare w hp (namedParam x) (hrest.grows.trans hg)
    intro y hy
    rw [params_cons] at hy
    rcases List.mem_cons.mp hy with rfl | hy
    · exact ⟨_, hnew ▸ hsymbol, rfl⟩
    · exact ih hd.sound hpd hg y hy

/-- The parameters and the scope of a function were noted. -/
theorem extends_itemParams (hr : r.Sound p) (id : Nat) (symbols : List Nat) (scope : Nat) :
    r.Extends p [id] { r with
      items := r.items.map fun i =>
        if i.item = id then { i with params := symbols, scope } else i } := by
  have hkept : ItemsKept [id] r.items (r.items.map fun i =>
      if i.item = id then { i with params := symbols, scope } else i) := by
    refine ⟨?_, fun i hi hn => ?_⟩
    rotate_left
    · exact List.mem_map.mpr ⟨i, hi, if_neg (by simpa using hn)⟩
    rw [List.map_map]
    refine List.map_congr_left fun i _ => ?_
    simp only [Function.comp]
    split <;> rfl
  have hg : r.Grows { r with
      items := r.items.map fun i =>
        if i.item = id then { i with params := symbols, scope } else i } :=
    ⟨.refl _, List.prefix_rfl, List.prefix_rfl, List.prefix_rfl, List.prefix_rfl,
      fun _ h => .inl h, List.prefix_rfl⟩
  refine ⟨hg, ⟨hr.valid, hr.provided, hr.implicit, fun y z hz => ?_, hr.types⟩, .refl _ _, .refl _ _,
    hkept⟩
  rcases hr.origin y z hz with h | ⟨hb, h | h | h | ⟨hk, f, hf, i, hi, hid, hy⟩⟩
  · exact .inl h
  · exact .inr ⟨hb, .inl h⟩
  · exact .inr ⟨hb, .inr (.inl h)⟩
  · exact .inr ⟨hb, .inr (.inr (.inl h))⟩
  · obtain ⟨j, hj, hjid, hjy⟩ := hkept.exists_mem hi
    exact .inr ⟨hb, .inr (.inr (.inr ⟨hk, f, hf, j, hj, hjid.trans hid, hjy.trans hy⟩))⟩

/-- The state in which the body of a function is resolved. -/
def openFunction (w : Bool) (path : List Nat) (r : Resolution) (f : Function) :
    Resolution × List Nat × Nat :=
  let r := typeRef? path (f.params.foldl (fun r x => typeRef path r x.type) r) f.result
  let (r, scope) := r.openScope .function path f.node.span
  let (r, symbols) := params w (scope :: path) r f.params
  ({ r with
    items := r.items.map fun i =>
      if i.item = f.node.id then { i with params := symbols, scope } else i }, symbols, scope)

/-- A function first binds the types of its signature, and then opens its scope. -/
theorem extends_signature (hr : r.Sound p) (hp : r.Stands path) (f : Function) :
    let typed := f.params.foldl (fun r x => typeRef path r x.type) r
    let signed := typeRef? path typed f.result
    let opened := signed.openScope .function path f.node.span
    r.Extends p [] typed ∧ typed.Extends p [] signed ∧ signed.Extends p [] opened.1 ∧
      opened.1.Stands (opened.2 :: path) := by
  have h₁ := extends_typeRefs path hr f.params
  have h₂ := extends_typeRef? path h₁.sound f.result
  have hp₂ := h₂.grows.stands (h₁.grows.stands hp)
  exact ⟨h₁, h₂, extends_openScope h₂.sound hp₂ .function (by decide) f.node.span⟩

theorem function_eq (path : List Nat) (r : Resolution) (f : Function) :
    function w path r f = stmts w ((openFunction w path r f).2.2 :: path)
      (openFunction w path r f).1 f.body.stmts := rfl

/-- Before its body a function binds its types and declares its parameters. -/
theorem openFunction_spec (hr : r.Sound p) (hp : r.Stands path) (f : Function) :
    r.Extends p [f.node.id] (openFunction w path r f).1 ∧
      (openFunction w path r f).1.Stands ((openFunction w path r f).2.2 :: path) ∧
      (openFunction w path r f).2.1 = List.range' (r.table.symbols.length + 1) f.params.length ∧
      (openFunction w path r f).1.table.symbols.length
        = r.table.symbols.length + f.params.length := by
  obtain ⟨h₁, h₂, h₃, hp₃⟩ := extends_signature hr hp f
  obtain ⟨h₄, hsymbols, hlen⟩ := params_spec w h₃.sound hp₃ f.params
  have h₅ := extends_itemParams h₄.sound f.node.id (openFunction w path r f).2.1
    (openFunction w path r f).2.2
  have hbefore : ((typeRef? path (f.params.foldl (fun r x => typeRef path r x.type) r)
      f.result).openScope .function path f.node.span).1.table.symbols = r.table.symbols := by
    refine (SymbolTable.symbols_openScope _ _ _ _).trans ?_
    rw [table_typeRef?, table_typeRefs]
  rw [hbefore] at hsymbols hlen
  have h₁₂ : r.Extends p [] _ := h₁.trans h₂ fun _ => by simp
  have h₁₃ : r.Extends p [] _ := h₁₂.trans h₃ fun _ => by simp
  have h₁₄ : r.Extends p [] _ := h₁₃.trans h₄ fun _ => by simp
  exact ⟨h₁₄.trans h₅ fun _ => by simp, h₅.grows.stands (h₄.grows.stands hp₃), hsymbols, hlen⟩

theorem extends_function (hr : r.Sound p) (hp : r.Stands path) (f : Function) :
    r.Extends p (f.body.ids ++ [f.node.id]) (function w path r f) := by
  obtain ⟨ho, hpo, -⟩ := openFunction_spec w hr hp f
  have hb := extends_stmts w ho.sound hpo f.body.stmts
  have hids : ∀ x, (Stmt.idsOf f.body.stmts).count x ≤ f.body.ids.count x := by
    intro x
    cases f.body with
    | mk n stmts =>
      rw [Block.ids, Block.stmts, List.count_append]
      omega
  rw [function_eq]
  exact ho.trans hb fun x => by
    have := hids x
    rw [List.count_append]
    omega

theorem extends_item (hr : r.Sound p) (hp : r.Stands path) (i : Item) :
    r.Extends p i.ids (item w path r i) := by
  cases i with
  | error n => exact .refl hr _
  | function f => exact extends_function w hr hp f
  | typeAlias a => exact (extends_typeRef path hr a.target).mono fun x => by simp
  | stmt n s => exact (extends_stmt w hr hp s).mono fun x => by simp [Item.ids]

theorem extends_items (hr : r.Sound p) (hp : r.Stands path) (is : List Item) :
    r.Extends p (is.flatMap Item.ids) (is.foldl (item w path) r) := by
  induction is generalizing r with
  | nil => exact .refl hr _
  | cons i rest ih =>
    have hi := extends_item w hr hp i
    exact hi.trans (ih hi.sound (hi.grows.stands hp)) fun x => by simp

/-- A function that is declared has its parameters noted before its body. -/
theorem mem_items_openFunction (f : Function) {i : ItemSymbols} (hi : i ∈ r.items)
    (hf : i.item = f.node.id) (hr : r.Sound p) (hp : r.Stands path) :
    ∃ j ∈ (openFunction w path r f).1.items, j.item = f.node.id ∧ j.symbol = i.symbol ∧
      j.params = (openFunction w path r f).2.1 := by
  obtain ⟨h₁, h₂, h₃, hp₃⟩ := extends_signature hr hp f
  obtain ⟨h₄, -⟩ := params_spec w h₃.sound hp₃ f.params
  obtain ⟨i₁, hi₁, hid₁, hs₁⟩ := h₁.items.exists_mem hi
  obtain ⟨i₂, hi₂, hid₂, hs₂⟩ := h₂.items.exists_mem hi₁
  obtain ⟨i₃, hi₃, hid₃, hs₃⟩ := h₃.items.exists_mem hi₂
  obtain ⟨i₄, hi₄, hid₄, hs₄⟩ := h₄.items.exists_mem hi₃
  have hid : i₄.item = f.node.id := by rw [hid₄, hid₃, hid₂, hid₁, hf]
  refine ⟨_, List.mem_map_of_mem hi₄, ?_, ?_, ?_⟩
  · rw [if_pos hid]
    exact hid
  · rw [if_pos hid]
    exact hs₄.trans (hs₃.trans (hs₂.trans hs₁))
  · rw [if_pos hid]
    rfl

theorem function_bound (hq : q.Final p) (hr : r.Sound p) (hp : r.Stands path) (f : Function)
    (hids : (f.body.ids ++ [f.node.id]).Nodup) (hdeclared : ∃ i ∈ r.items, i.item = f.node.id)
    (hitems : (q.items.map (·.item)).Nodup)
    (hkept : ∀ i ∈ (function w path r f).items, i.item = f.node.id → i ∈ q.items)
    (hg : (function w path r f).Grows q) :
    Item.Bound q r.table.symbols.length (.function f)
      (function w path r f).table.symbols.length := by
  obtain ⟨ho, hpo, hsymbols, hlen⟩ := openFunction_spec w hr hp f
  have hb := extends_stmts w ho.sound hpo f.body.stmts
  rw [function_eq] at hg hkept ⊢
  have hbody := stmts_bound w hq ho.sound hpo f.body.stmts hg
  rw [hlen] at hbody
  have hoq := hb.grows.trans hg
  -- The types of the signature and the parameters.
  obtain ⟨h₁, h₂, h₃, hp₃⟩ := extends_signature hr hp f
  obtain ⟨h₄, -⟩ := params_spec w h₃.sound hp₃ f.params
  have h₅ := extends_itemParams h₄.sound f.node.id (openFunction w path r f).2.1
    (openFunction w path r f).2.2
  have h₂q := h₃.grows.trans (h₄.grows.trans (h₅.grows.trans hoq))
  -- The function keeps its entry to the end.
  obtain ⟨i, hi, hid⟩ := hdeclared
  obtain ⟨j, hj, hjid, -, hparams⟩ := mem_items_openFunction w f hi hid hr hp
  have hnot : j.item ∉ Stmt.idsOf f.body.stmts := by
    intro hmem
    have hmem' : j.item ∈ f.body.ids := by
      cases hbody : f.body with
      | mk n stmts =>
        rw [hbody] at hmem
        rw [Block.ids]
        exact List.mem_append_left _ hmem
    exact (List.nodup_append.mp hids).2.2 _ hmem' _ (List.mem_singleton.mpr rfl) hjid
  have hjq : j ∈ q.items := hkept j (hb.items.2 j hj hnot) hjid
  refine .function (typeRefs_bound hq hr f.params (h₂.grows.trans h₂q))
    (typeRef?_bound hq f.result h₂q) ?_ (hparams.trans hsymbols) ?_ hbody
  · rw [← hjid]
    exact itemOf?_eq_some hitems hjq
  · rw [hparams]
    exact params_bound w h₃.sound hp₃ f.params (h₅.grows.trans hoq)

theorem item_bound (hq : q.Final p) (hr : r.Sound p) (hp : r.Stands path) (i : Item)
    (hids : i.ids.Nodup) (hdeclared : ∀ f, i = .function f → ∃ e ∈ r.items, e.item = f.node.id)
    (hitems : (q.items.map (·.item)).Nodup)
    (hkept : ∀ e ∈ (item w path r i).items, e.item ∈ i.ids → e ∈ q.items)
    (hg : (item w path r i).Grows q) :
    i.Bound q r.table.symbols.length (item w path r i).table.symbols.length := by
  cases i with
  | error n => exact .error
  | function f =>
    exact function_bound w hq hr hp f hids (hdeclared f rfl) hitems
      (fun e he hid => hkept e he (hid ▸ List.mem_append_right _ (List.mem_singleton.mpr rfl))) hg
  | typeAlias a =>
    have htable : (item w path r (.typeAlias a)).table = r.table := table_typeRef path r a.target
    rw [htable]
    exact .typeAlias (typeRef_bound hq a.target hg)
  | stmt n s => exact .stmt (stmt_bound w hq hr hp s hg)

theorem items_bound (hq : q.Final p) (hr : r.Sound p) (hp : r.Stands path) (is : List Item)
    (hids : (is.flatMap Item.ids).Nodup)
    (hdeclared : ∀ f, .function f ∈ is → ∃ e ∈ r.items, e.item = f.node.id)
    (hitems : (q.items.map (·.item)).Nodup)
    (hkept : ∀ e ∈ (is.foldl (item w path) r).items, e ∈ q.items)
    (hg : (is.foldl (item w path) r).Grows q) :
    Item.AllBound q r.table.symbols.length is
      (is.foldl (item w path) r).table.symbols.length := by
  induction is generalizing r with
  | nil => exact .nil
  | cons i rest ih =>
    have hi := extends_item w hr hp i
    have hpi := hi.grows.stands hp
    have hrest := extends_items w hi.sound hpi rest
    rw [List.flatMap_cons, List.nodup_append] at hids
    rw [List.foldl_cons] at hkept hg ⊢
    refine .cons (item_bound w hq hr hp i hids.1 (fun f hf => hdeclared f (hf ▸ List.mem_cons_self))
      hitems (fun e he hid => ?_) (hrest.grows.trans hg)) (ih hi.sound hpi hids.2.1 ?_ hkept hg)
    · exact hkept e (hrest.items.2 e he fun hmem => hids.2.2 _ hid _ hmem rfl)
    · intro f hf
      obtain ⟨e, he, hid⟩ := hdeclared f (List.mem_cons_of_mem _ hf)
      obtain ⟨e', he', hid', -⟩ := hi.items.exists_mem he
      exact ⟨e', he', hid'.trans hid⟩

end Resolution

end Craftlang
