import Craftlang.Types.Table
import Mathlib.Data.List.Infix

/-!
# Numbers of types

Each number that a table hands out stands for one type, for as long as the table is used. What is carried from
request to request: a function entry has its signature, no signature belongs to two entries, and the table only
grows at its end.
-/

namespace Craftlang.TypeTable

/-- What a table can be asked for: the number of an entry that is no function, or of a function. -/
inductive Request where
  | intern (entry : TypeEntry) (hkind : entry.kind ≠ .function)
  | register (signature : NumberedSignature)

/-- The kind of the type that a request is about. -/
def Request.kind : Request → TypeKind
  | .intern entry _ => entry.kind
  | .register _ => .function

/-- Answers one request. -/
def answer (t : TypeTable) : Request → TypeTable × Nat
  | .intern entry _ => t.intern entry
  | .register signature => t.register signature

/-- Answers requests one after another, each with a number. -/
def answerAll (t : TypeTable) : List Request → TypeTable × List (Request × Nat)
  | [] => (t, [])
  | request :: rest =>
    let answered := t.answer request
    let later := answered.1.answerAll rest
    (later.1, (request, answered.2) :: later.2)

/-- The signature of the function entry that stands at a position. -/
def signatureAt? (t : TypeTable) (i : Nat) : Option NumberedSignature := t.entries[i]?.bind t.signatureOf?

/-- What holds of a table that only was asked for numbers. -/
structure IsSound (t : TypeTable) : Prop where
  invalid : t.entries[0]? = some ⟨.simple .invalid, 0⟩
  slots : ∀ e ∈ t.entries, e.kind = .function → e.payload < t.signatures.length
  unique : ∀ i j s, t.signatureAt? i = some s → t.signatureAt? j = some s → i = j

/-- A table that may have come to hold more at its end. -/
structure Grows (t t' : TypeTable) : Prop where
  entries : t.entries <+: t'.entries
  signatures : t.signatures <+: t'.signatures

variable {t t' t'' : TypeTable}

theorem Grows.refl (t : TypeTable) : t.Grows t := ⟨List.prefix_rfl, List.prefix_rfl⟩

theorem Grows.trans (h : t.Grows t') (h' : t'.Grows t'') : t.Grows t'' :=
  ⟨h.entries.trans h'.entries, h.signatures.trans h'.signatures⟩

theorem Grows.getElem?_eq (h : t.Grows t') {i : Nat} (hi : i < t.entries.length) :
    t'.entries[i]? = t.entries[i]? := by
  rw [List.prefix_iff_getElem?.mp h.entries i hi, List.getElem?_eq_getElem hi]

theorem Grows.get?_eq (h : t.Grows t') {id : Nat} (hid : id < t.entries.length) : t'.get? id = t.get? id := by
  rw [get?, get?, h.getElem?_eq hid]

theorem Grows.kindOf_eq (h : t.Grows t') {id : Nat} (hid : id < t.entries.length) :
    t'.kindOf id = t.kindOf id := by
  rw [kindOf, kindOf, h.get?_eq hid]

/-- An entry keeps its signature, since its slot is taken. -/
theorem Grows.signatureOf?_eq (h : t.Grows t') (ht : t.IsSound) {e : TypeEntry} (he : e ∈ t.entries) :
    t'.signatureOf? e = t.signatureOf? e := by
  rw [signatureOf?, signatureOf?]
  split
  · rename_i hkind
    have hslot := ht.slots e he hkind
    rw [List.prefix_iff_getElem?.mp h.signatures _ hslot, List.getElem?_eq_getElem hslot]
  · rfl

theorem Grows.signature?_eq (h : t.Grows t') (ht : t.IsSound) {id : Nat} (hid : id < t.entries.length) :
    t'.signature? id = t.signature? id := by
  rw [signature?, signature?, h.get?_eq hid]
  cases hget : t.get? id with
  | none => rfl
  | some e =>
    refine h.signatureOf?_eq ht ?_
    rw [get?] at hget
    split at hget
    · cases hget
    · exact List.mem_of_getElem? hget

/-- Number 0 is no function's, so positions and numbers have the same signatures. -/
theorem IsSound.signature?_eq (ht : t.IsSound) (id : Nat) : t.signature? id = t.signatureAt? id := by
  rw [signature?, signatureAt?, get?]
  split
  · rename_i hzero
    rw [hzero, ht.invalid]
    rfl
  · rfl

theorem isSound_start : start.IsSound where
  invalid := rfl
  slots := by decide
  unique := by
    intro i j s hi
    have hnone : ∀ e ∈ start.entries, start.signatureOf? e = none := by decide
    obtain ⟨e, he, hs⟩ := Option.bind_eq_some_iff.mp hi
    rw [hnone e (List.mem_of_getElem? he)] at hs
    cases hs

/-! ## One request -/

/-- What is said about the number that a request is answered with: it has an entry of the kind that was asked for,
and the signature, if it is a function's. -/
structure Answers (t : TypeTable) (request : Request) (id : Nat) : Prop where
  lt : id < t.entries.length
  kind : t.kindOf id = request.kind
  signature : ∀ s, request = .register s → t.signature? id = some s

theorem Answers.of_grows {request : Request} {id : Nat} (h : t.Answers request id) (ht : t.IsSound)
    (hgrows : t.Grows t') : t'.Answers request id where
  lt := h.lt.trans_le hgrows.entries.length_le
  kind := (hgrows.kindOf_eq h.lt).trans h.kind
  signature := fun s hs => (hgrows.signature?_eq ht h.lt).trans (h.signature s hs)

/-- The kind of an entry is that of the number it stands under; number 0 is invalid, as its entry is. -/
theorem IsSound.kindOf_eq (ht : t.IsSound) {id : Nat} {e : TypeEntry} (he : t.entries[id]? = some e) :
    t.kindOf id = e.kind := by
  rw [kindOf, get?]
  split
  · rename_i hzero
    rw [hzero, ht.invalid] at he
    cases he
    rfl
  · rw [he]
    rfl

/-- An entry may stand at the end of a table, with more signatures at their end, if its signature is there and is
no other entry's. -/
theorem IsSound.append (ht : t.IsSound) (hgrows : t.Grows t') {e : TypeEntry}
    (hentries : t'.entries = t.entries ++ [e]) (hslot : e.kind = .function → e.payload < t'.signatures.length)
    (hnew : ∀ i s, t.signatureAt? i = some s → t'.signatureOf? e ≠ some s) : t'.IsSound := by
  have hpos : 0 < t.entries.length := (List.getElem?_eq_some_iff.mp ht.invalid).1
  have hold : ∀ i, i < t.entries.length → t'.signatureAt? i = t.signatureAt? i := by
    intro i hi
    rw [signatureAt?, signatureAt?, hgrows.getElem?_eq hi, List.getElem?_eq_getElem hi]
    exact hgrows.signatureOf?_eq ht (List.getElem_mem hi)
  have hlast : ∀ i s, t.entries.length ≤ i → t'.signatureAt? i = some s →
      i = t.entries.length ∧ t'.signatureOf? e = some s := by
    intro i s hi hs
    rw [signatureAt?, hentries, List.getElem?_append_right hi] at hs
    obtain ⟨e', he', hs'⟩ := Option.bind_eq_some_iff.mp hs
    have hzero := (List.getElem?_eq_some_iff.mp he').1
    rw [List.length_singleton] at hzero
    rw [List.mem_singleton.mp (List.mem_of_getElem? he')] at hs'
    exact ⟨by omega, hs'⟩
  refine ⟨(hgrows.getElem?_eq hpos).trans ht.invalid, fun e' he' hkind => ?_, fun i j s hi hj => ?_⟩
  · rw [hentries] at he'
    rcases List.mem_append.mp he' with he' | he'
    · exact (ht.slots e' he' hkind).trans_le hgrows.signatures.length_le
    · rw [List.mem_singleton.mp he'] at hkind ⊢
      exact hslot hkind
  · rcases Nat.lt_or_ge i t.entries.length with hilt | hige <;>
      rcases Nat.lt_or_ge j t.entries.length with hjlt | hjge
    · exact ht.unique i j s (hold i hilt ▸ hi) (hold j hjlt ▸ hj)
    · exact absurd (hlast j s hjge hj).2 (hnew i s (hold i hilt ▸ hi))
    · exact absurd (hlast i s hige hi).2 (hnew j s (hold j hjlt ▸ hj))
    · rw [(hlast i s hige hi).1, (hlast j s hjge hj).1]

/-- The entry itself stands under the number that it is given. -/
theorem getElem?_intern (t : TypeTable) {entry : TypeEntry} (hkind : entry.kind ≠ .simple .invalid) :
    (t.intern entry).1.entries[(t.intern entry).2]? = some entry := by
  rw [intern, if_neg hkind]
  cases hfound : t.entries.reverse.idxOf? entry with
  | none => exact List.getElem?_concat_length
  | some behind =>
    obtain ⟨hlt, hentry, -⟩ := List.idxOf?_eq_some_iff.mp hfound
    rw [List.length_reverse] at hlt
    rw [← List.getElem?_reverse hlt, ← hentry]
    exact List.getElem?_eq_getElem _

/-- A table that is asked for an entry stays sound if the entry is no function: with another payload, a function
would share the signature of another one. -/
theorem IsSound.intern (ht : t.IsSound) {entry : TypeEntry} (hkind : entry.kind ≠ .function) :
    (t.intern entry).1.IsSound ∧ t.Grows (t.intern entry).1 := by
  rw [TypeTable.intern]
  split
  · exact ⟨ht, .refl t⟩
  split
  · exact ⟨ht, .refl t⟩
  · have hgrows : t.Grows { t with entries := t.entries ++ [entry] } := ⟨List.prefix_append _ _, List.prefix_rfl⟩
    refine ⟨ht.append hgrows rfl (fun h => absurd h hkind) fun i s _ => ?_, hgrows⟩
    rw [signatureOf?, if_neg hkind]
    exact Option.some_ne_none s |>.symm

theorem IsSound.answers_intern (ht : t.IsSound) {entry : TypeEntry} (hkind : entry.kind ≠ .function) :
    (t.intern entry).1.Answers (.intern entry hkind) (t.intern entry).2 := by
  have hsound := (ht.intern hkind).1
  by_cases hinvalid : entry.kind = .simple .invalid
  · have hzero : t.intern entry = (t, 0) := if_pos hinvalid
    rw [hzero]
    exact ⟨(List.getElem?_eq_some_iff.mp ht.invalid).1, (ht.kindOf_eq ht.invalid).trans hinvalid.symm, nofun⟩
  · have hentry := t.getElem?_intern hinvalid
    exact ⟨(List.getElem?_eq_some_iff.mp hentry).1, hsound.kindOf_eq hentry, nofun⟩

/-- A signature that stands nowhere gets a slot of its own, and its function an entry. -/
theorem IsSound.register (ht : t.IsSound) (s : NumberedSignature) :
    (t.register s).1.IsSound ∧ t.Grows (t.register s).1
      ∧ (t.register s).1.Answers (.register s) (t.register s).2 := by
  rw [TypeTable.register]
  cases hfound : (t.entries.map t.signatureOf?).idxOf? (some s) with
  | some id =>
    obtain ⟨hlt, hs, -⟩ := List.idxOf?_eq_some_iff.mp hfound
    rw [List.length_map] at hlt
    rw [List.getElem_map] at hs
    have hentry : t.entries[id]? = some t.entries[id] := List.getElem?_eq_getElem hlt
    refine ⟨ht, .refl t, hlt, (ht.kindOf_eq hentry).trans ?_, ?_⟩
    · rw [signatureOf?] at hs
      split at hs
      · assumption
      · cases hs
    · rintro _ ⟨⟩
      rw [ht.signature?_eq, signatureAt?, hentry]
      exact hs
  | none =>
    have hnone := List.idxOf?_eq_none_iff.mp hfound
    let e : TypeEntry := ⟨.function, t.signatures.length⟩
    let t' : TypeTable := ⟨t.entries ++ [e], t.signatures ++ [s]⟩
    have hgrows : t.Grows t' := ⟨List.prefix_append _ _, List.prefix_append _ _⟩
    have hsignature : t'.signatureOf? e = some s := List.getElem?_concat_length
    have hentry : t'.entries[t.entries.length]? = some e := List.getElem?_concat_length
    have hsound : t'.IsSound := by
      refine ht.append hgrows rfl (fun _ => ?_) fun i s' hs' hsame => hnone ?_
      · rw [List.length_append]
        exact Nat.lt_succ_self _
      · obtain rfl := Option.some_inj.mp (hsignature.symm.trans hsame)
        obtain ⟨e', he', hs'⟩ := Option.bind_eq_some_iff.mp hs'
        exact List.mem_map.mpr ⟨e', List.mem_of_getElem? he', hs'⟩
    refine ⟨hsound, hgrows, (List.getElem?_eq_some_iff.mp hentry).1, hsound.kindOf_eq hentry, ?_⟩
    rintro _ ⟨⟩
    rw [hsound.signature?_eq, signatureAt?, hentry]
    exact hsignature

/-- One request leaves a sound table that has grown, and its answer is right. -/
theorem IsSound.answer (ht : t.IsSound) (request : Request) :
    (t.answer request).1.IsSound ∧ t.Grows (t.answer request).1
      ∧ (t.answer request).1.Answers request (t.answer request).2 :=
  match request with
  | .intern _ hkind =>
    have hstep := ht.intern hkind
    ⟨hstep.1, hstep.2, ht.answers_intern hkind⟩
  | .register s => ht.register s

/-! ## All requests -/

/-- All answers to requests are right, also in the table that the last one leaves. -/
theorem IsSound.answerAll (ht : t.IsSound) (requests : List Request) :
    (t.answerAll requests).1.IsSound ∧ t.Grows (t.answerAll requests).1
      ∧ ∀ answered ∈ (t.answerAll requests).2, (t.answerAll requests).1.Answers answered.1 answered.2 := by
  induction requests generalizing t with
  | nil => exact ⟨ht, .refl t, fun _ h => absurd h List.not_mem_nil⟩
  | cons request rest ih =>
    obtain ⟨hsound, hgrows, hanswer⟩ := ht.answer request
    obtain ⟨hsound', hgrows', hanswers⟩ := ih hsound
    refine ⟨hsound', hgrows.trans hgrows', fun answered hmem => ?_⟩
    rcases List.mem_cons.mp hmem with rfl | hmem
    · exact hanswer.of_grows hsound hgrows'
    · exact hanswers answered hmem

theorem answerAll_append (t : TypeTable) (before after : List Request) :
    t.answerAll (before ++ after)
      = (((t.answerAll before).1.answerAll after).1,
          (t.answerAll before).2 ++ ((t.answerAll before).1.answerAll after).2) := by
  induction before generalizing t with
  | nil => rfl
  | cons request rest ih =>
    rw [List.cons_append, TypeTable.answerAll, ih]
    rfl

/-- Types are the same exactly if their numbers are. After any requests, two functions have one number if and only if
they have one signature, which is found under it; requests for different kinds have different numbers; and what is
found under a number that was there or was handed out is the same after any more requests. -/
theorem answerAll_start (before after : List Request) :
    (∀ s id s' id', (.register s, id) ∈ (start.answerAll before).2 → (.register s', id') ∈ (start.answerAll before).2 →
        (id = id' ↔ s = s'))
      ∧ (∀ s id, (.register s, id) ∈ (start.answerAll before).2 →
          (start.answerAll before).1.signature? id = some s)
      ∧ (∀ answered ∈ (start.answerAll before).2, ∀ answered' ∈ (start.answerAll before).2,
          answered.1.kind ≠ answered'.1.kind → answered.2 ≠ answered'.2)
      ∧ (∀ id, id < start.entries.length ∨ id ∈ (start.answerAll before).2.map (·.2) →
          (start.answerAll (before ++ after)).1.get? id = (start.answerAll before).1.get? id
            ∧ (start.answerAll (before ++ after)).1.signature? id = (start.answerAll before).1.signature? id) := by
  obtain ⟨hsound, hgrows, hanswers⟩ := isSound_start.answerAll before
  obtain ⟨-, hgrows', -⟩ := hsound.answerAll after
  refine ⟨fun s id s' id' hid hid' => ?_, fun s id hid => (hanswers _ hid).signature s rfl, ?_, fun id hid => ?_⟩
  · have hs := (hanswers _ hid).signature s rfl
    have hs' := (hanswers _ hid').signature s' rfl
    constructor
    · rintro rfl
      exact Option.some_inj.mp (hs.symm.trans hs')
    · rintro rfl
      rw [hsound.signature?_eq] at hs hs'
      exact hsound.unique id id' s hs hs'
  · intro answered hmem answered' hmem' hkind hsame
    refine hkind ?_
    rw [← (hanswers _ hmem).kind, ← (hanswers _ hmem').kind, hsame]
  · have hlt : id < (start.answerAll before).1.entries.length := by
      rcases hid with hid | hid
      · exact hid.trans_le hgrows.entries.length_le
      · obtain ⟨answered, hmem, rfl⟩ := List.mem_map.mp hid
        exact (hanswers answered hmem).lt
    rw [answerAll_append]
    exact ⟨hgrows'.get?_eq hlt, hgrows'.signature?_eq hsound hlt⟩

end Craftlang.TypeTable
