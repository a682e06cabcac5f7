import Craftlang.Code.Program
import Mathlib.Data.List.Nodup

/-!
# How code grows

Emitting code only adds to what is there. Slots are given out in order, so a variable never shares a slot
with anything that was there before; global variables are numbered in order; and the pieces of a function
are numbered, so all have names of their own.
-/

namespace Craftlang

/-- The place of the global variable with a number. -/
def Location.IsGlobal (n : Nat) : Location → Prop
  | .score s => ∃ name, s = ⟨.global name n, .globals⟩
  | .text p => p = .global n

/-- Global variables that are numbered in order. -/
def NumberedFrom : Nat → List (Nat × Location) → Prop
  | _, [] => True
  | n, e :: es => e.2.IsGlobal n ∧ NumberedFrom (n + 1) es

theorem NumberedFrom.append {n : Nat} {es fs : List (Nat × Location)} (h : NumberedFrom n es)
    (h' : NumberedFrom (n + es.length) fs) : NumberedFrom n (es ++ fs) := by
  induction es generalizing n with
  | nil => exact h'
  | cons e es ih =>
    refine ⟨h.1, ih h.2 ?_⟩
    rw [List.length_cons] at h'
    rwa [Nat.add_right_comm, Nat.add_assoc]

theorem NumberedFrom.exists_number {n : Nat} {es : List (Nat × Location)} (h : NumberedFrom n es)
    {e : Nat × Location} (he : e ∈ es) : ∃ k, n ≤ k ∧ e.2.IsGlobal k := by
  induction es generalizing n with
  | nil => cases he
  | cons f fs ih =>
    rcases List.mem_cons.mp he with rfl | he
    · exact ⟨n, Nat.le_refl n, h.1⟩
    · obtain ⟨k, hk, hglobal⟩ := ih h.2 he
      exact ⟨k, by omega, hglobal⟩

theorem Location.IsGlobal.unique {l : Location} {n k : Nat} (h : l.IsGlobal n) (h' : l.IsGlobal k) :
    n = k := by
  cases l with
  | score s =>
    obtain ⟨name, rfl⟩ := h
    obtain ⟨name', h'⟩ := h'
    injection h' with hholder
    injection hholder
  | text p =>
    obtain rfl : p = .global n := h
    injection (h' : TextPlace.global n = .global k)

theorem NumberedFrom.unique {n : Nat} {es : List (Nat × Location)} (h : NumberedFrom n es) {y z : Nat}
    {l : Location} (hy : (y, l) ∈ es) (hz : (z, l) ∈ es) : y = z := by
  induction es generalizing n with
  | nil => cases hy
  | cons e es ih =>
    have hlater : ∀ {x : Nat}, e.2 = l → (x, l) ∈ es → False := by
      intro x heq hx
      obtain ⟨k, hk, hglobal⟩ := h.2.exists_number hx
      have hunique : n = k := Location.IsGlobal.unique (heq ▸ h.1) hglobal
      omega
    rcases List.mem_cons.mp hy with rfl | hy'
    · rcases List.mem_cons.mp hz with hz | hz
      · exact (congrArg Prod.fst hz).symm
      · exact (hlater rfl hz).elim
    · rcases List.mem_cons.mp hz with rfl | hz
      · exact (hlater rfl hy').elim
      · exact ih h.2 hy' hz

theorem eq_of_sorted {es : List (Nat × Nat)} (h : es.Pairwise fun a b => a.2 < b.2) {y z n : Nat}
    (hy : (y, n) ∈ es) (hz : (z, n) ∈ es) : y = z := by
  induction h with
  | nil => cases hy
  | cons hlt _ ih =>
    rcases List.mem_cons.mp hy with rfl | hy'
    · rcases List.mem_cons.mp hz with hz | hz
      · exact (congrArg Prod.fst hz).symm
      · exact absurd (hlt (z, n) hz) (Nat.lt_irrefl n)
    · rcases List.mem_cons.mp hz with rfl | hz
      · exact absurd (hlt (y, n) hy') (Nat.lt_irrefl n)
      · exact ih hy' hz

namespace Emission

/-- Code is added to what is there. -/
structure Grows (s s' : Emission) : Prop where
  owner : s'.owner = s.owner
  lastSlot : s.lastSlot ≤ s'.lastSlot
  slots : ∃ more, s'.slots = s.slots ++ more ∧ more.Pairwise (fun a b => a.2 < b.2) ∧
    ∀ e ∈ more, s.lastSlot < e.2 ∧ e.2 ≤ s'.lastSlot
  globals : ∃ more, s'.globals = s.globals ++ more ∧ NumberedFrom (s.globals.length + 1) more
  lastPiece : s.lastPiece ≤ s'.lastPiece
  functions : ∃ more, s'.functions = s.functions ++ more ∧ (more.map (·.1)).Nodup ∧
    ∀ e ∈ more, ∃ n, e.1 = .piece s.owner n ∧ s.lastPiece < n ∧ n ≤ s'.lastPiece
  joined : s.joinedAt.isSome = true → s'.joinedAt.isSome = true

namespace Grows

variable {s s' s'' : Emission}

/-- Nothing is added but commands, slots that are no variables', and numbers of pieces. -/
theorem same (ho : s'.owner = s.owner) (hl : s.lastSlot ≤ s'.lastSlot) (hs : s'.slots = s.slots)
    (hg : s'.globals = s.globals) (hp : s.lastPiece ≤ s'.lastPiece) (hf : s'.functions = s.functions)
    (hj : s'.joinedAt = s.joinedAt) : Grows s s' :=
  ⟨ho, hl, ⟨[], by rw [hs, List.append_nil], .nil, nofun⟩,
    ⟨[], by rw [hg, List.append_nil], trivial⟩, hp,
    ⟨[], by rw [hf, List.append_nil], List.nodup_nil, nofun⟩, fun h => by rw [hj, h]⟩

theorem refl (s : Emission) : Grows s s :=
  .same rfl (Nat.le_refl _) rfl rfl (Nat.le_refl _) rfl rfl

theorem trans (h : Grows s s') (h' : Grows s' s'') : Grows s s'' := by
  obtain ⟨slots, hslots, hsorted, hbounds⟩ := h.slots
  obtain ⟨slots', hslots', hsorted', hbounds'⟩ := h'.slots
  obtain ⟨globals, hglobals, hnumbered⟩ := h.globals
  obtain ⟨globals', hglobals', hnumbered'⟩ := h'.globals
  obtain ⟨functions, hfunctions, hnodup, hnames⟩ := h.functions
  obtain ⟨functions', hfunctions', hnodup', hnames'⟩ := h'.functions
  have hle := h.lastSlot
  have hle' := h'.lastSlot
  have hpieces := h.lastPiece
  have hpieces' := h'.lastPiece
  refine ⟨h'.owner.trans h.owner, Nat.le_trans hle hle', ⟨slots ++ slots', ?_, ?_, ?_⟩,
    ⟨globals ++ globals', ?_, ?_⟩, Nat.le_trans hpieces hpieces',
    ⟨functions ++ functions', ?_, ?_, ?_⟩, fun hj => h'.joined (h.joined hj)⟩
  · rw [hslots', hslots, List.append_assoc]
  · rw [List.pairwise_append]
    refine ⟨hsorted, hsorted', fun a ha b hb => ?_⟩
    exact Nat.lt_of_le_of_lt (hbounds a ha).2 (hbounds' b hb).1
  · intro e he
    rcases List.mem_append.mp he with he | he
    · have := hbounds e he
      omega
    · have := hbounds' e he
      omega
  · rw [hglobals', hglobals, List.append_assoc]
  · refine hnumbered.append ?_
    rw [hglobals, List.length_append, Nat.add_right_comm] at hnumbered'
    exact hnumbered'
  · rw [hfunctions', hfunctions, List.append_assoc]
  · rw [List.map_append, List.nodup_append]
    refine ⟨hnodup, hnodup', fun a ha b hb heq => ?_⟩
    obtain ⟨e, he, rfl⟩ := List.mem_map.mp ha
    obtain ⟨e', he', rfl⟩ := List.mem_map.mp hb
    obtain ⟨n, hn, hle, hge⟩ := hnames e he
    obtain ⟨n', hn', hle', hge'⟩ := hnames' e' he'
    rw [hn, hn', FunctionName.piece.injEq] at heq
    omega
  · intro e he
    rcases List.mem_append.mp he with he | he
    · obtain ⟨n, hn, hlt, hle⟩ := hnames e he
      exact ⟨n, hn, hlt, Nat.le_trans hle hpieces'⟩
    · obtain ⟨n, hn, hlt, hle⟩ := hnames' e he
      exact ⟨n, by rw [hn, h.owner], Nat.lt_of_le_of_lt hpieces hlt, hle⟩

end Grows

section

variable (s : Emission)

theorem grows_emit (c : Command) : Grows s (s.emit c) :=
  .same rfl (Nat.le_refl _) rfl rfl (Nat.le_refl _) rfl rfl

theorem grows_emitAll (cs : List Command) : Grows s (s.emitAll cs) :=
  .same rfl (Nat.le_refl _) rfl rfl (Nat.le_refl _) rfl rfl

theorem grows_newSlot : Grows s s.newSlot.1 :=
  .same rfl (Nat.le_succ _) rfl rfl (Nat.le_refl _) rfl rfl

theorem grows_newPiece : Grows s s.newPiece.1 :=
  .same rfl (Nat.le_refl _) rfl rfl (Nat.le_succ _) rfl rfl

theorem grows_joinAt (span : Span) : Grows s (s.joinAt span) := by
  have h := Grows.refl s
  exact ⟨h.owner, h.lastSlot, h.slots, h.globals, h.lastPiece, h.functions, fun hj => by
    change (s.joinedAt.or (some span)).isSome = true
    rw [Option.isSome_or, hj, Bool.true_or]⟩

theorem grows_setText (target : TextPlace) (value : Bytes) (span : Span) :
    Grows s (s.setText target value span) := by
  unfold setText
  dsimp only
  split
  · exact .same rfl (Nat.le_refl _) rfl rfl (Nat.le_refl _) rfl rfl
  · exact grows_emit s _

/-- A variable that is not known yet gets the next slot. -/
theorem grows_slotOf (y : Nat) : Grows s (s.slotOf y).1 := by
  rw [slotOf]
  split
  · exact .refl s
  · refine ⟨rfl, Nat.le_succ _, ⟨[(y, s.lastSlot + 1)], rfl, List.pairwise_singleton _ _, ?_⟩,
      (Grows.refl s).globals, Nat.le_refl _, (Grows.refl s).functions, id⟩
    intro e he
    rw [List.mem_singleton.mp he]
    exact ⟨Nat.lt_succ_self _, Nat.le_refl _⟩

/-- A global variable that is not known yet gets the next number. -/
theorem grows_globalOf (y : Nat) (name : Bytes) (isScore : Bool) :
    Grows s (s.globalOf y name isScore).1 := by
  rw [globalOf]
  split
  · exact .refl s
  · refine ⟨rfl, Nat.le_refl _, (Grows.refl s).slots, ⟨_, rfl, ?_, trivial⟩, Nat.le_refl _,
      (Grows.refl s).functions, id⟩
    cases isScore with
    | true => exact ⟨_, rfl⟩
    | false => exact rfl

/-! What is added for variables and literals is little. -/

theorem slotOf_eq (y : Nat) : ∃ slots lastSlot, (s.slotOf y).1 = { s with slots := slots, lastSlot := lastSlot } := by
  rw [slotOf]
  split
  · exact ⟨s.slots, s.lastSlot, rfl⟩
  · exact ⟨_, _, rfl⟩

theorem globalOf_eq (y : Nat) (name : Bytes) (isScore : Bool) :
    ∃ globals, (s.globalOf y name isScore).1 = { s with globals := globals } := by
  rw [globalOf]
  split
  · exact ⟨s.globals, rfl⟩
  · exact ⟨_, rfl⟩

theorem setText_eq (target : TextPlace) (value : Bytes) (span : Span) :
    ∃ quoted, s.setText target value span = { s.emit (.setText target value) with quoted := quoted } := by
  unfold setText
  dsimp only
  split
  · exact ⟨_, rfl⟩
  · exact ⟨s.quoted, rfl⟩

end

/-- A new piece is called from the code that is emitted, and emitted itself. -/
theorem Grows.piece (s : Emission) (d : Command) {body : Emission → Emission}
    (h : Grows { s.newPiece.1.emit d with commands := [] } (body { s.newPiece.1.emit d with commands := [] })) :
    Grows s ((s.newPiece.1.emit d).inPiece s.newPiece.2 body) := by
  generalize hinner : body { s.newPiece.1.emit d with commands := [] } = inner at h
  obtain ⟨more, hmore, hnodup, hnames⟩ := h.functions
  have hgrows : Grows s { inner with commands := s.commands ++ [d] } :=
    ((grows_newPiece s).trans (grows_emit _ d)).trans
      ⟨h.owner, h.lastSlot, h.slots, h.globals, h.lastPiece, h.functions, h.joined⟩
  rw [inPiece, hinner]
  refine ⟨hgrows.owner, hgrows.lastSlot, hgrows.slots, hgrows.globals, hgrows.lastPiece,
    ⟨more ++ [(s.newPiece.2, inner.commands)], ?_, ?_, ?_⟩, hgrows.joined⟩
  · change inner.functions ++ _ = _
    rw [hmore, List.append_assoc]
    rfl
  · rw [List.map_append, List.nodup_append]
    refine ⟨hnodup, List.nodup_singleton _, fun a ha b hb heq => ?_⟩
    obtain ⟨e, he, rfl⟩ := List.mem_map.mp ha
    obtain ⟨n, hn, hlt, -⟩ := hnames e he
    obtain rfl := List.mem_singleton.mp hb
    rw [hn] at heq
    injection heq with _ hnumber
    exact absurd hnumber.symm (Nat.ne_of_lt hlt)
  · intro e he
    rcases List.mem_append.mp he with he | he
    · obtain ⟨n, hn, hlt, hle⟩ := hnames e he
      exact ⟨n, hn, Nat.lt_of_succ_lt hlt, hle⟩
    · rw [List.mem_singleton.mp he]
      exact ⟨s.lastPiece + 1, rfl, Nat.lt_succ_self _, h.lastPiece⟩

end Emission

end Craftlang
