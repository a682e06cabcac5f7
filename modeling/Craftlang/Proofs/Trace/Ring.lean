import Craftlang.Trace.Tracer
import Mathlib.Data.List.Rotate
import Mathlib.Data.Int.ModEq

/-!
# What a ring keeps

A ring keeps as many events as it has slots, the latest, and shows them in the order in which they came. So a
tracer with a ring shows the latest of the events that its level admits, under numbers that increase, whoever
else takes numbers in between.
-/

namespace Craftlang.Trace

namespace Ring

/-- The ring has taken in these events: how many they are says which slot is the next and whether all slots were
written, and an event that was not overwritten stands where it was written. -/
structure HasTaken (r : Ring) (capacity : Nat) (es : List Event) : Prop where
  length : r.slots.length = capacity
  head : r.head = es.length % capacity
  isFull : r.isFull = true ↔ capacity ≤ es.length
  slots : ∀ i, i < es.length → es.length ≤ i + capacity → r.slots[i % capacity]? = es[i]?

variable {r : Ring} {capacity : Nat} {es : List Event}

theorem capacityFor_pos (size : Int) : 0 < capacityFor size := by
  rw [capacityFor]
  split <;> omega

theorem hasTaken_ofSize (size : Int) : (ofSize size).HasTaken (capacityFor size) [] where
  length := List.length_replicate
  head := (Nat.zero_mod _).symm
  isFull := by
    have hpos := capacityFor_pos size
    simp only [ofSize, List.length_nil, Bool.false_eq_true, false_iff]
    omega
  slots := fun i hi => absurd hi (Nat.not_lt_zero i)

/-- One more event takes the place of the oldest, if all slots were written. -/
theorem HasTaken.push (h : r.HasTaken capacity es) (hpos : 0 < capacity) (e : Event) :
    (r.push e).HasTaken capacity (es ++ [e]) := by
  have hlength : (es ++ [e]).length = es.length + 1 := List.length_append
  have hnext : (r.head + 1) % r.slots.length = (es.length + 1) % capacity := by
    rw [h.length, h.head, Nat.mod_add_mod]
  refine ⟨(List.length_set ..).trans h.length, hnext.trans (by rw [hlength]), ?_, fun i hi hkept => ?_⟩
  · -- the next slot is the first one again exactly if a multiple of the capacity was written
    have hfull := h.isFull
    change (r.isFull || (r.head + 1) % r.slots.length == 0) = true ↔ _
    rw [hnext, hlength, Bool.or_eq_true, beq_iff_eq, hfull, ← Nat.dvd_iff_mod_eq_zero]
    constructor
    · rintro (hold | hround)
      · omega
      · exact Nat.le_of_dvd (Nat.succ_pos _) hround
    · intro hle
      rcases Nat.lt_or_ge es.length capacity with hlt | hge
      · exact .inr ⟨1, by omega⟩
      · exact .inl hge
  · change (r.slots.set r.head e)[i % capacity]? = _
    rw [hlength] at hi hkept
    rcases Nat.lt_or_ge i es.length with hold | hnew
    · -- no two of as many events as there are slots stand in one slot
      have hne : r.head ≠ i % capacity := by
        rw [h.head]
        intro heq
        have hdvd : capacity ∣ es.length - i := (Nat.modEq_iff_dvd' hold.le).mp heq.symm
        have hle := Nat.le_of_dvd (by omega) hdvd
        omega
      rw [List.getElem?_set_ne hne, List.getElem?_append_left hold]
      exact h.slots i hold (by omega)
    · obtain rfl : i = es.length := by omega
      have hhead : r.head = es.length % capacity := h.head
      have hlt : r.head < r.slots.length := by
        rw [hhead, h.length]
        exact Nat.mod_lt _ hpos
      rw [← hhead, List.getElem?_set_self hlt, List.getElem?_concat_length]

/-- What is shown are the latest events, as many as there are slots. -/
theorem HasTaken.snapshot_eq (h : r.HasTaken capacity es) (hpos : 0 < capacity) :
    r.snapshot = es.drop (es.length - capacity) := by
  have hlength := h.length
  have hhead := h.head
  refine List.ext_getElem? fun i => ?_
  rw [snapshot, List.getElem?_drop]
  split
  · rename_i hfull
    have hle := h.isFull.mp hfull
    have hlt : r.head < r.slots.length := by
      rw [hhead, hlength]
      exact Nat.mod_lt _ hpos
    rw [← List.rotate_eq_drop_append_take hlt.le]
    rcases Nat.lt_or_ge i capacity with hi | hi
    · -- counted from the oldest event, the slots are taken round
      have hround : (i + r.head) % capacity = (es.length - capacity + i) % capacity := by
        rw [hhead, Nat.add_mod_mod, ← Nat.add_mod_right (es.length - capacity + i)]
        congr 1
        omega
      rw [List.getElem?_rotate (hlength ▸ hi), hlength, hround]
      exact h.slots _ (by omega) (by omega)
    · rw [List.getElem?_eq_none (by rw [List.length_rotate]; omega), List.getElem?_eq_none (by omega)]
  · rename_i hfull
    have hlt : es.length < capacity := by
      have := mt h.isFull.mpr hfull
      omega
    have hzero : es.length - capacity = 0 := by omega
    rw [hzero, Nat.zero_add, hhead, Nat.mod_eq_of_lt hlt]
    rcases Nat.lt_or_ge i es.length with hi | hi
    · have hslot := h.slots i hi (by omega)
      rw [Nat.mod_eq_of_lt (by omega)] at hslot
      rw [List.getElem?_take_of_lt hi, hslot]
    · rw [List.getElem?_take_eq_none hi, List.getElem?_eq_none hi]

end Ring

/-- What an event is apart from its number. -/
def Event.unnumbered (e : Event) : Event := { e with seq := 0 }

namespace Tracer

/-- Takes events in, one after another; before each one, some numbers were taken elsewhere. -/
def emitAll (t : Tracer) (calls : List (Nat × Event)) : Tracer :=
  calls.foldl (fun t call => { t with lastSeq := t.lastSeq + call.1 }.emit call.2) t

theorem admits_eq (t : Tracer) (s : Scope) : t.admits s = t.level.admits s := by
  rw [admits, isEnabled]
  cases t.level <;> rfl

/-- The events of a run that a level admits. -/
def admitted (level : Level) (calls : List (Nat × Event)) : List Event :=
  (calls.map (·.2)).filter fun e => level.admits e.scope

/-- The ring of the tracer has taken in some events, which are these apart from their numbers; the numbers increase,
and the last one was taken before. -/
structure Keeps (t : Tracer) (level : Level) (capacity : Nat) (events : List Event) : Prop where
  level : t.level = level
  ring : ∃ r es, t.ring = some r ∧ r.HasTaken capacity es ∧ es.map Event.unnumbered = events.map Event.unnumbered
    ∧ es.Pairwise (·.seq < ·.seq) ∧ ∀ e ∈ es, e.seq ≤ t.lastSeq

variable {t : Tracer} {level : Level} {capacity : Nat} {events : List Event}

theorem Keeps.advance (h : t.Keeps level capacity events) (n : Nat) :
    { t with lastSeq := t.lastSeq + n }.Keeps level capacity events := by
  obtain ⟨r, es, hring, htaken, hes, hlt, hle⟩ := h.ring
  exact ⟨h.level, r, es, hring, htaken, hes, hlt, fun e he => Nat.le_add_right_of_le (hle e he)⟩

/-- Writing an event out takes at most one number. -/
theorem Keeps.write (h : t.Keeps level capacity events) (e : Event) : (t.write e).Keeps level capacity events := by
  rw [Tracer.write]
  split
  · exact h
  · obtain ⟨hlevel, hring⟩ := h.advance 1
    exact ⟨hlevel, hring⟩

theorem Keeps.keep (h : t.Keeps level capacity events) (hpos : 0 < capacity) (e : Event) :
    (t.keep e).Keeps level capacity (events ++ [e]) := by
  obtain ⟨r, es, hring, htaken, hes, hlt, hle⟩ := h.ring
  have hkept : t.keep e = { t with
      lastSeq := t.lastSeq + 1
      ring := some (r.push { e with seq := t.lastSeq + 1 }) } := by
    rw [Tracer.keep, hring]
  rw [hkept]
  refine ⟨h.level, _, _, rfl, htaken.push hpos _, ?_, ?_, ?_⟩
  · rw [List.map_append, List.map_append, hes]
    rfl
  · refine List.pairwise_append.mpr ⟨hlt, List.pairwise_singleton _ _, fun old hold new hnew => ?_⟩
    rw [List.mem_singleton.mp hnew]
    exact Nat.lt_succ_of_le (hle old hold)
  · intro old hold
    rcases List.mem_append.mp hold with hold | hnew
    · exact Nat.le_succ_of_le (hle old hold)
    · rw [List.mem_singleton.mp hnew]

/-- One event is taken in if the level admits it. -/
theorem Keeps.emit (h : t.Keeps level capacity events) (hpos : 0 < capacity) (e : Event) :
    (t.emit e).Keeps level capacity (events ++ if level.admits e.scope then [e] else []) := by
  rw [Tracer.emit, admits_eq, h.level]
  split
  · exact (h.write e).keep hpos e
  · rw [List.append_nil]
    exact h

/-- A run takes in the events that the level admits, in the order of the run. -/
theorem Keeps.emitAll (h : t.Keeps level capacity events) (hpos : 0 < capacity) (calls : List (Nat × Event)) :
    (t.emitAll calls).Keeps level capacity (events ++ admitted level calls) := by
  induction calls generalizing t events with
  | nil =>
    rw [admitted, List.map_nil, List.filter_nil, List.append_nil]
    exact h
  | cons call rest ih =>
    have hstep := ih ((h.advance call.1).emit hpos call.2)
    have hadmitted : admitted level (call :: rest)
        = (if level.admits call.2.scope then [call.2] else []) ++ admitted level rest := by
      rw [admitted, List.map_cons, List.filter_cons]
      split <;> rfl
    rw [hadmitted, ← List.append_assoc]
    exact hstep

/-- What is shown is the end of what was taken in, as much of it as there are slots. -/
theorem Keeps.snapshot (h : t.Keeps level capacity events) (hpos : 0 < capacity) :
    ∃ r, t.ring = some r
      ∧ r.snapshot.map Event.unnumbered
        = (events.drop (events.length - min capacity events.length)).map Event.unnumbered
      ∧ r.snapshot.Pairwise (·.seq < ·.seq) := by
  obtain ⟨r, es, hring, htaken, hes, hlt, -⟩ := h.ring
  have hlength : es.length = events.length := by
    have := congrArg List.length hes
    rwa [List.length_map, List.length_map] at this
  have hdrop : es.length - capacity = events.length - min capacity events.length := by omega
  refine ⟨r, hring, ?_, ?_⟩
  · rw [htaken.snapshot_eq hpos, List.map_drop, hes, ← List.map_drop, hdrop]
  · rw [htaken.snapshot_eq hpos]
    exact hlt.drop

theorem keeps_ofSize (t : Tracer) (size : Int) :
    { t with ring := some (.ofSize size) }.Keeps t.level (Ring.capacityFor size) [] :=
  ⟨rfl, .ofSize size, [], rfl, Ring.hasTaken_ofSize size, rfl, .nil, fun _ he => absurd he List.not_mem_nil⟩

/-- A tracer whose ring is new shows, of the `n` events of a run that its level admits, exactly the last
`min capacity n`, oldest first and under increasing numbers. -/
theorem snapshot_emitAll (t : Tracer) (size : Int) (calls : List (Nat × Event)) :
    ∃ r, ({ t with ring := some (.ofSize size) }.emitAll calls).ring = some r
      ∧ r.snapshot.map Event.unnumbered
        = ((admitted t.level calls).drop
            ((admitted t.level calls).length
              - min (Ring.capacityFor size) (admitted t.level calls).length)).map Event.unnumbered
      ∧ r.snapshot.Pairwise (·.seq < ·.seq) :=
  have hpos := Ring.capacityFor_pos size
  ((keeps_ofSize t size).emitAll hpos calls).snapshot hpos

/-- A ring that is asked for with no slots has some all the same, and keeps what comes. -/
theorem not_snapshot_emitAll_of_size :
    ¬ ∀ (t : Tracer) (size : Nat) (calls : List (Nat × Event)),
      ∃ r, ({ t with ring := some (.ofSize size) }.emitAll calls).ring = some r
        ∧ r.snapshot.map Event.unnumbered
          = ((admitted t.level calls).drop
              ((admitted t.level calls).length - min size (admitted t.level calls).length)).map Event.unnumbered
        ∧ r.snapshot.Pairwise (·.seq < ·.seq) := by
  intro hall
  let t : Tracer := { level := .debug }
  let calls : List (Nat × Event) := [(0, { kind := .point, scope := .build, name := [] })]
  have hpos := Ring.capacityFor_pos 0
  obtain ⟨r, hring, hnone, -⟩ := hall t 0 calls
  obtain ⟨r', hring', hsome, -⟩ := ((keeps_ofSize t 0).emitAll hpos calls).snapshot hpos
  obtain rfl : r = r' := Option.some_inj.mp (hring.symm.trans hring')
  have hone : (admitted t.level calls).length = 1 := rfl
  have hlength := congrArg List.length (hnone.symm.trans hsome)
  rw [List.nil_append, List.length_map, List.length_map, List.length_drop, List.length_drop, hone] at hlength
  omega

end Tracer

end Craftlang.Trace
