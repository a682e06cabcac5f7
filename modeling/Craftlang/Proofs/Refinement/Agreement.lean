import Craftlang.Proofs.Code.Walks
import Craftlang.Proofs.Machine.Runs
import Craftlang.Proofs.Meaning.Soundness
import Craftlang.Proofs.Scope.Growth

/-!
# Machines that agree with a program

What a machine has to do with what a program remembers, and what becomes of it when one place of the
machine changes. Code reaches a machine from another one if running it does; the machine that is reached
agrees with what the program remembers then, and keeps what belongs to callers and to expressions that are
not evaluated yet.
-/

/-!
## Where a program keeps its values

A layout says where the variables are kept once all code is emitted. A machine agrees with what a program
remembers if every variable that holds a value is kept at its place. The slots that no variable has hold
the values of expressions; code changes only those of them that it was given itself.
-/

namespace Craftlang

open Machine

def Value.cell : Value → Cell
  | .int n => .number n
  | .bool b => .number (if b then 1 else 0)
  | .string s => .text s

/-- The place of a slot of the running call, for scores or for strings. -/
def slotPlace (isScore : Bool) (n : Nat) : Location :=
  if isScore then .score ⟨.frame, .slot n⟩ else .text (.slot n)

theorem slotPlace_inj {b b' : Bool} {n n' : Nat} (h : slotPlace b n = slotPlace b' n') : n = n' := by
  cases b <;> cases b' <;> cases h <;> rfl

/-- What code runs with: the meaning of names, the finished functions, the places of global variables,
the slots of the variables of the running function, and the machine at the very start. -/
structure Layout where
  context : EmissionContext
  code : FunctionName → Option (List Command)
  start : Machine
  globals : List (Nat × Location)
  slots : List (Nat × Nat)

namespace Layout

variable (t : Layout)

/-- The place of a variable. -/
def place? (y : Nat) : Option Location :=
  if t.context.resolution.isGlobal y then t.globals.lookup y
  else (t.slots.lookup y).map (slotPlace (t.context.typing.typeOfSymbol y).isScore)

/-- No variable has the slot. -/
def IsFree (n : Nat) : Prop := ∀ e ∈ t.slots, e.2 ≠ n

/-- Variables have places of their own, for values of their types. -/
structure Sound : Prop where
  globals : NumberedFrom 1 t.globals
  kinds : ∀ e ∈ t.globals, e.2.Holds (t.context.typing.typeOfSymbol e.1)
  slots : t.slots.Pairwise fun a b => a.2 < b.2

/-- A piece of code fits the layout: later variables get later slots, and its functions are there. -/
structure Links (s : Emission) : Prop where
  slots : ∃ more, t.slots = s.slots ++ more ∧ ∀ e ∈ more, s.lastSlot < e.2
  globals : s.globals <+: t.globals
  functions : ∀ e ∈ s.functions, t.code e.1 = some e.2
  joiner : s.joinedAt.isSome = true → t.code .joiner = some [.joinedText]

end Layout

/-- The variables have slots that were given out. -/
def Emission.Tidy (s : Emission) : Prop := ∀ e ∈ s.slots, e.2 ≤ s.lastSlot

theorem Emission.Grows.tidy {s s' : Emission} (h : s.Grows s') (hs : s.Tidy) : s'.Tidy := by
  obtain ⟨more, hmore, -, hbounds⟩ := h.slots
  intro e he
  rw [hmore] at he
  rcases List.mem_append.mp he with he | he
  · exact Nat.le_trans (hs e he) h.lastSlot
  · exact (hbounds e he).2

theorem Location.IsGlobal.ne_slotPlace {l : Location} {n : Nat} (h : l.IsGlobal n) (b : Bool) (k : Nat) :
    l ≠ slotPlace b k := by
  rintro rfl
  cases b with
  | true =>
    obtain ⟨name, h⟩ := h
    cases h
  | false => cases h

namespace Layout

variable {t : Layout}

/-- A variable is kept at the place of a global variable, or in its slot. -/
theorem place?_cases {y : Nat} {l : Location} (h : t.place? y = some l) :
    t.context.resolution.isGlobal y = true ∧ t.globals.lookup y = some l ∨
      t.context.resolution.isGlobal y = false ∧ ∃ n, t.slots.lookup y = some n ∧
        l = slotPlace (t.context.typing.typeOfSymbol y).isScore n := by
  unfold place? at h
  split at h
  · rename_i hg
    exact .inl ⟨hg, h⟩
  · rename_i hg
    obtain ⟨n, hn, rfl⟩ := Option.map_eq_some_iff.mp h
    exact .inr ⟨by simpa using hg, n, hn, rfl⟩

theorem Sound.isGlobal (ht : t.Sound) {y : Nat} {l : Location} (h : t.globals.lookup y = some l) :
    ∃ n, l.IsGlobal n := by
  obtain ⟨k, -, hk⟩ := ht.globals.exists_number (mem_of_lookup_eq_some h)
  exact ⟨k, hk⟩

/-- Different variables are kept at different places. -/
theorem Sound.place?_inj (ht : t.Sound) {y z : Nat} {l : Location} (hy : t.place? y = some l)
    (hz : t.place? z = some l) : y = z := by
  rcases place?_cases hy with ⟨-, hy⟩ | ⟨-, n, hn, hl⟩
  · rcases place?_cases hz with ⟨-, hz⟩ | ⟨-, k, -, hl⟩
    · exact ht.globals.unique (mem_of_lookup_eq_some hy) (mem_of_lookup_eq_some hz)
    · obtain ⟨i, hi⟩ := ht.isGlobal hy
      exact absurd hl (hi.ne_slotPlace _ _)
  · rcases place?_cases hz with ⟨-, hz⟩ | ⟨-, k, hk, hl'⟩
    · obtain ⟨i, hi⟩ := ht.isGlobal hz
      exact absurd hl (hi.ne_slotPlace _ _)
    · obtain rfl := slotPlace_inj (hl.symm.trans hl')
      exact eq_of_sorted ht.slots (mem_of_lookup_eq_some hn) (mem_of_lookup_eq_some hk)

theorem Sound.holds (ht : t.Sound) {y : Nat} {l : Location} (h : t.place? y = some l) :
    l.Holds (t.context.typing.typeOfSymbol y) := by
  rcases place?_cases h with ⟨-, h⟩ | ⟨-, n, -, rfl⟩
  · exact ht.kinds _ (mem_of_lookup_eq_some h)
  · cases hb : (t.context.typing.typeOfSymbol y).isScore <;> exact hb

/-- What fits the layout in the end fitted it before. -/
theorem Links.before {s s' : Emission} (h : t.Links s') (hg : s.Grows s') : t.Links s := by
  obtain ⟨more, hmore, hlater⟩ := h.slots
  obtain ⟨slots, hslots, -, hbounds⟩ := hg.slots
  obtain ⟨globals, hglobals, -⟩ := hg.globals
  obtain ⟨functions, hfunctions, -⟩ := hg.functions
  refine ⟨⟨slots ++ more, ?_, ?_⟩, ?_, fun e he => ?_, fun hj => h.joiner (hg.joined hj)⟩
  · rw [hmore, hslots, List.append_assoc]
  · intro e he
    rcases List.mem_append.mp he with he | he
    · exact (hbounds e he).1
    · exact Nat.lt_of_le_of_lt hg.lastSlot (hlater e he)
  · exact (List.prefix_append ..).trans (hglobals ▸ h.globals)
  · refine h.functions e ?_
    rw [hfunctions]
    exact List.mem_append_left _ he

/-- A slot that was given to no variable stays free. -/
theorem Links.isFree {s s' : Emission} (h : t.Links s') (hs : s.Tidy) (hslots : s'.slots = s.slots)
    {n : Nat} (hlt : s.lastSlot < n) (hle : n ≤ s'.lastSlot) : t.IsFree n := by
  obtain ⟨more, hmore, hlater⟩ := h.slots
  intro e he
  rw [hmore, hslots] at he
  rcases List.mem_append.mp he with he | he
  · have := hs e he
    omega
  · have := hlater e he
    omega

end Layout

namespace Emission

theorem lookup_globalOf (s : Emission) (y : Nat) (name : Bytes) (isScore : Bool) :
    (s.globalOf y name isScore).1.globals.lookup y = some (s.globalOf y name isScore).2 := by
  unfold globalOf
  split
  · rename_i l hl
    exact hl
  · rename_i hl
    rw [List.lookup_append, hl]
    simp

theorem lookup_slotOf (s : Emission) (y : Nat) :
    (s.slotOf y).1.slots.lookup y = some (s.slotOf y).2 := by
  unfold slotOf
  split
  · rename_i n hn
    exact hn
  · rename_i hn
    change (s.slots ++ [(y, s.lastSlot + 1)]).lookup y = some (s.lastSlot + 1)
    rw [List.lookup_append, hn]
    simp

theorem variablePlace_eq (c : EmissionContext) (s : Emission) (y : Nat) :
    variablePlace c s y = if c.resolution.isGlobal y
      then s.globalOf y (c.resolution.table.nameOf y) (c.typing.typeOfSymbol y).isScore
      else ((s.slotOf y).1, slotPlace (c.typing.typeOfSymbol y).isScore (s.slotOf y).2) := rfl

end Emission

namespace Layout

variable {t : Layout}

/-- The place that a variable is given is its place in the end. -/
theorem Links.variablePlace {s : Emission} {y : Nat}
    (h : t.Links (Emission.variablePlace t.context s y).1) :
    t.place? y = some (Emission.variablePlace t.context s y).2 := by
  have hglobals := h.globals
  obtain ⟨more, hmore, -⟩ := h.slots
  have hslots : (Emission.variablePlace t.context s y).1.slots <+: t.slots := ⟨more, hmore.symm⟩
  rw [Emission.variablePlace_eq] at hglobals hslots ⊢
  rw [place?]
  split
  · rename_i hg
    rw [if_pos hg] at hglobals
    exact lookup_of_isPrefix hglobals (Emission.lookup_globalOf s _ _ _)
  · rename_i hg
    rw [if_neg hg] at hslots
    rw [lookup_of_isPrefix hslots (Emission.lookup_slotOf s y)]
    rfl

end Layout


open Machine

theorem Machine.Updates.trans {l : Location} {cell cell' : Cell} {m m' m'' : Machine}
    (h : Updates l cell m m') (h' : Updates l cell' m' m'') : Updates l cell' m m'' :=
  ⟨h'.inCall, h'.here, fun k hk => (h'.there k hk).trans (h.there k hk), h'.frames.trans h.frames,
    h'.entries.trans h.entries, h'.actions.trans h.actions⟩

/-- A value is kept as its type says. -/
theorem Value.exists_number {v : Value} (h : v.type.isScore = true) : ∃ n, v.cell = .number n := by
  cases v with
  | int n => exact ⟨n, rfl⟩
  | bool b => exact ⟨_, rfl⟩
  | string s => cases h

theorem Value.exists_string {v : Value} (h : v.type.isScore = false) : ∃ s, v = .string s := by
  cases v with
  | int n => cases h
  | bool b => cases h
  | string s => exact ⟨s, rfl⟩

theorem Machine.exists_score {m : Machine} {l : Location} {n : Int} (h : m.at? l = some (.number n)) :
    ∃ s, l = .score s := by
  cases l with
  | score s => exact ⟨s, rfl⟩
  | text p =>
    obtain ⟨s, -, hs⟩ := Option.map_eq_some_iff.mp h
    cases hs

theorem Machine.exists_text {m : Machine} {l : Location} {s : Bytes} (h : m.at? l = some (.text s)) :
    ∃ p, l = .text p := by
  cases l with
  | text p => exact ⟨p, rfl⟩
  | score t =>
    obtain ⟨n, -, hn⟩ := Option.map_eq_some_iff.mp h
    cases hn

theorem Machine.at?_act (m : Machine) (a : Action) (l : Location) : (m.act a).at? l = m.at? l := by
  cases l with
  | score s => exact congrArg (Option.map Cell.number) (score?_congr rfl rfl s)
  | text p => cases p <;> rfl

theorem isLocal_slotPlace (b : Bool) (n : Nat) : (slotPlace b n).IsLocal := by
  cases b with
  | true => rfl
  | false => exact ⟨n, rfl⟩

/-- A place where values are handed over: arguments, results, what is printed, and strings to be joined. -/
def Location.IsPassing : Location → Prop
  | .score ⟨.machine, _⟩ => True
  | .text (.argument _) | .text .result | .text .left | .text .right => True
  | _ => False

theorem Location.IsPassing.not_local {l : Location} (h : l.IsPassing) : ¬ l.IsLocal := by
  intro hl
  cases l with
  | score s =>
    obtain ⟨holder, o⟩ := s
    obtain rfl : holder = .frame := hl
    exact h
  | text p =>
    obtain ⟨n, rfl⟩ := hl
    exact h

namespace Layout

/-- The machine agrees with what the program remembers, and a signal is pending. Global variables that
hold no value yet are as they were at the start. -/
structure Agrees (t : Layout) (w : World) (signal : Signal) (m : Machine) : Prop where
  inCall : m.InCall
  holds : ∀ y v, w.read? t.context.resolution y = some v →
    ∃ l, t.place? y = some l ∧ m.at? l = some v.cell
  untouched : ∀ y l, t.context.resolution.isGlobal y = true → t.globals.lookup y = some l →
    w.globals y = none → m.at? l = t.start.at? l
  pending : m.at? (.score Emission.pending) = some (.number signal.number)
  actions : m.actions = t.start.actions ++ w.actions

/-- A place for neither a variable nor a signal. -/
def IsScratch (t : Layout) (l : Location) : Prop :=
  (∀ y, t.place? y ≠ some l) ∧ l ≠ .score Emission.pending

section

variable {t : Layout} {w : World} {g : Signal} {m m' : Machine} {l : Location} {cell : Cell}

theorem Sound.ne_pending (ht : t.Sound) {y : Nat} (h : t.place? y = some l) :
    l ≠ .score Emission.pending := by
  rintro rfl
  rcases place?_cases h with ⟨-, h⟩ | ⟨-, n, -, h⟩
  · obtain ⟨k, name, hk⟩ := ht.isGlobal h
    cases hk
  · cases hb : (t.context.typing.typeOfSymbol y).isScore <;> rw [hb] at h <;> cases h

/-- A free slot is used for expressions only. -/
theorem Sound.isScratch_slot (ht : t.Sound) {n : Nat} (hn : t.IsFree n) (b : Bool) :
    t.IsScratch (slotPlace b n) := by
  refine ⟨fun y hy => ?_, by cases b <;> nofun⟩
  rcases place?_cases hy with ⟨-, hy⟩ | ⟨-, k, hk, hl⟩
  · obtain ⟨i, hi⟩ := ht.isGlobal hy
    exact hi.ne_slotPlace b n rfl
  · exact hn _ (mem_of_lookup_eq_some hk) (slotPlace_inj hl).symm

/-- Where values are handed over there are no variables. -/
theorem Sound.isScratch_passing (ht : t.Sound) (hl : l.IsPassing) : t.IsScratch l := by
  refine ⟨fun y hy => ?_, fun heq => by rw [heq] at hl; exact hl⟩
  rcases place?_cases hy with ⟨-, hy⟩ | ⟨-, k, -, hslot⟩
  · obtain ⟨i, hi⟩ := ht.isGlobal hy
    cases l with
    | score s =>
      obtain ⟨name, rfl⟩ := hi
      exact hl
    | text p =>
      obtain rfl : p = .global i := hi
      exact hl
  · rw [hslot] at hl
    cases hb : (t.context.typing.typeOfSymbol y).isScore <;> rw [hb] at hl <;> exact hl

/-- Nothing is forgotten when a place changes that holds no variable. -/
theorem Agrees.scratch (h : t.Agrees w g m) (hl : t.IsScratch l) (hu : Updates l cell m m') :
    t.Agrees w g m' := by
  refine ⟨hu.inCall, fun y v hv => ?_, fun y k hg hk hnone => ?_, ?_, hu.actions.trans h.actions⟩
  · obtain ⟨k, hk, hv⟩ := h.holds y v hv
    exact ⟨k, hk, (hu.there k fun heq => hl.1 y (heq ▸ hk)).trans hv⟩
  · refine (hu.there k fun heq => hl.1 y ?_).trans (h.untouched y k hg hk hnone)
    rw [place?, if_pos hg, hk, heq]
  · exact (hu.there _ fun heq => hl.2 heq.symm).trans h.pending

/-- A variable holds what is stored at its place. -/
theorem Agrees.write (ht : t.Sound) (h : t.Agrees w g m) {y : Nat} {v : Value}
    (hy : t.place? y = some l) (hu : Updates l v.cell m m') :
    t.Agrees (w.write t.context.resolution y v) g m' := by
  refine ⟨hu.inCall, fun z u hz => ?_, fun z k hg hk hnone => ?_,
    (hu.there _ (ht.ne_pending hy).symm).trans h.pending, hu.actions.trans ?_⟩
  · rw [World.read?_write] at hz
    split at hz
    · rename_i hzy
      subst hzy
      cases hz
      exact ⟨l, hy, hu.here⟩
    · rename_i hzy
      obtain ⟨k, hk, hu'⟩ := h.holds z u hz
      exact ⟨k, hk, (hu.there k fun heq => hzy (ht.place?_inj (heq ▸ hk) hy)).trans hu'⟩
  · have hplace : t.place? z = some k := by rw [place?, if_pos hg, hk]
    have hzy : z ≠ y := by
      rintro rfl
      rw [World.write, if_pos hg] at hnone
      simp [assigned] at hnone
    have hold : w.globals z = none := by
      unfold World.write at hnone
      split at hnone
      · simpa [assigned, hzy] using hnone
      · exact hnone
    exact (hu.there k fun heq => hzy (ht.place?_inj (heq ▸ hplace) hy)).trans (h.untouched z k hg hk hold)
  · rw [h.actions, World.write]
    split <;> rfl

/-- Something is shown. -/
theorem Agrees.act (h : t.Agrees w g m) (a : Action) : t.Agrees (w.act a) g (m.act a) := by
  refine ⟨⟨h.inCall.toReady.congr rfl rfl, h.inCall.inside, h.inCall.written⟩, fun y v hv => ?_,
    fun y k hg hk hnone => (at?_act m a k).trans (h.untouched y k hg hk hnone),
    (at?_act m a _).trans h.pending, ?_⟩
  · obtain ⟨k, hk, hv⟩ := h.holds y v hv
    exact ⟨k, hk, (at?_act m a k).trans hv⟩
  · change m.actions ++ [a] = t.start.actions ++ (w.actions ++ [a])
    rw [h.actions, List.append_assoc]

end

/-- Callers and the expressions that were evaluated into slots up to a bound keep what they have. -/
structure Keeps (t : Layout) (bound : Nat) (m m' : Machine) : Prop where
  frames : m'.frames.tail = m.frames.tail
  entries : m'.entries.tail = m.entries.tail
  slots : ∀ n ≤ bound, t.IsFree n → ∀ b, m'.at? (slotPlace b n) = m.at? (slotPlace b n)

namespace Keeps

variable {t : Layout} {bound : Nat} {m m' m'' : Machine} {l : Location} {cell : Cell}

theorem refl (t : Layout) (bound : Nat) (m : Machine) : t.Keeps bound m m :=
  ⟨rfl, rfl, fun _ _ _ _ => rfl⟩

theorem trans (h : t.Keeps bound m m') (h' : t.Keeps bound m' m'') : t.Keeps bound m m'' :=
  ⟨h'.frames.trans h.frames, h'.entries.trans h.entries,
    fun n hn hf b => (h'.slots n hn hf b).trans (h.slots n hn hf b)⟩

theorem mono {bound' : Nat} (h : t.Keeps bound m m') (hle : bound' ≤ bound) : t.Keeps bound' m m' :=
  ⟨h.frames, h.entries, fun n hn => h.slots n (Nat.le_trans hn hle)⟩

theorem update (hu : Updates l cell m m')
    (hl : ∀ n ≤ bound, t.IsFree n → ∀ b, slotPlace b n ≠ l) : t.Keeps bound m m' :=
  ⟨hu.frames, hu.entries, fun n hn hf b => hu.there _ (hl n hn hf b)⟩

/-- Something is shown. -/
theorem act (t : Layout) (bound : Nat) (m : Machine) (a : Action) : t.Keeps bound m (m.act a) :=
  ⟨rfl, rfl, fun _ _ _ _ => at?_act m a _⟩

/-- A later slot is changed. -/
theorem later {b : Bool} {n : Nat} (hu : Updates (slotPlace b n) cell m m') (hn : bound < n) :
    t.Keeps bound m m' :=
  .update hu fun k hk _ b' heq => by
    have := slotPlace_inj heq
    omega

/-- The place of a variable is changed. -/
theorem place (ht : t.Sound) {y : Nat} (hy : t.place? y = some l) (hu : Updates l cell m m') :
    t.Keeps bound m m' :=
  .update hu fun _ _ hf b heq => (ht.isScratch_slot hf b).1 y (heq ▸ hy)

/-- A place outside of all calls is changed. -/
theorem outside (hl : ¬ l.IsLocal) (hu : Updates l cell m m') : t.Keeps bound m m' :=
  .update hu fun n _ _ b heq => hl (heq ▸ isLocal_slotPlace b n)

end Keeps

/-- A value is handed over. -/
theorem Agrees.pass {t : Layout} {w : World} {g : Signal} {m m' : Machine} {l : Location} {cell : Cell}
    (ht : t.Sound) (h : t.Agrees w g m) (hu : Updates l cell m m') (hl : l.IsPassing) :
    t.Agrees w g m' ∧ ∀ bound, t.Keeps bound m m' :=
  ⟨h.scratch (ht.isScratch_passing hl) hu, fun _ => .outside hl.not_local hu⟩

/-- The code that was emitted between two points runs from one machine to another; slots up to a bound
are kept, and the program remembers something in the end, while a signal is pending. -/
structure Reaches (t : Layout) (bound : Nat) (s s' : Emission) (w : World) (signal : Signal)
    (m m' : Machine) : Prop where
  emits : ∃ cs, s'.commands = s.commands ++ cs ∧ Runs t.code cs m m'
  agrees : t.Agrees w signal m'
  keeps : t.Keeps bound m m'

/-- The value of an operand is kept in a free slot that was given out between two points, or it is the
value of a variable. -/
inductive Carries (t : Layout) (w : World) (m : Machine) (low high : Nat) : Operand → Value → Prop
  | own {b : Bool} {n : Nat} {v : Value} : low < n → n ≤ high → t.IsFree n →
    m.at? (slotPlace b n) = some v.cell → Carries t w m low high ⟨some (slotPlace b n), true⟩ v
  | shared {y : Nat} {l : Location} {v : Value} : t.place? y = some l →
    w.read? t.context.resolution y = some v → Carries t w m low high ⟨some l, false⟩ v

section

variable {t : Layout} {w w' : World} {g g' : Signal} {s s' s'' : Emission} {m m' m'' : Machine}
  {bound : Nat}

theorem Reaches.trans (h : t.Reaches bound s s' w g m m') (h' : t.Reaches bound s' s'' w' g' m' m'') :
    t.Reaches bound s s'' w' g' m m'' := by
  obtain ⟨cs, hcs, hruns⟩ := h.emits
  obtain ⟨ds, hds, hruns'⟩ := h'.emits
  refine ⟨⟨cs ++ ds, ?_, hruns.append hruns'⟩, h'.agrees, h.keeps.trans h'.keeps⟩
  rw [hds, hcs, List.append_assoc]

theorem Reaches.mono {bound' : Nat} (h : t.Reaches bound s s' w g m m') (hle : bound' ≤ bound) :
    t.Reaches bound' s s' w g m m' :=
  ⟨h.emits, h.agrees, h.keeps.mono hle⟩

/-- Nothing is emitted. -/
theorem Agrees.reaches (h : t.Agrees w g m) (hc : s'.commands = s.commands) :
    t.Reaches bound s s' w g m m :=
  ⟨⟨[], by rw [hc, List.append_nil], .nil m⟩, h, .refl t _ m⟩

namespace Carries

variable {low high : Nat} {x : Operand} {v : Value}

theorem exists_at? (h : t.Carries w m low high x v) (ha : t.Agrees w g m) :
    ∃ l, x.location = some l ∧ m.at? l = some v.cell := by
  cases h with
  | own _ _ _ hv => exact ⟨_, rfl, hv⟩
  | shared hy hv =>
    obtain ⟨l, hl, hat⟩ := ha.holds _ _ hv
    rw [hy] at hl
    cases hl
    exact ⟨_, rfl, hat⟩

theorem exists_score (h : t.Carries w m low high x v) (ha : t.Agrees w g m)
    (hv : v.type.isScore = true) :
    ∃ score, x.location = some (.score score) ∧ m.at? (.score score) = some v.cell := by
  obtain ⟨l, hl, hat⟩ := h.exists_at? ha
  obtain ⟨n, hn⟩ := Value.exists_number hv
  obtain ⟨score, rfl⟩ := Machine.exists_score (hn ▸ hat)
  exact ⟨score, hl, hat⟩

theorem exists_text {text : Bytes} (h : t.Carries w m low high x (.string text))
    (ha : t.Agrees w g m) :
    ∃ p, x.location = some (.text p) ∧ m.at? (.text p) = some (.text text) := by
  obtain ⟨l, hl, hat⟩ := h.exists_at? ha
  obtain ⟨p, rfl⟩ := Machine.exists_text hat
  exact ⟨p, hl, hat⟩

/-- A value is still there after more code, if it has a slot of its own or no variable was changed. -/
theorem later {high' : Nat} (h : t.Carries w m low high x v) (hk : t.Keeps high m m')
    (hw : x.isOwn = true ∨ w' = w) (hle : high ≤ high') : t.Carries w' m' low high' x v := by
  cases h with
  | own hlow hhigh hf hv => exact .own hlow (Nat.le_trans hhigh hle) hf ((hk.slots _ hhigh hf _).trans hv)
  | shared hy hv =>
    rcases hw with hw | rfl
    · cases hw
    · exact .shared hy hv

theorem mono {low' : Nat} (h : t.Carries w m low high x v) (hle : low' ≤ low) :
    t.Carries w m low' high x v := by
  cases h with
  | own hlow hhigh hf hv => exact .own (Nat.lt_of_le_of_lt hle hlow) hhigh hf hv
  | shared hy hv => exact .shared hy hv

end Carries

end

/-- The code of an expression runs from one machine to another, where the operand has its value, if
there is one. -/
structure Computes (t : Layout) (s : Emission) (out : Emission × Operand) (w : World) (v : Option Value)
    (m m' : Machine) : Prop where
  reaches : t.Reaches s.lastSlot s out.1 w .none m m'
  carries : ∀ u, v = some u → t.Carries w m' s.lastSlot out.1.lastSlot out.2 u

section

variable {t : Layout} {w : World} {g : Signal} {s s' : Emission} {m m' : Machine} {bound : Nat}

/-- Commands that change one place which holds no variable. -/
theorem Agrees.reaches_scratch (h : t.Agrees w g m) {cs : List Command} {l : Location} {cell : Cell}
    (hc : s'.commands = s.commands ++ cs) (hr : Runs t.code cs m m') (hu : Updates l cell m m')
    (hl : t.IsScratch l) (hk : t.Keeps bound m m') : t.Reaches bound s s' w g m m' :=
  ⟨⟨cs, hc, hr⟩, h.scratch hl hu, hk⟩

/-- A value is computed into the next slot. -/
theorem Agrees.computes (ht : t.Sound) (h : t.Agrees w .none m) (hs : s.Tidy) (hlinks : t.Links s')
    (hslots : s'.slots = s.slots) (hlast : s'.lastSlot = s.lastSlot + 1) {cs : List Command}
    (hc : s'.commands = s.commands ++ cs) {b : Bool} {v : Value}
    (hrun : ∃ m', Runs t.code cs m m' ∧ Updates (slotPlace b (s.lastSlot + 1)) v.cell m m') :
    ∃ m', t.Computes s (s', ⟨some (slotPlace b (s.lastSlot + 1)), true⟩) w (some v) m m' := by
  obtain ⟨m', hruns, hu⟩ := hrun
  have hfree : t.IsFree (s.lastSlot + 1) :=
    hlinks.isFree hs hslots (Nat.lt_succ_self _) (Nat.le_of_eq hlast.symm)
  refine ⟨m', h.reaches_scratch hc hruns hu (ht.isScratch_slot hfree b) (.later hu (Nat.lt_succ_self _)),
    fun u hv => ?_⟩
  cases hv
  exact .own (Nat.lt_succ_self _) (Nat.le_of_eq hlast.symm) hfree hu.here

end

end Layout

end Craftlang
