import Craftlang.Code.Program
import Craftlang.Proofs.Meaning.Evaluation

/-!
# Runs of the machine

Commands run from one machine to another if some bound is enough. What a machine holds is seen place by
place: a command inside a call changes one place at most, it leaves the frames and the strings of the
callers alone, and entering a call and leaving it undo each other.
-/

/-!
## The machine that runs commands

Scores and strings as a program sees them. Every call has a frame with scores of its own and an entry of
strings; the running frame is the one whose number is that of the innermost. A score or a string that
was never set is missing: a missing score counts as zero in arithmetic and fails every test, and a
missing string is not copied. Frames are numbered without a bound.
-/

namespace Craftlang

structure Frame where
  scores : Objective → Option Int := fun _ => none

def Frame.set (f : Frame) (objective : Objective) (v : Int) : Frame :=
  ⟨fun o => if o = objective then some v else f.scores o⟩

/-- The frames and the entries of strings, innermost first; all other scores and strings; and what was
shown so far. -/
structure Machine where
  frames : List Frame := []
  scores : Score → Option Int := fun _ => none
  entries : List (Nat → Option Bytes) := []
  texts : TextPlace → Option Bytes := fun _ => none
  actions : List Action := []

/-- What is done to a score with another. -/
def ScoreOp.apply : ScoreOp → Int → Int → Int
  | copy, _, b => b
  | add, a, b => Word.add a b
  | sub, a, b => Word.sub a b
  | mul, a, b => Word.mul a b
  | div, a, b => Word.div a b
  | mod, a, b => Word.mod a b

def Comparison.holds : Comparison → Int → Int → Bool
  | eq, a, b => a == b
  | notEq, a, b => a != b
  | less, a, b => a < b
  | lessEq, a, b => a ≤ b
  | greater, a, b => b < a
  | greaterEq, a, b => b ≤ a

namespace Machine

/-- The number of the innermost frame. -/
def innermost : Score := ⟨.machine, .innermost⟩

def act (m : Machine) (a : Action) : Machine := { m with actions := m.actions ++ [a] }

/-- Is a frame the one of the running call? -/
def isRunning (m : Machine) (f : Frame) : Bool :=
  match f.scores .frameNumber, m.scores innermost with
  | some a, some b => a == b
  | _, _ => false

/-- The frame of the running call. -/
def running? (m : Machine) : Option Frame := m.frames.find? m.isRunning

/-- A score as the running frame sees it. -/
def score? (m : Machine) (s : Score) : Option Int :=
  match s.holder with
  | .frame => m.running?.bind fun f => f.scores s.objective
  | _ => m.scores s

/-- Sets a score of the running frame or any other. -/
def setScore (m : Machine) (s : Score) (v : Int) : Machine :=
  match s.holder with
  | .frame =>
    { m with frames := m.frames.modify (m.frames.findIdx m.isRunning) (·.set s.objective v) }
  | _ => { m with scores := fun t => if t = s then some v else m.scores t }

/-- A string; those of the running call are in the innermost entry. -/
def text? (m : Machine) : TextPlace → Option Bytes
  | .slot n => m.entries.head?.bind fun e => e n
  | place => m.texts place

def setText (m : Machine) (place : TextPlace) (s : Bytes) : Machine :=
  match place with
  | .slot n =>
    { m with entries := m.entries.modify 0 fun e i => if i = n then some s else e i }
  | _ => { m with texts := fun q => if q = place then some s else m.texts q }

/-- Copies a string unless it is missing. -/
def copyText (m : Machine) (target source : TextPlace) : Machine :=
  match m.text? source with
  | some s => m.setText target s
  | none => m

/-- Does a test hold for the running frame? Two scores differ also when one of them is missing. -/
def holds (m : Machine) : Test → Bool
  | .is s n => m.score? s == some (n : Int)
  | .positive s => (m.score? s).any (0 < ·)
  | .compare op l r =>
    match m.score? l, m.score? r with
    | some a, some b => op.holds a b
    | _, _ => op == .notEq

/-- Gives every frame without a positive number the next one. -/
def numbered (last : Int) : List Frame → List Frame × Int
  | [] => ([], last)
  | f :: fs =>
    if (f.scores .frameNumber).any (0 < ·) then
      let (rest, last) := numbered last fs
      (f :: rest, last)
    else
      let (rest, last') := numbered (last + 1) fs
      (f.set .frameNumber (last + 1) :: rest, last')

/-- Shifts the number of the innermost frame. -/
def setInnermost (m : Machine) (n : Int) : Machine := m.setScore innermost n

/-- Does something as the running frame, if there is one. -/
def inFrame (m : Machine) (change : Machine → Machine) : Machine :=
  if m.running?.isSome then change m else m

/-- The function that a command calls. -/
def called? (m : Machine) : Command → Option FunctionName
  | .call f => some f
  | .callIf test f => if m.running?.isSome && m.holds test then some f else none
  | .joinTexts => some .joiner
  | _ => none

/-- What a command does that calls no function. A string is stored as it reads back from its written
form. -/
def perform (m : Machine) : Command → Machine
  | .raw text => m.act (.command text)
  | .summonFrame => { m with frames := {} :: m.frames }
  | .numberFrame =>
    let (frames, last) := numbered ((m.scores innermost).getD 0) m.frames
    { m with frames }.setInnermost last
  | .removeFrame => { m with frames := m.frames.eraseP m.isRunning }
  | .leaveFrame => m.setInnermost ((m.scores innermost).getD 0 - 1)
  | .pushTexts => { m with entries := (fun _ => none) :: m.entries }
  | .popTexts => { m with entries := m.entries.tail }
  | .set target value => m.inFrame (·.setScore target (Word.wrap value))
  | .setIf test target value =>
    m.inFrame fun m => if m.holds test then m.setScore target (Word.wrap value) else m
  | .operate target op source =>
    m.inFrame fun m =>
      m.setScore target (op.apply ((m.score? target).getD 0) ((m.score? source).getD 0))
  | .storeTest target test => m.inFrame (·.setScore target (if m.holds test then 1 else 0))
  | .setText target value => m.setText target (Literal.string (Snbt.quote value))
  | .copyText target source => m.copyText target source
  | .joinedText =>
    match m.text? .left, m.text? .right with
    | some a, some b => m.setText .result (a ++ b)
    | _, _ => m
  | .tellText source => m.act (.shown (.string ((m.text? source).getD [])))
  | .tellBool b =>
    if m.holds (.is ⟨.machine, .printed⟩ (if b then 1 else 0)) then m.act (.shown (.bool b)) else m
  | .tellNumber =>
    match m.score? ⟨.machine, .printed⟩ with
    | some n => m.act (.shown (.int n))
    | none => m
  | .removeAllFrames => { m with frames := [] }
  | .noFrame => m.setInnermost 0
  | .noTexts => { m with entries := [] }
  | .call _ | .callIf .. | .joinTexts | .unlimitedChain | .addObjective _ => m

/-- Runs commands; `code` tells the commands of a function. `fuel` bounds the number of commands on any
path, so a run that ends is one that ends for some bound. -/
def run (code : FunctionName → Option (List Command)) :
    Nat → List Command → Machine → Option Machine
  | _, [], m => some m
  | 0, _ :: _, _ => none
  | fuel + 1, c :: cs, m =>
    match m.called? c with
    | none => run code fuel cs (m.perform c)
    | some f => do
      let body ← code f
      let m ← run code fuel body m
      run code fuel cs m

attribute [grind =] perform run

end Machine

/-- The commands of the functions of a unit by name. -/
def Emission.code (s : Emission) (f : FunctionName) : Option (List Command) :=
  s.finished.lookup f

/-! ## Runs -/

namespace Machine

section

variable {code : FunctionName → Option (List Command)} {cs ds : List Command} {m m' m'' : Machine}

/-- A run that ends stays the same with more fuel. -/
theorem run_mono {n k : Nat} (h : run code n cs m = some m') (hn : n ≤ k) :
    run code k cs m = some m' := by
  induction n generalizing k cs m m' with
  | zero =>
    cases cs with
    | nil =>
      rw [run] at h ⊢
      exact h
    | cons c cs => cases h
  | succ n ih =>
    cases cs with
    | nil =>
      rw [run] at h ⊢
      exact h
    | cons c cs =>
      cases k with
      | zero => cases hn
      | succ k =>
        have hle : n ≤ k := Nat.le_of_succ_le_succ hn
        rw [run] at h ⊢
        split at h
        · exact ih h hle
        · rename_i f hf
          obtain ⟨body, hbody, h⟩ := Option.bind_eq_some_iff.mp h
          obtain ⟨m₁, hrun, h⟩ := Option.bind_eq_some_iff.mp h
          rw [hbody]
          change (run code k body m).bind _ = _
          rw [ih hrun hle]
          exact ih h hle

/-- Commands run from one machine to another. -/
def Runs (code : FunctionName → Option (List Command)) (cs : List Command) (m m' : Machine) : Prop :=
  ∃ fuel, run code fuel cs m = some m'

theorem Runs.nil (m : Machine) : Runs code [] m m := ⟨0, rfl⟩

theorem Runs.append (h : Runs code cs m m') (h' : Runs code ds m' m'') :
    Runs code (cs ++ ds) m m'' := by
  obtain ⟨n, h⟩ := h
  induction n generalizing cs m with
  | zero =>
    cases cs with
    | nil =>
      cases h
      exact h'
    | cons c cs => cases h
  | succ n ih =>
    cases cs with
    | nil =>
      cases h
      exact h'
    | cons c cs =>
      rw [run] at h
      split at h
      · rename_i hc
        obtain ⟨k, hk⟩ := ih h
        refine ⟨k + 1, ?_⟩
        rw [List.cons_append, run, hc]
        exact hk
      · rename_i f hf
        obtain ⟨body, hbody, h⟩ := Option.bind_eq_some_iff.mp h
        obtain ⟨m₁, hrun, h⟩ := Option.bind_eq_some_iff.mp h
        obtain ⟨k, hk⟩ := ih h
        refine ⟨max n k + 1, ?_⟩
        rw [List.cons_append, run, hf]
        dsimp only
        rw [hbody]
        change (run code (max n k) body m).bind _ = _
        rw [run_mono hrun (Nat.le_max_left n k)]
        exact run_mono hk (Nat.le_max_right n k)

/-- A command that calls nothing. -/
theorem Runs.perform {c : Command} (hc : m.called? c = none) : Runs code [c] m (m.perform c) := by
  refine ⟨1, ?_⟩
  rw [run, hc]
  rfl

/-- A command that calls a function. -/
theorem Runs.call {c : Command} {f : FunctionName} {body : List Command} (hc : m.called? c = some f)
    (hf : code f = some body) (h : Runs code body m m') : Runs code [c] m m' := by
  obtain ⟨n, h⟩ := h
  refine ⟨n + 1, ?_⟩
  rw [run, hc]
  dsimp only
  rw [hf]
  change (run code n body m).bind _ = _
  rw [h]
  cases n <;> rfl

end

/-- Frames are numbered from the outermost on. -/
def Numbered : List Frame → Prop
  | [] => True
  | f :: fs => f.scores .frameNumber = some ((fs.length : Int) + 1) ∧ Numbered fs

/-- The frames are in order, and the innermost one is known. -/
structure Ready (m : Machine) : Prop where
  order : Numbered m.frames
  last : m.scores innermost = some (m.frames.length : Int)

/-- A call is running: it has a frame and an entry of strings. -/
structure InCall (m : Machine) : Prop extends Ready m where
  inside : m.frames ≠ []
  written : m.entries ≠ []

theorem Ready.congr {m m' : Machine} (h : m.Ready) (hf : m'.frames = m.frames)
    (hs : m'.scores = m.scores) : m'.Ready :=
  ⟨hf ▸ h.order, by rw [hs, hf, h.last]⟩

/-- What a place holds. -/
inductive Cell where
  | number (n : Int)
  | text (s : Bytes)
deriving DecidableEq, Repr

/-- What is kept at a place. -/
def at? (m : Machine) : Location → Option Cell
  | .score s => (m.score? s).map .number
  | .text p => (m.text? p).map .text

theorem Ready.isRunning {m : Machine} (h : m.Ready) {f : Frame} {fs : List Frame}
    (hf : m.frames = f :: fs) : m.isRunning f = true := by
  have hnumber := h.order
  have hlast := h.last
  rw [hf] at hnumber hlast
  unfold Machine.isRunning
  rw [hnumber.1, hlast]
  simp

theorem Ready.running? {m : Machine} (h : m.Ready) : m.running? = m.frames.head? := by
  unfold Machine.running?
  cases hf : m.frames with
  | nil => rfl
  | cons f fs => rw [List.find?_cons, h.isRunning hf, List.head?_cons]

theorem InCall.isSome_running? {m : Machine} (h : m.InCall) : m.running?.isSome = true := by
  rw [h.running?]
  cases hf : m.frames with
  | nil => exact absurd hf h.inside
  | cons f fs => rfl

theorem InCall.inFrame {m : Machine} (h : m.InCall) (change : Machine → Machine) :
    m.inFrame change = change m := if_pos h.isSome_running?

theorem InCall.exists_frame {m : Machine} (h : m.InCall) : ∃ f fs, m.frames = f :: fs :=
  List.exists_cons_of_ne_nil h.inside

theorem InCall.exists_entry {m : Machine} (h : m.InCall) : ∃ e es, m.entries = e :: es :=
  List.exists_cons_of_ne_nil h.written

/-- What is changed at one place only: nothing else changes, in particular not what belongs to the
callers. -/
structure Updates (l : Location) (cell : Cell) (m m' : Machine) : Prop where
  inCall : m'.InCall
  here : m'.at? l = some cell
  there : ∀ k, k ≠ l → m'.at? k = m.at? k
  frames : m'.frames.tail = m.frames.tail
  entries : m'.entries.tail = m.entries.tail
  actions : m'.actions = m.actions

/-- A score that says nothing about frames. -/
def IsData (s : Score) : Prop := s.objective ≠ .innermost ∧ s.objective ≠ .frameNumber

theorem scores_set (f : Frame) (o : Objective) (v : Int) (o' : Objective) :
    (f.set o v).scores o' = if o' = o then some v else f.scores o' := rfl

theorem score?_of_ne_frame (m : Machine) {s : Score} (hs : s.holder ≠ .frame) :
    m.score? s = m.scores s := by
  unfold score?
  split
  · rename_i hframe
    exact absurd hframe hs
  · rfl

theorem Ready.score?_frame {m : Machine} (h : m.Ready) (o : Objective) :
    m.score? ⟨.frame, o⟩ = m.frames.head?.bind fun f => f.scores o := by
  rw [score?, h.running?]

theorem setScore_of_ne_frame (m : Machine) {s : Score} (hs : s.holder ≠ .frame) (v : Int) :
    m.setScore s v = { m with scores := fun t => if t = s then some v else m.scores t } := by
  unfold Machine.setScore
  split
  · rename_i hframe
    exact absurd hframe hs
  · rfl

theorem Ready.setScore_frame {m : Machine} (h : m.Ready) {f : Frame} {fs : List Frame}
    (hf : m.frames = f :: fs) (o : Objective) (v : Int) :
    m.setScore ⟨.frame, o⟩ v = { m with frames := f.set o v :: fs } := by
  unfold Machine.setScore
  dsimp only
  rw [hf, List.findIdx_cons, h.isRunning hf]
  rfl

/-- A score of the running frame is changed. -/
theorem InCall.setScore_frame {m : Machine} (h : m.InCall) {o : Objective} (ho : o ≠ .frameNumber)
    (v : Int) : Updates (.score ⟨.frame, o⟩) (.number v) m (m.setScore ⟨.frame, o⟩ v) := by
  obtain ⟨f, fs, hf⟩ := h.exists_frame
  have hready : Ready { m with frames := f.set o v :: fs } := by
    have hnumber := h.order
    have hlast := h.last
    rw [hf] at hnumber hlast
    exact ⟨⟨(if_neg ho.symm).trans hnumber.1, hnumber.2⟩, hlast⟩
  rw [h.toReady.setScore_frame hf]
  refine ⟨⟨hready, List.cons_ne_nil _ _, h.written⟩, ?_, fun k hk => ?_, by rw [hf]; rfl, rfl, rfl⟩
  · rw [at?, hready.score?_frame]
    simp [scores_set]
  · cases k with
    | text p => rfl
    | score t =>
      by_cases ht : t.holder = .frame
      · obtain ⟨holder, o'⟩ := t
        obtain rfl : holder = .frame := ht
        have hne : o' ≠ o := fun heq => hk (by rw [heq])
        rw [at?, at?, hready.score?_frame, h.score?_frame, hf]
        simp [scores_set, hne]
      · rw [at?, at?, score?_of_ne_frame _ ht, score?_of_ne_frame _ ht]

/-- A score that belongs to no frame is changed. -/
theorem InCall.setScore_other {m : Machine} (h : m.InCall) {s : Score} (hs : s.holder ≠ .frame)
    (hi : s ≠ innermost) (v : Int) : Updates (.score s) (.number v) m (m.setScore s v) := by
  rw [setScore_of_ne_frame m hs]
  have hready : Ready { m with scores := fun t => if t = s then some v else m.scores t } :=
    ⟨h.order, (if_neg hi.symm).trans h.last⟩
  refine ⟨⟨hready, h.inside, h.written⟩, ?_, fun k hk => ?_, rfl, rfl, rfl⟩
  · rw [at?, score?_of_ne_frame _ hs]
    simp
  · cases k with
    | text p => rfl
    | score t =>
      by_cases ht : t.holder = .frame
      · obtain ⟨holder, o⟩ := t
        obtain rfl : holder = .frame := ht
        rw [at?, at?, hready.score?_frame, h.score?_frame]
      · have hne : t ≠ s := fun heq => hk (by rw [heq])
        rw [at?, at?, score?_of_ne_frame _ ht, score?_of_ne_frame _ ht]
        simp [hne]

theorem InCall.setScore {m : Machine} (h : m.InCall) {s : Score} (hs : IsData s) (v : Int) :
    Updates (.score s) (.number v) m (m.setScore s v) := by
  by_cases hframe : s.holder = .frame
  · obtain ⟨holder, o⟩ := s
    obtain rfl : holder = .frame := hframe
    exact h.setScore_frame hs.2 v
  · exact h.setScore_other hframe (fun heq => hs.1 (by rw [heq]; rfl)) v

/-- Scores are seen through the frames and the other scores only. -/
theorem score?_congr {m m' : Machine} (hf : m'.frames = m.frames) (hs : m'.scores = m.scores)
    (s : Score) : m'.score? s = m.score? s := by
  unfold score? Machine.running? isRunning
  rw [hf, hs]

theorem text?_of_ne_slot (m : Machine) {p : TextPlace} (hp : ∀ n, p ≠ .slot n) :
    m.text? p = m.texts p := by
  cases p with
  | slot n => exact absurd rfl (hp n)
  | _ => rfl

theorem setText_of_ne_slot (m : Machine) {p : TextPlace} (hp : ∀ n, p ≠ .slot n) (t : Bytes) :
    m.setText p t = { m with texts := fun q => if q = p then some t else m.texts q } := by
  cases p with
  | slot n => exact absurd rfl (hp n)
  | _ => rfl

/-- A string of the running call is changed. -/
theorem InCall.setText_slot {m : Machine} (h : m.InCall) (n : Nat) (t : Bytes) :
    Updates (.text (.slot n)) (.text t) m (m.setText (.slot n) t) := by
  obtain ⟨e, es, he⟩ := h.exists_entry
  have hset : m.setText (.slot n) t = { m with entries := (fun i => if i = n then some t else e i) :: es } := by
    rw [Machine.setText, he]
    rfl
  rw [hset]
  refine ⟨⟨h.toReady.congr rfl rfl, h.inside, List.cons_ne_nil _ _⟩, ?_, fun k hk => ?_, rfl, by rw [he]; rfl, rfl⟩
  · simp [at?, text?]
  · cases k with
    | score s => exact congrArg (Option.map Cell.number) (score?_congr rfl rfl s)
    | text q =>
      cases q with
      | slot i =>
        have hne : i ≠ n := fun heq => hk (by rw [heq])
        simp [at?, text?, he, hne]
      | _ => rfl

/-- A string that belongs to no call is changed. -/
theorem InCall.setText_other {m : Machine} (h : m.InCall) {p : TextPlace} (hp : ∀ n, p ≠ .slot n)
    (t : Bytes) : Updates (.text p) (.text t) m (m.setText p t) := by
  rw [setText_of_ne_slot m hp]
  refine ⟨⟨h.toReady.congr rfl rfl, h.inside, h.written⟩, ?_, fun k hk => ?_, rfl, rfl, rfl⟩
  · rw [at?, text?_of_ne_slot _ hp]
    simp
  · cases k with
    | score s => exact congrArg (Option.map Cell.number) (score?_congr rfl rfl s)
    | text q =>
      have hne : q ≠ p := fun heq => hk (by rw [heq])
      cases q with
      | slot i => rfl
      | _ => simp [at?, text?, hne]

theorem InCall.setText {m : Machine} (h : m.InCall) (p : TextPlace) (t : Bytes) :
    Updates (.text p) (.text t) m (m.setText p t) := by
  cases p with
  | slot n => exact h.setText_slot n t
  | _ => exact h.setText_other (fun _ hslot => by cases hslot) t

end Machine

namespace Literal

theorem unescape_cons {b : UInt8} (hb : b ≠ byte '\\') (s : Bytes) :
    unescape (b :: s) = b :: unescape s := by
  cases s with
  | nil => rfl
  | cons c s => rw [unescape, if_neg hb]

theorem unescape_escape (b : UInt8) (s : Bytes) :
    unescape (Snbt.escape b ++ s) = (if b = byte '\r' then [] else [b]) ++ unescape s := by
  unfold Snbt.escape
  split
  · rename_i hb
    rcases Bool.or_eq_true_iff.mp hb with hb | hb
    · obtain rfl := of_decide_eq_true hb
      rfl
    · obtain rfl := of_decide_eq_true hb
      rfl
  · rename_i hb
    have hslash : b ≠ byte '\\' := fun heq => hb (by simp [heq])
    split
    · rename_i hline
      subst hline
      rfl
    · split
      · rename_i htab
        subst htab
        rfl
      · split
        · rfl
        · exact unescape_cons hslash s

theorem inside_quote (s : Bytes) : inside (Snbt.quote s) = s.flatMap Snbt.escape := by
  rw [Snbt.quote, List.append_assoc, List.singleton_append, inside]
  simp

/-- A string that is written as stored data reads back without its carriage returns. -/
theorem string_quote (s : Bytes) : string (Snbt.quote s) = s.withoutReturns := by
  rw [string, inside_quote]
  induction s with
  | nil => rfl
  | cons b s ih =>
    rw [List.flatMap_cons, unescape_escape, ih]
    by_cases hb : b = byte '\r' <;> simp [Bytes.withoutReturns, hb]

end Literal

namespace Machine

section

variable {code : FunctionName → Option (List Command)} {m : Machine}

theorem at?_score {s : Score} {n : Int} : m.at? (.score s) = some (.number n) ↔ m.score? s = some n := by
  cases h : m.score? s <;> simp [at?, h]

theorem at?_text {p : TextPlace} {s : Bytes} : m.at? (.text p) = some (.text s) ↔ m.text? p = some s := by
  cases h : m.text? p <;> simp [at?, h]

section

variable (code)

theorem InCall.runs_set (h : m.InCall) {t : Score} (ht : IsData t) (v : Int) :
    ∃ m', Runs code [.set t v] m m' ∧ Updates (.score t) (.number (Word.wrap v)) m m' := by
  refine ⟨_, .perform rfl, ?_⟩
  rw [Machine.perform, h.inFrame]
  exact h.setScore ht _

/-- An operation on two scores; a missing target counts as zero. -/
theorem InCall.runs_operate (h : m.InCall) {t s : Score} (ht : IsData t) (op : ScoreOp) {b : Int}
    (hs : m.at? (.score s) = some (.number b)) :
    ∃ m', Runs code [.operate t op s] m m' ∧
      Updates (.score t) (.number (op.apply ((m.score? t).getD 0) b)) m m' := by
  refine ⟨_, .perform rfl, ?_⟩
  rw [Machine.perform, h.inFrame, at?_score.mp hs]
  exact h.setScore ht _

theorem InCall.runs_storeTest (h : m.InCall) {t : Score} (ht : IsData t) (test : Test) :
    ∃ m', Runs code [.storeTest t test] m m' ∧
      Updates (.score t) (.number (if m.holds test then 1 else 0)) m m' := by
  refine ⟨_, .perform rfl, ?_⟩
  rw [Machine.perform, h.inFrame]
  exact h.setScore ht _

theorem InCall.runs_setText (h : m.InCall) (p : TextPlace) (value : Bytes) :
    ∃ m', Runs code [.setText p value] m m' ∧ Updates (.text p) (.text value.withoutReturns) m m' := by
  refine ⟨_, .perform rfl, ?_⟩
  rw [Machine.perform, Literal.string_quote]
  exact h.setText p _

theorem InCall.runs_copyText (h : m.InCall) {p q : TextPlace} {s : Bytes}
    (hq : m.at? (.text q) = some (.text s)) :
    ∃ m', Runs code [.copyText p q] m m' ∧ Updates (.text p) (.text s) m m' := by
  refine ⟨_, .perform rfl, ?_⟩
  rw [Machine.perform, Machine.copyText, at?_text.mp hq]
  exact h.setText p s

theorem InCall.runs_setIf (h : m.InCall) {test : Test} (hholds : m.holds test = true) {t : Score}
    (ht : IsData t) (v : Int) :
    ∃ m', Runs code [.setIf test t v] m m' ∧ Updates (.score t) (.number (Word.wrap v)) m m' := by
  refine ⟨_, .perform rfl, ?_⟩
  rw [Machine.perform, h.inFrame, if_pos hholds]
  exact h.setScore ht _

end

/-- Two strings are joined. -/
theorem InCall.runs_joinTexts (h : m.InCall) (hj : code .joiner = some [.joinedText]) {a b : Bytes}
    (ha : m.at? (.text .left) = some (.text a)) (hb : m.at? (.text .right) = some (.text b)) :
    ∃ m', Runs code [.joinTexts] m m' ∧ Updates (.text .result) (.text (a ++ b)) m m' := by
  refine ⟨_, .call rfl hj (.perform rfl), ?_⟩
  rw [Machine.perform, at?_text.mp ha, at?_text.mp hb]
  exact h.setText .result (a ++ b)

/-- Nothing is called if the test does not hold. -/
theorem runs_callIf_of_not {test : Test} (ht : m.holds test = false) (f : FunctionName) :
    Runs code [.callIf test f] m m := by
  refine .perform (m := m) ?_
  rw [called?, ht, Bool.and_false]
  rfl

theorem InCall.runs_setIf_of_not (h : m.InCall) {test : Test} (hholds : m.holds test = false)
    (t : Score) (v : Int) : Runs code [.setIf test t v] m m := by
  have hrun : Runs code [.setIf test t v] m (m.perform (.setIf test t v)) := .perform rfl
  rw [Machine.perform, h.inFrame, hholds] at hrun
  exact hrun

end

/-- The machine at the start of a call: there is a new frame with no signal pending, and no strings. -/
def entered (m : Machine) : Machine :=
  { m with
    frames := ((({} : Frame).set .frameNumber (m.frames.length + 1)).set .pending 0) :: m.frames
    scores := fun s => if s = innermost then some ((m.frames.length : Int) + 1) else m.scores s
    entries := (fun _ => none) :: m.entries }

/-- The machine at the end of a call: its frame and its strings are gone. -/
def left (m : Machine) : Machine :=
  { m with
    frames := m.frames.tail
    scores := fun s => if s = innermost then some ((m.frames.length : Int) - 1) else m.scores s
    entries := m.entries.tail }

theorem numbered_of_numbered {fs : List Frame} (h : Numbered fs) (last : Int) :
    numbered last fs = (fs, last) := by
  induction fs generalizing last with
  | nil => rfl
  | cons f fs ih =>
    have hpositive : (f.scores .frameNumber).any (fun n => decide (0 < n)) = true := by
      rw [h.1, Option.any_some, decide_eq_true_iff]
      omega
    rw [numbered, if_pos hpositive, ih h.2]

section

variable {code : FunctionName → Option (List Command)} {m : Machine}

theorem Ready.runs_enter (h : m.Ready) :
    Runs code [.summonFrame, .numberFrame, .set Emission.pending Signal.none.number, .pushTexts] m
      m.entered := by
  let f : Frame := ({} : Frame).set .frameNumber (m.frames.length + 1)
  let m₁ : Machine := { m with frames := {} :: m.frames }
  let m₂ : Machine := { m with
    frames := f :: m.frames
    scores := fun s => if s = innermost then some ((m.frames.length : Int) + 1) else m.scores s }
  have hnumber : m₁.perform .numberFrame = m₂ := by
    have hnumbered : numbered ((m₁.scores innermost).getD 0) m₁.frames
        = (f :: m.frames, (m.frames.length : Int) + 1) := by
      change numbered ((m.scores innermost).getD 0) ({} :: m.frames) = _
      rw [h.last, Option.getD_some, numbered, if_neg (by decide), numbered_of_numbered h.order]
    rw [Machine.perform, hnumbered]
    rfl
  have hready : m₂.Ready := ⟨⟨rfl, h.order⟩, rfl⟩
  have hset : m₂.perform (.set Emission.pending Signal.none.number)
      = { m₂ with frames := f.set .pending 0 :: m.frames } := by
    rw [Machine.perform, Machine.inFrame, hready.running?]
    exact hready.setScore_frame rfl .pending 0
  have hruns : Runs code ([Command.summonFrame] ++ ([Command.numberFrame] ++
      ([Command.set Emission.pending Signal.none.number] ++ [Command.pushTexts]))) m _ :=
    (Runs.perform rfl).append ((Runs.perform rfl).append ((Runs.perform rfl).append (.perform rfl)))
  change Runs code _ m ((((m₁.perform .numberFrame).perform _).perform .pushTexts)) at hruns
  rw [hnumber, hset] at hruns
  exact hruns

theorem Ready.inCall_entered (h : m.Ready) : m.entered.InCall :=
  ⟨⟨⟨rfl, h.order⟩, rfl⟩, List.cons_ne_nil _ _, List.cons_ne_nil _ _⟩

theorem InCall.runs_leave (h : m.InCall) :
    Runs code [.removeFrame, .leaveFrame, .popTexts] m m.left := by
  obtain ⟨f, fs, hf⟩ := h.exists_frame
  have hremove : m.perform .removeFrame = { m with frames := m.frames.tail } := by
    rw [Machine.perform, hf, List.eraseP_cons_of_pos (h.isRunning hf)]
    rfl
  have hleave : ({ m with frames := m.frames.tail } : Machine).perform .leaveFrame
      = { m.left with entries := m.entries } := by
    rw [Machine.perform]
    dsimp only
    rw [h.last]
    rfl
  have hruns : Runs code ([Command.removeFrame] ++ ([Command.leaveFrame] ++ [Command.popTexts])) m _ :=
    (Runs.perform rfl).append ((Runs.perform rfl).append (.perform rfl))
  rw [hremove, hleave] at hruns
  exact hruns

theorem InCall.ready_left (h : m.InCall) : m.left.Ready := by
  obtain ⟨f, fs, hf⟩ := h.exists_frame
  have hnumbered := h.order
  rw [hf] at hnumbered
  refine ⟨?_, ?_⟩
  · change Numbered m.frames.tail
    rw [hf]
    exact hnumbered.2
  · change some ((m.frames.length : Int) - 1) = some (m.frames.tail.length : Int)
    rw [hf, List.length_cons, List.tail_cons, Option.some.injEq]
    omega

end

end Machine

/-- A place that belongs to the running call. -/
def Location.IsLocal : Location → Prop
  | .score s => s.holder = .frame
  | .text p => ∃ n, p = .slot n

namespace Machine

/-- What belongs to no call is seen through the other scores and strings only. -/
theorem at?_of_not_local {m m' : Machine} {l : Location} (hl : ¬ l.IsLocal)
    (hs : ∀ s, l = .score s → m'.scores s = m.scores s) (ht : m'.texts = m.texts) :
    m'.at? l = m.at? l := by
  cases l with
  | score s => rw [at?, at?, score?_of_ne_frame _ hl, score?_of_ne_frame _ hl, hs s rfl]
  | text p =>
    have hp : ∀ n, p ≠ .slot n := fun n hn => hl ⟨n, hn⟩
    rw [at?, at?, text?_of_ne_slot _ hp, text?_of_ne_slot _ hp, ht]

/-- What belongs to the running call is seen through its frame and its entry only. -/
theorem Ready.at?_of_local {m m' : Machine} (h : m.Ready) (h' : m'.Ready) {l : Location}
    (hl : l.IsLocal) (hf : m'.frames = m.frames) (he : m'.entries = m.entries) :
    m'.at? l = m.at? l := by
  cases l with
  | score s =>
    obtain ⟨holder, o⟩ := s
    obtain rfl : holder = .frame := hl
    rw [at?, at?, h'.score?_frame, h.score?_frame, hf]
  | text p =>
    obtain ⟨n, rfl⟩ := hl
    rw [at?, at?, text?, text?, he]

end Machine

end Craftlang
