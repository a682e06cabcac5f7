import Craftlang.Proofs.Machine.Runs
import Mathlib.Logic.Relation

/-!
# Strings that are pasted

The function that joins strings is a macro: its one command is written with both strings pasted between
two quotes as they are, and read only then. A string with a quote or a backslash may end too soon or lose
a character that way; one without them is harmless. Here the machine pastes. As long as all literals of
its code are harmless it holds harmless strings only, whatever runs when, and pasting is joining.
-/

namespace Craftlang

/-- The string holds neither quotes nor backslashes. -/
def Bytes.IsHarmless (s : Bytes) : Prop := byte '"' ∉ s ∧ byte '\\' ∉ s

namespace Bytes.IsHarmless

variable {s t : Bytes}

theorem nil : Bytes.IsHarmless [] := ⟨List.not_mem_nil, List.not_mem_nil⟩

theorem append (hs : s.IsHarmless) (ht : t.IsHarmless) : Bytes.IsHarmless (s ++ t) :=
  ⟨fun h => (List.mem_append.mp h).elim hs.1 ht.1, fun h => (List.mem_append.mp h).elim hs.2 ht.2⟩

theorem withoutReturns (hs : s.IsHarmless) : s.withoutReturns.IsHarmless :=
  ⟨fun h => hs.1 (List.mem_filter.mp h).1, fun h => hs.2 (List.mem_filter.mp h).1⟩

/-- A literal is harmless unless it is one of those that cannot be joined. -/
theorem of_any (h : (s.any fun b => b == byte '"' || b == byte '\\') = false) : s.IsHarmless := by
  simp only [List.any_eq_false, Bool.or_eq_true, beq_iff_eq, not_or] at h
  exact ⟨fun hmem => (h _ hmem).1 rfl, fun hmem => (h _ hmem).2 rfl⟩

end Bytes.IsHarmless

namespace Snbt

/-- What a character stands for behind a backslash. -/
def escaped? (c : UInt8) : Option UInt8 :=
  if c = byte '"' || c = byte '\\' then some c
  else if c = byte 'n' then some lineFeed
  else if c = byte 't' then some (byte '\t')
  else none

/-- Reads the inside of a string and the quote that closes it, behind which nothing may follow. -/
def readInside? : Bytes → Option Bytes
  | [] => none
  | [b] => if b = byte '"' then some [] else none
  | b :: c :: rest =>
    if b = byte '"' then none
    else if b = byte '\\' then do
      let c ← escaped? c
      let s ← readInside? rest
      return c :: s
    else (readInside? (c :: rest)).map (b :: ·)

/-- Reads a string between double quotes. -/
def read? : Bytes → Option Bytes
  | [] => none
  | q :: rest => if q = byte '"' then readInside? rest else none

/-- Two strings between one pair of quotes, as they are. -/
def pasted (a b : Bytes) : Bytes := [byte '"'] ++ (a ++ b) ++ [byte '"']

theorem readInside?_cons {b : UInt8} (hquote : b ≠ byte '"') (hslash : b ≠ byte '\\') {rest : Bytes}
    (h : rest ≠ []) : readInside? (b :: rest) = (readInside? rest).map (b :: ·) := by
  obtain ⟨c, rest, rfl⟩ := List.exists_cons_of_ne_nil h
  rw [readInside?, if_neg hquote, if_neg hslash]

theorem readInside?_escape (b : UInt8) {rest : Bytes} (h : rest ≠ []) : readInside? (escape b ++ rest) =
    if b = byte '\r' then readInside? rest else (readInside? rest).map (b :: ·) := by
  rw [escape]
  split
  · rename_i hb
    rcases Bool.or_eq_true_iff.mp hb with hb | hb
    · obtain rfl := of_decide_eq_true hb
      change readInside? (byte '\\' :: byte '"' :: rest) = _
      rw [readInside?]
      cases readInside? rest <;> rfl
    · obtain rfl := of_decide_eq_true hb
      change readInside? (byte '\\' :: byte '\\' :: rest) = _
      rw [readInside?]
      cases readInside? rest <;> rfl
  · rename_i hb
    have hplain : b ≠ byte '"' ∧ b ≠ byte '\\' := by simpa using hb
    split
    · rename_i hline
      subst hline
      change readInside? (byte '\\' :: byte 'n' :: rest) = _
      rw [readInside?]
      cases readInside? rest <;> rfl
    · split
      · rename_i htab
        subst htab
        change readInside? (byte '\\' :: byte 't' :: rest) = _
        rw [readInside?]
        cases readInside? rest <;> rfl
      · split
        · rfl
        · exact readInside?_cons hplain.1 hplain.2 h

/-- A string that is written as stored data reads back, without its carriage returns. -/
theorem read?_quote (s : Bytes) : read? (quote s) = some s.withoutReturns := by
  rw [quote, List.append_assoc, List.singleton_append, read?, if_pos rfl]
  induction s with
  | nil => rfl
  | cons b s ih =>
    rw [List.flatMap_cons, List.append_assoc, readInside?_escape b (by simp), ih]
    by_cases hb : b = byte '\r' <;> simp [Bytes.withoutReturns, hb]

/-- Between quotes a harmless string stands for itself. -/
theorem readInside?_harmless {s : Bytes} (h : s.IsHarmless) :
    readInside? (s ++ [byte '"']) = some s := by
  induction s with
  | nil => rfl
  | cons b s ih =>
    obtain ⟨hquote, hslash⟩ := h
    rw [List.mem_cons, not_or] at hquote hslash
    rw [List.cons_append, readInside?_cons (Ne.symm hquote.1) (Ne.symm hslash.1) (by simp),
      ih ⟨hquote.2, hslash.2⟩]
    rfl

/-- Pasting harmless strings is joining them. -/
theorem read?_pasted {a b : Bytes} (ha : a.IsHarmless) (hb : b.IsHarmless) :
    read? (pasted a b) = some (a ++ b) := by
  rw [pasted, List.append_assoc, List.singleton_append, read?, if_pos rfl]
  exact readInside?_harmless (ha.append hb)

/-- A quote ends the string too soon. -/
example : read? (pasted "a\"" "b") = none := by decide

/-- A backslash takes the next character with it. -/
example : read? (pasted "a\\" "nb") = some "a\nb" := by decide

end Snbt

namespace Macro

/-- Puts arguments in the place of their names in parentheses behind dollar signs; `name` is what was read
of a name. -/
def expandFrom (value : Bytes → Bytes) : Option Bytes → Bytes → Bytes
  | _, [] => []
  | some name, b :: rest =>
    if b = byte ')' then value name ++ expandFrom value none rest
    else expandFrom value (some (name ++ [b])) rest
  | none, [b] => [b]
  | none, b :: c :: rest =>
    if b = byte '$' && c = byte '(' then expandFrom value (some []) rest
    else b :: expandFrom value none (c :: rest)

/-- What a line of a function becomes; the lines of a macro start with a dollar sign. -/
def expand (value : Bytes → Bytes) (line : Bytes) : Bytes :=
  match line with
  | [] => []
  | b :: rest => if b = byte '$' then expandFrom value none rest else line

end Macro

/-- The joining function sets its result to what the pasted text stands for. -/
theorem Command.expand_joinedText (ns : Namespace) (value : Bytes → Bytes) :
    Macro.expand value (render ns .joinedText) =
      "data modify storage craftlang:rt ret set value " ++ Snbt.pasted (value "a") (value "b") := by
  have hline : Macro.expand value (render ns .joinedText) =
      "data modify storage craftlang:rt ret set value \""
        ++ (value "a" ++ (value "b" ++ [byte '"'])) := rfl
  have hopen : ("data modify storage craftlang:rt ret set value \"" : Bytes) =
      "data modify storage craftlang:rt ret set value " ++ [byte '"'] := rfl
  rw [hline, hopen, Snbt.pasted]
  simp only [List.append_assoc]

namespace Command

/-- The string that a command stores. -/
def literal? : Command → Option Bytes
  | .setText _ value => some value
  | _ => none

/-- The command stores no string that is not harmless. -/
def IsHarmless (c : Command) : Prop := ∀ s, c.literal? = some s → s.IsHarmless

theorem isHarmless_of_none {c : Command} (h : c.literal? = none) : c.IsHarmless := fun s hs => by
  rw [h] at hs
  cases hs

theorem isHarmless_setText (target : TextPlace) {s : Bytes} (h : s.IsHarmless) :
    (setText target s).IsHarmless := by
  rintro _ ⟨⟩
  exact h

end Command

namespace Machine

/-- Some string that the machine keeps, also for a call that is not the innermost. -/
def Holds (m : Machine) (s : Bytes) : Prop :=
  (∃ e ∈ m.entries, ∃ n, e n = some s) ∨ ∃ p, m.texts p = some s

/-- All strings of the machine are harmless. -/
def IsHarmless (m : Machine) : Prop := ∀ s, m.Holds s → s.IsHarmless

/-- What a command does that calls no function, where strings are joined by pasting them. -/
def paste (m : Machine) : Command → Machine
  | .joinedText =>
    match m.text? .left, m.text? .right with
    | some a, some b =>
      match Snbt.read? (Snbt.pasted a b) with
      | some s => m.setText .result s
      | none => m
    | _, _ => m
  | c => m.perform c

variable {m m' : Machine} {s v : Bytes}

theorem holds_of_text? {p : TextPlace} (h : m.text? p = some s) : m.Holds s := by
  cases p with
  | slot n =>
    obtain ⟨e, he, hs⟩ := Option.bind_eq_some_iff.mp h
    exact .inl ⟨e, List.mem_of_head? he, n, hs⟩
  | _ => exact .inr ⟨_, h⟩

theorem holds_setText {p : TextPlace} (h : (m.setText p v).Holds s) : s = v ∨ m.Holds s := by
  have hother : ∀ q, (∃ e ∈ m.entries, ∃ n, e n = some s) ∨
      (∃ r, (if r = q then some v else m.texts r) = some s) → s = v ∨ m.Holds s := by
    rintro q (h | ⟨r, hr⟩)
    · exact .inr (.inl h)
    · split at hr
      · exact .inl (Option.some.inj hr).symm
      · exact .inr (.inr ⟨r, hr⟩)
  cases p with
  | slot n =>
    rcases h with ⟨e, he, i, hi⟩ | h
    · cases hm : m.entries with
      | nil =>
        simp [setText, hm] at he
      | cons f fs =>
        rw [setText, hm, List.modify_zero_cons] at he
        rcases List.mem_cons.mp he with rfl | he
        · dsimp only at hi
          split at hi
          · exact .inl (Option.some.inj hi).symm
          · exact .inr (.inl ⟨f, by simp [hm], i, hi⟩)
        · exact .inr (.inl ⟨e, by simp [hm, he], i, hi⟩)
    · exact .inr (.inr h)
  | _ => exact hother _ h

theorem Holds.congr (h : m'.Holds s) (he : m'.entries = m.entries) (ht : m'.texts = m.texts) : m.Holds s := by
  rwa [Holds, ← he, ← ht]

theorem IsHarmless.congr (h : m.IsHarmless) (he : m'.entries = m.entries) (ht : m'.texts = m.texts) :
    m'.IsHarmless := fun s hs => h s (hs.congr he ht)

theorem IsHarmless.setText (h : m.IsHarmless) (p : TextPlace) (hv : v.IsHarmless) :
    (m.setText p v).IsHarmless := fun s hs => (holds_setText hs).elim (fun heq => heq ▸ hv) (h s)

/-- A machine that was just started. -/
theorem isHarmless_start : ({} : Machine).IsHarmless := by
  rintro s (⟨e, he, -⟩ | ⟨p, hp⟩)
  · cases he
  · cases hp

/-- As long as all strings are harmless, pasting does what joining does. -/
theorem IsHarmless.paste_eq (h : m.IsHarmless) (c : Command) : m.paste c = m.perform c := by
  cases c with
  | joinedText =>
    rw [paste, perform]
    cases ha : m.text? .left with
    | none => rfl
    | some a =>
      cases hb : m.text? .right with
      | none => rfl
      | some b =>
        dsimp only
        rw [Snbt.read?_pasted (h a (holds_of_text? ha)) (h b (holds_of_text? hb))]
  | _ => rfl

theorem setScore_texts (x : Score) (n : Int) :
    (m.setScore x n).entries = m.entries ∧ (m.setScore x n).texts = m.texts := by
  rw [setScore]
  split <;> exact ⟨rfl, rfl⟩

theorem inFrame_texts {change : Machine → Machine}
    (h : (change m).entries = m.entries ∧ (change m).texts = m.texts) :
    (m.inFrame change).entries = m.entries ∧ (m.inFrame change).texts = m.texts := by
  rw [inFrame]
  split
  · exact h
  · exact ⟨rfl, rfl⟩

/-- What a command that stores harmless strings does to a machine that holds harmless strings. -/
theorem IsHarmless.perform (h : m.IsHarmless) {c : Command} (hc : c.IsHarmless) :
    (m.perform c).IsHarmless := by
  have hscores : ∀ {m' : Machine}, m'.entries = m.entries ∧ m'.texts = m.texts → m'.IsHarmless :=
    fun heq => h.congr heq.1 heq.2
  cases c with
  | pushTexts =>
    rintro s (⟨e, he, n, hs⟩ | hs)
    · rcases List.mem_cons.mp he with rfl | he
      · cases hs
      · exact h s (.inl ⟨e, he, n, hs⟩)
    · exact h s (.inr hs)
  | popTexts =>
    rintro s (⟨e, he, n, hs⟩ | hs)
    · exact h s (.inl ⟨e, List.mem_of_mem_tail he, n, hs⟩)
    · exact h s (.inr hs)
  | noTexts =>
    rintro s (⟨e, he, n, hs⟩ | hs)
    · cases he
    · exact h s (.inr hs)
  | setText p v =>
    rw [Machine.perform, Literal.string_quote]
    exact h.setText p (hc v rfl).withoutReturns
  | copyText p q =>
    rw [Machine.perform, copyText]
    cases hq : m.text? q with
    | none => exact h
    | some s => exact h.setText p (h s (holds_of_text? hq))
  | joinedText =>
    rw [Machine.perform]
    cases ha : m.text? .left with
    | none => exact h
    | some a =>
      cases hb : m.text? .right with
      | none => exact h
      | some b => exact h.setText .result ((h a (holds_of_text? ha)).append (h b (holds_of_text? hb)))
  | set x n => exact hscores (inFrame_texts (setScore_texts x _))
  | setIf test x n =>
    refine hscores (inFrame_texts ?_)
    split
    · exact setScore_texts x _
    · exact ⟨rfl, rfl⟩
  | operate x op y => exact hscores (inFrame_texts (setScore_texts x _))
  | storeTest x test => exact hscores (inFrame_texts (setScore_texts x _))
  | tellBool b =>
    rw [Machine.perform]
    by_cases ht : m.holds (.is ⟨.machine, .printed⟩ (if b then 1 else 0)) = true
    · rw [if_pos ht]
      exact hscores ⟨rfl, rfl⟩
    · rw [if_neg ht]
      exact h
  | tellNumber =>
    rw [Machine.perform]
    split <;> exact hscores ⟨rfl, rfl⟩
  | _ => exact hscores ⟨rfl, rfl⟩

/-!
## Everything that may run

Commands are waiting while a function that was called runs. Between any two of them something else may
happen that touches no strings, such as what commands do that a program spells itself, and any function
of the pack may be started.
-/

/-- What may become of the waiting commands and the machine next. -/
inductive Moves (code : FunctionName → Option (List Command)) :
    List Command × Machine → List Command × Machine → Prop
  | perform {c : Command} {cs : List Command} {m : Machine} (h : m.called? c = none) :
    Moves code (c :: cs, m) (cs, m.paste c)
  | call {c : Command} {cs body : List Command} {m : Machine} {f : FunctionName}
    (h : m.called? c = some f) (hbody : code f = some body) : Moves code (c :: cs, m) (body ++ cs, m)
  | start {cs body : List Command} {m : Machine} {f : FunctionName} (hbody : code f = some body) :
    Moves code (cs, m) (body ++ cs, m)
  | disturb {cs : List Command} {m m' : Machine} (he : m'.entries = m.entries)
    (ht : m'.texts = m.texts) : Moves code (cs, m) (cs, m')

/-- Only harmless strings are held, and only such are about to be stored. -/
structure AllHarmless (x : List Command × Machine) : Prop where
  commands : ∀ c ∈ x.1, c.IsHarmless
  machine : x.2.IsHarmless

section

variable {code : FunctionName → Option (List Command)} {x y : List Command × Machine}

theorem AllHarmless.moves (hcode : ∀ f body, code f = some body → ∀ c ∈ body, c.IsHarmless)
    (hx : AllHarmless x) (h : Moves code x y) : AllHarmless y := by
  have hbefore : ∀ {f body cs}, code f = some body → (∀ c ∈ cs, c.IsHarmless) →
      ∀ c ∈ body ++ cs, c.IsHarmless := fun hbody hcs c hc =>
    (List.mem_append.mp hc).elim (hcode _ _ hbody c) (hcs c)
  cases h with
  | perform hcalled =>
    obtain ⟨hc, hcs⟩ := List.forall_mem_cons.mp hx.commands
    refine ⟨hcs, ?_⟩
    change (Machine.paste _ _).IsHarmless
    rw [hx.machine.paste_eq]
    exact hx.machine.perform hc
  | call hcalled hbody => exact ⟨hbefore hbody (List.forall_mem_cons.mp hx.commands).2, hx.machine⟩
  | start hbody => exact ⟨hbefore hbody hx.commands, hx.machine⟩
  | disturb he ht => exact ⟨hx.commands, hx.machine.congr he ht⟩

/-- Whatever runs, strings stay harmless. -/
theorem AllHarmless.run (hcode : ∀ f body, code f = some body → ∀ c ∈ body, c.IsHarmless)
    (hx : AllHarmless x) (h : Relation.ReflTransGen (Moves code) x y) : AllHarmless y := by
  induction h with
  | refl => exact hx
  | tail _ hstep ih => exact ih.moves hcode hstep

/-- What the machine that joins strings does on its way to the end of a run may also happen where they
are pasted. -/
theorem AllHarmless.moves_of_run (hcode : ∀ f body, code f = some body → ∀ c ∈ body, c.IsHarmless)
    {fuel : Nat} {cs ds : List Command} {m m' : Machine} (hx : AllHarmless (cs ++ ds, m))
    (h : Machine.run code fuel cs m = some m') :
    Relation.ReflTransGen (Moves code) (cs ++ ds, m) (ds, m') := by
  induction fuel generalizing cs ds m m' with
  | zero =>
    cases cs with
    | nil =>
      cases h
      exact .refl
    | cons c cs => cases h
  | succ fuel ih =>
    cases cs with
    | nil =>
      cases h
      exact .refl
    | cons c cs =>
      rw [Machine.run] at h
      cases hcalled : m.called? c with
      | none =>
        rw [hcalled] at h
        have hstep : Moves code (c :: (cs ++ ds), m) (cs ++ ds, m.perform c) := by
          rw [← hx.machine.paste_eq]
          exact .perform hcalled
        exact (ih (hx.moves hcode hstep) h).head hstep
      | some f =>
        rw [hcalled] at h
        obtain ⟨body, hbody, h⟩ := Option.bind_eq_some_iff.mp h
        obtain ⟨m₁, hinner, h⟩ := Option.bind_eq_some_iff.mp h
        have hstep : Moves code (c :: (cs ++ ds), m) (body ++ (cs ++ ds), m) := .call hcalled hbody
        have hall := hx.moves hcode hstep
        have hbodyRun := ih hall hinner
        exact (hbodyRun.trans (ih (hall.run hcode hbodyRun) h)).head hstep

end

end Machine

end Craftlang
