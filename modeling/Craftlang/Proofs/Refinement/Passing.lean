import Craftlang.Proofs.Refinement.Operand

/-!
# What is handed over

Values that are printed, arguments and results are handed over at places that belong to no call. A call
sees nothing of the variables of its caller, and the caller finds them again when the call has ended; both
share the global variables.
-/

namespace Craftlang

open Machine Emission

/-- Where an argument is handed over. -/
def argumentPlace (isScore : Bool) (n : Nat) : Location :=
  if isScore then .score ⟨.machine, .argument n⟩ else .text (.argument n)

/-- Where the result of a call is handed over. -/
def resultPlace (isScore : Bool) : Location :=
  if isScore then .score ⟨.machine, .result⟩ else .text .result

theorem isPassing_argumentPlace (b : Bool) (n : Nat) : (argumentPlace b n).IsPassing := by
  cases b <;> trivial

theorem isPassing_resultPlace (b : Bool) : (resultPlace b).IsPassing := by
  cases b <;> trivial

theorem resultPlace_ne_pending (b : Bool) : resultPlace b ≠ .score Emission.pending := by
  intro h
  have hpassing := isPassing_resultPlace b
  rw [h] at hpassing
  exact hpassing

theorem argumentPlace_inj {b b' : Bool} {n n' : Nat} (h : argumentPlace b n = argumentPlace b' n') :
    n = n' := by
  cases b <;> cases b' <;> cases h <;> rfl

/-- Values are handed over as arguments, counted from some place on. -/
def Machine.Hands (m : Machine) : Nat → List Value → Prop
  | _, [] => True
  | n, v :: vs => m.at? (argumentPlace v.type.isScore n) = some v.cell ∧ m.Hands (n + 1) vs

/-- A result is handed over, if there is one. -/
def Machine.Gives (m : Machine) (v : Option Value) : Prop :=
  ∀ u, v = some u → m.at? (resultPlace u.type.isScore) = some u.cell

theorem Machine.Gives.none (m : Machine) : m.Gives none := nofun

theorem Machine.Gives.congr {m m' : Machine} {v : Option Value} (h : m.Gives v)
    (hsame : ∀ b, m'.at? (resultPlace b) = m.at? (resultPlace b)) : m'.Gives v :=
  fun u hu => (hsame _).trans (h u hu)

theorem Machine.Hands.congr {m m' : Machine} {n : Nat} {vs : List Value} (h : m.Hands n vs)
    (hsame : ∀ b n, m'.at? (argumentPlace b n) = m.at? (argumentPlace b n)) : m'.Hands n vs := by
  induction vs generalizing n with
  | nil => trivial
  | cons v vs ih => exact ⟨(hsame _ _).trans h.1, ih h.2⟩

namespace Layout

section

variable {t : Layout} {w : World} {g : Signal} {s : Emission} {m : Machine} {low high d : Nat}
  {x : Operand} {v : Value}

/-- The value of an operand is copied to where it is handed over. -/
theorem Agrees.hand (h : t.Agrees w g m) (hx : t.Carries w m low high x v) {q : Score}
    (hs : IsData q) (p : TextPlace) :
    ∃ cs m', (match x.location with
        | some (.score source) => s.emit (.operate q .copy source)
        | some (.text source) => s.emit (.copyText p source)
        | none => s).commands = s.commands ++ cs ∧ Runs t.code cs m m' ∧
      Updates (if v.type.isScore then .score q else .text p) v.cell m m' := by
  cases hv : v.type.isScore with
  | true =>
    obtain ⟨source, hsource, hat⟩ := hx.exists_score h hv
    obtain ⟨n, hn⟩ := Value.exists_number hv
    rw [hn] at hat
    obtain ⟨m', hruns, hu⟩ := h.inCall.runs_operate t.code hs .copy hat
    rw [hsource, hn]
    exact ⟨_, m', rfl, hruns, hu⟩
  | false =>
    obtain ⟨text, rfl⟩ := Value.exists_string hv
    obtain ⟨source, hsource, hat⟩ := hx.exists_text h
    obtain ⟨m', hruns, hu⟩ := h.inCall.runs_copyText t.code (p := p) hat
    rw [hsource]
    exact ⟨_, m', rfl, hruns, hu⟩

/-- Arguments are handed over one by one. -/
theorem Agrees.passArguments (ht : t.Sound) (h : t.Agrees w .none m) {xs : List Operand}
    {vs : List Value} (hx : List.Forall₂ (t.Carries w m low high) xs vs) (place : Nat) :
    ∃ m', t.Reaches d s (s.passArguments place xs) w .none m m' ∧ m'.Hands place vs ∧
      ∀ l, (∀ b n, place ≤ n → l ≠ argumentPlace b n) → m'.at? l = m.at? l := by
  induction xs generalizing s m vs place with
  | nil =>
    cases hx
    exact ⟨m, h.reaches rfl, trivial, fun _ _ => rfl⟩
  | cons x xs ih =>
    cases hx with
    | cons hx hxs =>
      obtain ⟨cs, m₁, hcs, hruns, hu⟩ := h.hand (s := s) hx (q := ⟨.machine, .argument place⟩)
        ⟨nofun, nofun⟩ (.argument place)
      obtain ⟨h₁, hk₁⟩ := h.pass ht hu (isPassing_argumentPlace _ _)
      obtain ⟨m₂, hreaches, hhands, hsame⟩ := ih h₁
        (hxs.imp fun _ _ hx => hx.later (hk₁ _) (.inr rfl) (Nat.le_refl _)) (place + 1)
      refine ⟨m₂, .trans ⟨⟨cs, hcs, hruns⟩, h₁, hk₁ _⟩ hreaches, ⟨?_, hhands⟩, fun l hl => ?_⟩
      · refine (hsame _ fun b n hn heq => ?_).trans hu.here
        have := argumentPlace_inj heq
        omega
      · exact (hsame l fun b n hn => hl b n (by omega)).trans (hu.there l (hl _ _ (Nat.le_refl _)))

/-- A value is printed. -/
theorem Agrees.print (ht : t.Sound) (h : t.Agrees w .none m) (hx : t.Carries w m low high x v) :
    ∃ m', t.Reaches d s (s.print v.type x) (w.act (.shown v)) .none m m' := by
  have hcopy : ∀ {n : Int} {score : Score}, m.at? (.score score) = some (.number n) →
      ∃ m₁, Runs t.code [.operate ⟨.machine, .printed⟩ .copy score] m m₁ ∧ t.Agrees w .none m₁ ∧
        t.Keeps d m m₁ ∧ m₁.at? (.score ⟨.machine, .printed⟩) = some (.number n) := by
    intro n score hat
    obtain ⟨m₁, hruns, hu⟩ := h.inCall.runs_operate t.code (t := ⟨.machine, .printed⟩)
      ⟨nofun, nofun⟩ .copy hat
    obtain ⟨h₁, hk₁⟩ := h.pass ht hu trivial
    exact ⟨m₁, hruns, h₁, hk₁ _, hu.here⟩
  cases v with
  | string text =>
    obtain ⟨source, hsource, hat⟩ := hx.exists_text h
    have hemit : s.print .string x = s.emit (.tellText source) := by
      rw [Emission.print, textOf_eq hsource]
    have hshow : m.perform (.tellText source) = m.act (.shown (.string text)) := by
      rw [Machine.perform, at?_text.mp hat, Option.getD_some]
    refine ⟨_, ⟨[.tellText source], congrArg commands hemit, hshow ▸ .perform rfl⟩, h.act _,
      .act t d m _⟩
  | int n =>
    obtain ⟨source, hsource, hat⟩ := hx.exists_score h rfl
    obtain ⟨m₁, hruns, h₁, hk₁, hprinted⟩ := hcopy hat
    have hemit : s.print .int x
        = s.emitAll ([Command.operate ⟨.machine, .printed⟩ .copy source] ++ [.tellNumber]) := by
      unfold Emission.print
      dsimp only
      rw [scoreOf_eq hsource]
      rfl
    have hshow : m₁.perform .tellNumber = m₁.act (.shown (.int n)) := by
      rw [Machine.perform, at?_score.mp hprinted]
    exact ⟨_, ⟨_, congrArg commands hemit, hruns.append (hshow ▸ .perform rfl)⟩, h₁.act _,
      hk₁.trans (.act t d m₁ _)⟩
  | bool b =>
    obtain ⟨source, hsource, hat⟩ := hx.exists_score h rfl
    obtain ⟨m₁, hruns, h₁, hk₁, hprinted⟩ := hcopy hat
    have hemit : s.print .bool x = s.emitAll ([Command.operate ⟨.machine, .printed⟩ .copy source]
        ++ ([Command.tellBool true] ++ [.tellBool false])) := by
      rw [Emission.print, scoreOf_eq hsource]
      rfl
    -- Only one of the two commands shows something.
    have hshow : (m₁.perform (.tellBool true)).perform (.tellBool false) = m₁.act (.shown (.bool b)) := by
      cases b with
      | true =>
        have hfirst : m₁.perform (.tellBool true) = m₁.act (.shown (.bool true)) :=
          if_pos (holds_is hprinted 1)
        rw [hfirst]
        exact if_neg (Bool.eq_false_iff.mp (holds_is ((at?_act m₁ _ _).trans hprinted) 0))
      | false =>
        have hfirst : m₁.perform (.tellBool true) = m₁ :=
          if_neg (Bool.eq_false_iff.mp (holds_is hprinted 1))
        rw [hfirst]
        exact if_pos (holds_is hprinted 0)
    exact ⟨_, ⟨_, congrArg commands hemit, hruns.append (hshow ▸ (Runs.perform rfl).append (.perform rfl))⟩,
      h₁.act _, hk₁.trans (.act t d m₁ _)⟩

/-- The result of a call is taken into a slot. -/
theorem Agrees.takeResult (ht : t.Sound) (h : t.Agrees w .none m) (hs : s.Tidy) {ty : Ty}
    {v : Option Value} (hlinks : t.Links (s.takeResult ty).1) (hv : Value.IsResult ty v)
    (hgives : m.Gives v) : ∃ m', t.Computes s (s.takeResult ty) w v m m' := by
  have hnothing : v = none → s.takeResult ty = (s, {}) →
      ∃ m', t.Computes s (s.takeResult ty) w v m m' := by
    rintro rfl hemit
    rw [hemit]
    exact ⟨m, h.reaches rfl, nofun⟩
  cases ty with
  | int =>
    obtain ⟨u, rfl, hu⟩ := hv.value rfl
    have hat := hgives u rfl
    cases u <;> cases hu
    exact h.computes ht hs hlinks rfl rfl rfl (b := true)
      (h.inCall.runs_operate _ (isData_slot _) .copy hat)
  | bool =>
    obtain ⟨u, rfl, hu⟩ := hv.value rfl
    have hat := hgives u rfl
    cases u <;> cases hu
    exact h.computes ht hs hlinks rfl rfl rfl (b := true)
      (h.inCall.runs_operate _ (isData_slot _) .copy hat)
  | string =>
    obtain ⟨u, rfl, hu⟩ := hv.value rfl
    have hat := hgives u rfl
    cases u <;> cases hu
    exact h.computes ht hs hlinks rfl rfl rfl (b := false) (h.inCall.runs_copyText _ hat)
  | invalid => exact hnothing (Option.map_eq_none_iff.mp hv) rfl
  | void => exact hnothing (Option.map_eq_none_iff.mp hv) rfl
  | any => exact hnothing (Option.map_eq_none_iff.mp hv) rfl

/-- A variable takes an argument. -/
theorem Agrees.takeParam (ht : t.Sound) (h : t.Agrees w g m) {y place : Nat} {l : Location}
    (hy : t.place? y = some l) (hv : v.type = t.context.typing.typeOfSymbol y)
    (hat : m.at? (argumentPlace v.type.isScore place) = some v.cell) :
    ∃ cs m', (match l with
        | .score target => s.emit (.operate target .copy ⟨.machine, .argument place⟩)
        | .text target => s.emit (.copyText target (.argument place))).commands = s.commands ++ cs ∧
      Runs t.code cs m m' ∧ Updates l v.cell m m' := by
  have hholds := ht.holds hy
  rw [← hv] at hholds
  cases l with
  | score target =>
    have hscore : v.type.isScore = true := hholds
    obtain ⟨n, hn⟩ := Value.exists_number hscore
    rw [hscore, hn] at hat
    obtain ⟨m', hruns, hu⟩ := h.inCall.runs_operate t.code (ht.isData hy) .copy hat
    rw [hn]
    exact ⟨_, m', rfl, hruns, hu⟩
  | text target =>
    obtain ⟨text, rfl⟩ := Value.exists_string hholds
    obtain ⟨m', hruns, hu⟩ := h.inCall.runs_copyText t.code (p := target) hat
    exact ⟨_, m', rfl, hruns, hu⟩

/-- Parameters take their arguments. -/
theorem Agrees.takeParams (ht : t.Sound) {store locals : Nat → Option Value} {ys : List Nat}
    {vs : List Value} {place : Nat} (h : t.Agrees { w with locals := store } .none m)
    (hhands : m.Hands place vs) (hbind : bindParams store ys vs = .ok locals)
    (hlocal : ∀ y ∈ ys, t.context.resolution.isGlobal y = false)
    (hlinks : t.Links (takeParams t.context s place ys))
    (htypes : vs.map Value.type = ys.map t.context.typing.typeOfSymbol) :
    ∃ m', t.Reaches d s (takeParams t.context s place ys) { w with locals } .none m m' := by
  induction ys generalizing s m vs store place with
  | nil =>
    cases vs with
    | nil =>
      cases hbind
      exact ⟨m, h.reaches rfl⟩
    | cons v vs => cases htypes
  | cons y ys ih =>
    cases vs with
    | nil => cases htypes
    | cons v vs =>
      rw [List.map_cons, List.map_cons, List.cons.injEq] at htypes
      rw [List.forall_mem_cons] at hlocal
      rw [bindParams] at hbind
      rw [Emission.takeParams] at hlinks ⊢
      dsimp only at hlinks ⊢
      have hstep := hlinks.before (grows_takeParams t.context _ (place + 1) ys)
      have hplace := (hstep.before (grows_takeParam _ _ place)).variablePlace
      obtain ⟨cs, m₁, hcs, hruns, hu⟩ := h.takeParam ht hplace htypes.1 hhands.1
        (s := (variablePlace t.context s y).1)
      have h₁ := h.write ht hplace hu
      rw [World.write, if_neg (by simp [hlocal.1])] at h₁
      have hhands₁ : m₁.Hands (place + 1) vs := hhands.2.congr fun b n =>
        hu.there _ fun heq => (ht.isScratch_passing (isPassing_argumentPlace b n)).1 y (heq ▸ hplace)
      obtain ⟨m₂, hreaches⟩ := ih h₁ hhands₁ hbind hlocal.2 hlinks htypes.2
      rw [commands_variablePlace] at hcs
      exact ⟨m₂, .trans ⟨⟨cs, hcs, hruns⟩, h₁, .place ht hplace hu⟩ hreaches⟩

end

/-- The machine agrees with what a program remembers outside of all calls. -/
structure Shares (t : Layout) (w : World) (m : Machine) : Prop where
  holds : ∀ y v, t.context.resolution.isGlobal y = true → w.globals y = some v →
    ∃ l, t.globals.lookup y = some l ∧ m.at? l = some v.cell
  untouched : ∀ y l, t.context.resolution.isGlobal y = true → t.globals.lookup y = some l →
    w.globals y = none → m.at? l = t.start.at? l
  actions : m.actions = t.start.actions ++ w.actions

section

variable {t : Layout} {w inner : World} {g : Signal} {m m' : Machine}

theorem Agrees.shares (h : t.Agrees w g m) : t.Shares w m := by
  refine ⟨fun y v hg hv => ?_, h.untouched, h.actions⟩
  obtain ⟨l, hl, hat⟩ := h.holds y v (by rw [World.read?, if_pos hg, hv])
  rw [place?, if_pos hg] at hl
  exact ⟨l, hl, hat⟩

/-- What is outside of all calls is seen in the same way when other calls are running. -/
theorem Shares.congr (ht : t.Sound) (h : t.Shares w m)
    (hsame : ∀ l n, l.IsGlobal n → m'.at? l = m.at? l) (ha : m'.actions = m.actions) :
    t.Shares w m' := by
  refine ⟨fun y v hg hv => ?_, fun y l hg hl hnone => ?_, ha.trans h.actions⟩
  · obtain ⟨l, hl, hat⟩ := h.holds y v hg hv
    obtain ⟨n, hn⟩ := ht.isGlobal hl
    exact ⟨l, hl, (hsame l n hn).trans hat⟩
  · obtain ⟨n, hn⟩ := ht.isGlobal hl
    exact (hsame l n hn).trans (h.untouched y l hg hl hnone)

end

end Layout

theorem Location.IsGlobal.not_local {l : Location} {n : Nat} (h : l.IsGlobal n) : ¬ l.IsLocal := by
  intro hl
  cases l with
  | score s =>
    obtain ⟨name, rfl⟩ := h
    cases hl
  | text p =>
    obtain rfl : p = .global n := h
    obtain ⟨k, hk⟩ := hl
    cases hk

theorem Location.IsGlobal.ne_innermost {l : Location} {n : Nat} (h : l.IsGlobal n) :
    l ≠ .score innermost := by
  rintro rfl
  obtain ⟨name, h⟩ := h
  cases h

namespace Machine

/-- Entering a call changes nothing outside of it. -/
theorem at?_entered (m : Machine) {l : Location} (hl : ¬ l.IsLocal) (hi : l ≠ .score innermost) :
    m.entered.at? l = m.at? l :=
  at?_of_not_local hl (fun s hs => if_neg fun heq => hi (by rw [hs, heq])) rfl

/-- Leaving a call changes nothing outside of it. -/
theorem at?_left (m : Machine) {l : Location} (hl : ¬ l.IsLocal) (hi : l ≠ .score innermost) :
    m.left.at? l = m.at? l :=
  at?_of_not_local hl (fun s hs => if_neg fun heq => hi (by rw [hs, heq])) rfl

theorem Ready.pending_entered {m : Machine} (h : m.Ready) :
    m.entered.at? (.score Emission.pending) = some (.number Signal.none.number) := by
  rw [at?, Emission.pending, h.inCall_entered.score?_frame]
  rfl

end Machine

namespace Layout

section

variable {t : Layout} {w inner : World} {g : Signal} {m m' : Machine}

/-- A call starts without variables of its own. -/
theorem Shares.entered (ht : t.Sound) (h : t.Shares w m) (hm : m.Ready) :
    t.Agrees { w with locals := fun _ => none } .none m.entered := by
  have h' : t.Shares w m.entered :=
    h.congr ht (fun l n hl => m.at?_entered hl.not_local hl.ne_innermost) rfl
  refine ⟨hm.inCall_entered, fun y v hv => ?_, h'.untouched, hm.pending_entered, h'.actions⟩
  rw [World.read?_locals] at hv
  split at hv
  · rename_i hg
    obtain ⟨l, hl, hat⟩ := h'.holds y v hg hv
    exact ⟨l, by rw [place?, if_pos hg, hl], hat⟩
  · cases hv

/-- When a call has ended, the variables of the caller are there again. -/
theorem Agrees.left (ht : t.Sound) (h : t.Agrees w g m) (hinner : t.Shares inner m') (hm : m'.InCall)
    (hf : m'.frames.tail = m.frames) (he : m'.entries.tail = m.entries) :
    t.Agrees { inner with locals := w.locals } g m'.left ∧ ∀ bound, t.Keeps bound m m'.left := by
  have hshares : t.Shares inner m'.left :=
    hinner.congr ht (fun l n hl => m'.at?_left hl.not_local hl.ne_innermost) rfl
  have hlocal : ∀ l : Location, l.IsLocal → m'.left.at? l = m.at? l := fun l hl =>
    h.inCall.toReady.at?_of_local hm.ready_left hl hf he
  refine ⟨⟨⟨hm.ready_left, ?_, ?_⟩, fun y v hv => ?_, hshares.untouched, ?_, hshares.actions⟩,
    fun bound => ⟨congrArg List.tail hf, congrArg List.tail he, fun n _ _ b => hlocal _ (isLocal_slotPlace b n)⟩⟩
  · exact fun hnil => h.inCall.inside (hf.symm.trans hnil)
  · exact fun hnil => h.inCall.written (he.symm.trans hnil)
  · rw [World.read?_locals] at hv
    split at hv
    · rename_i hg
      obtain ⟨l, hl, hat⟩ := hshares.holds y v hg hv
      exact ⟨l, by rw [place?, if_pos hg, hl], hat⟩
    · rename_i hg
      obtain ⟨l, hl, hat⟩ := h.holds y v (by rw [World.read?, if_neg hg, hv])
      refine ⟨l, hl, (hlocal l ?_).trans hat⟩
      rcases place?_cases hl with ⟨hg', -⟩ | ⟨-, n, -, rfl⟩
      · exact absurd hg' hg
      · exact isLocal_slotPlace _ n
  · exact (hlocal (.score Emission.pending) rfl).trans h.pending

end

end Layout

end Craftlang
