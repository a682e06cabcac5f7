import Craftlang.Code.Command
import Mathlib.Data.List.Basic
import Mathlib.Tactic.Common

/-!
# How names are written

Numbers in names are written with letters and digits only, so what is put before a number can be told from
it. The functions that a program does not declare are in a directory of their own, where no declared
name can be.
-/

namespace Craftlang

namespace Bytes

/-- Is the byte a digit or a lower-case letter? -/
def isShort (b : UInt8) : Bool := isDigit b || isLower b

theorem inBase_of_lt {n : Nat} (h : n < 36) : inBase 36 n = [inBase.digit n] := by
  rw [inBase, if_neg (by decide), if_pos h]

theorem inBase_of_le {n : Nat} (h : 36 ≤ n) :
    inBase 36 n = inBase 36 (n / 36) ++ [inBase.digit (n % 36)] := by
  rw [inBase, if_neg (by decide), if_neg (Nat.not_lt.mpr h)]

theorem digit_inj {a b : Nat} (ha : a < 36) (hb : b < 36) (h : inBase.digit a = inBase.digit b) :
    a = b := by
  have hall : ∀ a b : Fin 36, inBase.digit a = inBase.digit b → a = b := by decide +kernel
  exact congrArg Fin.val (hall ⟨a, ha⟩ ⟨b, hb⟩ h)

theorem isShort_digit {a : Nat} (ha : a < 36) : isShort (inBase.digit a) = true := by
  have hall : ∀ a : Fin 36, isShort (inBase.digit a) = true := by decide
  exact hall ⟨a, ha⟩

theorem inBase_ne_nil (n : Nat) : inBase 36 n ≠ [] := by
  by_cases h : n < 36
  · rw [inBase_of_lt h]
    exact List.cons_ne_nil _ _
  · rw [inBase_of_le (Nat.le_of_not_lt h)]
    simp

end Bytes

open Bytes

theorem isShort_of_mem_shortNumber {n : Nat} : ∀ b ∈ shortNumber n, isShort b = true := by
  rw [shortNumber]
  induction n using Nat.strongRecOn with
  | ind n ih =>
    intro b hb
    by_cases h : n < 36
    · rw [inBase_of_lt h, List.mem_singleton] at hb
      rw [hb]
      exact isShort_digit h
    · rw [inBase_of_le (Nat.le_of_not_lt h)] at hb
      rcases List.mem_append.mp hb with hb | hb
      · exact ih (n / 36) (by omega) b hb
      · rw [List.mem_singleton.mp hb]
        exact isShort_digit (Nat.mod_lt _ (by decide))

/-- Different numbers are written differently. -/
theorem shortNumber_inj {m n : Nat} (h : shortNumber m = shortNumber n) : m = n := by
  rw [shortNumber, shortNumber] at h
  induction m using Nat.strongRecOn generalizing n with
  | ind m ih =>
    by_cases hm : m < 36 <;> by_cases hn : n < 36
    · rw [inBase_of_lt hm, inBase_of_lt hn] at h
      exact digit_inj hm hn (List.singleton_inj.mp h)
    · rw [inBase_of_lt hm, inBase_of_le (Nat.le_of_not_lt hn), ← List.nil_append [_]] at h
      have hnil := (List.append_inj' h rfl).1
      exact absurd hnil.symm (inBase_ne_nil _)
    · rw [inBase_of_le (Nat.le_of_not_lt hm), inBase_of_lt hn, ← List.nil_append [inBase.digit n]] at h
      have hnil := (List.append_inj' h rfl).1
      exact absurd hnil (inBase_ne_nil _)
    · rw [inBase_of_le (Nat.le_of_not_lt hm), inBase_of_le (Nat.le_of_not_lt hn)] at h
      obtain ⟨hhigh, hlow⟩ := List.append_inj' h rfl
      have hquotient := ih (m / 36) (by omega) hhigh
      have hremainder := digit_inj (Nat.mod_lt m (by decide)) (Nat.mod_lt n (by decide))
        (List.singleton_inj.mp hlow)
      omega

/-- What stands before the last occurrence of a byte and what stands behind it. -/
theorem append_cons_inj_of_notMem {s t a b : Bytes} {c : UInt8} (ha : c ∉ a) (hb : c ∉ b)
    (h : s ++ c :: a = t ++ c :: b) : s = t ∧ a = b := by
  rcases List.append_eq_append_iff.mp h with ⟨d, rfl, hd⟩ | ⟨d, rfl, hd⟩
  · cases d with
    | nil => exact ⟨by simp, (List.cons_inj_right c).mp hd⟩
    | cons e d =>
      rw [List.cons_append] at hd
      obtain ⟨-, rfl⟩ := List.cons.inj hd
      exact absurd (by simp) ha
  · cases d with
    | nil => exact ⟨by simp, ((List.cons_inj_right c).mp hd).symm⟩
    | cons e d =>
      rw [List.cons_append] at hd
      obtain ⟨-, rfl⟩ := List.cons.inj hd
      exact absurd (by simp) hb

/-- What stands before the first occurrence of a byte and what stands behind it. -/
theorem append_cons_inj_of_notMem_left {s t a b : Bytes} {c : UInt8} (hs : c ∉ s) (ht : c ∉ t)
    (h : s ++ c :: a = t ++ c :: b) : s = t ∧ a = b := by
  induction s generalizing t with
  | nil =>
    cases t with
    | nil => exact ⟨rfl, (List.cons.inj h).2⟩
    | cons e t => exact absurd ((List.cons.inj h).1 ▸ List.mem_cons_self) ht
  | cons d s ih =>
    cases t with
    | nil => exact absurd ((List.cons.inj h).1 ▸ List.mem_cons_self) hs
    | cons e t =>
      obtain ⟨rfl, hrest⟩ := List.cons.inj h
      obtain ⟨rfl, rfl⟩ := ih (fun hmem => hs (List.mem_cons_of_mem _ hmem))
        (fun hmem => ht (List.mem_cons_of_mem _ hmem)) hrest
      exact ⟨rfl, rfl⟩

theorem notMem_shortNumber {c : UInt8} (hc : isShort c = false) (n : Nat) : c ∉ shortNumber n := by
  intro hmem
  rw [isShort_of_mem_shortNumber c hmem] at hc
  cases hc

/-- A property of all bytes is a finite check. -/
theorem forall_byte {P : UInt8 → Prop} (h : ∀ n : Fin 256, P (.ofNat n)) (b : UInt8) : P b := by
  have hb := h ⟨b.toNat, b.toNat_lt⟩
  rwa [UInt8.ofNat_toNat] at hb

namespace ResourceName

/-- The bytes that a part of a resource location may hold. -/
def isPlain (b : UInt8) : Bool := isShort b || b == byte '_' || b == byte '-' || b == byte '.'

theorem isPlain_resourceByte (c : Char) : isPlain (resourceByte c) = true := by
  have hall : ∀ b : UInt8, isPlain (if isUpper b then b + 32
      else if isLower b || isDigit b || b == byte '_' || b == byte '-' || b == byte '.' then b
      else byte '_') = true := forall_byte (by decide +kernel)
  exact hall (byte c)

theorem isPlain_of_mem_normalize {name : Bytes} {b : UInt8} (hb : b ∈ normalize name) :
    isPlain b = true := by
  rw [normalize] at hb
  split at hb
  · rw [List.mem_singleton.mp hb]
    decide
  · obtain ⟨⟨rune, rest⟩, -, hb⟩ := List.mem_flatMap.mp hb
    cases rune with
    | point code size =>
      obtain ⟨c, -, rfl⟩ := List.mem_map.mp hb
      exact isPlain_resourceByte c
    | stray b => cases hb

theorem slash_notMem_normalize (name : Bytes) : byte '/' ∉ normalize name := by
  intro hmem
  have hplain := isPlain_of_mem_normalize hmem
  revert hplain
  decide

end ResourceName

/-- A name that the program can declare: no directory comes before it. -/
def FunctionName.IsPlain : FunctionName → Prop
  | declared name => byte '/' ∉ name
  | _ => True

namespace FunctionName

theorem ne_hidden {name : Bytes} (h : byte '/' ∉ name) (s : Bytes) : name ≠ hiddenDirectory ++ s := by
  rintro rfl
  exact h (List.mem_append_left _ (by decide))

theorem render_piece (owner : Bytes) (n : Nat) :
    (piece owner n).render = (hiddenDirectory ++ owner) ++ byte '.' :: shortNumber n := by
  change hiddenDirectory ++ owner ++ [byte '.'] ++ shortNumber n = _
  rw [List.append_assoc, List.singleton_append]

theorem render_piece_ne (owner : Bytes) (n : Nat) (s : Bytes) (hs : byte '.' ∉ s) :
    (piece owner n).render ≠ hiddenDirectory ++ s := by
  intro h
  rw [render_piece, List.append_assoc] at h
  have hcancel := List.append_cancel_left h
  exact hs (hcancel ▸ List.mem_append_right _ List.mem_cons_self)

/-- Functions with names of their own are in files of their own. -/
theorem render_inj {f g : FunctionName} (hf : f.IsPlain) (hg : g.IsPlain) (h : f.render = g.render) :
    f = g := by
  have hnumber : ∀ k, byte '.' ∉ shortNumber k := notMem_shortNumber (by decide)
  cases f with
  | declared a =>
    cases g with
    | declared b => exact congrArg _ h
    | piece owner n =>
      rw [render_piece, List.append_assoc] at h
      exact absurd h (ne_hidden hf _)
    | loader | joiner => exact absurd h (ne_hidden hf _)
  | piece owner m =>
    cases g with
    | declared b =>
      rw [render_piece, List.append_assoc] at h
      exact absurd h.symm (ne_hidden hg _)
    | piece owner' n =>
      rw [render_piece, render_piece] at h
      obtain ⟨howner, hm⟩ := append_cons_inj_of_notMem (hnumber m) (hnumber n) h
      rw [List.append_cancel_left howner, shortNumber_inj hm]
    | loader | joiner => exact absurd h (render_piece_ne owner m _ (by decide))
  | loader =>
    cases g with
    | declared b => exact absurd h.symm (ne_hidden hg _)
    | piece owner n => exact absurd h.symm (render_piece_ne owner n _ (by decide))
    | loader => rfl
    | joiner => exact absurd h (by decide)
  | joiner =>
    cases g with
    | declared b => exact absurd h.symm (ne_hidden hg _)
    | piece owner n => exact absurd h.symm (render_piece_ne owner n _ (by decide))
    | loader => exact absurd h (by decide)
    | joiner => rfl

end FunctionName

/-!
## What commands name

A command may set a score to a number, and it names the objectives of the scores that it uses, those by
which it finds the frame of the running call included. Both stand in its line.
-/

/-- The number that a command sets a score to. -/
def Command.constant? : Command → Option Int
  | .set _ value | .setIf _ _ value => some value
  | .noFrame => some 0
  | _ => none

/-- The objectives that select the frame of the running call. -/
def Objective.ofSelection : List Objective := [.frameNumber, .innermost]

def Test.objectives : Test → List Objective
  | .is score _ | .positive score => [score.objective]
  | .compare _ left right => [left.objective, right.objective]

/-- The objectives that a command names. -/
def Command.objectives : Command → List Objective
  | .numberFrame | .removeFrame => Objective.ofSelection
  | .leaveFrame | .noFrame => [.innermost]
  | .set target _ => Objective.ofSelection ++ [target.objective]
  | .setIf test target _ => Objective.ofSelection ++ (test.objectives ++ [target.objective])
  | .operate target _ source => Objective.ofSelection ++ [target.objective, source.objective]
  | .storeTest target test => Objective.ofSelection ++ (target.objective :: test.objectives)
  | .callIf test _ => Objective.ofSelection ++ test.objectives
  | .tellBool _ | .tellNumber => [.printed]
  | .addObjective objective => [objective]
  | _ => []

/-- The number that a command sets a score to ends its line. -/
theorem Command.render_of_constant? {d : Command} {v : Int} (h : d.constant? = some v) (ns : Namespace) :
    ∃ before target : Bytes, d.render ns
      = before ++ "scoreboard players set " ++ target ++ " " ++ Bytes.signedDecimal v := by
  cases d with
  | set target value =>
    cases h
    exact ⟨frameSelection ++ " run ", target.render ns, by simp [render, inFrame, setting]⟩
  | setIf test target value =>
    cases h
    refine ⟨frameSelection ++ " " ++ test.render ns ++ " run ", target.render ns, ?_⟩
    simp [render, inFrameIf, setting]
  | noFrame =>
    cases h
    exact ⟨[], Score.render ns ⟨.machine, .innermost⟩, by simp [render, setting]⟩
  | _ => cases h

section

variable {ns : Namespace} {x : Objective}

open List (infix_append_of_infix_left infix_append_of_infix_right)

theorem Objective.infix_selection (h : x ∈ ofSelection) : x.render ns <:+: Command.frameSelection := by
  rcases List.mem_pair.mp h with rfl | rfl
  · change Bytes.ofString "cr_id" <:+: _
    decide +kernel
  · change Bytes.ofString "cr_fp" <:+: _
    decide +kernel

theorem Score.infix_objective (s : Score) : s.objective.render ns <:+: s.render ns :=
  (List.suffix_append _ _).isInfix

theorem Test.infix_objective {test : Test} (h : x ∈ test.objectives) : x.render ns <:+: test.render ns := by
  cases test with
  | is score value =>
    rw [List.mem_singleton.mp h]
    exact infix_append_of_infix_left (infix_append_of_infix_left
      (infix_append_of_infix_right score.infix_objective))
  | positive score =>
    rw [List.mem_singleton.mp h]
    exact infix_append_of_infix_left (infix_append_of_infix_right score.infix_objective)
  | compare op left right =>
    rcases List.mem_pair.mp h with rfl | rfl
    · refine infix_append_of_infix_left (infix_append_of_infix_left (infix_append_of_infix_left
        (infix_append_of_infix_left ?_)))
      exact infix_append_of_infix_right left.infix_objective
    · exact infix_append_of_infix_right right.infix_objective

/-- An objective that a command names stands in its line. -/
theorem Command.infix_objective {d : Command} (h : x ∈ d.objectives) : x.render ns <:+: d.render ns := by
  have hselection : ∀ {rest : Bytes}, x ∈ Objective.ofSelection → x.render ns <:+: frameSelection ++ rest :=
    fun hx => infix_append_of_infix_left (Objective.infix_selection hx)
  have hset : ∀ (target : Score) (v : Int), target.objective.render ns <:+: setting ns target v :=
    fun target v => infix_append_of_infix_left (infix_append_of_infix_left
      (infix_append_of_infix_right target.infix_objective))
  cases d with
  | numberFrame =>
    rcases List.mem_pair.mp h with rfl | rfl
    · change Bytes.ofString "cr_id" <:+: "execute as @e[tag=" ++ frameTag ++ _ ++ _ ++ _ ++ _
      decide +kernel
    · change Bytes.ofString "cr_fp" <:+: "execute as @e[tag=" ++ frameTag ++ _ ++ _ ++ _ ++ _
      decide +kernel
  | leaveFrame =>
    rw [List.mem_singleton.mp h]
    change Bytes.ofString "cr_fp" <:+: "scoreboard players remove " ++ machineHolder ++ " cr_fp 1"
    decide +kernel
  | tellNumber =>
    rw [List.mem_singleton.mp h]
    change Bytes.ofString "cr_out" <:+: _ ++ machineHolder ++ _
    decide +kernel
  | tellBool value =>
    rw [List.mem_singleton.mp h]
    cases value with
    | true =>
      change Bytes.ofString "cr_out" <:+: "execute if score " ++ machineHolder ++ _
      decide +kernel
    | false =>
      change Bytes.ofString "cr_out" <:+: "execute if score " ++ machineHolder ++ _
      decide +kernel
  | removeFrame => exact infix_append_of_infix_left (hselection h)
  | noFrame =>
    rw [List.mem_singleton.mp h]
    exact hset ⟨.machine, .innermost⟩ 0
  | addObjective y =>
    rw [List.mem_singleton.mp h]
    exact infix_append_of_infix_left (infix_append_of_infix_right List.infix_rfl)
  | set target v =>
    rcases List.mem_append.mp h with h | h
    · exact infix_append_of_infix_left (hselection h)
    · rw [List.mem_singleton.mp h]
      exact infix_append_of_infix_right (hset target v)
  | setIf test target v =>
    rcases List.mem_append.mp h with h | h
    · exact infix_append_of_infix_left (infix_append_of_infix_left (hselection h))
    · rcases List.mem_append.mp h with h | h
      · exact infix_append_of_infix_left (infix_append_of_infix_left
          (infix_append_of_infix_right (Test.infix_objective h)))
      · rw [List.mem_singleton.mp h]
        exact infix_append_of_infix_right (hset target v)
  | operate target op source =>
    rcases List.mem_append.mp h with h | h
    · exact infix_append_of_infix_left (hselection h)
    · refine infix_append_of_infix_right ?_
      rcases List.mem_pair.mp h with rfl | rfl
      · exact infix_append_of_infix_left (infix_append_of_infix_left (infix_append_of_infix_left
          (infix_append_of_infix_left (infix_append_of_infix_right target.infix_objective))))
      · exact infix_append_of_infix_right source.infix_objective
  | storeTest target test =>
    rcases List.mem_append.mp h with h | h
    · exact infix_append_of_infix_left (infix_append_of_infix_left (infix_append_of_infix_left (hselection h)))
    · rcases List.mem_cons.mp h with rfl | h
      · exact infix_append_of_infix_left (infix_append_of_infix_left
          (infix_append_of_infix_right target.infix_objective))
      · exact infix_append_of_infix_right (Test.infix_objective h)
  | callIf test f =>
    rcases List.mem_append.mp h with h | h
    · exact infix_append_of_infix_left (infix_append_of_infix_left (hselection h))
    · exact infix_append_of_infix_left (infix_append_of_infix_left
        (infix_append_of_infix_right (Test.infix_objective h)))
  | _ => cases h

end

end Craftlang
