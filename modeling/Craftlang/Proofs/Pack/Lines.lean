import Craftlang.Proofs.Code.Makeup
import Craftlang.Proofs.Syntax.Strings

/-!
# The lines of a pack

A file of a pack is a list of lines that no line feed cuts, each with the end of line behind it. In a document
the text that the pack brings is quoted, so a line feed only ends a line; and a command is one line if the raw
command that it may be is one.
-/

namespace Craftlang

open ResourceName (IsName)

/-! ## Lines -/

/-- Text that no line feed cuts. -/
def Bytes.IsLine (s : Bytes) : Prop := lineFeed ∉ s

instance (s : Bytes) : Decidable s.IsLine := inferInstanceAs (Decidable (lineFeed ∉ s))

namespace Bytes

variable {s t : Bytes} {ls : List Bytes}

theorem isLine_append : IsLine (s ++ t) ↔ s.IsLine ∧ t.IsLine := by
  rw [IsLine, List.mem_append, not_or]
  rfl

theorem IsLine.append (hs : s.IsLine) (ht : t.IsLine) : IsLine (s ++ t) := isLine_append.mpr ⟨hs, ht⟩

theorem IsLine.cons {b : UInt8} (hb : b ≠ lineFeed) (hs : s.IsLine) : IsLine (b :: s) := fun hmem =>
  (List.mem_cons.mp hmem).elim (fun heq => hb heq.symm) hs

/-- Text that holds certain bytes only is a line if the line feed is none of them. -/
theorem IsLine.of_forall {p : UInt8 → Bool} (hp : p lineFeed = false) (h : ∀ b ∈ s, p b = true) : s.IsLine := by
  intro hmem
  rw [h _ hmem] at hp
  cases hp

/-- A character that is not the line feed is spelled without it. -/
theorem isLine_utf8EncodeChar {c : Char} (h : c ≠ '\n') : IsLine (String.utf8EncodeChar c) := by
  have hfeed : ∀ n, n % 256 ≠ 10 → lineFeed ≠ UInt8.ofNat n := fun n hn heq =>
    hn (UInt8.toNat_ofNat'.symm.trans (congrArg UInt8.toNat heq).symm)
  have hne : c.val.toNat ≠ 10 := fun heq => h (Char.ext (UInt32.toNat_inj.mp heq))
  rw [IsLine, String.utf8EncodeChar]
  generalize c.val.toNat = v at hne
  split_ifs with hone htwo hthree <;> simp only [List.mem_cons, List.not_mem_nil, or_false, not_or]
  · exact hfeed _ (by omega)
  · exact ⟨hfeed _ (by omega), hfeed _ (by omega)⟩
  · exact ⟨hfeed _ (by omega), hfeed _ (by omega), hfeed _ (by omega)⟩
  · exact ⟨hfeed _ (by omega), hfeed _ (by omega), hfeed _ (by omega), hfeed _ (by omega)⟩

/-- Text without a line feed among its characters is a line. -/
theorem isLine_text {cs : List Char} (h : '\n' ∉ cs) : IsLine (ofString (String.ofList cs)) := by
  intro hmem
  rw [ofString, String.toList_ofList] at hmem
  obtain ⟨c, hc, hmem⟩ := List.mem_flatMap.mp hmem
  exact isLine_utf8EncodeChar (fun heq => h (heq ▸ hc)) hmem

theorem isLine_of_isName (h : IsName s) : s.IsLine := .of_forall (by decide) h.2

theorem isLine_inBase {base : Nat} (h : base ≤ 36) (n : Nat) : IsLine (inBase base n) := by
  have hdigit : ∀ d, d < base → IsLine [inBase.digit d] := fun d hd =>
    .of_forall (by decide) fun b hb => List.mem_singleton.mp hb ▸ isShort_digit (by omega : d < 36)
  fun_induction inBase base n with
  | case1 => exact List.not_mem_nil
  | case2 _ _ hlt => exact hdigit _ hlt
  | case3 n _ _ ih => exact ih.append (hdigit _ (Nat.mod_lt _ (by omega)))

theorem isLine_shortNumber (n : Nat) : IsLine (shortNumber n) := isLine_inBase (by decide) n

theorem isLine_decimal (n : Nat) : IsLine (decimal n) := by
  intro hmem
  obtain ⟨c, hc, heq⟩ := List.mem_map.mp hmem
  have hdigit : c.isDigit = true := Nat.isDigit_of_mem_toDigits (by decide) (by decide) hc
  simp only [Char.isDigit, Bool.and_eq_true, decide_eq_true_eq] at hdigit
  have hnat := congrArg UInt8.toNat heq
  rw [byte, Char.toUInt8, UInt32.toNat_toUInt8] at hnat
  have hlow : 48 ≤ c.val.toNat := UInt32.le_iff_toNat_le.mp hdigit.1
  have hhigh : c.val.toNat ≤ 57 := UInt32.le_iff_toNat_le.mp hdigit.2
  have hfeed : lineFeed.toNat = 10 := rfl
  omega

theorem isLine_signedDecimal (n : Int) : IsLine (signedDecimal n) := by
  rw [signedDecimal]
  split
  · exact (isLine_decimal _).cons (by decide)
  · exact isLine_decimal _

theorem isLine_join {separator : Bytes} (hs : separator.IsLine) (h : ∀ l ∈ ls, l.IsLine) :
    IsLine (join separator ls) := by
  induction ls with
  | nil => exact List.not_mem_nil
  | cons l ls ih =>
    rw [List.forall_mem_cons] at h
    by_cases hls : ls = []
    · rw [hls]
      exact h.1
    · rw [join_cons _ _ hls]
      exact (h.1.append hs).append (ih h.2)

end Bytes

open Bytes

/-! ## Commands -/

/-- Raw commands that are lines, and any strings. -/
def Materials.lines : Materials := ⟨Bytes.IsLine, fun _ => True, trivial⟩

theorem Materials.supplies_lines (es : List Expr) : lines.Supplies es := by
  intro e _
  unfold Allows
  split <;> trivial

section

variable {ns : Namespace}

theorem FunctionName.IsNamed.isLine_render {f : FunctionName} (h : f.IsNamed) : IsLine f.render := by
  have hhidden : IsLine hiddenDirectory := isLine_text (by decide)
  cases f with
  | declared name => exact isLine_of_isName h
  | piece owner n =>
    exact ((hhidden.append (isLine_of_isName h)).append (isLine_text (by decide))).append (isLine_shortNumber n)
  | loader | joiner => exact hhidden.append (isLine_text (by decide))

namespace Namespace

theorem isLine_name (hns : ∀ part ∈ ns.parts, IsName part) : IsLine ns.name :=
  isLine_of_isName (hns _ List.mem_cons_self)

theorem isLine_objective (hns : ∀ part ∈ ns.parts, IsName part) : IsLine ns.objective :=
  (isLine_text (by decide)).append
    (isLine_join (isLine_text (by decide)) fun part hpart => isLine_of_isName (hns part hpart))

theorem isLine_resource (hns : ∀ part ∈ ns.parts, IsName part) {function : Bytes} (hf : function.IsLine) :
    IsLine (ns.resource function) := by
  have hparts : ∀ part ∈ ns.directories ++ [function], part.IsLine := by
    intro part hpart
    rcases List.mem_append.mp hpart with hpart | hpart
    · exact isLine_of_isName (hns part (List.mem_cons_of_mem _ hpart))
    · rwa [List.mem_singleton.mp hpart]
  exact ((isLine_name hns).append (isLine_text (by decide))).append (isLine_join (isLine_text (by decide)) hparts)

end Namespace

theorem Objective.isLine_render (hns : ∀ part ∈ ns.parts, IsName part) (x : Objective) : IsLine (x.render ns) := by
  cases x with
  | argument n => exact (isLine_text (by decide)).append (isLine_shortNumber n)
  | slot n => exact (isLine_text (by decide)).append (isLine_shortNumber n)
  | globals => exact Namespace.isLine_objective hns
  | _ => exact isLine_text (by decide)

theorem isLine_machineHolder : IsLine machineHolder := isLine_text (by decide)

theorem isLine_frameTag : IsLine frameTag := isLine_text (by decide)

theorem isLine_runStorage : IsLine runStorage := isLine_text (by decide)

theorem Holder.IsNamed.isLine_render {x : Holder} (h : x.IsNamed) : IsLine x.render := by
  cases x with
  | global name n =>
    exact (((isLine_text (by decide)).append (isLine_of_isName h)).append (isLine_text (by decide))).append
      (isLine_shortNumber n)
  | frame => exact isLine_text (by decide)
  | machine => exact isLine_machineHolder

theorem Score.IsNamed.isLine_render (hns : ∀ part ∈ ns.parts, IsName part) {t : Score} (h : t.IsNamed) :
    IsLine (t.render ns) :=
  ((Holder.IsNamed.isLine_render h).append (isLine_text (by decide))).append (t.objective.isLine_render hns)

theorem Test.IsNamed.isLine_render (hns : ∀ part ∈ ns.parts, IsName part) {test : Test} (h : test.IsNamed) :
    IsLine (test.render ns) := by
  cases test with
  | is t value =>
    exact (((isLine_text (by decide)).append (Score.IsNamed.isLine_render hns h)).append
      (isLine_text (by decide))).append (isLine_decimal value)
  | positive t =>
    exact ((isLine_text (by decide)).append (Score.IsNamed.isLine_render hns h)).append (isLine_text (by decide))
  | compare op left right =>
    have hword : IsLine (if op = .notEq then Bytes.ofString "unless" else Bytes.ofString "if") := by
      split <;> exact isLine_text (by decide)
    have hsign : IsLine (Bytes.ofString op.sign) := by cases op <;> exact isLine_text (by decide)
    have hspace : IsLine (Bytes.ofString " ") := isLine_text (by decide)
    have hleft := (hword.append (isLine_text (by decide : '\n' ∉ " score ".toList))).append
      (Score.IsNamed.isLine_render hns h.1)
    exact (((hleft.append hspace).append hsign).append hspace).append (Score.IsNamed.isLine_render hns h.2)

namespace TextPlace

theorem isLine_path (p : TextPlace) : IsLine p.path := by
  cases p with
  | slot n | global n | argument n => exact (isLine_text (by decide)).append (isLine_shortNumber n)
  | _ => exact isLine_text (by decide)

theorem isLine_storage (hns : ∀ part ∈ ns.parts, IsName part) (p : TextPlace) : IsLine (p.storage ns) := by
  cases p with
  | global n => exact (Namespace.isLine_name hns).append (isLine_text (by decide))
  | _ => exact isLine_runStorage

theorem isLine_render (hns : ∀ part ∈ ns.parts, IsName part) (p : TextPlace) : IsLine (p.render ns) :=
  (((isLine_text (by decide)).append (p.isLine_storage hns)).append (isLine_text (by decide))).append p.isLine_path

end TextPlace

namespace Command

theorem isLine_frameSelection : IsLine frameSelection := by
  exact ((((isLine_text (by decide)).append isLine_frameTag).append (isLine_text (by decide))).append
    isLine_machineHolder).append (isLine_text (by decide))

theorem isLine_inFrame {command : Bytes} (h : command.IsLine) : IsLine (inFrame command) :=
  (isLine_frameSelection.append (isLine_text (by decide))).append h

theorem isLine_inFrameIf (hns : ∀ part ∈ ns.parts, IsName part) {test : Test} (ht : test.IsNamed)
    {command : Bytes} (h : command.IsLine) : IsLine (inFrameIf ns test command) := by
  have hspace : IsLine (Bytes.ofString " ") := isLine_text (by decide)
  have htest := (isLine_frameSelection.append hspace).append (ht.isLine_render hns)
  exact (htest.append (isLine_text (by decide))).append h

theorem isLine_setting (hns : ∀ part ∈ ns.parts, IsName part) {target : Score} (h : target.IsNamed) (value : Int) :
    IsLine (setting ns target value) :=
  (((isLine_text (by decide)).append (h.isLine_render hns)).append (isLine_text (by decide))).append
    (isLine_signedDecimal value)

theorem isLine_calling (hns : ∀ part ∈ ns.parts, IsName part) {f : FunctionName} (h : f.IsNamed) :
    IsLine (calling ns f) :=
  (isLine_text (by decide)).append (Namespace.isLine_resource hns h.isLine_render)

/-- A command is written on one line if its raw text is a line: a string is quoted, and names are resource
names. -/
theorem IsMadeOf.isLine_render (hns : ∀ part ∈ ns.parts, IsName part) {d : Command} (h : d.IsMadeOf .lines) :
    IsLine (d.render ns) := by
  cases d with
  | raw text => exact h
  | set target value => exact isLine_inFrame (isLine_setting hns h value)
  | setIf test target value => exact isLine_inFrameIf hns h.1 (isLine_setting hns h.2 value)
  | operate target op source =>
    have hsign : IsLine (Bytes.ofString op.sign) := by cases op <;> exact isLine_text (by decide)
    exact isLine_inFrame ((((((isLine_text (by decide)).append (h.1.isLine_render hns)).append
      (isLine_text (by decide))).append hsign).append (isLine_text (by decide))).append (h.2.isLine_render hns))
  | storeTest target test =>
    exact (((isLine_frameSelection.append (isLine_text (by decide))).append (h.1.isLine_render hns)).append
      (isLine_text (by decide))).append (h.2.isLine_render hns)
  | setText target value =>
    exact (((isLine_text (by decide)).append (target.isLine_render hns)).append (isLine_text (by decide))).append
      (Snbt.notMem_quote value).1
  | copyText target source =>
    exact (((isLine_text (by decide)).append (target.isLine_render hns)).append (isLine_text (by decide))).append
      (source.isLine_render hns)
  | call f => exact isLine_calling hns h
  | callIf test f => exact isLine_inFrameIf hns h.1 (isLine_calling hns h.2)
  | joinTexts =>
    have hjoiner : FunctionName.IsNamed .joiner := trivial
    exact (((isLine_calling hns hjoiner).append (isLine_text (by decide))).append isLine_runStorage).append
      (isLine_text (by decide))
  | tellText source =>
    exact ((((isLine_text (by decide)).append source.isLine_path).append (isLine_text (by decide))).append
      (source.isLine_storage hns)).append (isLine_text (by decide))
  | addObjective x => exact ((isLine_text (by decide)).append (x.isLine_render hns)).append (isLine_text (by decide))
  | noFrame =>
    have hinnermost : Score.IsNamed ⟨.machine, .innermost⟩ := trivial
    exact isLine_setting hns hinnermost 0
  | tellBool value =>
    cases value <;> exact ((isLine_text (by decide)).append isLine_machineHolder).append (isLine_text (by decide))
  | removeFrame => exact isLine_inFrame (isLine_text (by decide))
  | numberFrame =>
    exact (((((isLine_text (by decide)).append isLine_frameTag).append (isLine_text (by decide))).append
      (isLine_text (by decide))).append isLine_machineHolder).append (isLine_text (by decide))
  | unlimitedChain => exact isLine_text (by decide)
  | summonFrame | removeAllFrames =>
    exact ((isLine_text (by decide)).append isLine_frameTag).append (isLine_text (by decide))
  | leaveFrame | tellNumber =>
    exact ((isLine_text (by decide)).append isLine_machineHolder).append (isLine_text (by decide))
  | pushTexts | popTexts | joinedText | noTexts =>
    exact ((isLine_text (by decide)).append isLine_runStorage).append (isLine_text (by decide))

end Command

end

/-! ## Documents -/

namespace Datapack

/-- Every command of the pack is a line. -/
def IsLined (d : Datapack) : Prop := ∀ f ∈ d.functions, ∀ line ∈ f.lines, line.IsLine

variable {d : Datapack}

end Datapack

end Craftlang
