import Craftlang.Proofs.Syntax.Printing
import Craftlang.Token.Literal
import Mathlib.Data.Nat.Digits.Defs

/-!
# The values of integers

A run of digits is the mark of its base, digits of that base with underscores among them, and the
identifier characters glued to them. It is an integer if it has a digit of its base and nothing is glued to
it, and then its value is the number that its digits denote, as far as 64 bits go; every other run is one
invalid token.
-/

namespace Craftlang

namespace Literal

/-- The marks of the bases that are not ten. -/
def marks : List (Bytes × Nat) := [("0x", 16), ("0X", 16), ("0b", 2), ("0B", 2)]

/-- The mark that a number starts with, and its base. -/
def markOf (text : Bytes) : Bytes × Nat := (marks.find? fun m => m.1.isPrefixOf text).getD ([], 10)

def isDigitOf (base : Nat) (b : UInt8) : Bool := (Bytes.digitValue? b).any (· < base)

/-- The number that the digits in a text denote. -/
def denoted (base : Nat) (text : Bytes) : Nat :=
  Nat.ofDigits base (text.filterMap Bytes.digitValue?).reverse

/-! ## Reading digits -/

theorem denoted_cons {d : UInt8} {v : Nat} (hd : Bytes.digitValue? d = some v) (base : Nat) (digits : Bytes) :
    denoted base (d :: digits)
      = denoted base digits + base ^ (digits.filterMap Bytes.digitValue?).length * v := by
  rw [denoted, List.filterMap_cons_some hd, Nat.ofDigits_reverse_cons]
  rfl

/-- Underscores denote nothing. -/
theorem denoted_filter (base : Nat) (body : Bytes) :
    denoted base (body.filter (· != byte '_')) = denoted base body := by
  have hsame : ∀ d : UInt8, (if d != byte '_' then Bytes.digitValue? d else none) = Bytes.digitValue? d :=
    forall_byte (by decide +kernel)
  rw [denoted, denoted, List.filterMap_filter]
  congr 2
  exact List.filterMap_congr fun d _ => hsame d

/-- A digit of the base, and its value. -/
theorem exists_digitValue {base : Nat} {d : UInt8} (h : isDigitOf base d = true) :
    ∃ v, Bytes.digitValue? d = some v ∧ v < base := by
  obtain ⟨v, hv, hlt⟩ := (Option.any_eq_true _ _).mp h
  exact ⟨v, hv, of_decide_eq_true hlt⟩

/-- Digits are read on from the value of those before them. -/
theorem accumulate_eq {base : Nat} (all : Bytes) {digits : Bytes} (h : ∀ d ∈ digits, isDigitOf base d = true)
    {value : Nat} (hvalue : value < 2 ^ 64) : readDigits.accumulate base all value digits =
      let n := denoted base digits + base ^ (digits.filterMap Bytes.digitValue?).length * value
      if n < 2 ^ 64 then .ok n else .error (.tooLarge all) := by
  induction digits generalizing value with
  | nil =>
    have hn : denoted base [] + base ^ (([] : Bytes).filterMap Bytes.digitValue?).length * value = value := by
      rw [denoted, List.filterMap_nil, List.reverse_nil, Nat.ofDigits_nil, List.length_nil, pow_zero,
        Nat.zero_add, Nat.one_mul]
    dsimp only
    rw [hn, if_pos hvalue, readDigits.accumulate]
  | cons d digits ih =>
    obtain ⟨v, hv, hlt⟩ := exists_digitValue (h d List.mem_cons_self)
    have hrest : ∀ e ∈ digits, isDigitOf base e = true := fun e he => h e (List.mem_cons_of_mem _ he)
    generalize hk : (digits.filterMap Bytes.digitValue?).length = k at ih
    have hn : denoted base (d :: digits) + base ^ ((d :: digits).filterMap Bytes.digitValue?).length * value
        = denoted base digits + base ^ k * (value * base + v) := by
      rw [denoted_cons hv, List.filterMap_cons_some hv, List.length_cons, hk, pow_succ]
      ring
    dsimp only
    rw [hn, readDigits.accumulate, hv]
    dsimp only
    rw [if_neg (Nat.not_le.mpr hlt), show UInt64.size = 2 ^ 64 by decide]
    by_cases hlarge : 2 ^ 64 ≤ value * base + v
    · -- The digits that are left make the number no smaller.
      have hpos : 0 < base ^ k := Nat.pow_pos (Nat.zero_lt_of_lt hlt)
      have hge : value * base + v ≤ base ^ k * (value * base + v) := Nat.le_mul_of_pos_left _ hpos
      rw [if_pos hlarge, if_neg (by omega)]
    · rw [if_neg hlarge, ih hrest (Nat.lt_of_not_le hlarge)]

theorem readDigits_eq {base : Nat} {digits : Bytes} (hne : digits ≠ [])
    (h : ∀ d ∈ digits, isDigitOf base d = true) : readDigits base digits =
      if denoted base digits < 2 ^ 64 then .ok (denoted base digits) else .error (.tooLarge digits) := by
  have hread := accumulate_eq digits h (show (0 : Nat) < 2 ^ 64 by decide)
  rw [Nat.mul_zero, Nat.add_zero] at hread
  rw [readDigits, if_neg (by rwa [List.isEmpty_iff]), hread]

/-! ## Marks -/

theorem markOf_singleton (z : UInt8) : markOf [z] = ([], 10) := by
  have hall : ∀ z : UInt8, markOf [z] = ([], 10) := forall_byte (by decide +kernel)
  exact hall z

theorem markOf_cons_cons (z x : UInt8) (rest : Bytes) : markOf (z :: x :: rest) =
    if z ≠ byte '0' then ([], 10)
    else if x = byte 'x' ∨ x = byte 'X' then ([z, x], 16)
    else if x = byte 'b' ∨ x = byte 'B' then ([z, x], 2)
    else ([], 10) := by
  have hmarks : marks = [([byte '0', byte 'x'], 16), ([byte '0', byte 'X'], 16), ([byte '0', byte 'b'], 2),
      ([byte '0', byte 'B'], 2)] := rfl
  rw [markOf, hmarks]
  by_cases hz : z = byte '0'
  · subst hz
    by_cases hx : x = byte 'x'
    · subst hx; rfl
    by_cases hX : x = byte 'X'
    · subst hX; rfl
    by_cases hb : x = byte 'b'
    · subst hb; rfl
    by_cases hB : x = byte 'B'
    · subst hB; rfl
    simp [List.isPrefixOf, hx, hX, hb, hB, Ne.symm hx, Ne.symm hX, Ne.symm hb, Ne.symm hB]
  · simp [List.isPrefixOf, hz, Ne.symm hz]

theorem mark_cases {s mark : Bytes} {base : Nat} (h : markOf s = (mark, base)) :
    mark <+: s ∧ ((mark, base) ∈ marks ∨ mark = [] ∧ base = 10) := by
  rw [markOf] at h
  cases hfind : marks.find? fun m => m.1.isPrefixOf s with
  | none =>
    rw [hfind] at h
    cases h
    exact ⟨List.nil_prefix, .inr ⟨rfl, rfl⟩⟩
  | some m =>
    rw [hfind] at h
    obtain rfl : m = (mark, base) := h
    have hprefix : mark.isPrefixOf s = true := List.find?_some (p := fun m : Bytes × Nat => m.1.isPrefixOf s) hfind
    exact ⟨List.isPrefixOf_iff_prefix.mp hprefix, .inl (List.mem_of_find?_eq_some hfind)⟩

/-- Digits without a mark are read as decimal. -/
theorem radix_of_decimal {digits : Bytes} (h : ∀ d ∈ digits, isDigitOf 10 d = true) : radix digits = (10, digits) := by
  have hmarks : ∀ d, isDigitOf 10 d = true → (d ≠ byte 'x' ∧ d ≠ byte 'X') ∧ d ≠ byte 'b' ∧ d ≠ byte 'B' :=
    forall_byte (by decide +kernel)
  unfold radix
  split
  · rename_i z x d rest
    obtain ⟨⟨hx, hX⟩, hb, hB⟩ := hmarks x (h x (by simp))
    simp only [hx, hX, hb, hB, decide_false, Bool.or_self, Bool.false_eq_true, if_false, ite_self]
  · rfl

/-- A mark is read as what it stands for, if a digit follows. -/
theorem radix_of_mark {mark digits : Bytes} {base : Nat} (h : (mark, base) ∈ marks) (hne : digits ≠ []) :
    radix (mark ++ digits) = (base, digits) := by
  obtain ⟨d, rest, rfl⟩ := List.exists_cons_of_ne_nil hne
  simp only [marks, List.mem_cons, List.not_mem_nil, or_false, Prod.mk.injEq] at h
  obtain ⟨rfl, rfl⟩ | ⟨rfl, rfl⟩ | ⟨rfl, rfl⟩ | ⟨rfl, rfl⟩ := h <;> rfl

/-- An integer has the value that its digits denote, unless that needs more than 64 bits. -/
theorem integer_eq {mark body : Bytes} {base : Nat} (hmark : markOf (mark ++ body) = (mark, base))
    (hbody : body.AreDigits (isDigitOf base)) : integer (mark ++ body) =
      if denoted base body < 2 ^ 64 then .ok (denoted base body)
      else .error (.tooLarge (body.filter (· != byte '_'))) := by
  have honly : ∀ d ∈ body.filter (· != byte '_'), isDigitOf base d = true := fun d hd => by
    obtain ⟨hmem, hline⟩ := List.mem_filter.mp hd
    exact (hbody.only d hmem).resolve_right (bne_iff_ne.mp hline)
  have hne : body.filter (· != byte '_') ≠ [] := by
    obtain ⟨d, hd, hdigit⟩ := hbody.some
    have hline : d ≠ byte '_' := by
      rintro rfl
      cases hdigit
    exact List.ne_nil_of_mem (List.mem_filter.mpr ⟨hd, bne_iff_ne.mpr hline⟩)
  have hradix : radix ((mark ++ body).filter (· != byte '_')) = (base, body.filter (· != byte '_')) := by
    rw [List.filter_append]
    obtain hmem | ⟨rfl, rfl⟩ := (mark_cases hmark).2
    · have hkeeps : ∀ m ∈ marks, m.1.filter (· != byte '_') = m.1 := by decide
      rw [hkeeps _ hmem, radix_of_mark hmem hne]
    · rw [List.filter_nil, List.nil_append, radix_of_decimal honly]
  rw [integer, hradix]
  dsimp only
  rw [readDigits_eq hne honly, denoted_filter]

end Literal

namespace Lexeme

open Literal

/-- The bytes that count as digits of a number are the digits of its base. -/
theorem numeral_eq (b : UInt8) (rest : Bytes) :
    numeral b rest = (isDigitOf (markOf (b :: rest)).2, (markOf (b :: rest)).1.length) := by
  have hten : Bytes.isDigit = isDigitOf 10 := funext (forall_byte (by decide +kernel))
  have hsixteen : Bytes.isHexDigit = isDigitOf 16 := funext (forall_byte (by decide +kernel))
  have htwo : (fun d => d == byte '0' || d == byte '1') = isDigitOf 2 := funext (forall_byte (by decide +kernel))
  cases rest with
  | nil => rw [numeral, markOf_singleton, hten]; rfl
  | cons x rest =>
    rw [numeral, markOf_cons_cons, hten, hsixteen, htwo]
    simp only [Bool.or_eq_true, decide_eq_true_eq]
    split
    · rfl
    split
    · rfl
    split <;> rfl

end Lexeme

/-! ## Runs of digits -/

/-- A text that does not go on with an identifier character. -/
def Bytes.EndsWord (t : Bytes) : Prop :=
  ∀ b rest, t = b :: rest → Lexeme.continuesWord (Utf8.decodeCons b rest) = false

theorem Bytes.endsWord_iff (t : Bytes) : t.EndsWord ↔ Lexeme.wordLength t = 0 := by
  cases t with
  | nil => exact ⟨fun _ => by rw [Lexeme.wordLength], fun _ b rest h => by cases h⟩
  | cons b rest =>
    have hpos := Utf8.size_decodeCons_pos b rest
    rw [Lexeme.wordLength]
    refine ⟨fun h => by rw [h b rest rfl, if_neg Bool.false_ne_true], fun h c more hc => ?_⟩
    obtain ⟨rfl, rfl⟩ := List.cons.inj hc
    by_contra hgoes
    rw [if_pos (Bool.eq_true_of_not_eq_false hgoes)] at h
    omega

namespace Literal

/-- A run of digits in its parts, and what is behind it. -/
structure Run where
  mark : Bytes
  base : Nat
  body : Bytes
  glued : Bytes
  behind : Bytes

namespace Run

def text (r : Run) : Bytes := r.mark ++ r.body ++ r.glued

/-- Does the run have a digit of its base, and nothing glued to it? -/
def isInteger (r : Run) : Bool := r.body.any (isDigitOf r.base) && r.glued.isEmpty

def kind (r : Run) : Kind := if r.isInteger then .intLit else .invalid

/-- The run that a text starts with: the mark of its base, if it has one, the digits of the base and
underscores behind it, and the identifier characters that follow these. -/
structure Opens (r : Run) (s : Bytes) : Prop where
  split : s = r.text ++ r.behind
  digit : ∃ d ∈ s.head?, Bytes.isDigit d = true
  mark : markOf s = (r.mark, r.base)
  body : ∀ d ∈ r.body, isDigitOf r.base d = true ∨ d = byte '_'
  stops : ∀ d ∈ (r.glued ++ r.behind).head?, isDigitOf r.base d = false ∧ d ≠ byte '_'
  glued : r.glued.IsWord
  ends : r.behind.EndsWord

/-- Every text that starts with a digit starts with a run. -/
theorem exists_opens {b : UInt8} (hb : Bytes.isDigit b = true) (rest : Bytes) :
    ∃ r : Run, r.Opens (b :: rest) := by
  generalize hs : b :: rest = s
  obtain ⟨left, hleft⟩ := (mark_cases (Prod.mk.eta (p := markOf s)).symm).1
  let isDigit := fun d => isDigitOf (markOf s).2 d || d == byte '_'
  have hbehind := List.takeWhile_append_dropWhile (p := isDigit) (l := left)
  have hword := List.take_append_drop (Lexeme.wordLength (left.dropWhile isDigit)) (left.dropWhile isDigit)
  refine ⟨⟨(markOf s).1, (markOf s).2, left.takeWhile isDigit, _, _⟩, ?_, ?_, rfl, fun d hd => ?_, ?_,
    Lexeme.isWord_take_wordLength (left.dropWhile isDigit),
    (Bytes.endsWord_iff _).mpr (Lexeme.wordLength_drop (left.dropWhile isDigit))⟩
  · rw [text, List.append_assoc, hword, List.append_assoc, hbehind, hleft]
  · rw [← hs]
    exact ⟨b, rfl, hb⟩
  · have hdigit := List.mem_takeWhile_imp hd
    rwa [Bool.or_eq_true, beq_iff_eq] at hdigit
  · rw [hword]
    intro d hd
    have hstop : (isDigitOf (markOf s).2 d || d == byte '_') = false := by
      have hhead := List.head?_dropWhile_not isDigit left
      rw [Option.mem_def.mp hd] at hhead
      exact hhead
    rw [Bool.or_eq_false_iff, beq_eq_false_iff_ne] at hstop
    exact hstop

/-- A run is never empty. -/
theorem Opens.text_ne_nil {r : Run} {s : Bytes} (h : r.Opens s) : r.text ≠ [] := by
  intro hnil
  obtain ⟨d, hd, hdigit⟩ := h.digit
  obtain ⟨hfront, hglued⟩ := List.append_eq_nil_iff.mp hnil
  obtain ⟨hmark, hbody⟩ := List.append_eq_nil_iff.mp hfront
  have hbehind : s = r.glued ++ r.behind := by
    rw [h.split, text, hmark, hbody, List.nil_append, List.nil_append]
  have hbase : r.base = 10 := by
    have hmarked : ∀ m ∈ marks, m.1 ≠ [] := by decide
    obtain hmem | ⟨-, hbase⟩ := (mark_cases h.mark).2
    · exact absurd hmark (hmarked _ hmem)
    · exact hbase
  have hall : ∀ d : UInt8, Bytes.isDigit d = true → isDigitOf 10 d = true := forall_byte (by decide +kernel)
  have hstop := (h.stops d (hbehind ▸ hd)).1
  rw [hbase, hall d hdigit] at hstop
  cases hstop

/-- A run is read as one number. -/
theorem Opens.number {r : Run} {b : UInt8} {rest : Bytes} (h : r.Opens (b :: rest)) : Lexeme.number b rest =
    ⟨r.kind, r.text, r.text.length, if r.isInteger then [] else [⟨.malformedNumber, 0, r.text.length⟩]⟩ := by
  have hpos : 1 ≤ r.text.length := List.length_pos_iff.mpr h.text_ne_nil
  have hsplit : b :: rest = r.mark ++ (r.body ++ (r.glued ++ r.behind)) := by
    rw [h.split, text, List.append_assoc, List.append_assoc]
  have hdrop : (b :: rest).drop r.mark.length = r.body ++ (r.glued ++ r.behind) := by
    rw [hsplit, List.drop_left]
  have hbody : (r.body ++ (r.glued ++ r.behind)).takeWhile (fun d => isDigitOf r.base d || d == byte '_')
      = r.body := by
    rw [List.takeWhile_append_of_pos fun d hd => by rw [Bool.or_eq_true, beq_iff_eq]; exact h.body d hd]
    cases hleft : r.glued ++ r.behind with
    | nil => rw [List.takeWhile_nil, List.append_nil]
    | cons c left =>
      obtain ⟨hdigit, hline⟩ := h.stops c (by rw [hleft]; exact rfl)
      rw [List.takeWhile_cons_of_neg (by simp [hdigit, hline]), List.append_nil]
  have hglued : Lexeme.wordLength ((b :: rest).drop (r.mark.length + r.body.length)) = r.glued.length := by
    rw [← List.drop_drop, hdrop, List.drop_left,
      Lexeme.wordLength_append_of_eq _ _ (Lexeme.wordLength_of_isWord _ h.glued),
      (Bytes.endsWord_iff _).mp h.ends, Nat.add_zero]
  have hlength : r.mark.length + r.body.length + r.glued.length = r.text.length := by
    rw [text, List.length_append, List.length_append]
  have htake : (b :: rest).take r.text.length = r.text := by rw [h.split, List.take_left]
  have hnothing : (r.glued.length == 0) = r.glued.isEmpty := by cases r.glued <;> rfl
  unfold Lexeme.number
  rw [Lexeme.numeral_eq, h.mark]
  dsimp only
  rw [hdrop, hbody, hglued, hlength, Nat.max_eq_right hpos, htake, hnothing, kind, isInteger]
  split <;> rfl

/-- The mark and the digits alone start with the same mark. -/
theorem Opens.markOf_body {r : Run} {s : Bytes} (h : r.Opens s) : markOf (r.mark ++ r.body) = (r.mark, r.base) := by
  have hsplit : s = r.mark ++ r.body ++ (r.glued ++ r.behind) := by rw [h.split, text, List.append_assoc]
  obtain hmem | ⟨hmark, hbase⟩ := (mark_cases h.mark).2
  · have hmarked : ∀ m ∈ marks, m.1.length = 2 := by decide
    have hlength : r.mark.length = 2 := hmarked _ hmem
    obtain ⟨z, x, hzx⟩ := List.length_eq_two.mp hlength
    have hmark := h.mark
    rw [hsplit, hzx] at hmark
    rw [hzx]
    exact (markOf_cons_cons z x _).trans ((markOf_cons_cons z x _).symm.trans hmark)
  · have hsame := h.mark
    rw [hsplit, hmark, hbase, List.nil_append] at hsame
    rw [hmark, hbase, List.nil_append]
    match hbody : r.body with
    | [] => rfl
    | [z] => exact markOf_singleton z
    | z :: x :: rest =>
      rw [hbody] at hsame
      exact (markOf_cons_cons z x _).trans ((markOf_cons_cons z x _).symm.trans hsame)

theorem Opens.digit_text {r : Run} {s : Bytes} (h : r.Opens s) : ∃ d ∈ r.text.head?, Bytes.isDigit d = true := by
  obtain ⟨c, more, htext⟩ := List.exists_cons_of_ne_nil h.text_ne_nil
  have hdigit := h.digit
  rw [h.split, htext] at hdigit
  rw [htext]
  exact hdigit

end Run

end Literal

namespace Lexeme

/-- Only runs of digits are integers. -/
theorem number_of_intLit {atLineStart : Bool} {b : UInt8} {rest : Bytes}
    (h : (read atLineStart b rest).kind = .intLit) :
    Bytes.isDigit b = true ∧ read atLineStart b rest = number b rest := by
  rcases read_cases atLineStart b rest with ⟨-, hread⟩ | hnumber | ⟨-, hread⟩ | hkind
  · rw [hread] at h
    cases h
  · exact hnumber
  · rw [hread] at h
    rcases string_kind b rest with hk | hk <;> cases hk.symm.trans h
  · rw [h] at hkind
    exact absurd (by decide) hkind

/-- What starts with a digit is read as a number. -/
theorem read_of_isDigit {b : UInt8} (hb : Bytes.isDigit b = true) (atLineStart : Bool) (rest : Bytes) :
    Piece.read atLineStart b rest = .lexeme (number b rest) := by
  have hall : ∀ b, Bytes.isDigit b = true → Piece.isBlank b = false ∧ b ≠ byte '#' ∧ b ≠ lineFeed ∧ b ≠ byte '/' :=
    forall_byte (by decide +kernel)
  obtain ⟨hblank, hcomment, hfeed, hslash⟩ := hall b hb
  rw [Piece.read, if_neg (by simp [hblank]), if_neg hcomment, if_neg hfeed, read, if_neg (by simp [hslash]), if_pos hb]

end Lexeme

namespace File

/-- Every integer of a file is a mark and digits of its base, and its value is the number that they denote,
unless that takes more than 64 bits; and every run of digits that reading comes to is one token, an invalid
one if the run has no digit of its base or something is glued to it. -/
theorem integers_denote (f : File) :
    (∀ t ∈ f.tokenize, t.kind = .intLit → ∃ mark base body, t.text = mark ++ body ∧
      Literal.markOf t.text = (mark, base) ∧ (∃ d ∈ t.text.head?, Bytes.isDigit d = true) ∧
      body.AreDigits (Literal.isDigitOf base) ∧
      Literal.integer t.text = if Literal.denoted base body < 2 ^ 64 then .ok (Literal.denoted base body)
        else .error (.tooLarge (body.filter (· != byte '_')))) ∧
    ∀ bs s, f.Reaches bs s → ∀ r : Literal.Run, r.Opens s.rest → ∃ layout batch s',
      f.Reaches (bs ++ [batch]) s' ∧ s'.rest = r.behind ∧
      batch.tokens = layout ++ [⟨if r.isInteger then .intLit else .invalid, s.ahead r.text.length, r.text, s.held⟩] ∧
      ∀ t ∈ layout, t.kind.isLayout = true := by
  refine ⟨fun t ht hk => ?_, fun bs s hreach r hr => ?_⟩
  · obtain ⟨bs, s, b, rest, l, hreach, hs, hread, rfl⟩ :=
      exists_reaches_lexeme ht (by rw [hk]; rfl) (by rw [hk]; exact Kind.noConfusion)
    have hl := Scan.eq_read_of_lexeme hread
    obtain ⟨hb, hnumber⟩ := Lexeme.number_of_intLit (hl ▸ hk)
    obtain ⟨r, hr⟩ := Literal.Run.exists_opens hb rest
    rw [hnumber, hr.number] at hl
    subst hl
    have hinteger : r.isInteger = true := by
      by_contra hfails
      rw [Literal.Run.kind, if_neg hfails] at hk
      cases hk
    obtain ⟨hsome, hglued⟩ := (Bool.and_eq_true _ _).mp hinteger
    have htext : r.text = r.mark ++ r.body := by
      rw [Literal.Run.text, List.isEmpty_iff.mp hglued, List.append_nil]
    have hbody : r.body.AreDigits (Literal.isDigitOf r.base) := ⟨hr.body, List.any_eq_true.mp hsome⟩
    have hdigit := hr.digit_text
    rw [htext] at hdigit
    dsimp only
    rw [htext]
    exact ⟨r.mark, r.base, r.body, rfl, hr.markOf_body, hdigit, hbody, Literal.integer_eq hr.markOf_body hbody⟩
  · obtain ⟨b, hhead, hb⟩ := hr.digit
    obtain ⟨rest, hs⟩ := List.head?_eq_some_iff.mp hhead
    have hr' := hs ▸ hr
    have hread := Lexeme.read_of_isDigit hb s.atLineStart rest
    have hnext := s.rest_step b rest
    rw [hread, hr'.number] at hnext
    refine ⟨if s.atLineStart then s.settle.2.tokens else [], (s.step b rest).2, _, hreach.step hs, ?_, ?_, fun t ht => ?_⟩
    · rw [hnext, hr.split]
      exact List.drop_left
    · change (s.take (Piece.read s.atLineStart b rest)).2.tokens = _
      rw [hread, hr'.number, Scan.take]
      cases s.atLineStart <;> rfl
    · split at ht
      · exact (Scan.mem_settle_tokens ht).1
      · cases ht

/-- A run to which a digit of no binary number is glued, and a hexadecimal number. -/
def glued : File := ⟨0, "glued.craft", "0b2 0x_1F", {}⟩

theorem integers_glued : Literal.integer "0x_1F" = .ok 31 ∧ ∃ layout batch s',
    glued.Reaches ([] ++ [batch]) s' ∧ s'.rest = " 0x_1F" ∧
      batch.tokens = layout ++ [⟨.invalid, ⟨0, 0, 3⟩, "0b2", []⟩] ∧ ∀ t ∈ layout, t.kind.isLayout = true := by
  obtain ⟨hvalues, hruns⟩ := integers_denote glued
  refine ⟨?_, ?_⟩
  · obtain ⟨mark, base, body, htext, hmark, -, -, hvalue⟩ :=
      hvalues ⟨.intLit, ⟨0, 4, 9⟩, "0x_1F", [⟨.space, ⟨0, 3, 4⟩, " "⟩]⟩ (by decide +kernel) rfl
    have hmarked : Literal.markOf "0x_1F" = (Bytes.ofString "0x", 16) := by decide +kernel
    obtain ⟨rfl, rfl⟩ := Prod.mk.inj (hmarked.symm.trans hmark)
    obtain rfl : body = "_1F" := List.append_cancel_left htext.symm
    refine hvalue.trans ?_
    decide +kernel
  · have hword : Bytes.IsWord [byte '2'] := by unfold Bytes.IsWord; decide +kernel
    have hends : Bytes.EndsWord " 0x_1F" := (Bytes.endsWord_iff _).mpr (by decide +kernel)
    exact hruns [] (.start glued) .start ⟨"0b", 2, [], [byte '2'], " 0x_1F"⟩
      ⟨by decide +kernel, ⟨byte '0', rfl, rfl⟩, by decide +kernel, nofun, by decide +kernel, hword, hends⟩

end File

end Craftlang
