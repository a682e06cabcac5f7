import Craftlang.Build.Compile
import Craftlang.Diagnostic.Basic

/-!
# Two limits on one list

A parser with a limit stops reporting after so many errors, and the bag it reports to has the same limit.
The parser counts less than the bag does, since what is wrong with the text goes past its counter: the
bag is full no later than the parser falls silent, and what is kept is a beginning of all there is.
-/

/-!
## What a bag keeps

A bag with a limit refuses what comes once it is full, so it shows a beginning of what it was given. The
view of a bag is the whole sequence it was given, and its items are as much of that as the limit allows.
-/

namespace Craftlang

namespace Bag

/-- As many diagnostics as a limit allows, the first ones; all of them if there is no limit. -/
def keep (limit : Nat) (ds : List Diagnostic) : List Diagnostic :=
  if limit = 0 then ds else ds.take limit

@[simp] theorem keep_nil (limit : Nat) : keep limit [] = [] := by simp [keep]

@[simp] theorem keep_zero (ds : List Diagnostic) : keep 0 ds = ds := rfl

theorem keep_of_pos {n : Nat} (hn : 0 < n) (ds : List Diagnostic) : keep n ds = ds.take n := by
  rw [keep, if_neg (by omega)]

/-- What was refused once is not let in by what is kept: later reports find the bag as full. -/
theorem keep_keep_append (n : Nat) (ds es : List Diagnostic) :
    keep n (keep n ds ++ es) = keep n (ds ++ es) := by
  by_cases hn : n = 0
  · subst hn; rfl
  · simp only [keep, if_neg hn, List.take_append, List.take_take, Nat.min_self,
      List.length_take]
    congr 2
    omega

/-- A full bag lets nothing in. -/
theorem keep_append_of_le {n : Nat} (hn : 0 < n) {ds : List Diagnostic} (hd : n ≤ ds.length)
    (es : List Diagnostic) : keep n (ds ++ es) = keep n ds := by
  rw [keep_of_pos hn, keep_of_pos hn, List.take_append_of_le_length hd]

theorem mem_of_mem_keep {n : Nat} {ds : List Diagnostic} {d : Diagnostic} (hd : d ∈ keep n ds) :
    d ∈ ds := by
  rw [keep] at hd
  split at hd
  · exact hd
  · exact List.mem_of_mem_take hd

/-- The bag was given these diagnostics, in this order. -/
def Received (b : Bag) (ds : List Diagnostic) : Prop := b.items = keep b.limit ds

theorem received_ofLimit (limit : Int) : (ofLimit limit).Received [] := by
  simp [Received, ofLimit, keep]

@[simp] theorem limit_add (b : Bag) (d : Diagnostic) : (b.add d).limit = b.limit := by
  rw [add]
  split <;> rfl

/-- A bag without a limit takes everything. -/
theorem addAll_unlimited {b : Bag} (h : b.limit = 0) (ds : List Diagnostic) :
    b.addAll ds = ⟨0, b.items ++ ds⟩ := by
  obtain ⟨limit, items⟩ := b
  subst h
  induction ds generalizing items with
  | nil => rw [List.append_nil]; rfl
  | cons d ds ih =>
    rw [List.append_cons]
    exact ih (items ++ [d])

@[simp] theorem limit_addAll (b : Bag) (ds : List Diagnostic) :
    (b.addAll ds).limit = b.limit := by
  induction ds generalizing b with
  | nil => rfl
  | cons d ds ih => exact (ih (b.add d)).trans (limit_add b d)

namespace Received

variable {b : Bag} {ds : List Diagnostic}

theorem add (h : b.Received ds) (d : Diagnostic) : (b.add d).Received (ds ++ [d]) := by
  have hi : b.items = keep b.limit ds := h
  rw [Received, limit_add, Bag.add, isFull]
  rcases Nat.eq_zero_or_pos b.limit with hl | hl
  · simp [hi, hl]
  · rw [keep_of_pos hl] at hi ⊢
    by_cases hd : b.limit ≤ ds.length
    · have hf : b.limit ≤ b.items.length := by rw [hi, List.length_take]; omega
      rw [List.take_append_of_le_length hd, if_pos (by simp [hl, hf]), hi]
    · have hf : ¬ b.limit ≤ b.items.length := by rw [hi, List.length_take]; omega
      have ht : (ds ++ [d]).take b.limit = ds ++ [d] :=
        List.take_of_length_le (by simp only [List.length_append, List.length_singleton]; omega)
      rw [ht, if_neg (by simp [hf]), hi, List.take_of_length_le (Nat.le_of_not_le hd)]

theorem addAll (h : b.Received ds) (es : List Diagnostic) : (b.addAll es).Received (ds ++ es) := by
  induction es generalizing b ds with
  | nil => rw [List.append_nil]; exact h
  | cons e es ih =>
    rw [List.append_cons]
    exact ih (h.add e)

/-- A bag that was given what another had kept of a sequence cannot be told from one that was given
all of it. -/
theorem keep_left (h : b.Received ds) {n : Nat} (hn : b.limit = n) {es : List Diagnostic}
    (he : ds = keep n es) : b.Received es := by
  rw [Received, h, he, hn]
  simpa using keep_keep_append n es []

theorem hasErrors_eq (h : b.Received ds) : b.hasErrors = (keep b.limit ds).any (·.isError) := by
  rw [hasErrors, h]
  rfl

end Received

end Bag

/-! ## A parser with a limit -/

namespace Parse

/-- Problems in the order of tokens are errors, so a parser that stops after so many of them passes on as
many findings. -/
theorem admitted_eq_take {enough : Nat} (henough : 0 < enough) (counted : Nat)
    (findings : List Finding) :
    admitted enough counted findings = findings.take (enough - counted) := by
  induction findings generalizing counted with
  | nil => simp [admitted]
  | cons f findings ih =>
    have herror : f.diagnostic.isError = true := rfl
    simp only [admitted, herror, henough, if_true, decide_true, Bool.true_and,
      decide_eq_true_eq, ih]
    by_cases hover : enough < counted + 1
    · rw [if_pos hover, show enough - counted = 0 by omega,
        show enough - (counted + 1) = 0 by omega]
      rfl
    · rw [if_neg hover, show enough - counted = enough - (counted + 1) + 1 by omega,
        List.take_succ_cons]

/-- The first diagnostics need no more findings than there are diagnostics. -/
theorem take_interleave_take {n m : Nat} (hn : n ≤ m) (total : Nat)
    (lexical : List (Nat × Diagnostic)) (findings : List Finding) :
    (interleave total lexical (findings.take m)).take n
      = (interleave total lexical findings).take n := by
  fun_induction interleave total lexical findings generalizing n m with
  | case1 findings => simp [interleave, List.map_take, List.take_take, Nat.min_eq_left hn]
  | case2 lexical hsome =>
    rw [List.take_nil, interleave]
    exact hsome
  | case3 place d lexical f findings hbefore ih =>
    cases n with
    | zero => rfl
    | succ n =>
      cases m with
      | zero => omega
      | succ m =>
        rw [List.take_succ_cons, interleave, if_pos hbefore, List.take_succ_cons,
          List.take_succ_cons, ← ih (show n ≤ m + 1 by omega), List.take_succ_cons]
  | case4 place d lexical f findings hafter ih =>
    cases n with
    | zero => rfl
    | succ n =>
      cases m with
      | zero => omega
      | succ m =>
        rw [List.take_succ_cons, interleave, if_neg hafter, List.take_succ_cons,
          List.take_succ_cons, ih (show n ≤ m by omega)]

end Parse

/-- The limit of the parser is not seen where the bag has the same limit. -/
theorem File.keep_parseUpTo (file : File) (limit : Nat) :
    Bag.keep limit (file.parseUpTo limit).diagnostics = Bag.keep limit file.parse.diagnostics := by
  rcases Nat.eq_zero_or_pos limit with rfl | hpos
  · rfl
  · rw [Bag.keep_of_pos hpos, Bag.keep_of_pos hpos, parse_interleaves]
    change (Parse.interleave _ _ (Parse.admitted limit 0 _)).take limit = _
    rw [Parse.admitted_eq_take hpos]
    exact Parse.take_interleave_take (Nat.le_refl _) _ _ _

namespace Session

/-- Parsing within a limit keeps a beginning of what parsing finds. -/
theorem diagnostics_parseWithin (file : File) (limit : Int) :
    (parseWithin file limit).diagnostics = Bag.keep limit.toNat file.parse.diagnostics := by
  have hreceived := (Bag.received_ofLimit limit).addAll (file.parseUpTo limit.toNat).diagnostics
  rw [Bag.Received, Bag.limit_addAll] at hreceived
  exact hreceived.trans (file.keep_parseUpTo limit.toNat)

theorem parseWithin_eq (file : File) (limit : Int) :
    parseWithin file limit = ⟨file.parse.program, Bag.keep limit.toNat file.parse.diagnostics⟩ := by
  rw [← diagnostics_parseWithin]
  rfl

end Session

end Craftlang
