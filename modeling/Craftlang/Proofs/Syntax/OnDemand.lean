import Craftlang.Proofs.Syntax.Tiling

/-!
# Tokens on demand

A lexer reads no further than it is asked to. Whatever it was asked before, the token it has looked at, those that wait
in its queue and those it has not read yet are the tokens of the file from some place on; taking a token moves the place
by one, looking at it leaves the place alone, and a reset moves it to the front. Past the last token there is none to
look at but the end of the file.
-/

namespace Craftlang

open File (tokensOf)

/-- The tokens that a scan has not read, unless it is at the end. -/
def Scan.unread (s : Scan) (atEnd : Bool) : List Token := if atEnd then [] else tokensOf s.batches

/-- A batch that a lexer reads has a token, and with what is left to be read it makes up all tokens. -/
theorem Scan.tokens_nextBatch (s : Scan) : s.nextBatch.1.tokens ≠ [] ∧
    s.nextBatch.1.tokens ++ s.nextBatch.2.1.unread s.nextBatch.2.2 = tokensOf s.batches := by
  rw [nextBatch, batches]
  split
  · refine ⟨List.append_ne_nil_of_right_ne_nil _ (List.cons_ne_nil _ _), ?_⟩
    rw [tokensOf, List.flatMap_singleton]
    exact List.append_nil _
  · rename_i b rest hs
    rw [tokensOf, List.flatMap_cons, ← tokensOf]
    split
    · rename_i hnone
      -- a batch without a token is passed over
      rw [List.isEmpty_iff.mp hnone, List.nil_append]
      exact tokens_nextBatch (s.step b rest).1
    · rename_i hsome
      exact ⟨fun hnil => hsome (List.isEmpty_iff.mpr hnil), rfl⟩
termination_by s.rest.length
decreasing_by exact step_rest_lt s _ _ ‹_›

namespace Lexer

/-- What a lexer can be asked to do. -/
inductive Call where
  | next | peek | reset
deriving DecidableEq, Repr

/-- The lexer after a call. -/
def after (lexer : Lexer) : Call → Lexer
  | .next => lexer.next.2.1
  | .peek => lexer.peek.2.1
  | .reset => lexer.reset

/-- The lexer of a file after some calls. -/
def called (f : File) (calls : List Call) : Lexer := calls.foldl after (start f)

/-- How many tokens are taken from the front after a call. -/
def place (k : Nat) : Call → Nat
  | .next => k + 1
  | .peek => k
  | .reset => 0

/-- How many tokens were taken since the last reset, or since the start. -/
def taken (calls : List Call) : Nat := calls.foldl place 0

/-- The token of a file with a number; behind the last one it is the end of the file, without trivia. -/
def tokenAt (f : File) (k : Nat) : Token := f.tokenize[k]?.getD (.endOfFile f.id f.size)

/-- A lexer of a file has so many tokens taken. The one it has looked at comes next, and behind it come those that wait
and those that are not read. -/
structure HasTaken (f : File) (k : Nat) (lexer : Lexer) : Prop where
  file : lexer.file = f
  looked : ∀ token ∈ lexer.look, token = tokenAt f k
  waiting : lexer.queue ++ lexer.scan.unread lexer.atEnd = f.tokenize.drop (k + lexer.look.toList.length)

variable {f : File} {k : Nat} {lexer : Lexer}

theorem looked_of_none {j : Nat} (hlook : lexer.look = none) : ∀ token ∈ lexer.look, token = tokenAt f j := by
  rw [hlook]
  nofun

theorem hasTaken_reset (lexer : Lexer) : HasTaken lexer.file 0 lexer.reset := ⟨rfl, nofun, rfl⟩

theorem hasTaken_start (f : File) : HasTaken f 0 (start f) := ⟨rfl, nofun, rfl⟩

/-- Where no token was looked at, the first one that waits is taken. -/
theorem HasTaken.pop (h : HasTaken f k lexer) (hlook : lexer.look = none) (hqueue : lexer.queue ≠ []) :
    lexer.pop.1 = tokenAt f k ∧ HasTaken f (k + 1) lexer.pop.2 ∧ lexer.pop.2.look = none := by
  obtain ⟨token, queue, hq⟩ := List.exists_cons_of_ne_nil hqueue
  have hpop : lexer.pop = (token, { lexer with queue }) := by rw [Lexer.pop, hq]
  have hwaiting := h.waiting
  rw [hq, hlook, List.cons_append] at hwaiting
  have htoken : some token = f.tokenize[k]? := by
    rw [← List.head?_drop]
    exact congrArg List.head? hwaiting
  have hrest : queue ++ lexer.scan.unread lexer.atEnd = f.tokenize.drop (k + 1) := by
    rw [← List.tail_drop]
    exact congrArg List.tail hwaiting
  rw [hpop]
  refine ⟨?_, ⟨h.file, looked_of_none hlook, ?_⟩, hlook⟩
  · rw [tokenAt, ← htoken]
    rfl
  · rw [hlook]
    exact hrest

theorem HasTaken.advance (h : HasTaken f k lexer) (hend : lexer.atEnd = false) :
    HasTaken f k lexer.advance.1 := by
  refine ⟨h.file, h.looked, .trans ?_ h.waiting⟩
  rw [hend]
  change lexer.queue ++ lexer.scan.nextBatch.1.tokens ++ _ = _
  rw [List.append_assoc]
  exact congrArg (lexer.queue ++ ·) lexer.scan.tokens_nextBatch.2

/-- Taking a token. -/
theorem HasTaken.next (h : HasTaken f k lexer) :
    lexer.next.1 = tokenAt f k ∧ HasTaken f (k + 1) lexer.next.2.1 ∧ lexer.next.2.1.look = none := by
  rw [Lexer.next]
  split
  · rename_i token hlook
    have hwaiting := h.waiting
    rw [hlook] at hwaiting
    exact ⟨h.looked token hlook, ⟨h.file, nofun, hwaiting⟩, rfl⟩
  · rename_i hlook hqueue
    exact h.pop hlook (by rw [hqueue]; exact List.cons_ne_nil _ _)
  · rename_i hlook hqueue
    split
    · rename_i hend
      -- all tokens are taken, and taking another one takes none
      have hnone : f.tokenize.drop k = [] := by
        have hwaiting := h.waiting
        rw [hqueue, hlook, hend] at hwaiting
        exact hwaiting.symm
      have hlength : f.tokenize.length ≤ k := List.drop_eq_nil_iff.mp hnone
      refine ⟨?_, ⟨h.file, looked_of_none hlook, ?_⟩, hlook⟩
      · rw [tokenAt, List.getElem?_eq_none hlength, ← h.file]
        rfl
      · rw [hqueue, hlook, hend]
        exact (List.drop_eq_nil_of_le (Nat.le_succ_of_le hlength)).symm
    · rename_i hend
      have hne : lexer.advance.1.queue ≠ [] := List.append_ne_nil_of_right_ne_nil _ lexer.scan.tokens_nextBatch.1
      exact (h.advance (Bool.not_eq_true _ ▸ hend)).pop hlook hne

/-- Looking at a token. -/
theorem HasTaken.peek (h : HasTaken f k lexer) : lexer.peek.1 = tokenAt f k ∧ HasTaken f k lexer.peek.2.1 := by
  rw [Lexer.peek]
  split
  · rename_i token hlook
    exact ⟨h.looked token hlook, h⟩
  · obtain ⟨htoken, hnext, hlook⟩ := h.next
    refine ⟨htoken, hnext.file, fun token ht => ?_, ?_⟩
    · cases ht
      exact htoken
    · have hwaiting := hnext.waiting
      rw [hlook] at hwaiting
      exact hwaiting

theorem HasTaken.after (h : HasTaken f k lexer) (call : Call) : HasTaken f (place k call) (lexer.after call) := by
  cases call with
  | next => exact h.next.2.1
  | peek => exact h.peek.2
  | reset =>
    rw [← h.file]
    exact hasTaken_reset lexer

theorem HasTaken.run (h : HasTaken f k lexer) (calls : List Call) :
    HasTaken f (calls.foldl place k) (calls.foldl Lexer.after lexer) := by
  induction calls generalizing k lexer with
  | nil => exact h
  | cons call calls ih => exact ih (h.after call)

/-- Looking at a token takes none. -/
theorem taken_append_peeks (calls : List Call) (n : Nat) : taken (calls ++ List.replicate n .peek) = taken calls := by
  rw [taken, taken, List.foldl_append]
  generalize calls.foldl place 0 = k
  induction n with
  | zero => rfl
  | succ n ih => exact ih

/-- Whatever a lexer was asked before, the next token it hands out is the one of the file whose number is how
many were taken since the last reset; behind the last one it is the end of the file, without trivia. Looking
ahead shows the token that is taken next, however often that is done. -/
theorem called_handsOut (f : File) (calls : List Call) :
    (called f calls).next.1 = f.tokenize[taken calls]?.getD (.endOfFile f.id f.size) ∧
      ∀ n, (called f (calls ++ .peek :: List.replicate n .peek)).next.1 = (called f calls).peek.1 := by
  have hcalled : ∀ calls, HasTaken f (taken calls) (called f calls) := fun calls => (hasTaken_start f).run calls
  refine ⟨(hcalled calls).next.1, fun n => ?_⟩
  have htaken : taken (calls ++ .peek :: List.replicate n .peek) = taken calls := taken_append_peeks calls (n + 1)
  rw [(hcalled _).next.1, (hcalled calls).peek.1, htaken]

end Lexer

end Craftlang
