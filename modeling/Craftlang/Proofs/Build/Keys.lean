import Craftlang.Proofs.Build.Sharing

/-!
# Keys of results

The result of a unit is known by the digest of everything that can change it. The parts are written with
their lengths, so where the digest tells texts apart, calls with the same key differ in nothing that
matters, and give the same result.
-/

namespace Craftlang

namespace Packed

theorem littleEndian_succ (width n : Nat) :
    littleEndian (width + 1) n = n.toUInt8 :: littleEndian width (n / 256) := by
  rw [littleEndian, List.range_succ_eq_map, List.map_cons, List.map_map, littleEndian]
  congr 1
  · rw [Nat.pow_eq, Nat.pow_zero, Nat.div_one]
  · refine List.map_congr_left fun i _ => ?_
    rw [Function.comp_apply, Nat.pow_eq, Nat.pow_eq, Nat.pow_succ', Nat.div_div_eq_div_mul]

/-- A number is read back from its bytes as far as they go. -/
theorem ofLittleEndian_littleEndian (width n : Nat) :
    ofLittleEndian (littleEndian width n) = n % Nat.pow 256 width := by
  induction width generalizing n with
  | zero => exact (Nat.mod_one n).symm
  | succ width ih =>
    have hstep : ∀ (b : UInt8) (s : Bytes), ofLittleEndian (b :: s) = b.toNat + 256 * ofLittleEndian s :=
      fun _ _ => rfl
    rw [littleEndian_succ, hstep, ih, Nat.pow_eq, Nat.pow_eq, Nat.pow_succ', Nat.mod_mul]
    rfl

@[simp] theorem length_word (n : Nat) : (word n).length = 8 := by
  rw [word, littleEndian, List.length_map, List.length_range]

/-- A word is read back if its number fits. -/
theorem ofLittleEndian_word {n : Nat} (h : n < UInt64.size) : ofLittleEndian (word n) = n := by
  rw [word, ofLittleEndian_littleEndian]
  exact Nat.mod_eq_of_lt h

theorem word_inj {m n : Nat} (hm : m < UInt64.size) (hn : n < UInt64.size) (h : word m = word n) : m = n := by
  rw [← ofLittleEndian_word hm, h, ofLittleEndian_word hn]

/-- Parts that are written with their lengths can be told apart. -/
theorem parts_inj {ps qs : List Bytes} (hlength : ps.length = qs.length)
    (hp : ∀ p ∈ ps, p.length < UInt64.size) (hq : ∀ q ∈ qs, q.length < UInt64.size)
    (h : (ps.flatMap fun p => word p.length ++ p) = qs.flatMap fun q => word q.length ++ q) : ps = qs := by
  induction ps generalizing qs with
  | nil => exact (List.length_eq_zero_iff.mp hlength.symm).symm
  | cons p ps ih =>
    cases qs with
    | nil => cases hlength
    | cons q qs =>
      rw [List.flatMap_cons, List.flatMap_cons, List.append_assoc, List.append_assoc] at h
      obtain ⟨hword, hrest⟩ := List.append_inj h (by simp)
      have hsize := word_inj (hp p List.mem_cons_self) (hq q List.mem_cons_self) hword
      obtain ⟨rfl, hrest'⟩ := List.append_inj hrest hsize
      rw [ih (Nat.succ.inj hlength) (fun x hx => hp x (List.mem_cons_of_mem _ hx))
        (fun x hx => hq x (List.mem_cons_of_mem _ hx)) hrest']

end Packed

@[simp] theorem Sha256.length_digest (s : Bytes) : (digest s).length = 32 := rfl

theorem BuildOptions.format_pos (o : BuildOptions) : 0 < o.format := by
  rw [format]
  split
  · decide
  · omega

/-- A call that compiles a unit. -/
structure CompileCall where
  options : BuildOptions
  input : UnitInput

namespace CompileCall

/-- The text that is compiled. -/
def content (c : CompileCall) : Bytes := c.input.file.content

/-- Everything that the result is known by. -/
def parts (c : CompileCall) : List Bytes :=
  [Release.current.version, c.input.name, c.options.space, c.options.description,
    Packed.word c.options.format.toNat, [if c.options.warnShadow then 1 else 0],
    Packed.word c.options.limit.toNat, c.input.file.digest]

/-- The text whose digest the result is known by. -/
def keyed (c : CompileCall) : Bytes := c.parts.flatMap fun part => Packed.word part.length ++ part

/-- What the result is known by. -/
def key (c : CompileCall) : Bytes := Digest.ofUnit c.input.name c.input.file c.options

/-- The numbers of a call and the lengths of its texts are words of 64 bits. -/
structure Fits (c : CompileCall) : Prop where
  name : c.input.name.length < UInt64.size
  space : c.options.space.length < UInt64.size
  description : c.options.description.length < UInt64.size
  format : c.options.format.toNat < UInt64.size
  limit : c.options.limit.toNat < UInt64.size

theorem Fits.length_lt {c : CompileCall} (h : c.Fits) : ∀ part ∈ c.parts, part.length < UInt64.size := by
  simp only [parts, List.forall_mem_cons, Packed.length_word, List.length_singleton, File.digest,
    Sha256.length_digest]
  exact ⟨by decide, h.name, h.space, h.description, by decide, by decide, by decide, by decide, by simp⟩

/-- What the call gives in a session that keeps nothing. -/
def outcome (c : CompileCall) : Option Namespace × Bag × Option Datapack × Option UnitFailure :=
  (({} : Session).compile c.options c.input).2.outcome

theorem outcome_eq (c : CompileCall) :
    c.outcome = c.input.outcome c.options c.input.file.parse.diagnostics :=
  Session.outcome_compile (Session.reads_of_parsed _ _ rfl) rfl rfl

/-- Two calls differ in nothing that matters. -/
structure Alike (a b : CompileCall) : Prop where
  name : a.input.name = b.input.name
  content : a.content = b.content
  space : a.options.space = b.options.space
  description : a.options.description = b.options.description
  format : a.options.format = b.options.format
  warnShadow : a.options.warnShadow = b.options.warnShadow
  limit : a.options.limit.toNat = b.options.limit.toNat

variable {a b : CompileCall} {calls : List CompileCall}

/-- Calls with the same parts differ in nothing that matters. -/
theorem alike_of_keyed (hcontents : Sha256.Separates (calls.map content)) (ha : a ∈ calls) (hb : b ∈ calls)
    (hfa : a.Fits) (hfb : b.Fits) (h : a.keyed = b.keyed) : a.Alike b := by
  have hparts : a.parts = b.parts := Packed.parts_inj rfl hfa.length_lt hfb.length_lt h
  simp only [parts, List.cons.injEq, true_and, and_true] at hparts
  obtain ⟨hname, hspace, hdescription, hformat, hshadow, hlimit, hdigest⟩ := hparts
  have hpos := a.options.format_pos
  have hpos' := b.options.format_pos
  have hformat := Packed.word_inj hfa.format hfb.format hformat
  refine ⟨hname, ?_, hspace, hdescription, by omega, ?_, Packed.word_inj hfa.limit hfb.limit hlimit⟩
  · exact hcontents _ (List.mem_map_of_mem ha) _ (List.mem_map_of_mem hb) hdigest
  · revert hshadow
    cases a.options.warnShadow <;> cases b.options.warnShadow <;> decide

/-- Where digests tell texts apart, calls with the same key differ in nothing that matters. -/
theorem alike_of_key (hcontents : Sha256.Separates (calls.map content))
    (hkeys : Sha256.Separates (calls.map keyed)) (hfits : ∀ c ∈ calls, c.Fits) (ha : a ∈ calls)
    (hb : b ∈ calls) (h : a.key = b.key) : a.Alike b :=
  alike_of_keyed hcontents ha hb (hfits a ha) (hfits b hb)
    (hkeys _ (List.mem_map_of_mem ha) _ (List.mem_map_of_mem hb) h)

namespace Alike

theorem parse (h : a.Alike b) : a.input.file.parse = b.input.file.parse := File.parse_congr rfl h.content

theorem program (h : a.Alike b) : a.input.program = b.input.program := congrArg ParsedFile.program h.parse

theorem resolution (h : a.Alike b) (w : Bool) : a.input.resolution w = b.input.resolution w :=
  congrArg (Program.resolve · w) h.program

theorem typing (h : a.Alike b) (w : Bool) : a.input.typing w = b.input.typing w := by
  rw [UnitInput.typing, h.program, h.resolution, UnitInput.typing]

/-- Their keys are taken from the same text. -/
theorem keyed (h : a.Alike b) : a.keyed = b.keyed := by
  have hdigest : a.input.file.digest = b.input.file.digest := congrArg Sha256.digest h.content
  rw [CompileCall.keyed, CompileCall.keyed, parts, parts, h.name, h.space, h.description, h.format,
    h.warnShadow, h.limit, hdigest]

theorem unitSpace (h : a.Alike b) : a.input.space a.options.space = b.input.space b.options.space := by
  rw [UnitInput.space, h.space, h.program, h.name, UnitInput.space]

/-- Such calls give the same. -/
theorem outcome (h : a.Alike b) : a.outcome = b.outcome := by
  rw [outcome_eq, outcome_eq]
  unfold UnitInput.outcome UnitInput.findings
  rw [h.parse, h.unitSpace, h.program, h.warnShadow, h.resolution, h.typing, h.limit, h.format,
    h.description, h.name]

end Alike

end CompileCall

end Craftlang
