import UtxoConsensus.Proofs.Indexed.Scripts

/-!
# Removing a pattern

Copies of the pattern are removed from the front for as long as there is one; then the next instruction is
kept, whatever its data holds, and after it copies are looked for again. So a script is divided into runs of
copies, the instructions between them, and a tail in which no instruction can be read. A removal may end
within what used to be an instruction, and then the instructions are cut anew from there: what counts as an
instruction of the division is what is one by itself. There is a single division of a script in which no run
of copies stops short, and the removal leaves that division without its copies.
-/

namespace UtxoConsensus

/-- Bytes that are one instruction, all of them. -/
def Instruction.IsWhole (bytes : Bytes) : Prop :=
  ∃ i, first? bytes = some i ∧ i.rest = []

/-- Whatever follows, a whole instruction is read first. -/
theorem Instruction.IsWhole.exists_first? {bytes : Bytes} (h : IsWhole bytes) (script : Bytes) :
    ∃ i, first? (bytes ++ script) = some i ∧ i.rest = script := by
  obtain ⟨i, hfirst, hrest⟩ := h
  refine ⟨i.before script, first?_append hfirst script, ?_⟩
  rw [before, hrest, List.nil_append]

/-- The bytes of an instruction that was read are a whole instruction. -/
theorem Instruction.isWhole_bytes {script : Bytes} {i : Instruction} (h : first? script = some i) :
    IsWhole i.bytes :=
  ⟨_, first?_bytes h, rfl⟩

namespace Script

/-- A script cut into runs of copies, the instructions between them, and a tail after the last run. -/
inductive Division where
  | tail (copies : Nat) (bytes : Bytes)
  | instruction (copies : Nat) (bytes : Bytes) (after : Division)

def repeated (pattern : Bytes) (count : Nat) : Bytes :=
  (List.replicate count pattern).flatten

namespace Division

def script (pattern : Bytes) : Division → Bytes
  | tail copies bytes => repeated pattern copies ++ bytes
  | instruction copies bytes after => repeated pattern copies ++ (bytes ++ after.script pattern)

/-- The script without the copies. -/
def kept : Division → Bytes
  | tail _ bytes => bytes
  | instruction _ bytes after => bytes ++ after.kept

/-- The number of copies in all runs together. -/
def copies : Division → Nat
  | tail copies _ => copies
  | instruction copies _ after => copies + after.copies

/-- No run is followed by one more copy, each instruction is whole, and the tail, if there is one, begins
with an instruction that cannot be read. -/
def IsValid (pattern : Bytes) : Division → Prop
  | tail _ bytes => ¬ pattern <+: bytes ∧ Instruction.first? bytes = none
  | instruction _ bytes after => ¬ pattern <+: bytes ++ after.script pattern ∧
      Instruction.IsWhole bytes ∧ after.IsValid pattern

end Division

variable {pattern : Bytes}

theorem repeated_succ_append (pattern : Bytes) (count : Nat) (rest : Bytes) :
    repeated pattern (count + 1) ++ rest = pattern ++ (repeated pattern count ++ rest) := by
  unfold repeated
  rw [List.replicate_succ, List.flatten_cons, List.append_assoc]

theorem nil_repeated_append (pattern rest : Bytes) : repeated pattern 0 ++ rest = rest := rfl

/-! ## Existence -/

/-- What is dropped from the front is a run of copies that does not stop short. -/
theorem repeated_append_stripCopies (hpattern : pattern ≠ []) (script : Bytes) :
    repeated pattern (stripCopies pattern script).1 ++ (stripCopies pattern script).2 = script ∧
      ¬ pattern <+: (stripCopies pattern script).2 := by
  fun_induction stripCopies pattern script with
  | case1 script hstop =>
    refine ⟨nil_repeated_append pattern script, ?_⟩
    intro hcopy
    exact hstop.elim hpattern fun hne ↦ hne (List.prefix_iff_eq_take.mp hcopy).symm
  | case2 script hmore rest ih =>
    obtain ⟨hrun, hend⟩ := ih
    have htake : script.take pattern.length = pattern :=
      Decidable.not_not.mp (not_or.mp hmore).2
    refine ⟨?_, hend⟩
    calc repeated pattern (rest.1 + 1) ++ rest.2
      _ = pattern ++ script.drop pattern.length := by rw [repeated_succ_append, hrun]
      _ = script.take pattern.length ++ script.drop pattern.length := by rw [htake]
      _ = script := List.take_append_drop _ _

/-- Every script has a division, and what the removal returns can be read off it. -/
theorem exists_division (hpattern : pattern ≠ []) (script : Bytes) :
    ∃ d : Division, d.IsValid pattern ∧ d.script pattern = script ∧
      findAndDelete pattern script = (d.copies, d.kept) := by
  -- Behind the copies and one instruction the script is shorter.
  induction hlength : script.length using Nat.strongRecOn generalizing script with
  | ind length ih =>
    obtain ⟨hrun, hend⟩ := repeated_append_stripCopies hpattern script
    have hle := length_stripCopies_le pattern script
    cases hfirst : Instruction.first? (stripCopies pattern script).2 with
    | none =>
      refine ⟨.tail _ _, ⟨hend, hfirst⟩, hrun, ?_⟩
      rw [Indexed.findAndDelete_of_none hfirst]
      rfl
    | some i =>
      have hlt : i.rest.length < length :=
        hlength ▸ Nat.lt_of_lt_of_le (Instruction.length_rest_lt hfirst) hle
      obtain ⟨after, hvalid, hafter, hdelete⟩ := ih i.rest.length hlt i.rest rfl
      have hbytes := Instruction.bytes_append_rest hfirst
      have hwhole := Instruction.isWhole_bytes hfirst
      refine ⟨.instruction (stripCopies pattern script).1 i.bytes after, ⟨?_, hwhole, hvalid⟩, ?_, ?_⟩
      · rwa [hafter, hbytes]
      · rw [Division.script, hafter, hbytes, hrun]
      · rw [Indexed.findAndDelete_of_some hfirst, hdelete]
        rfl

/-! ## Uniqueness -/

/-- Where two runs of copies lie before the same bytes and neither stops short, they are equally long. -/
theorem eq_of_repeated_append_eq {count count' : Nat} {rest rest' : Bytes} (hrest : ¬ pattern <+: rest)
    (hrest' : ¬ pattern <+: rest') (h : repeated pattern count ++ rest = repeated pattern count' ++ rest') :
    count = count' ∧ rest = rest' := by
  induction count generalizing count' with
  | zero =>
    cases count' with
    | zero => exact ⟨rfl, h⟩
    | succ count' =>
      rw [nil_repeated_append, repeated_succ_append] at h
      exact absurd ⟨_, h.symm⟩ hrest
  | succ count ih =>
    cases count' with
    | zero =>
      rw [nil_repeated_append, repeated_succ_append] at h
      exact absurd ⟨_, h⟩ hrest'
    | succ count' =>
      rw [repeated_succ_append, repeated_succ_append] at h
      obtain ⟨hcount, hsame⟩ := ih (List.append_cancel_left h)
      exact ⟨congrArg (· + 1) hcount, hsame⟩

/-- A script begins with one whole instruction at most. -/
theorem eq_of_isWhole_append_eq {bytes bytes' rest rest' : Bytes} (hwhole : Instruction.IsWhole bytes)
    (hwhole' : Instruction.IsWhole bytes') (h : bytes ++ rest = bytes' ++ rest') :
    bytes = bytes' ∧ rest = rest' := by
  obtain ⟨i, hfirst, hrest⟩ := hwhole.exists_first? rest
  obtain ⟨j, hfirst', hrest'⟩ := hwhole'.exists_first? rest'
  rw [h, hfirst'] at hfirst
  cases hfirst
  rw [hrest'] at hrest
  subst hrest
  exact ⟨List.append_cancel_right h, rfl⟩

/-- By induction on the division: the first run, then the instruction behind it, then what follows. -/
theorem Division.eq_of_script_eq {d e : Division} (hd : d.IsValid pattern) (he : e.IsValid pattern)
    (h : d.script pattern = e.script pattern) : d = e := by
  induction d generalizing e with
  | tail copies bytes =>
    cases e with
    | tail copies' bytes' =>
      obtain ⟨hcopies, hbytes⟩ := eq_of_repeated_append_eq hd.1 he.1 h
      rw [hcopies, hbytes]
    | instruction copies' bytes' after' =>
      obtain ⟨-, htail⟩ := eq_of_repeated_append_eq hd.1 he.1 h
      obtain ⟨i, hfirst, -⟩ := he.2.1.exists_first? (after'.script pattern)
      rw [← htail, hd.2] at hfirst
      cases hfirst
  | instruction copies bytes after ih =>
    cases e with
    | tail copies' bytes' =>
      obtain ⟨-, htail⟩ := eq_of_repeated_append_eq hd.1 he.1 h
      obtain ⟨i, hfirst, -⟩ := hd.2.1.exists_first? (after.script pattern)
      rw [htail, he.2] at hfirst
      cases hfirst
    | instruction copies' bytes' after' =>
      obtain ⟨hcopies, hrest⟩ := eq_of_repeated_append_eq hd.1 he.1 h
      obtain ⟨hbytes, hafter⟩ := eq_of_isWhole_append_eq hd.2.1 he.2.1 hrest
      rw [hcopies, hbytes, ih hd.2.2 he.2.2 hafter]

/-! ## Results -/

/-- Without copies a division keeps the whole script. -/
theorem Division.kept_of_copies_eq_zero {d : Division} (hnone : d.copies = 0) : d.kept = d.script pattern := by
  induction d with
  | tail copies bytes =>
    obtain rfl : copies = 0 := hnone
    rfl
  | instruction copies bytes after ih =>
    obtain ⟨rfl, hafter⟩ := Nat.add_eq_zero_iff.mp hnone
    rw [kept, ih hafter]
    rfl

/-- **A removal takes the copies that stand at instructions, and nothing else.** A script has one division
into runs of copies of the pattern that do not stop short, whole instructions between them, and a tail that
is empty or begins with an instruction that cannot be read. What is left is that division without its
copies, and what is returned with it is their number; where it is zero, the script is as it was. The same
comes out when the removal works with positions, each of which then lies within the script. -/
theorem findAndDelete_divides (hpattern : pattern ≠ []) (script : Bytes) :
    ∃ d : Division,
      (d.IsValid pattern ∧ d.script pattern = script ∧
        ∀ e : Division, e.IsValid pattern → e.script pattern = script → e = d) ∧
      findAndDelete pattern script = (d.copies, d.kept) ∧
      (d.copies = 0 → d.kept = script) ∧
      Indexed.findAndDelete? pattern script = some (d.copies, d.kept) := by
  obtain ⟨d, hvalid, hscript, hdelete⟩ := exists_division hpattern script
  refine ⟨d, ⟨hvalid, hscript, ?_⟩, hdelete, ?_, ?_⟩
  · intro e he hsame
    exact Division.eq_of_script_eq he hvalid (hsame.trans hscript.symm)
  · intro hnone
    rw [Division.kept_of_copies_eq_zero hnone, hscript]
  · rw [Indexed.findAndDelete?_eq hpattern, hdelete]

/-- A pattern of two instructions, in a script whose last push has no data. What is left holds the pattern
once more, across the place of a copy. -/
theorem findAndDelete_divides_acrossCopy :
    let pattern : Bytes := [0x00, 0x51]
    let script : Bytes := [0x00, 0x00, 0x51, 0x51, 0x00, 0x51, 0x02, 0x51]
    let d : Division := .instruction 0 [0x00] (.instruction 1 [0x51] (.tail 1 [0x02, 0x51]))
    pattern ≠ [] ∧ d.IsValid pattern ∧ d.script pattern = script ∧
      findAndDelete pattern script = (2, [0x00, 0x51, 0x02, 0x51]) := by
  intro pattern script d
  have hpattern : pattern ≠ [] := List.cons_ne_nil _ _
  have hwhole (byte : UInt8) (h : Instruction.first? [byte] = some ⟨byte, [], [], []⟩) :
      Instruction.IsWhole [byte] := ⟨_, h, rfl⟩
  have hvalid : d.IsValid pattern :=
    ⟨by decide, hwhole 0x00 rfl, by decide, hwhole 0x51 rfl, by decide, rfl⟩
  obtain ⟨found, ⟨-, -, hunique⟩, hdelete, -⟩ := findAndDelete_divides hpattern script
  obtain rfl : d = found := hunique d hvalid rfl
  exact ⟨hpattern, hvalid, rfl, hdelete⟩

end Script

end UtxoConsensus
