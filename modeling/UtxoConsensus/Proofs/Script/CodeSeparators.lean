import UtxoConsensus.Proofs.Script.Parsing

/-!
# Code without its separators

A script is cut into instructions from the front, and the separators among them are left out; all other
bytes stay as they are. A byte that looks like a separator but is pushed as data is none, and what is
left where no instruction can be read stays whole. These rules determine the result.
-/

namespace UtxoConsensus

/-- The bytes of an instruction are those that were read for it. -/
theorem Instruction.bytes_append_rest {script : Bytes} {i : Instruction}
    (h : first? script = some i) : i.bytes ++ i.rest = script := by
  cases script with
  | nil => cases h
  | cons opcode after =>
    unfold first? at h
    dsimp only at h
    split at h
    · unfold readPush? at h
      dsimp only at h
      split at h
      · cases h
      · cases h
        have hfield (field body : Bytes) (size : Nat) :
            opcode :: (field ++ body.take size) ++ body.drop size = opcode :: (field ++ body) := by
          rw [List.cons_append, List.append_assoc, List.take_append_drop]
        simp only [bytes, hfield, List.take_append_drop]
    · cases h
      rfl

/-- A separator takes a single byte. -/
theorem Instruction.eq_cons_of_codeSeparator {script : Bytes} {i : Instruction}
    (h : first? script = some i) (hopcode : i.opcode = Opcode.codeSeparator) :
    script = Opcode.codeSeparator :: i.rest := by
  have hscript : script = Opcode.codeSeparator :: (i.lengthField ++ i.data ++ i.rest) := by
    rw [← bytes_append_rest h, bytes, hopcode, List.cons_append]
  have hread := h
  rw [hscript, first?_opcode (by decide), Option.some.injEq] at hread
  have hrest : i.lengthField ++ i.data ++ i.rest = i.rest := congrArg rest hread
  rw [hscript, hrest]

namespace Script

/-- `StripsTo script code`: the code is the script without its separators. -/
inductive StripsTo : Bytes → Bytes → Prop
  /-- Where no instruction can be read, all stays. -/
  | tail {script : Bytes} (hnone : Instruction.first? script = none) : StripsTo script script
  | separator {rest code : Bytes} (h : StripsTo rest code) :
      StripsTo (Opcode.codeSeparator :: rest) code
  /-- The bytes of any other instruction stay. -/
  | keep {bytes rest code : Bytes} {i : Instruction}
      (hfirst : Instruction.first? (bytes ++ rest) = some i) (hrest : i.rest = rest)
      (hopcode : i.opcode ≠ Opcode.codeSeparator) (h : StripsTo rest code) :
      StripsTo (bytes ++ rest) (bytes ++ code)

theorem withoutCodeSeparators_of_none {script : Bytes} (hnone : Instruction.first? script = none) :
    withoutCodeSeparators script = script := by
  have hparse : parse script = ⟨[], script⟩ := by
    rw [parse]
    split
    · rfl
    · next hfirst => rw [hnone] at hfirst; cases hfirst
  simp [withoutCodeSeparators, hparse]

theorem withoutCodeSeparators_of_some {script : Bytes} {i : Instruction}
    (hfirst : Instruction.first? script = some i) :
    withoutCodeSeparators script =
      if i.opcode = Opcode.codeSeparator then withoutCodeSeparators i.rest
      else i.bytes ++ withoutCodeSeparators i.rest := by
  simp only [withoutCodeSeparators, parse_of_first? hfirst, List.filter_cons, bne_iff_ne]
  by_cases hopcode : i.opcode = Opcode.codeSeparator
  · simp [hopcode]
  · simp [hopcode, List.append_assoc]

/-- By induction on the instructions. -/
theorem stripsTo_withoutCodeSeparators (script : Bytes) :
    StripsTo script (withoutCodeSeparators script) := by
  -- The rest behind an instruction is shorter.
  induction hlength : script.length using Nat.strongRecOn generalizing script with
  | ind length ih =>
    cases hfirst : Instruction.first? script with
    | none =>
      rw [withoutCodeSeparators_of_none hfirst]
      exact .tail hfirst
    | some i =>
      have hrest : StripsTo i.rest (withoutCodeSeparators i.rest) :=
        ih _ (hlength ▸ Instruction.length_rest_lt hfirst) i.rest rfl
      have hbytes : i.bytes ++ i.rest = script := Instruction.bytes_append_rest hfirst
      rw [withoutCodeSeparators_of_some hfirst]
      split
      · next hopcode =>
        rw [Instruction.eq_cons_of_codeSeparator hfirst hopcode]
        exact .separator hrest
      · next hopcode =>
        rw [← hbytes] at hfirst ⊢
        exact .keep hfirst rfl hopcode hrest

/-- The code that a script strips to is unique. -/
theorem StripsTo.eq_withoutCodeSeparators {script code : Bytes} (h : StripsTo script code) :
    code = withoutCodeSeparators script := by
  induction h with
  | tail hnone => exact (withoutCodeSeparators_of_none hnone).symm
  | separator h ih =>
    rw [withoutCodeSeparators_of_some (Instruction.first?_opcode (by decide) _), if_pos rfl, ih]
  | keep hfirst hrest hopcode h ih =>
    have hbytes := Instruction.bytes_append_rest hfirst
    rw [hrest, List.append_cancel_right_eq] at hbytes
    rw [withoutCodeSeparators_of_some hfirst, if_neg hopcode, hbytes, hrest, ih]

/-- The rules for leaving out separators determine the code. -/
theorem stripsTo_iff {script code : Bytes} :
    StripsTo script code ↔ code = withoutCodeSeparators script := by
  constructor
  · exact StripsTo.eq_withoutCodeSeparators
  · rintro rfl
    exact stripsTo_withoutCodeSeparators script

end Script

end UtxoConsensus
