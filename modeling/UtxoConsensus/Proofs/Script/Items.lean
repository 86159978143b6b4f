import UtxoConsensus.Proofs.Script.CodeSeparators

/-!
# Instructions one after another

A reader goes through a script and tells of each instruction its opcode, its data and where it ends. At an
instruction that cannot be read it reports an error and stops for good. What it tells is what parsing finds.
So the instructions lie side by side from the first byte of the script on; an error is the last item, and
without one the instructions reach the end of the script.
-/

namespace UtxoConsensus.Script

/-- What a reader tells of an instruction. -/
structure Item where
  opcode : UInt8
  data : Bytes
  /-- The position after the instruction. -/
  stop : Nat
deriving DecidableEq

/-- Where the reading of a script stands. -/
structure Reader where
  position : Nat
  /-- Was there an instruction that could not be read? -/
  stopped : Bool

namespace Reader

/-- The next item and the reader after it. There is none at the end of the script, nor after an error. -/
def next? (script : Bytes) (r : Reader) : Option (Except ScriptError Item × Reader) :=
  if r.stopped || decide (script.length ≤ r.position) then none
  else match Instruction.first? (script.drop r.position) with
    | none => some (.error .badOpcode, ⟨r.position + 1, true⟩)
    | some i =>
      let stop := script.length - i.rest.length
      some (.ok ⟨i.opcode, i.data, stop⟩, ⟨stop, false⟩)

/-- How much a reader still has before it. -/
def left (script : Bytes) (r : Reader) : Nat :=
  if r.stopped then 0 else script.length + 1 - r.position

theorem next?_of_end {script : Bytes} {position : Nat} (h : script.length ≤ position) :
    (Reader.mk position false).next? script = none := by
  unfold next?
  rw [decide_eq_true h]
  rfl

theorem next?_of_none {script : Bytes} {position : Nat} (h : position < script.length)
    (hfirst : Instruction.first? (script.drop position) = none) :
    (Reader.mk position false).next? script = some (.error .badOpcode, ⟨position + 1, true⟩) := by
  unfold next?
  rw [decide_eq_false (Nat.not_le.mpr h), hfirst]
  rfl

theorem next?_of_some {script : Bytes} {position : Nat} {i : Instruction}
    (hfirst : Instruction.first? (script.drop position) = some i) :
    (Reader.mk position false).next? script =
      some (.ok ⟨i.opcode, i.data, script.length - i.rest.length⟩, ⟨script.length - i.rest.length, false⟩) := by
  have hlt := Instruction.length_rest_lt hfirst
  rw [List.length_drop] at hlt
  have hposition : ¬ script.length ≤ position := by omega
  unfold next?
  rw [decide_eq_false hposition, hfirst]
  rfl

/-- A reader that gives an item has less before it afterwards. -/
theorem left_lt_of_next? {script : Bytes} {r after : Reader} {item : Except ScriptError Item}
    (h : r.next? script = some (item, after)) : after.left script < r.left script := by
  obtain ⟨position, stopped⟩ := r
  cases stopped with
  | true => cases h
  | false =>
    by_cases hend : script.length ≤ position
    · rw [next?_of_end hend] at h
      cases h
    · have hposition : position < script.length := Nat.lt_of_not_le hend
      have hleft : (Reader.mk position false).left script = script.length + 1 - position := rfl
      rw [hleft]
      cases hfirst : Instruction.first? (script.drop position) with
      | none =>
        rw [next?_of_none hposition hfirst] at h
        cases h
        change 0 < script.length + 1 - position
        omega
      | some i =>
        have hlt := Instruction.length_rest_lt hfirst
        rw [List.length_drop] at hlt
        rw [next?_of_some hfirst] at h
        cases h
        change script.length + 1 - (script.length - i.rest.length) < script.length + 1 - position
        omega

/-- All items that are still to come. -/
def items (script : Bytes) (r : Reader) : List (Except ScriptError Item) :=
  match _h : r.next? script with
  | none => []
  | some (item, after) => item :: after.items script
termination_by r.left script
decreasing_by exact left_lt_of_next? _h

theorem items_of_next?_eq_none {script : Bytes} {r : Reader} (h : r.next? script = none) :
    r.items script = [] := by
  rw [items]
  split
  · rfl
  · next hsome =>
    rw [h] at hsome
    cases hsome

theorem items_of_next?_eq_some {script : Bytes} {r after : Reader} {item : Except ScriptError Item}
    (h : r.next? script = some (item, after)) : r.items script = item :: after.items script := by
  rw [items]
  split
  · next hnone =>
    rw [h] at hnone
    cases hnone
  · next hsome =>
    rw [h] at hsome
    cases hsome
    rfl

/-- A reader at the end of the script has no items before it. -/
theorem items_of_end {script : Bytes} {position : Nat} (h : script.length ≤ position) :
    (Reader.mk position false).items script = [] :=
  items_of_next?_eq_none (next?_of_end h)

/-- Where no instruction can be read there is an error, and nothing after it. -/
theorem items_of_none {script : Bytes} {position : Nat} (h : position < script.length)
    (hfirst : Instruction.first? (script.drop position) = none) :
    (Reader.mk position false).items script = [.error .badOpcode] := by
  rw [items_of_next?_eq_some (next?_of_none h hfirst), items_of_next?_eq_none rfl]

theorem items_of_some {script : Bytes} {position : Nat} {i : Instruction}
    (hfirst : Instruction.first? (script.drop position) = some i) :
    (Reader.mk position false).items script =
      .ok ⟨i.opcode, i.data, script.length - i.rest.length⟩ ::
        (Reader.mk (script.length - i.rest.length) false).items script :=
  items_of_next?_eq_some (next?_of_some hfirst)

end Reader

def items (script : Bytes) : List (Except ScriptError Item) :=
  (Reader.mk 0 false).items script

/-! ## Parsing -/

/-- What is told of an instruction that was parsed from a script. -/
def itemOf (script : Bytes) (i : Instruction) : Item :=
  ⟨i.opcode, i.data, script.length - i.rest.length⟩

/-- The rest behind an instruction is where the instruction stops. -/
theorem drop_stop {script : Bytes} {position : Nat} {i : Instruction}
    (hfirst : Instruction.first? (script.drop position) = some i) :
    script.drop (script.length - i.rest.length) = i.rest := by
  have hsuffix : i.rest <:+ script :=
    List.IsSuffix.trans ⟨i.bytes, Instruction.bytes_append_rest hfirst⟩ (List.drop_suffix position script)
  exact (List.suffix_iff_eq_drop.mp hsuffix).symm

/-- A reader tells what parsing finds in what is left, and of an error if parsing leaves a tail. -/
theorem Reader.items_eq (script : Bytes) (position : Nat) :
    (Reader.mk position false).items script =
      (parse (script.drop position)).instructions.map (fun i ↦ .ok (itemOf script i)) ++
        if (parse (script.drop position)).tail = [] then [] else [.error .badOpcode] := by
  induction hleft : script.length - position using Nat.strongRecOn generalizing position with
  | ind left ih =>
    by_cases hend : script.length ≤ position
    · rw [Reader.items_of_end hend, List.drop_of_length_le hend, parse_nil]
      rfl
    · have hposition : position < script.length := Nat.lt_of_not_le hend
      cases hfirst : Instruction.first? (script.drop position) with
      | none =>
        have hne : script.drop position ≠ [] := fun hnil ↦ hend (List.drop_eq_nil_iff.mp hnil)
        rw [Reader.items_of_none hposition hfirst, parse_of_first?_eq_none hfirst]
        exact (if_neg hne).symm
      | some i =>
        have hlt := Instruction.length_rest_lt hfirst
        rw [List.length_drop] at hlt
        rw [Reader.items_of_some hfirst, parse_of_first? hfirst, ih _ (by omega) _ rfl, drop_stop hfirst]
        rfl

/-- The items are the instructions, and an error for what cannot be read. -/
theorem items_eq (script : Bytes) :
    items script = (parse script).instructions.map (fun i ↦ .ok (itemOf script i)) ++
      if (parse script).tail = [] then [] else [.error .badOpcode] :=
  Reader.items_eq script 0

/-! ## Tiles -/

/-- The position that items reach, from the one that they start at. -/
def reach (start : Nat) : List (Except ScriptError Item) → Nat
  | [] => start
  | .ok item :: rest => reach item.stop rest
  | .error _ :: rest => reach start rest

/-- The instructions lie side by side from a position on, each of them the bytes between two positions. An
error stands last, for what is left where no instruction can be read. Without one the script is covered. -/
structure IsTiling (script : Bytes) (start : Nat) (its : List (Except ScriptError Item)) : Prop where
  tile : ∀ before item after, its = before ++ .ok item :: after →
    reach start before < item.stop ∧ item.stop ≤ script.length ∧
      ∃ field, Instruction.first? ((script.take item.stop).drop (reach start before)) =
        some ⟨item.opcode, field, item.data, []⟩
  error_last : ∀ before e after, its = before ++ .error e :: after →
    after = [] ∧ e = .badOpcode ∧ reach start before < script.length ∧
      Instruction.first? (script.drop (reach start before)) = none
  covers : (∀ e, .error e ∉ its) → reach start its = script.length

namespace IsTiling

variable {script : Bytes} {start : Nat}

theorem nil (script : Bytes) : IsTiling script script.length [] where
  tile before item after h := by cases before <;> cases h
  error_last before e after h := by cases before <;> cases h
  covers _ := rfl

/-- An error covers what cannot be read. -/
theorem error (hlt : start < script.length) (hfirst : Instruction.first? (script.drop start) = none) :
    IsTiling script start [.error .badOpcode] where
  tile before item after h := by
    cases before with
    | nil => cases h
    | cons first before => cases before <;> cases h
  error_last before e after h := by
    cases before with
    | nil =>
      cases h
      exact ⟨rfl, rfl, hlt, hfirst⟩
    | cons first before => cases before <;> cases h
  covers h := absurd (List.mem_singleton_self _) (h .badOpcode)

/-- A tiling that starts where an instruction stops. -/
theorem cons {item : Item} {rest : List (Except ScriptError Item)}
    (htile : start < item.stop ∧ item.stop ≤ script.length ∧ ∃ field,
      Instruction.first? ((script.take item.stop).drop start) = some ⟨item.opcode, field, item.data, []⟩)
    (hrest : IsTiling script item.stop rest) : IsTiling script start (.ok item :: rest) where
  tile before other after h := by
    cases before with
    | nil =>
      cases h
      exact htile
    | cons first before =>
      cases h
      exact hrest.tile before other after rfl
  error_last before e after h := by
    cases before with
    | nil => cases h
    | cons first before =>
      cases h
      exact hrest.error_last before e after rfl
  covers h := hrest.covers fun e he ↦ h e (List.mem_cons_of_mem _ he)

end IsTiling

/-- The bytes between the start of an instruction and where it stops are its own. -/
theorem drop_take_stop {script : Bytes} {position : Nat} {i : Instruction}
    (hfirst : Instruction.first? (script.drop position) = some i) :
    (script.take (script.length - i.rest.length)).drop position = i.bytes := by
  have hbytes := Instruction.bytes_append_rest hfirst
  have hlength : (i.bytes ++ i.rest).length = script.length - position := by
    rw [hbytes, List.length_drop]
  rw [List.length_append] at hlength
  have hsize : script.length - i.rest.length - position = i.bytes.length := by
    have hlt := Instruction.length_rest_lt hfirst
    omega
  rw [List.drop_take, hsize, ← hbytes, List.take_left]

/-- By induction on what is left: one instruction, then the tiling that starts where it stops. -/
theorem Reader.isTiling_items {script : Bytes} {position : Nat} (hposition : position ≤ script.length) :
    IsTiling script position ((Reader.mk position false).items script) := by
  induction hleft : script.length - position using Nat.strongRecOn generalizing position with
  | ind left ih =>
    by_cases hend : script.length ≤ position
    · rw [Reader.items_of_end hend, Nat.le_antisymm hposition hend]
      exact .nil script
    · have hlt : position < script.length := Nat.lt_of_not_le hend
      cases hfirst : Instruction.first? (script.drop position) with
      | none =>
        rw [Reader.items_of_none hlt hfirst]
        exact .error hlt hfirst
      | some i =>
        have hmore := Instruction.length_rest_lt hfirst
        rw [List.length_drop] at hmore
        have hbytes := Instruction.first?_bytes hfirst
        rw [← drop_take_stop hfirst] at hbytes
        rw [Reader.items_of_some hfirst]
        refine .cons ⟨?_, Nat.sub_le _ _, i.lengthField, hbytes⟩ (ih _ ?_ (Nat.sub_le _ _) rfl)
        · change position < script.length - i.rest.length
          omega
        · change script.length - (script.length - i.rest.length) < left
          omega

/-- The items cover the script from its start to its end, without gaps. -/
theorem isTiling_items (script : Bytes) : IsTiling script 0 (items script) :=
  Reader.isTiling_items (Nat.zero_le _)

end UtxoConsensus.Script
