import UtxoConsensus.Proofs.Indexed.Basic
import UtxoConsensus.Proofs.Script.CodeSeparators
import UtxoConsensus.Script.Template

/-!
# Scripts by positions

A script read with a position that moves forward, and nothing else cut from it than what lies between two
positions. Where the data of a push is missing there is no instruction, which is an answer and no fault:
the range that the data would have is compared with the length of the script first. The position never
passes the end of the script, so that everything that is cut out is there.
-/

namespace UtxoConsensus.Indexed

/-! ## Instructions -/

/-- As many bytes from a position on, if there are as many. -/
def range (b : Bytes) (start count : Nat) : Option Bytes :=
  if start + count ≤ b.length then some ((b.drop start).take count) else none

/-- As many bytes from a position on, each looked up by itself. -/
def lookUp? (b : Bytes) : (position count : Nat) → Option Bytes
  | _, 0 => some []
  | position, count + 1 => do
    let byte ← b[position]?
    let rest ← lookUp? b (position + 1) count
    return byte :: rest

/-- The push at a position, after its opcode, and where it ends. -/
def pushAt? (script : Bytes) (opcode : UInt8) (position : Nat) : Option (Option (Instruction × Nat)) :=
  match range script position (Instruction.lengthFieldSize opcode) with
  | none => some none
  | some field => do
    let length ← lookUp? field 0 (Instruction.lengthFieldSize opcode)
    let start := position + Instruction.lengthFieldSize opcode
    let size := Instruction.pushSize opcode length
    match range script start size with
    | none => return none
    | some data =>
      let rest ← slice? script (start + size) script.length
      return some (⟨opcode, field, data, rest⟩, start + size)

/-- The instruction at a position, and where it ends. -/
def instructionAt? (script : Bytes) (position : Nat) : Option (Option (Instruction × Nat)) := do
  let opcode ← script[position]?
  if opcode ≤ Opcode.pushData4 then pushAt? script opcode (position + 1)
  else
    let rest ← slice? script (position + 1) script.length
    return some (⟨opcode, [], [], rest⟩, position + 1)

theorem slice?_to_end {b : Bytes} {start : Nat} (h : start ≤ b.length) :
    slice? b start b.length = some (b.drop start) := by
  rw [slice?_of_le h (Nat.le_refl _), List.take_length]

theorem lookUp?_eq {b : Bytes} {position count : Nat} (h : position + count ≤ b.length) :
    lookUp? b position count = some ((b.drop position).take count) := by
  induction count generalizing position with
  | zero => rfl
  | succ count ih =>
    have hlt : position < b.length := by omega
    rw [lookUp?, List.getElem?_eq_getElem hlt, ih (by omega), List.drop_eq_getElem_cons hlt,
      List.take_succ_cons]
    rfl

/-- The data of a push by positions, where the script may end too early. -/
theorem pushAt?_eq {script : Bytes} {position : Nat} (h : position ≤ script.length) (opcode : UInt8) :
    pushAt? script opcode position = some ((Instruction.readPush? opcode (script.drop position)).map
      fun i ↦ (i, script.length - i.rest.length)) := by
  unfold pushAt? Instruction.readPush? range
  generalize Instruction.lengthFieldSize opcode = fieldSize
  by_cases hfield : position + fieldSize ≤ script.length
  · have hlength : ((script.drop position).take fieldSize).length = fieldSize := by
      rw [List.length_take, List.length_drop]
      omega
    have hlookUp : lookUp? ((script.drop position).take fieldSize) 0 fieldSize =
        some ((script.drop position).take fieldSize) := by
      rw [lookUp?_eq (by omega), List.drop_zero, List.take_take, Nat.min_self]
    rw [if_pos hfield]
    dsimp only
    rw [hlookUp]
    generalize (script.drop position).take fieldSize = field at hlength
    simp only [Option.bind_eq_bind, Option.bind_some, List.drop_drop, hlength, Nat.lt_irrefl, decide_false,
      Bool.false_or, decide_eq_true_eq]
    generalize Instruction.pushSize opcode field = size
    by_cases hdata : position + fieldSize + size ≤ script.length
    · have hdata' : ¬ ((script.drop (position + fieldSize)).take size).length < size := by
        rw [List.length_take, List.length_drop]
        omega
      rw [if_pos hdata, if_neg hdata', slice?_to_end hdata, Option.map_some, List.length_drop,
        Nat.sub_sub_self hdata]
      rfl
    · have hdata' : ((script.drop (position + fieldSize)).take size).length < size := by
        rw [List.length_take, List.length_drop]
        omega
      rw [if_neg hdata, if_pos hdata']
      rfl
  · have hshort : ((script.drop position).take fieldSize).length < fieldSize := by
      rw [List.length_take, List.length_drop]
      omega
    rw [if_neg hfield]
    dsimp only
    rw [decide_eq_true hshort]
    rfl

theorem instructionAt?_eq {script : Bytes} {position : Nat} (h : position < script.length) :
    instructionAt? script position = some ((Instruction.first? (script.drop position)).map
      fun i ↦ (i, script.length - i.rest.length)) := by
  unfold instructionAt?
  rw [List.getElem?_eq_getElem h, List.drop_eq_getElem_cons h]
  generalize script[position] = opcode
  rw [Instruction.first?, slice?_to_end h]
  simp only [Option.bind_eq_bind, Option.bind_some]
  by_cases hpush : opcode ≤ Opcode.pushData4
  · rw [if_pos hpush, if_pos hpush, pushAt?_eq h]
  · rw [if_neg hpush, if_neg hpush, Option.map_some, List.length_drop, Nat.sub_sub_self h]
    rfl

theorem eq_of_instructionAt? {script : Bytes} {position : Nat} {found : Option (Instruction × Nat)}
    (h : instructionAt? script position = some found) :
    (Instruction.first? (script.drop position)).map (fun i ↦ (i, script.length - i.rest.length)) = found := by
  by_cases hposition : position < script.length
  · rw [instructionAt?_eq hposition] at h
    exact Option.some.inj h
  · unfold instructionAt? at h
    rw [List.getElem?_eq_none (Nat.le_of_not_lt hposition)] at h
    cases h

/-- The instruction that is found is the first one of what is left, and it ends further on. -/
theorem of_instructionAt? {script : Bytes} {position stop : Nat} {i : Instruction}
    (h : instructionAt? script position = some (some (i, stop))) :
    Instruction.first? (script.drop position) = some i ∧ i.rest = script.drop stop ∧
      position < stop ∧ stop ≤ script.length := by
  obtain ⟨_, hfirst, hstop⟩ := Option.map_eq_some_iff.mp (eq_of_instructionAt? h)
  cases hstop
  have hlength := Instruction.length_rest_lt hfirst
  have hsuffix : i.rest <:+ script.drop position := ⟨i.bytes, Instruction.bytes_append_rest hfirst⟩
  rw [List.length_drop] at hlength
  exact ⟨hfirst, List.suffix_iff_eq_drop.mp (hsuffix.trans (List.drop_suffix _ _)), by omega, Nat.sub_le _ _⟩

def parseFrom? (script : Bytes) (position : Nat) : Option Parsed :=
  if position ≥ script.length then some ⟨[], []⟩
  else match _h : instructionAt? script position with
    | none => none
    | some none => some ⟨[], script.drop position⟩
    | some (some (i, stop)) => do
      let parsed ← parseFrom? script stop
      return ⟨i :: parsed.instructions, parsed.tail⟩
termination_by script.length - position
decreasing_by
  have hbounds := (of_instructionAt? _h).2.2
  omega

def parse? (script : Bytes) : Option Parsed :=
  parseFrom? script 0

/-- By induction on the bytes that are left. -/
theorem parseFrom?_eq (script : Bytes) (position : Nat) :
    parseFrom? script position = some (Script.parse (script.drop position)) := by
  fun_induction parseFrom? script position with
  | case1 position hend => rw [List.drop_of_length_le hend, Script.parse_nil]
  | case2 position hlt hnone =>
    rw [instructionAt?_eq (Nat.lt_of_not_le hlt)] at hnone
    cases hnone
  | case3 position hlt hnone =>
    rw [Script.parse_of_first?_eq_none (Option.map_eq_none_iff.mp (eq_of_instructionAt? hnone))]
  | case4 position hlt i stop hsome ih =>
    obtain ⟨hfirst, hrest, -⟩ := of_instructionAt? hsome
    rw [ih, Script.parse_of_first? hfirst, hrest]
    rfl

theorem parse?_eq (script : Bytes) : parse? script = some (Script.parse script) :=
  parseFrom?_eq script 0

def isPushOnly? (script : Bytes) : Option Bool := do
  let parsed ← parse? script
  return parsed.tail.isEmpty && parsed.instructions.all fun i ↦ decide (i.opcode ≤ Opcode.sixteen)

theorem isPushOnly?_eq (script : Bytes) : isPushOnly? script = some (Script.isPushOnly script) := by
  unfold isPushOnly?
  rw [parse?_eq]
  rfl

/-! ## Shortest pushes -/

/-- Is there an opcode that pushes this data by itself? Only a single byte is looked at. -/
def hasOwnOpcode? (data : Bytes) : Option Bool :=
  if data.length = 1 then do
    let byte ← data[0]?
    return (decide (1 ≤ byte) && decide (byte ≤ 16)) || byte == 0x81
  else some false

def isMinimalPush? (data : Bytes) (opcode : UInt8) : Option Bool := do
  if data.isEmpty then return opcode == 0
  else if ← hasOwnOpcode? data then return false
  else if data.length ≤ 75 then return opcode.toNat == data.length
  else if data.length ≤ 255 then return opcode == Opcode.pushData1
  else if data.length ≤ 65535 then return opcode == Opcode.pushData2
  else return true

theorem isMinimalPush?_eq (data : Bytes) (opcode : UInt8) :
    isMinimalPush? data opcode = some (Script.isMinimalPush data opcode) := by
  unfold isMinimalPush? hasOwnOpcode?
  match data with
  | [] => rfl
  | [byte] =>
    have hopcode : (opcode.toNat == 1) = (opcode == 1) := by
      rw [Bool.eq_iff_iff, beq_iff_eq, beq_iff_eq]
      exact UInt8.toNat_inj (b := 1)
    change (if (decide (1 ≤ byte) && decide (byte ≤ 16) || byte == 0x81) then some false
      else some (opcode.toNat == 1)) = some (_ && byte != 0x81 && opcode == 1)
    rw [hopcode, bne]
    cases decide (1 ≤ byte) && decide (byte ≤ 16) <;> cases byte == 0x81 <;> rfl
  | first :: second :: rest =>
    have hlong : (first :: second :: rest).length ≠ 1 := by simp
    rw [Script.isMinimalPush_of_two_le (Nat.le_add_left 2 _), if_neg hlong, apply_ite some, apply_ite some,
      apply_ite some]
    rfl

/-! ## Templates -/

/-- Is a script the one that names another by a hash of the given size? -/
def isScriptHash? (script : Bytes) (opcode : UInt8) (size : Nat) : Option Bool := do
  if script.length ≠ size + 3 then return false
  else
    let first ← script[0]?
    if first ≠ opcode then return false
    else
      let second ← script[1]?
      if second ≠ UInt8.ofNat size then return false
      else
        let last ← script[size + 2]?
        return last == Opcode.equal

def isPayToScriptHash? (script : Bytes) (flags : ScriptFlags) : Option Bool := do
  if ← isScriptHash? script Opcode.hash160 20 then return true
  else if flags.contains .enableP2sh32 then isScriptHash? script Opcode.hash256 32
  else return false

def isWitnessProgram? (script : Bytes) : Option Bool := do
  if script.length < 4 ∨ script.length > 42 then return false
  else
    let version ← script[0]?
    if version ≠ 0 ∧ !Opcode.isPositiveNumber version then return false
    else
      let size ← script[1]?
      return size.toNat + 2 == script.length

/-- A template by its length and its fixed bytes. -/
theorem isScriptHash?_eq (script : Bytes) (opcode : UInt8) (size : Nat) :
    isScriptHash? script opcode size = some (script.length == size + 3 &&
      script.take 2 == [opcode, UInt8.ofNat size] && script.drop (size + 2) == [Opcode.equal]) := by
  unfold isScriptHash?
  by_cases hlength : script.length = size + 3
  · match script, hlength with
    | first :: second :: more, hlength =>
      have hmore : more.length = size + 1 := by
        simp only [List.length_cons] at hlength
        omega
      have hlast : size < more.length := by omega
      have hdrop : more.drop size = [more[size]] := by
        rw [List.drop_eq_getElem_cons hlast, List.drop_of_length_le (Nat.le_of_eq hmore)]
      rw [List.drop_succ_cons, List.drop_succ_cons, hdrop]
      simp only [List.getElem?_cons_zero, List.getElem?_cons_succ, List.getElem?_eq_getElem hlast, hlength,
        Option.bind_eq_bind, Option.bind_some]
      by_cases hfirst : first = opcode <;> by_cases hsecond : second = UInt8.ofNat size <;>
        simp [hfirst, hsecond]
  · simp [hlength]

theorem isPayToScriptHash?_eq (script : Bytes) (flags : ScriptFlags) :
    isPayToScriptHash? script flags = some (Script.isPayToScriptHash script flags) := by
  unfold isPayToScriptHash? Script.isPayToScriptHash Script.scriptHashKind?
  have hshort : isScriptHash? script Opcode.hash160 20 = some (script.length == 23 &&
      script.take 2 == [Opcode.hash160, 20] && script.drop 22 == [Opcode.equal]) := isScriptHash?_eq _ _ _
  have hlong : isScriptHash? script Opcode.hash256 32 = some (script.length == 35 &&
      script.take 2 == [Opcode.hash256, 32] && script.drop 34 == [Opcode.equal]) := isScriptHash?_eq _ _ _
  rw [hshort, hlong]
  simp only [Option.bind_eq_bind, Option.bind_some, Bool.and_assoc]
  generalize (script.length == 23 && _) = short
  generalize (script.length == 35 && _) = long
  cases short <;> cases flags.contains .enableP2sh32 <;> cases long <;> rfl

theorem isWitnessProgram?_eq (script : Bytes) :
    isWitnessProgram? script = some (Script.isWitnessProgram script) := by
  unfold isWitnessProgram?
  match script with
  | [] => rfl
  | [_] => rfl
  | version :: size :: program =>
    simp only [List.length_cons, List.getElem?_cons_zero, List.getElem?_cons_succ, Option.bind_eq_bind,
      Option.bind_some, Script.isWitnessProgram]
    by_cases hsize : program.length + 1 + 1 < 4 ∨ program.length + 1 + 1 > 42
    · have hout : (decide (2 ≤ program.length) && decide (program.length ≤ 40)) = false := by
        rw [Bool.and_eq_false_iff, decide_eq_false_iff_not, decide_eq_false_iff_not]
        omega
      rw [if_pos hsize, hout]
      rfl
    · have hin : (decide (2 ≤ program.length) && decide (program.length ≤ 40)) = true := by
        rw [Bool.and_eq_true, decide_eq_true_eq, decide_eq_true_eq]
        omega
      rw [if_neg hsize, hin]
      by_cases hversion : version = 0
      · simp [hversion]
      · cases Opcode.isPositiveNumber version <;> simp [hversion]

/-! ## Removing a pattern -/

/-- Moves past copies of a pattern, and counts them. -/
def skipCopies? (pattern script : Bytes) (position found : Nat) : Option (Nat × Nat) :=
  if _h : pattern = [] then some (position, found)
  else match _h' : minus? script.length position with
    | none => none
    | some left =>
      if _h'' : left < pattern.length then some (position, found)
      else do
        let part ← slice? script position (position + pattern.length)
        if part = pattern then skipCopies? pattern script (position + pattern.length) (found + 1)
        else return (position, found)
termination_by script.length - position
decreasing_by
  have hpattern : 0 < pattern.length := List.length_pos_iff.mpr _h
  unfold minus? at _h'
  split at _h'
  · cases _h'
    omega
  · cases _h'

theorem stripCopies_of_ne {pattern script : Bytes} (h : pattern = [] ∨ script.take pattern.length ≠ pattern) :
    Script.stripCopies pattern script = (0, script) := by
  rw [Script.stripCopies, dif_pos h]

theorem stripCopies_of_eq {pattern script : Bytes} (hpattern : pattern ≠ [])
    (h : script.take pattern.length = pattern) :
    Script.stripCopies pattern script =
      ((Script.stripCopies pattern (script.drop pattern.length)).1 + 1,
        (Script.stripCopies pattern (script.drop pattern.length)).2) := by
  rw [Script.stripCopies, dif_neg (not_or.mpr ⟨hpattern, not_not_intro h⟩)]

/-- Copies of the pattern are skipped as long as they fit into the script. By induction on what is left
of it. -/
theorem skipCopies?_eq (pattern : Bytes) {script : Bytes} {position : Nat} (h : position ≤ script.length)
    (found : Nat) :
    ∃ stop, position ≤ stop ∧ stop ≤ script.length ∧
      (Script.stripCopies pattern (script.drop position)).2 = script.drop stop ∧
      skipCopies? pattern script position found =
        some (stop, found + (Script.stripCopies pattern (script.drop position)).1) := by
  fun_induction skipCopies? pattern script position found with
  | case1 position found hempty =>
    rw [stripCopies_of_ne (.inl hempty)]
    exact ⟨position, Nat.le_refl _, h, rfl, rfl⟩
  | case2 position found hpattern hleft =>
    rw [minus?_of_le h] at hleft
    cases hleft
  | case3 position found hpattern left hleft hshort =>
    rw [minus?_of_le h] at hleft
    cases hleft
    have hne : (script.drop position).take pattern.length ≠ pattern := by
      intro heq
      have hlength := congrArg List.length heq
      rw [List.length_take, List.length_drop] at hlength
      omega
    rw [stripCopies_of_ne (.inr hne)]
    exact ⟨position, Nat.le_refl _, h, rfl, rfl⟩
  | case4 position found hpattern left hleft hlong ih =>
    rw [minus?_of_le h] at hleft
    cases hleft
    have hroom : position + pattern.length ≤ script.length := by omega
    have hpart : slice? script position (position + pattern.length) =
        some ((script.drop position).take pattern.length) := by
      rw [slice?_of_le (Nat.le_add_right _ _) hroom, List.drop_take, Nat.add_sub_cancel_left]
    rw [hpart]
    change ∃ stop, _ ∧ _ ∧ _ ∧ (if (script.drop position).take pattern.length = pattern then _ else _) = _
    by_cases hcopy : (script.drop position).take pattern.length = pattern
    · obtain ⟨stop, hmore, hstop, hdrop, hskip⟩ := ih hroom
      rw [if_pos hcopy, stripCopies_of_eq hpattern hcopy, List.drop_drop, hskip, Nat.add_assoc, Nat.add_comm 1]
      exact ⟨stop, by omega, hstop, hdrop, rfl⟩
    · rw [if_neg hcopy, stripCopies_of_ne (.inr hcopy)]
      exact ⟨position, Nat.le_refl _, h, rfl, rfl⟩

theorem le_of_skipCopies? {pattern script : Bytes} {position found : Nat} {skipped : Nat × Nat}
    (hposition : position ≤ script.length) (h : skipCopies? pattern script position found = some skipped) :
    position ≤ skipped.1 := by
  obtain ⟨stop, hle, -, -, hskip⟩ := skipCopies?_eq pattern hposition found
  rw [hskip] at h
  cases h
  exact hle

theorem le_of_slice? {b part : Bytes} {start stop : Nat} (h : slice? b start stop = some part) :
    stop ≤ b.length := by
  unfold slice? at h
  split at h
  · next hbounds => exact hbounds.2
  · cases h

/-- What is kept so far, and the script from there on if anything was found. -/
def finish? (script kept : Bytes) (position found : Nat) : Option (Nat × Bytes) :=
  if found = 0 then some (0, script)
  else do
    let tail ← slice? script position script.length
    return (found, kept ++ tail)

/-- Removes a pattern wherever it begins at an instruction. What lies before the position and has not
been kept yet is kept, copies are skipped, and the next instruction is left to be kept. -/
def deleteFrom? (pattern script : Bytes) (copied position found : Nat) (kept : Bytes) : Option (Nat × Bytes) :=
  match _hpart : slice? script copied position with
  | none => none
  | some part =>
    match _hskip : skipCopies? pattern script position found with
    | none => none
    | some skipped =>
      if skipped.1 ≥ script.length then finish? script (kept ++ part) skipped.1 skipped.2
      else match _hnext : instructionAt? script skipped.1 with
        | none => none
        | some none => finish? script (kept ++ part) skipped.1 skipped.2
        | some (some (_, stop)) => deleteFrom? pattern script skipped.1 stop skipped.2 (kept ++ part)
termination_by script.length - position
decreasing_by
  have hle := le_of_skipCopies? (le_of_slice? _hpart) _hskip
  have hbounds := (of_instructionAt? _hnext).2.2
  omega

def findAndDelete? (pattern script : Bytes) : Option (Nat × Bytes) :=
  if pattern.isEmpty then some (0, script) else deleteFrom? pattern script 0 0 0 []

theorem findAndDelete_of_none {pattern script : Bytes}
    (h : Instruction.first? (Script.stripCopies pattern script).2 = none) :
    Script.findAndDelete pattern script = Script.stripCopies pattern script := by
  rw [Script.findAndDelete]
  split
  · rfl
  · next hsome =>
    rw [h] at hsome
    cases hsome

theorem findAndDelete_of_some {pattern script : Bytes} {i : Instruction}
    (h : Instruction.first? (Script.stripCopies pattern script).2 = some i) :
    Script.findAndDelete pattern script =
      ((Script.stripCopies pattern script).1 + (Script.findAndDelete pattern i.rest).1,
        i.bytes ++ (Script.findAndDelete pattern i.rest).2) := by
  rw [Script.findAndDelete]
  split
  · next hnone =>
    rw [h] at hnone
    cases hnone
  · next hsome =>
    rw [h] at hsome
    cases hsome
    rfl

/-- A script without the pattern is left as it is. -/
theorem stripCopies_of_none_found {pattern script : Bytes} (h : (Script.stripCopies pattern script).1 = 0) :
    (Script.stripCopies pattern script).2 = script := by
  by_cases hcopy : pattern = [] ∨ script.take pattern.length ≠ pattern
  · rw [stripCopies_of_ne hcopy]
  · obtain ⟨hpattern, htake⟩ := not_or.mp hcopy
    rw [stripCopies_of_eq hpattern (Decidable.not_not.mp htake)] at h
    cases h

theorem drop_take_append_drop {b : Bytes} {start stop : Nat} (hstart : start ≤ stop)
    (hstop : stop ≤ b.length) : (b.take stop).drop start ++ b.drop stop = b.drop start := by
  have htake : start ≤ (b.take stop).length := by
    rw [List.length_take, Nat.min_eq_left hstop]
    exact hstart
  rw [← List.drop_append_of_le_length htake, List.take_append_drop]

/-- What is kept and what was not read, or the script itself if nothing was found. -/
theorem finish?_eq {script kept : Bytes} {position found : Nat} (hposition : position ≤ script.length)
    (hkept : found = 0 → kept ++ script.drop position = script) :
    finish? script kept position found = some (found, kept ++ script.drop position) := by
  unfold finish?
  by_cases hfound : found = 0
  · rw [if_pos hfound, hkept hfound, hfound]
  · rw [if_neg hfound, slice?_to_end hposition]
    rfl

/-- By induction on what is left of the script. Where nothing has been found yet, what is kept and what is
left make up the script. -/
theorem deleteFrom?_eq {pattern script kept : Bytes} {copied position found : Nat} (hcopied : copied ≤ position)
    (hposition : position ≤ script.length) (hkept : found = 0 → kept ++ script.drop copied = script) :
    deleteFrom? pattern script copied position found kept =
      some (found + (Script.findAndDelete pattern (script.drop position)).1,
        kept ++ (script.take position).drop copied ++
          (Script.findAndDelete pattern (script.drop position)).2) := by
  induction hleft : script.length - position using Nat.strongRecOn generalizing copied position found kept with
  | ind left ih =>
    have hpart := slice?_of_le (b := script) hcopied hposition
    have hparts := drop_take_append_drop hcopied hposition
    obtain ⟨stop, hle, hstop, hdrop, hskip⟩ := skipCopies?_eq pattern hposition found
    have hmore : found + (Script.stripCopies pattern (script.drop position)).1 = 0 →
        kept ++ (script.take position).drop copied ++ script.drop stop = script := by
      intro hnone
      obtain ⟨hfound, hstripped⟩ := Nat.add_eq_zero_iff.mp hnone
      rw [← hdrop, stripCopies_of_none_found hstripped, List.append_assoc, hparts, hkept hfound]
    have hend (hnone : Instruction.first? (script.drop stop) = none) :
        finish? script (kept ++ (script.take position).drop copied) stop
            (found + (Script.stripCopies pattern (script.drop position)).1) =
          some (found + (Script.findAndDelete pattern (script.drop position)).1,
            kept ++ (script.take position).drop copied ++
              (Script.findAndDelete pattern (script.drop position)).2) := by
      rw [finish?_eq hstop hmore, findAndDelete_of_none (by rwa [hdrop]), hdrop]
    rw [deleteFrom?]
    split
    · next hnone =>
      rw [hpart] at hnone
      cases hnone
    next part hsome =>
    rw [hpart] at hsome
    cases hsome
    split
    · next hnone =>
      rw [hskip] at hnone
      cases hnone
    next skipped hsome =>
    rw [hskip] at hsome
    cases hsome
    split
    · next hover => exact hend (by rw [List.drop_of_length_le hover]; rfl)
    next hwithin =>
    split
    · next hnone =>
      rw [instructionAt?_eq (Nat.lt_of_not_le hwithin)] at hnone
      cases hnone
    · next hnone => exact hend (Option.map_eq_none_iff.mp (eq_of_instructionAt? hnone))
    · next i after hsome =>
      obtain ⟨hfirst, hrest, hlt, hafter⟩ := of_instructionAt? hsome
      have hbytes : i.bytes = (script.take after).drop stop := by
        have hread := Instruction.bytes_append_rest hfirst
        rw [hrest, ← drop_take_append_drop (Nat.le_of_lt hlt) hafter] at hread
        exact List.append_cancel_right hread
      have hstripped : Instruction.first? (Script.stripCopies pattern (script.drop position)).2 = some i := by
        rw [hdrop]
        exact hfirst
      rw [ih (script.length - after) (by omega) (Nat.le_of_lt hlt) hafter hmore rfl,
        findAndDelete_of_some hstripped, hrest, hbytes, Nat.add_assoc, List.append_assoc]

/-- Removing a pattern never looks past the script. -/
theorem findAndDelete?_eq {pattern : Bytes} (hpattern : pattern ≠ []) (script : Bytes) :
    findAndDelete? pattern script = some (Script.findAndDelete pattern script) := by
  have hdelete : deleteFrom? pattern script 0 0 0 [] = _ :=
    deleteFrom?_eq (Nat.le_refl 0) (Nat.zero_le _) fun _ ↦ rfl
  unfold findAndDelete?
  rw [if_neg (by rwa [List.isEmpty_iff]), hdelete]
  simp

/-- A push is never empty. -/
theorem pushData_ne_nil (data : Bytes) : Script.pushData data ≠ [] := by
  unfold Script.pushData
  repeat' split
  all_goals exact List.cons_ne_nil _ _

end UtxoConsensus.Indexed
