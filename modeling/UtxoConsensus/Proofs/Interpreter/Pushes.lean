import UtxoConsensus.Interpreter.Verify
import UtxoConsensus.Proofs.Interpreter.Runs
import UtxoConsensus.Proofs.Script.Parsing

/-!
# Scripts that only push

An instruction up to the opcode for 16 pushes one element, or fails, and which of both depends on
nothing but the rules. So for a script of such instructions there is a closed form: the elements of all
its instructions on top of the stack that it started on, as long as there is room for them.
-/

namespace UtxoConsensus

open Exec

variable {σ α : Type} {env : Env σ}

/-! ## Opcodes that push -/

/-- The opcodes for 1 to 16 push the numbers that they are named for. -/
theorem Opcode.smallNumber_of_isPositiveNumber {opcode : UInt8} (h : isPositiveNumber opcode = true) :
    (1 ≤ smallNumber opcode ∧ smallNumber opcode ≤ 16) ∧ ofSmallNumber (smallNumber opcode) = opcode := by
  revert opcode
  apply Bytes.forall_byte
  decide +kernel

theorem Operation.ofOpcode_of_isPositiveNumber {opcode : UInt8} (h : Opcode.isPositiveNumber opcode = true) :
    ofOpcode opcode = .number (Opcode.smallNumber opcode).toNat := by
  unfold ofOpcode
  rw [if_pos h]

/-- Above the pushes of data there are the numbers, and one opcode among them that is reserved. -/
theorem Operation.cases_of_le_sixteen {opcode : UInt8} (hlow : ¬ opcode ≤ Opcode.pushData4)
    (hhigh : opcode ≤ Opcode.sixteen) :
    Opcode.isPositiveNumber opcode = true ∨ opcode = Opcode.negativeOne ∨ ofOpcode opcode = .invalid := by
  by_cases hone : Opcode.one ≤ opcode
  · left
    unfold Opcode.isPositiveNumber
    rw [decide_eq_true hone, decide_eq_true hhigh, Bool.and_self]
  · right
    have hlower : 0x4e < opcode.toNat := Nat.lt_of_not_le hlow
    have hupper : opcode.toNat < 0x51 := Nat.lt_of_not_le hone
    have hcases : opcode = Opcode.negativeOne ∨ opcode = 0x50 := by
      rw [← UInt8.toNat_inj, ← UInt8.toNat_inj]
      change opcode.toNat = 0x4f ∨ opcode.toNat = 0x50
      omega
    apply hcases.imp_right
    rintro rfl
    rfl

/-- Opcodes up to sixteen push numbers, or they are reserved. -/
theorem Operation.ofOpcode_of_le_sixteen {opcode : UInt8} (hlow : ¬ opcode ≤ Opcode.pushData4)
    (hhigh : opcode ≤ Opcode.sixteen) :
    (∃ n : Int, (-1 ≤ n ∧ n ≤ 255) ∧ ofOpcode opcode = .number n) ∨ ofOpcode opcode = .invalid := by
  rcases cases_of_le_sixteen hlow hhigh with hnumber | rfl | hinvalid
  · have hbyte := (Opcode.smallNumber opcode).toNat_lt
    exact .inl ⟨(Opcode.smallNumber opcode).toNat, by omega, ofOpcode_of_isPositiveNumber hnumber⟩
  · exact .inl ⟨-1, by decide, rfl⟩
  · exact .inr hinvalid

theorem isDisabled_of_le_sixteen {opcode : UInt8} (hle : opcode ≤ Opcode.sixteen) (flags : ScriptFlags) :
    isDisabled opcode flags = false := by
  have hne (other : UInt8) (hother : Opcode.sixteen < other) : (opcode == other) = false := by
    rw [beq_eq_false_iff_ne]
    rintro rfl
    exact UInt8.not_lt.mpr hle hother
  unfold isDisabled Opcode.switchedOff
  simp only [List.contains_cons, List.contains_nil, hne _ (by decide : Opcode.sixteen < 0x83),
    hne _ (by decide : Opcode.sixteen < 0x8d), hne _ (by decide : Opcode.sixteen < 0x8e),
    hne _ (by decide : Opcode.sixteen < 0x98), hne _ (by decide : Opcode.sixteen < 0x99),
    hne _ (by decide : Opcode.sixteen < Opcode.mul), Bool.or_self, Bool.false_and]

/-! ## Instructions that push -/

/-- The element that an instruction pushes, as far as the rules let it. -/
def Instruction.pushed (env : Env σ) (i : Instruction) : Except ScriptError Bytes :=
  if i.data.length > Limit.elementSize then .error .pushSize
  else if i.opcode ≤ Opcode.pushData4 then
    if env.has .minimalData && !Script.isMinimalPush i.data i.opcode then .error .minimalData
    else .ok i.data
  else match Operation.ofOpcode i.opcode with
    | .number n => .ok (ScriptNumber.encode n)
    | _ => .error .badOpcode

/-- An element that is pushed is the data of the instruction, or the number that its opcode names. -/
theorem Instruction.cases_of_pushed_eq_ok {i : Instruction} {b : Bytes} (h : i.pushed env = .ok b) :
    i.data.length ≤ Limit.elementSize ∧
      (i.opcode ≤ Opcode.pushData4 ∧ (env.has .minimalData && !Script.isMinimalPush i.data i.opcode) = false ∧
          b = i.data ∨
        ¬ i.opcode ≤ Opcode.pushData4 ∧ ∃ n, Operation.ofOpcode i.opcode = .number n ∧
          b = ScriptNumber.encode n) := by
  unfold pushed at h
  by_cases hsize : i.data.length > Limit.elementSize
  · rw [if_pos hsize] at h
    cases h
  · rw [if_neg hsize] at h
    refine ⟨Nat.le_of_not_lt hsize, ?_⟩
    by_cases hpush : i.opcode ≤ Opcode.pushData4
    · rw [if_pos hpush] at h
      cases hminimal : env.has .minimalData && !Script.isMinimalPush i.data i.opcode with
      | true =>
        rw [hminimal] at h
        cases h
      | false =>
        rw [hminimal] at h
        exact .inl ⟨hpush, rfl, (Except.ok.inj h).symm⟩
    · rw [if_neg hpush] at h
      split at h
      · next n hoperation => exact .inr ⟨hpush, n, hoperation, (Except.ok.inj h).symm⟩
      · cases h

/-- Data that is pushed in the shortest way is pushed whatever the rules are. -/
theorem Instruction.pushed_data {i : Instruction} (hopcode : i.opcode ≤ Opcode.pushData4)
    (hminimal : Script.isMinimalPush i.data i.opcode = true) (hsize : i.data.length ≤ Limit.elementSize) :
    i.pushed env = .ok i.data := by
  unfold pushed
  rw [if_neg (Nat.not_lt.mpr hsize), if_pos hopcode, hminimal, Bool.not_true, Bool.and_false]
  rfl

theorem Instruction.pushed_number {i : Instruction} {n : Int} (hdata : i.data = [])
    (hopcode : Opcode.pushData4 < i.opcode) (hnumber : Operation.ofOpcode i.opcode = .number n) :
    i.pushed env = .ok (ScriptNumber.encode n) := by
  have hsize : ¬ i.data.length > Limit.elementSize := by
    rw [hdata]
    exact Nat.not_lt.mpr (Nat.zero_le _)
  unfold pushed
  rw [if_neg hsize, if_neg (UInt8.not_le.mpr hopcode), hnumber]

/-- Pushes are neither counted nor disabled. -/
theorem checkLimits_of_le_sixteen {i : Instruction} (hle : i.opcode ≤ Opcode.sixteen) :
    checkLimits env i = failIf (decide (i.data.length > Limit.elementSize)) .pushSize := by
  unfold checkLimits
  rw [if_neg (UInt8.not_lt.mpr hle), isDisabled_of_le_sixteen hle]
  exact bind_pure _

theorem step_of_le_sixteen {i : Instruction} (hle : i.opcode ≤ Opcode.sixteen) {conditions : Conditions}
    (htaken : conditions.allTrue = true) :
    step env conditions i = (do push (← lift (i.pushed env)); return conditions) := by
  unfold step stepWith Instruction.pushed
  rw [checkLimits_of_le_sixteen hle, htaken]
  by_cases hsize : i.data.length > Limit.elementSize
  · rw [decide_eq_true hsize, if_pos hsize]
    rfl
  · rw [decide_eq_false hsize, if_neg hsize]
    by_cases hpush : i.opcode ≤ Opcode.pushData4
    · rw [if_pos hpush, if_pos hpush]
      change (do executePush env i; pure conditions) = _
      unfold executePush
      cases env.has .minimalData && !Script.isMinimalPush i.data i.opcode with
      | true => rfl
      | false => rfl
    · rw [if_neg hpush, if_neg hpush]
      obtain ⟨n, hn, hoperation⟩ | hoperation := Operation.ofOpcode_of_le_sixteen hpush hle
      · rw [hoperation]
        change (do pushNumber n; pure conditions) = _
        have hword : Int64.minValue.toInt ≤ n ∧ n ≤ Int64.maxValue.toInt := by
          have hmin : Int64.minValue.toInt = -9223372036854775808 := rfl
          have hmax : Int64.maxValue.toInt = 9223372036854775807 := rfl
          omega
        unfold pushNumber word
        rw [if_pos hword]
        rfl
      · rw [hoperation]
        rfl

/-! ## Runs -/

/-- The stack after instructions that push, if there is room for all elements. -/
def pushAll (env : Env σ) : List Instruction → List Bytes → Except ScriptError (List Bytes)
  | [], stack => .ok stack
  | i :: rest, stack => do
    let b ← i.pushed env
    if (b :: stack).length > Limit.stackSize then .error .stackSize
    else pushAll env rest (b :: stack)

/-- A run from the given machine has changed only the stack, or has failed without a question to the
checker. -/
def Machine.Pushes (m : Machine σ) (a : α) (r : EStateM.Result Halt (Machine σ) α) :
    Except ScriptError (List Bytes) → Prop
  | .ok stack => r = .ok a { m with stack }
  | .error e => ∃ m', r = .error (.failed e) m' ∧ m'.world = m.world

theorem Machine.Pushes.of_stack {m : Machine σ} {stack : List Bytes} {a : α}
    {r : EStateM.Result Halt (Machine σ) α} {result : Except ScriptError (List Bytes)}
    (h : { m with stack }.Pushes a r result) : m.Pushes a r result := by
  cases result <;> exact h

/-- The run lemma: each push adds its element, and nothing else changes. -/
theorem runInstructions_pushes {instructions : List Instruction}
    (hle : ∀ i ∈ instructions, i.opcode ≤ Opcode.sixteen) {m : Machine σ} (halt : m.altStack = []) :
    m.Pushes .none (runInstructions env .none instructions m) (pushAll env instructions m.stack) := by
  induction instructions generalizing m with
  | nil => rfl
  | cons i rest ih =>
    rw [List.forall_mem_cons] at hle
    unfold pushAll
    rw [runInstructions_cons, step_of_le_sixteen hle.1 rfl]
    cases hpushed : i.pushed env with
    | error e => exact ⟨m, rfl, rfl⟩
    | ok b =>
      change m.Pushes .none ((failIf (decide ((b :: m.stack).length + m.altStack.length >
        Limit.stackSize)) .stackSize >>= fun _ ↦ runInstructions env .none rest)
          { m with stack := b :: m.stack })
        (if (b :: m.stack).length > Limit.stackSize then .error .stackSize
          else pushAll env rest (b :: m.stack))
      -- Pushes leave the other stack empty, so the limit is on this one alone.
      have hcount : (b :: m.stack).length + m.altStack.length = (b :: m.stack).length := by
        rw [halt]
        rfl
      rw [hcount]
      by_cases hroom : (b :: m.stack).length > Limit.stackSize
      · rw [if_pos hroom, decide_eq_true hroom]
        exact ⟨_, rfl, rfl⟩
      · rw [if_neg hroom, decide_eq_false hroom]
        exact .of_stack (ih hle.2 (m := { m with stack := b :: m.stack }) halt)

theorem pushAll_append (env : Env σ) (first second : List Instruction) (stack : List Bytes) :
    pushAll env (first ++ second) stack = pushAll env first stack >>= pushAll env second := by
  induction first generalizing stack with
  | nil => rfl
  | cons i rest ih =>
    rw [List.cons_append]
    unfold pushAll
    cases i.pushed env with
    | error e => rfl
    | ok b =>
      change (if (b :: stack).length > Limit.stackSize then Except.error ScriptError.stackSize
        else pushAll env (rest ++ second) (b :: stack)) =
          (if (b :: stack).length > Limit.stackSize then .error .stackSize
            else pushAll env rest (b :: stack)) >>= pushAll env second
      split
      · rfl
      · exact ih _

/-- What is pushed does not depend on the script that follows. -/
theorem pushAll_before (env : Env σ) (instructions : List Instruction) (script : Bytes)
    (stack : List Bytes) :
    pushAll env (instructions.map (·.before script)) stack = pushAll env instructions stack := by
  induction instructions generalizing stack with
  | nil => rfl
  | cons i rest ih =>
    have hpushed : (i.before script).pushed env = i.pushed env := rfl
    rw [List.map_cons]
    unfold pushAll
    simp only [hpushed, ih]

/-! ## Scripts -/

namespace Script

/-- A script of pushes can be read to its end, and all its opcodes push. -/
theorem isPushOnly_iff {script : Bytes} : isPushOnly script = true ↔
    (parse script).tail = [] ∧ ∀ i ∈ (parse script).instructions, i.opcode ≤ Opcode.sixteen := by
  unfold isPushOnly
  rw [Bool.and_eq_true, List.isEmpty_iff, List.all_eq_true]
  simp only [decide_eq_true_eq]

theorem isPushOnly_append {first second : Bytes} (hfirst : isPushOnly first = true)
    (hsecond : isPushOnly second = true) : isPushOnly (first ++ second) = true := by
  rw [isPushOnly_iff] at hfirst hsecond ⊢
  rw [parse_append hfirst.1]
  refine ⟨hsecond.1, List.forall_mem_append.mpr ⟨?_, hsecond.2⟩⟩
  intro i hi
  obtain ⟨j, hj, rfl⟩ := List.mem_map.mp hi
  exact hfirst.2 j hj

end Script

theorem evalScript_of_length_le {script : Bytes} (hsize : script.length ≤ Script.maxSize) (m : Machine σ) :
    evalScript env script m =
      (do
        let conditions ← runInstructions env .none (Script.parse script).instructions
        failIf (!(Script.parse script).tail.isEmpty) .badOpcode
        failIf (!conditions.isEmpty) .unbalancedConditional) (m.enter script) := by
  unfold evalScript
  rw [decide_eq_false (Nat.not_lt.mpr hsize)]
  rfl

theorem length_le_of_evalScript_eq_ok {script : Bytes} {m m' : Machine σ} {u : Unit}
    (h : evalScript env script m = .ok u m') : script.length ≤ Script.maxSize := by
  unfold evalScript at h
  obtain ⟨_, _, hsize, -⟩ := exists_of_bind_eq_ok h
  exact Nat.le_of_not_lt (decide_eq_false_iff_not.mp (false_of_failIf_eq_ok hsize))

/-- A script of pushes leaves its data on the stack, or fails. -/
theorem evalScript_pushes {script : Bytes} (hpush : Script.isPushOnly script = true)
    (hsize : script.length ≤ Script.maxSize) (m : Machine σ) :
    (m.enter script).Pushes () (evalScript env script m)
      (pushAll env (Script.parse script).instructions m.stack) := by
  rw [Script.isPushOnly_iff] at hpush
  have hrun : (m.enter script).Pushes _ (runInstructions env .none _ _)
      (pushAll env (Script.parse script).instructions m.stack) :=
    runInstructions_pushes hpush.2 rfl
  rw [evalScript_of_length_le hsize, hpush.1]
  cases hpushed : pushAll env (Script.parse script).instructions m.stack with
  | ok stack =>
    rw [hpushed] at hrun
    rw [bind_of_ok hrun]
    rfl
  | error e =>
    rw [hpushed] at hrun
    obtain ⟨m', hfail, hworld⟩ := hrun
    exact ⟨m', bind_of_error hfail _, hworld⟩

/-- One more element, pushed after a script that only pushes. -/
theorem pushAll_parse_append {script data : Bytes} (hpush : Script.isPushOnly script = true)
    (hmin : 2 ≤ data.length) (hmax : data.length ≤ Limit.elementSize) :
    pushAll env (Script.parse (script ++ Script.pushData data)).instructions [] =
      (do
        let stack ← pushAll env (Script.parse script).instructions []
        if (data :: stack).length > Limit.stackSize then .error .stackSize else .ok (data :: stack)) := by
  have hlength : data.length ≤ 65535 := Nat.le_trans hmax (by decide)
  obtain ⟨opcode, field, hparse, hopcode, hminimal⟩ := Script.exists_parse_pushData hmin hlength
  have hpushed (rest : Bytes) : Instruction.pushed env ⟨opcode, field, data, rest⟩ = .ok data :=
    Instruction.pushed_data hopcode hminimal hmax
  rw [Script.parse_append (Script.isPushOnly_iff.mp hpush).1, hparse, pushAll_append, pushAll_before]
  refine bind_congr fun stack ↦ ?_
  unfold pushAll
  rw [hpushed]
  rfl

theorem isPushOnly_pushData {data : Bytes} (hmin : 2 ≤ data.length) (hmax : data.length ≤ Limit.elementSize) :
    Script.isPushOnly (Script.pushData data) = true := by
  have hlength : data.length ≤ 65535 := Nat.le_trans hmax (by decide)
  obtain ⟨opcode, field, hparse, hopcode, -⟩ := Script.exists_parse_pushData hmin hlength
  rw [Script.isPushOnly_iff, hparse]
  exact ⟨rfl, List.forall_mem_singleton.mpr (UInt8.le_trans hopcode (by decide))⟩

end UtxoConsensus
