import UtxoConsensus.Proofs.Indexed.Multisignatures
import UtxoConsensus.Proofs.Indexed.Operations

/-!
# Scripts that run by positions

Whole scripts and spends, where every byte and element is found by its position, every count is the result
of a difference and every number is gathered from shifted bytes. Each of these operations may be asked for
what is not there, and then the run faults. It is the same run as the interpreter's, instruction by
instruction, so that none of them ever is: whatever the script, the stack, the rules and the checker, each
operation is reached only within its bounds.
-/

namespace UtxoConsensus.Indexed

open Exec

variable {σ : Type}

/-! ## Operations -/

def executeVerify : Exec σ Unit := do
  require 1
  failIf (!(← orFault (toBool? (← peek 0)))) .verify
  let _ ← pop

def execute (env : Env σ) (rest : Bytes) : Operation → Exec σ Unit
  | .number n => pushNumber n
  | .checkLockTime => executeCheckLockTimeWith (lockTimeOperandWith (lockTime env)) env
  | .checkSequence => executeCheckSequenceWith (lockTimeOperandWith (lockTime env)) env
  | .verify => executeVerify
  | .stack op => executeStack env op
  | .splice op => executeSplice env op
  | .unary op => executeUnaryWith (number env) pushNumber op
  | .binary op => executeBinaryWith pushNumber (binaryOperandsWith (number env)) binaryApply op
  | .numEqualVerify => executeNumEqualVerifyWith (binaryOperandsWith (number env))
  | .within => executeWithinWith (number env)
  | .checkSig verify => executeCheckSig env verify
  | .checkMultisig verify => executeCheckMultisig env verify
  | .checkDataSig verify =>
    executeCheckDataSigWith (checkDataSignature env.flags) (checkPublicKey env.flags) env verify
  | .transactionField field => executeTransactionFieldWith pushNumber pushCount env field
  | .inputField field => executeInputFieldWith (popIndex env) pushNumber env field
  | .outputField field => executeOutputFieldWith (popOutput env) pushNumber env field
  | .tokenField side field =>
    executeTokenFieldWith pushNumber (popTokenWith (popIndex env) (popOutput env)) env side field
  | op => UtxoConsensus.execute env rest op

theorem executeVerify_eq : (executeVerify : Exec σ Unit) = UtxoConsensus.executeVerify := by
  unfold executeVerify UtxoConsensus.executeVerify
  simp only [toBool?_eq, orFault_some, pure_bind]

theorem execute_eq (env : Env σ) (rest : Bytes) (op : Operation) :
    execute env rest op = UtxoConsensus.execute env rest op := by
  cases op with
  | number n => exact congrFun pushNumber_eq n
  | checkLockTime | checkSequence =>
    simp only [execute, lockTime_eq]
    rfl
  | verify => exact executeVerify_eq
  | stack op => exact executeStack_eq env op
  | splice op => exact executeSplice_eq env op
  | unary op | numEqualVerify | within =>
    simp only [execute, number_eq, pushNumber_eq]
    rfl
  | binary op => exact executeBinary_eq env op
  | checkSig verify => exact executeCheckSig_eq env verify
  | checkMultisig verify => exact executeCheckMultisig_eq env verify
  | checkDataSig verify => exact executeCheckDataSig_eq env verify
  | transactionField field | inputField field | outputField field | tokenField side field =>
    simp only [execute, popIndex_eq, popOutput_eq, pushNumber_eq, pushCount_eq]
    rfl
  | _ => rfl

/-! ## Branches -/

/-- Is a condition empty or the byte one? Only a single byte is looked at. -/
def isMinimalCondition? (condition : Bytes) : Option Bool :=
  if condition.length > 1 then some false
  else if condition.length = 1 then do
    let byte ← condition[0]?
    return byte == 1
  else some true

def popCondition (env : Env σ) : Exec σ Bool := do
  match (← get).stack with
  | [] => fail .unbalancedConditional
  | condition :: _ => do
    if env.has .minimalIf then failIf (!(← orFault (isMinimalCondition? condition))) .minimalIf
    let _ ← pop
    orFault (toBool? condition)

/-- The first byte of a condition is looked at only if it has one byte. -/
theorem isMinimalCondition?_eq (condition : Bytes) :
    isMinimalCondition? condition = some (!(condition != [] && condition != [1])) := by
  match condition with
  | [] => rfl
  | [byte] =>
    change some (byte == 1) = some (!(true && !([byte] == [1])))
    rw [List.cons_beq_cons, beq_self_eq_true, Bool.and_true, Bool.true_and, Bool.not_not]
  | first :: second :: rest =>
    have hlong : ((first :: second :: rest) != [1]) = true := bne_iff_ne.mpr fun h ↦ by cases h
    rw [hlong, Bool.and_true]
    rfl

theorem popCondition_eq (env : Env σ) : popCondition env = UtxoConsensus.popCondition env := by
  unfold popCondition UtxoConsensus.popCondition
  refine bind_congr fun m ↦ ?_
  cases m.stack with
  | nil => rfl
  | cons condition rest =>
    simp only [isMinimalCondition?_eq, toBool?_eq, orFault_some, pure_bind]
    rw [Bool.and_assoc]
    cases env.has .minimalIf with
    | true => rw [if_pos rfl, Bool.true_and, Bool.not_not]
    | false => rfl

/-! ## Instructions -/

def executePush (env : Env σ) (i : Instruction) : Exec σ Unit := do
  if env.has .minimalData then failIf (!(← orFault (isMinimalPush? i.data i.opcode))) .minimalData
  push i.data

def step (env : Env σ) : Conditions → Instruction → Exec σ Conditions :=
  stepWith (executePush env) (executeBranchWith (popCondition env)) (execute env) env

def evalScript (env : Env σ) (script : Bytes) : Exec σ Unit := do
  failIf (decide (script.length > Script.maxSize)) .scriptSize
  modify fun m ↦ { m with altStack := [], scriptCode := script, opCount := 0 }
  let parsed ← orFault (parse? script)
  let conditions ← runInstructionsWith (step env) .none parsed.instructions
  failIf (!parsed.tail.isEmpty) .badOpcode
  failIf (!conditions.isEmpty) .unbalancedConditional

theorem executePush_eq (env : Env σ) (i : Instruction) : executePush env i = UtxoConsensus.executePush env i := by
  unfold executePush UtxoConsensus.executePush
  rw [isMinimalPush?_eq]
  cases env.has .minimalData <;> rfl

/-- One instruction is run alike. -/
theorem step_eq (env : Env σ) : step env = UtxoConsensus.step env := by
  unfold step
  rw [popCondition_eq, funext (executePush_eq env), funext fun rest ↦ funext (execute_eq env rest)]
  rfl

/-- A script that is read by positions runs as the list of its instructions. -/
theorem evalScript_eq (env : Env σ) (script : Bytes) :
    evalScript env script = UtxoConsensus.evalScript env script := by
  unfold evalScript UtxoConsensus.evalScript runInstructions
  simp only [parse?_eq, step_eq, orFault_some, pure_bind]

/-! ## Spends -/

def requireTrue : Exec σ Unit := do
  failIf (!(← orFault ((← get).stack.head?.elim (some false) toBool?))) .evalFalse

def runRedeemScript (env : Env σ) (unlocking : Bytes) (pushed : List Bytes) : Exec σ Bool := do
  failIf (!(← orFault (isPushOnly? unlocking))) .sigPushOnly
  match pushed with
  | [] => fail .invalidStackOperation
  | redeemScript :: rest => do
    modify fun m ↦ { m with stack := rest }
    if !env.has .disallowSegwitRecovery && rest.isEmpty && (← orFault (isWitnessProgram? redeemScript)) then
      return false
    else
      evalScript env redeemScript
      requireTrue
      return true

def runScripts (env : Env σ) (unlocking locking : Bytes) : Exec σ Bool := do
  if env.has .sigPushOnly then failIf (!(← orFault (isPushOnly? unlocking))) .sigPushOnly
  evalScript env unlocking
  let pushed := (← get).stack
  evalScript env locking
  requireTrue
  if env.has .p2sh && (← orFault (isPayToScriptHash? locking env.flags)) then
    runRedeemScript env unlocking pushed
  else return true

def verifySpend (env : Env σ) (unlocking locking : Bytes) : Exec σ Unit :=
  verifySpendWith (runScripts env unlocking locking) env unlocking

def verifyScript : Checker σ → ScriptFlags → (unlocking locking : Bytes) → StateM σ (Except Halt Nat) :=
  verifyScriptWith verifySpend

theorem requireTrue_eq : (requireTrue : Exec σ Unit) = UtxoConsensus.requireTrue := by
  unfold requireTrue UtxoConsensus.requireTrue
  refine bind_congr fun m ↦ ?_
  cases m.stack with
  | nil => rfl
  | cons element rest =>
    change (orFault (toBool? element) >>= fun holds ↦ failIf (!holds) .evalFalse) = _
    rw [toBool?_eq]
    rfl

theorem runRedeemScript_eq (env : Env σ) (unlocking : Bytes) (pushed : List Bytes) :
    runRedeemScript env unlocking pushed = UtxoConsensus.runRedeemScript env unlocking pushed := by
  unfold runRedeemScript UtxoConsensus.runRedeemScript
  cases pushed with
  | nil => simp only [isPushOnly?_eq, orFault_some, pure_bind]
  | cons redeemScript rest =>
    simp only [isPushOnly?_eq, isWitnessProgram?_eq, evalScript_eq, requireTrue_eq, orFault_some, pure_bind]

theorem runScripts_eq (env : Env σ) (unlocking locking : Bytes) :
    runScripts env unlocking locking = UtxoConsensus.runScripts env unlocking locking := by
  unfold runScripts UtxoConsensus.runScripts
  simp only [isPushOnly?_eq, isPayToScriptHash?_eq, evalScript_eq, requireTrue_eq, runRedeemScript_eq,
    orFault_some, pure_bind]
  cases env.has .sigPushOnly <;> rfl

theorem verifySpend_eq : (verifySpend : Env σ → Bytes → Bytes → Exec σ Unit) = UtxoConsensus.verifySpend := by
  funext env unlocking locking
  unfold verifySpend UtxoConsensus.verifySpend
  rw [runScripts_eq]

/-- Whole spends by positions, with the same answer and the same questions to the checker. -/
theorem verifyScript_eq (checker : Checker σ) (flags : ScriptFlags) (unlocking locking : Bytes) :
    verifyScript checker flags unlocking locking = UtxoConsensus.verifyScript checker flags unlocking locking := by
  unfold verifyScript UtxoConsensus.verifyScript
  rw [verifySpend_eq]

/-- **No operation leaves its bounds.** Whatever the stack, the rules and the checker, a script that runs by
positions ends as it does in the interpreter, and so does a spend, and neither of them faults: no position
lies outside its list, no difference is negative, no shift is too wide, no divisor is zero and no number
needs more than 64 bits. -/
theorem runs_within_bounds :
    (∀ (env : Env σ) (script : Bytes) (m : Machine σ),
      evalScript env script m = UtxoConsensus.evalScript env script m ∧
        ∀ m', evalScript env script m ≠ .error .fault m') ∧
      ∀ (checker : Checker σ) (flags : ScriptFlags) (unlocking locking : Bytes) (world : σ),
        verifyScript checker flags unlocking locking world =
            UtxoConsensus.verifyScript checker flags unlocking locking world ∧
          (verifyScript checker flags unlocking locking world).1 ≠ .error .fault := by
  constructor
  · intro env script m
    rw [evalScript_eq]
    exact ⟨rfl, (neverFaults_evalScript script).ne_fault (Nat.zero_le m.stack.length)⟩
  · intro checker flags unlocking locking world
    rw [verifyScript_eq]
    exact ⟨rfl, verifyScript_ne_fault checker flags unlocking locking world⟩

end UtxoConsensus.Indexed
