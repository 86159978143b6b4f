import UtxoConsensus.Interpreter.Arithmetic
import UtxoConsensus.Interpreter.Conditions
import UtxoConsensus.Interpreter.Introspection
import UtxoConsensus.Interpreter.LockTime
import UtxoConsensus.Interpreter.Signatures
import UtxoConsensus.Interpreter.Stack
import UtxoConsensus.Script.Compressed

/-!
# Running a script

Instructions run in order. In branches that are not taken they are only counted and searched for
opcodes that must not stand in a script; the opcodes that open and close branches always run.
-/

namespace UtxoConsensus

open Exec

/-! ## Operations -/

/-- Fails unless the top element, which is removed, is true. -/
def executeVerify : Exec σ Unit := do
  require 1
  failIf (!ScriptNumber.toBool (← peek 0)) .verify
  let _ ← pop

/-- Runs an operation other than those that open and close branches; `rest` is the script after
it. -/
def execute (env : Env σ) (rest : Bytes) : Operation → Exec σ Unit
  | .number n => pushNumber n
  | .nop => pure ()
  | .upgradableNop => executeUpgradableNop env
  | .checkLockTime => executeCheckLockTime env
  | .checkSequence => executeCheckSequence env
  | .verify => executeVerify
  | .fail => fail .opReturn
  | .stack op => executeStack env op
  | .splice op => executeSplice env op
  | .bitwise op => executeBitwise op
  | .equal verify => executeEqual verify
  | .unary op => executeUnary env op
  | .binary op => executeBinary env op
  | .numEqualVerify => executeNumEqualVerify env
  | .within => executeWithin env
  | .hash op => executeHash op
  | .codeSeparator => modify fun m ↦ { m with scriptCode := rest }
  | .checkSig verify => executeCheckSig env verify
  | .checkMultisig verify => executeCheckMultisig env verify
  | .checkDataSig verify => executeCheckDataSig env verify
  | .transactionField field => executeTransactionField env field
  | .inputField field => executeInputField env field
  | .outputField field => executeOutputField env field
  | .tokenField side field => executeTokenField env side field
  | .branch _ => fail .badOpcode
  | .invalid => fail .badOpcode

/-! ## Branches -/

def popCondition (env : Env σ) : Exec σ Bool := do
  match (← get).stack with
  | [] => fail .unbalancedConditional
  | condition :: _ => do
    failIf (env.has .minimalIf && condition != [] && condition != [1]) .minimalIf
    let _ ← pop
    return ScriptNumber.toBool condition

section

variable (popCondition : Exec σ Bool) (conditions : Conditions)

/-- Opens a branch, which is not taken within a branch that is not taken. -/
def openBranchWith (expected : Bool) : Exec σ Conditions := do
  if conditions.allTrue then return conditions.push ((← popCondition) == expected)
  else return conditions.push false

def executeBranchWith : BranchOp → Exec σ Conditions
  | .ifTrue => openBranchWith popCondition conditions true
  | .ifFalse => openBranchWith popCondition conditions false
  | .otherwise => do
    failIf conditions.isEmpty .unbalancedConditional
    orFault conditions.toggle?
  | .endIf => do
    failIf conditions.isEmpty .unbalancedConditional
    orFault conditions.pop?
  | .forbidden => fail .badOpcode

end

def openBranch (env : Env σ) (conditions : Conditions) (expected : Bool) : Exec σ Conditions :=
  openBranchWith (popCondition env) conditions expected

def executeBranch (env : Env σ) (conditions : Conditions) (op : BranchOp) : Exec σ Conditions :=
  executeBranchWith (popCondition env) conditions op

/-! ## Instructions -/

/-- Must an opcode not stand in a script, taken or not? -/
def isDisabled (opcode : UInt8) (flags : ScriptFlags) : Bool :=
  Opcode.switchedOff.contains opcode || (opcode == Opcode.mul && !flags.contains .integers64Bit)

def executePush (env : Env σ) (i : Instruction) : Exec σ Unit := do
  failIf (env.has .minimalData && !Script.isMinimalPush i.data i.opcode) .minimalData
  push i.data

/-- What is asked of an instruction before it runs, in branches that are not taken as well. -/
def checkLimits (env : Env σ) (i : Instruction) : Exec σ Unit := do
  failIf (decide (i.data.length > Limit.elementSize)) .pushSize
  if i.opcode > Opcode.sixteen then Env.countOperations 1
  failIf (isDisabled i.opcode env.flags) .disabledOpcode

/-- Runs one instruction; returns the branches that are open after it. -/
def stepWith (push : Instruction → Exec σ Unit) (branch : Conditions → BranchOp → Exec σ Conditions)
    (execute : (rest : Bytes) → Operation → Exec σ Unit) (env : Env σ) (conditions : Conditions)
    (i : Instruction) : Exec σ Conditions := do
  checkLimits env i
  if i.opcode ≤ Opcode.pushData4 then
    if conditions.allTrue then push i
    return conditions
  else match Operation.ofOpcode i.opcode with
    | .branch op => branch conditions op
    | op => do
      if conditions.allTrue then execute i.rest op
      return conditions

/-- Runs instructions in order. After each of them the stacks must not hold too many elements. -/
def runInstructionsWith (step : Conditions → Instruction → Exec σ Conditions) :
    Conditions → List Instruction → Exec σ Conditions
  | conditions, [] => return conditions
  | conditions, i :: rest => do
    let conditions ← step conditions i
    let m ← get
    failIf (decide (m.stack.length + m.altStack.length > Limit.stackSize)) .stackSize
    runInstructionsWith step conditions rest

def step (env : Env σ) (conditions : Conditions) (i : Instruction) : Exec σ Conditions :=
  stepWith (executePush env) (executeBranch env) (execute env) env conditions i

def runInstructions (env : Env σ) (conditions : Conditions) (instructions : List Instruction) :
    Exec σ Conditions :=
  runInstructionsWith (step env) conditions instructions

theorem runInstructions_cons (env : Env σ) (conditions : Conditions) (i : Instruction)
    (rest : List Instruction) : runInstructions env conditions (i :: rest) = (do
      let conditions ← step env conditions i
      let m ← get
      failIf (decide (m.stack.length + m.altStack.length > Limit.stackSize)) .stackSize
      runInstructions env conditions rest) :=
  rfl

/-- Runs a script on the stack that is there. The alternative stack starts empty, and so do the
branches, which must all be closed at the end. -/
def evalScript (env : Env σ) (script : Bytes) : Exec σ Unit := do
  failIf (decide (script.length > Script.maxSize)) .scriptSize
  modify fun m ↦ { m with altStack := [], scriptCode := script, opCount := 0 }
  let parsed := Script.parse script
  let conditions ← runInstructions env .none parsed.instructions
  failIf (!parsed.tail.isEmpty) .badOpcode
  failIf (!conditions.isEmpty) .unbalancedConditional

end UtxoConsensus
