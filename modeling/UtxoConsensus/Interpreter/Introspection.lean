import UtxoConsensus.Interpreter.Machine

/-!
# Introspection opcodes

A script may read the transaction that spends it, the coins that are spent, and the tokens on either
side, as far as the context knows them.
-/

namespace UtxoConsensus

open Exec

/-- The transaction and its coins; fails where there are none. -/
def requireContext (env : Env σ) : Exec σ SpendContext :=
  match env.checker.context with
  | some c => pure c
  | none => fail .contextNotPresent

/-- Pushes bytes of the transaction, if they make an element. -/
def pushElement (b : Bytes) : Exec σ Unit := do
  failIf (decide (b.length > Limit.elementSize)) .pushSize
  push b

/-- Takes an index into a list of the given length from the stack. -/
def popIndexWith (popNumber : Exec σ Int) (length : Nat) (e : ScriptError) : Exec σ Nat := do
  let n ← popNumber
  failIf (decide (n < 0) || decide (n.toNat ≥ length)) e
  return n.toNat

def popIndex (env : Env σ) (length : Nat) (e : ScriptError) : Exec σ Nat :=
  popIndexWith env.popNumber length e

section

variable (popIndex : Nat → ScriptError → Exec σ Nat) (popOutput : SpendContext → Exec σ TxOutput)
  (pushNumber : Int → Exec σ Unit) (pushCount : Nat → Exec σ Unit)

def popOutputWith (c : SpendContext) : Exec σ TxOutput := do
  let index ← popIndex c.tx.outputs.length .invalidTxOutputIndex
  orFault c.tx.outputs[index]?

/-! ## Money and scripts -/

def executeTransactionFieldWith (env : Env σ) (field : TransactionField) : Exec σ Unit := do
  failIf (!env.has .nativeIntrospection) .badOpcode
  let c ← requireContext env
  match field with
  | .inputIndex => pushCount c.index
  | .activeBytecode => pushElement (← get).scriptCode
  | .version => pushNumber c.tx.version.toInt
  | .inputCount => pushCount c.tx.inputs.length
  | .outputCount => pushCount c.tx.outputs.length
  | .lockTime => pushNumber c.tx.lockTime.toNat

def executeInputFieldWith (env : Env σ) (field : InputField) : Exec σ Unit := do
  failIf (!env.has .nativeIntrospection) .badOpcode
  let c ← requireContext env
  let index ← popIndex c.tx.inputs.length .invalidTxInputIndex
  let input ← orFault c.tx.inputs[index]?
  match field with
  | .coinValue => do pushNumber (← lift (c.coin index)).value.toInt
  | .coinBytecode => do pushElement (← lift (c.coin index)).lockingScript
  | .outpointHash => push input.prevout.hash.bytes
  | .outpointIndex => pushNumber input.prevout.index.toNat
  | .bytecode => do pushElement (← lift (c.unlockingScript index))
  | .sequence => pushNumber input.sequence.toNat

def executeOutputFieldWith (env : Env σ) (field : OutputField) : Exec σ Unit := do
  failIf (!env.has .nativeIntrospection) .badOpcode
  let c ← requireContext env
  let output ← popOutput c
  match field with
  | .value => pushNumber output.value.toInt
  | .bytecode => pushElement output.lockingScript

/-! ## Tokens -/

/-- The category of a token as scripts see it: followed by the capability, where there is one. -/
def TokenData.categoryElement (t : TokenData) : Bytes :=
  t.category.bytes ++ (if t.capability = .none then [] else [t.capability.toByte])

/-- Takes an index and returns the token that the coin or output there carries. -/
def popTokenWith (c : SpendContext) (side : TokenSide) : Exec σ (Option TokenData) :=
  match side with
  | .coin => do
    let index ← popIndex c.tx.inputs.length .invalidTxInputIndex
    return (← lift (c.coin index)).token
  | .output => do return (← popOutput c).token

def executeTokenFieldWith (popToken : SpendContext → TokenSide → Exec σ (Option TokenData)) (env : Env σ)
    (side : TokenSide) (field : TokenField) : Exec σ Unit := do
  failIf (!env.has .nativeIntrospection || !env.has .enableTokens) .badOpcode
  let c ← requireContext env
  let token ← popToken c side
  match field with
  | .category => push (token.elim [] TokenData.categoryElement)
  | .commitment => push (token.elim [] TokenData.commitment)
  | .amount => pushNumber (token.elim 0 fun t ↦ t.amount.toInt)

end

/-! ## Opcodes -/

def popOutput (env : Env σ) (c : SpendContext) : Exec σ TxOutput :=
  popOutputWith (popIndex env) c

def popToken (env : Env σ) (c : SpendContext) (side : TokenSide) : Exec σ (Option TokenData) :=
  popTokenWith (popIndex env) (popOutput env) c side

def executeTransactionField (env : Env σ) (field : TransactionField) : Exec σ Unit :=
  executeTransactionFieldWith pushNumber pushCount env field

def executeInputField (env : Env σ) (field : InputField) : Exec σ Unit :=
  executeInputFieldWith (popIndex env) pushNumber env field

def executeOutputField (env : Env σ) (field : OutputField) : Exec σ Unit :=
  executeOutputFieldWith (popOutput env) pushNumber env field

def executeTokenField (env : Env σ) (side : TokenSide) (field : TokenField) : Exec σ Unit :=
  executeTokenFieldWith pushNumber (popToken env) env side field

end UtxoConsensus
