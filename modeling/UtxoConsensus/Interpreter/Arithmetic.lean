import UtxoConsensus.Interpreter.Machine

/-!
# Arithmetic opcodes

Operands are numbers of up to four or eight bytes. Sums and products that need more than eight bytes
make the script fail; no other result can. Truth values are the numbers one and zero.
-/

namespace UtxoConsensus

open Exec

/-- A result of at most eight bytes. -/
def inNumberRange (n : Int) : Exec σ Int :=
  match ScriptNumber.inRange? n with
  | some n => pure n
  | none => fail .invalidNumberRange64Bit

def boolNumber (b : Bool) : Int :=
  if b then 1 else 0

def UnaryOp.apply (n : Int) : UnaryOp → Exec σ Int
  | .addOne => inNumberRange (n + 1)
  | .subOne => inNumberRange (n - 1)
  | .negate => word (-n)
  | .abs => word n.natAbs
  | .not => pure (boolNumber (n == 0))
  | .notZero => pure (boolNumber (n != 0))

/-- Quotients are rounded toward zero, and remainders have the sign of the dividend. -/
def BinaryOp.apply (a b : Int) : BinaryOp → Exec σ Int
  | .add => inNumberRange (a + b)
  | .sub => inNumberRange (a - b)
  | .mul => inNumberRange (a * b)
  | .div => if b = 0 then fail .divByZero else word (a.tdiv b)
  | .mod => if b = 0 then fail .modByZero else word (a.tmod b)
  | .boolAnd => pure (boolNumber (a != 0 && b != 0))
  | .boolOr => pure (boolNumber (a != 0 || b != 0))
  | .numEqual => pure (boolNumber (a == b))
  | .numNotEqual => pure (boolNumber (a != b))
  | .lessThan => pure (boolNumber (decide (a < b)))
  | .greaterThan => pure (boolNumber (decide (a > b)))
  | .lessOrEqual => pure (boolNumber (decide (a ≤ b)))
  | .greaterOrEqual => pure (boolNumber (decide (a ≥ b)))
  | .min => pure (if b < a then b else a)
  | .max => pure (if b < a then a else b)

/-! ## Operands and results -/

section

variable (number : Bytes → Exec σ Int) (pushNumber : Int → Exec σ Unit) (operands : Exec σ (Int × Int))

def executeUnaryWith (op : UnaryOp) : Exec σ Unit := do
  require 1
  let n ← number (← peek 0)
  let result ← op.apply n
  let _ ← pop
  pushNumber result

def binaryOperandsWith : Exec σ (Int × Int) := do
  require 2
  let a ← number (← peek 1)
  let b ← number (← peek 0)
  return (a, b)

def executeBinaryWith (apply : (a b : Int) → BinaryOp → Exec σ Int) (op : BinaryOp) : Exec σ Unit := do
  let (a, b) ← operands
  let result ← apply a b op
  drop 2
  pushNumber result

def executeNumEqualVerifyWith : Exec σ Unit := do
  let (a, b) ← operands
  drop 2
  failIf (a != b) .numEqualVerify

/-- Does a number lie between two others, the lower one included? -/
def executeWithinWith : Exec σ Unit := do
  require 3
  let x ← number (← peek 2)
  let low ← number (← peek 1)
  let high ← number (← peek 0)
  drop 3
  pushBool (decide (low ≤ x) && decide (x < high))

end

def executeUnary (env : Env σ) (op : UnaryOp) : Exec σ Unit :=
  executeUnaryWith env.number pushNumber op

def binaryOperands (env : Env σ) : Exec σ (Int × Int) :=
  binaryOperandsWith env.number

def executeBinary (env : Env σ) (op : BinaryOp) : Exec σ Unit :=
  executeBinaryWith pushNumber (binaryOperands env) BinaryOp.apply op

def executeNumEqualVerify (env : Env σ) : Exec σ Unit :=
  executeNumEqualVerifyWith (binaryOperands env)

def executeWithin (env : Env σ) : Exec σ Unit :=
  executeWithinWith env.number

end UtxoConsensus
