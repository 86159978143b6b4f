import UtxoConsensus.Digest.Basic
import UtxoConsensus.Interpreter.Machine

/-!
# Opcodes that rearrange elements

The stack opcodes, and the opcodes that take elements as byte strings.
-/

namespace UtxoConsensus

open Exec

/-! ## Rearrangement -/

/-- Copies of the elements from `depth` places below the top on, in order. -/
def copyMany (depth count : Nat) : Exec σ Unit := do
  let elements ← peekMany depth count
  modify fun m ↦ { m with stack := elements ++ m.stack }

/-- Moves elements from `depth` places below the top on to the top, in order. -/
def moveMany (depth count : Nat) : Exec σ Unit := do
  let elements ← peekMany depth count
  modify fun m ↦
    { m with stack := elements ++ (m.stack.take depth ++ m.stack.drop (depth + count)) }

def popDepthWith (number : Bytes → Exec σ Int) : Exec σ Nat := do
  require 2
  let n ← number (← peek 0)
  let _ ← pop
  failIf (decide (n < 0) || decide (n.toNat ≥ (← get).stack.length)) .invalidStackOperation
  return n.toNat

def popDepth (env : Env σ) : Exec σ Nat :=
  popDepthWith env.number

def executeStack (env : Env σ) : StackOp → Exec σ Unit
  | .toAltStack => do
    let element ← pop
    modify fun m ↦ { m with altStack := element :: m.altStack }
  | .fromAltStack => do
    match (← get).altStack with
    | [] => fail .invalidAltstackOperation
    | element :: rest => do
      modify fun m ↦ { m with altStack := rest }
      push element
  | .drop2 => do
    require 2
    drop 2
  | .dup2 => do
    require 2
    copyMany 0 2
  | .dup3 => do
    require 3
    copyMany 0 3
  | .over2 => do
    require 4
    copyMany 2 2
  | .rot2 => do
    require 6
    moveMany 4 2
  | .swap2 => do
    require 4
    exchange 3 1
    exchange 2 0
  | .ifDup => do
    require 1
    let top ← peek 0
    if ScriptNumber.toBool top then push top
  | .depth => do pushCount (← get).stack.length
  | .drop => do
    let _ ← pop
  | .dup => do
    require 1
    push (← peek 0)
  | .nip => do
    require 2
    let _ ← removeAt 1
  | .over => do
    require 2
    push (← peek 1)
  | .pick => do push (← peek (← popDepth env))
  | .roll => do push (← removeAt (← popDepth env))
  | .rot => do
    require 3
    exchange 2 1
    exchange 1 0
  | .swap => do
    require 2
    exchange 1 0
  | .tuck => do
    require 2
    insertAt 2 (← peek 0)

/-! ## Byte strings -/

/-- A number as exactly `size` bytes: its last byte becomes a sign and zeros. -/
def padNumber (b : Bytes) (size : Nat) : Exec σ Bytes := do
  let (magnitude, negative) := ScriptNumber.splitSign b
  let zeros ← difference size (b.length + 1)
  return magnitude ++ List.replicate zeros 0 ++ [if negative then 0x80 else 0]

def executeSplice (env : Env σ) : SpliceOp → Exec σ Unit
  | .cat => do
    require 2
    let total := (← peek 1).length + (← peek 0).length
    failIf (decide (total > Limit.elementSize)) .pushSize
    let tail ← pop
    let head ← pop
    push (head ++ tail)
  | .split => do
    require 2
    let position ← env.number (← peek 0)
    let size := (← peek 1).length
    failIf (decide (position < 0) || decide (position.toNat > size)) .invalidSplitRange
    let _ ← pop
    let element ← pop
    if position.toNat ≤ element.length then
      push (element.take position.toNat)
      push (element.drop position.toNat)
    else throw .fault
  | .numToBin => do
    require 2
    let size ← env.number (← peek 0)
    failIf (decide (size < 0) || decide (size.toNat > Limit.elementSize)) .pushSize
    let _ ← pop
    let raw := ScriptNumber.minimize (← pop)
    failIf (decide (raw.length > size.toNat)) .impossibleEncoding
    push (← if raw.length < size.toNat then padNumber raw size.toNat else pure raw)
  | .binToNum => do
    let raw := ScriptNumber.minimize (← pop)
    failIf (!ScriptNumber.isMinimal raw env.maxNumberSize)
      (ScriptNumber.rangeError (env.has .integers64Bit))
    push raw
  | .size => do
    require 1
    pushCount (← peek 0).length
  | .reverseBytes => do push (← pop).reverse

/-! ## Bits and hashes -/

def BitwiseOp.apply : BitwiseOp → UInt8 → UInt8 → UInt8
  | .and, a, b => a &&& b
  | .or, a, b => a ||| b
  | .xor, a, b => a ^^^ b

def executeBitwise (op : BitwiseOp) : Exec σ Unit := do
  require 2
  failIf ((← peek 1).length != (← peek 0).length) .invalidOperandSize
  let b ← pop
  let a ← pop
  push (List.zipWith op.apply a b)

def executeEqual (verify : Bool) : Exec σ Unit := do
  require 2
  let equal := (← peek 1) == (← peek 0)
  drop 2
  answer verify .equalVerify equal

def HashOp.apply : HashOp → Bytes → Bytes
  | .ripemd160, b => Digest.ripemd160 b
  | .sha1, b => Digest.sha1 b
  | .sha256, b => (Digest.sha256 b).bytes
  | .hash160, b => Digest.hash160 b
  | .hash256, b => (Digest.doubleSha256 b).bytes

def executeHash (op : HashOp) : Exec σ Unit := do
  push (op.apply (← pop))

end UtxoConsensus
