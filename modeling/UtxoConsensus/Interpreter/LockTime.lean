import UtxoConsensus.Interpreter.Machine

/-!
# Lock time opcodes

Two opcodes that once did nothing fail unless the spending transaction waits long enough. Where the
rules do not know them they are opcodes that are kept for upgrades.
-/

namespace UtxoConsensus

open Exec

/-- An opcode that does nothing yet. -/
def executeUpgradableNop (env : Env σ) : Exec σ Unit :=
  failIf (env.has .discourageUpgradableNops) .discourageUpgradableNops

/-- Reads an element as a lock time. It may have five bytes, since lock times exceed the numbers of four
bytes. -/
def Env.lockTime (env : Env σ) (b : Bytes) : Exec σ Int :=
  lift (ScriptNumber.decode b (env.has .minimalData) ScriptNumber.maxLockTimeSize (env.has .integers64Bit))

/-- The lock time at the top of the stack, which stays there. -/
def lockTimeOperandWith (lockTime : Bytes → Exec σ Int) : Exec σ Int := do
  require 1
  let n ← lockTime (← peek 0)
  failIf (decide (n < 0)) .negativeLocktime
  return n

def executeCheckLockTimeWith (operand : Exec σ Int) (env : Env σ) : Exec σ Unit :=
  if env.has .checkLockTimeVerify then do
    let lockTime ← operand
    failIf (!env.checker.checkLockTime lockTime) .unsatisfiedLocktime
  else executeUpgradableNop env

/-- Relative lock times that are marked as disabled are not checked. -/
def executeCheckSequenceWith (operand : Exec σ Int) (env : Env σ) : Exec σ Unit :=
  if env.has .checkSequenceVerify then do
    let sequence ← operand
    failIf (!sequence.toNat.testBit 31 && !env.checker.checkSequence sequence)
      .unsatisfiedLocktime
  else executeUpgradableNop env

def lockTimeOperand (env : Env σ) : Exec σ Int :=
  lockTimeOperandWith env.lockTime

def executeCheckLockTime (env : Env σ) : Exec σ Unit :=
  executeCheckLockTimeWith (lockTimeOperand env) env

def executeCheckSequence (env : Env σ) : Exec σ Unit :=
  executeCheckSequenceWith (lockTimeOperand env) env

end UtxoConsensus
