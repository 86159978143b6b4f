import UtxoConsensus.Interpreter.Verify
import UtxoConsensus.Spend.Cache

/-!
# Verifying all inputs of a transaction

Every input is verified against the coin that it spends. The inputs are taken in turn and all of
them are verified, whatever the answers. The answer for the transaction is the number of signature
checks, or the failure of the first input that fails.
-/

namespace UtxoConsensus

inductive SpendError where
  | coins (e : CoinError)
  | input (index : Nat) (halt : Halt)
deriving DecidableEq

def SpendContext.forAllInputs (tx : Transaction) (spent : List TxOutput) :
    Except CoinError (List SpendContext) :=
  (List.range tx.inputs.length).mapM fun index ↦ SpendContext.full tx index spent

namespace SpendContext

def verify (c : SpendContext) (checker : Checker σ) (flags : ScriptFlags) :
    StateM σ (Except Halt Nat) :=
  verifyScript checker flags c.input.unlockingScript c.ownCoin.lockingScript

end SpendContext

/-- A way to make the checkers for the inputs of a transaction, given the hashes that they share. -/
abbrev CheckerFactory (σ : Type) := SharedHashes → SpendContext → Checker σ

def CheckerFactory.plain : CheckerFactory Unit := fun shared c ↦
  .transaction c (some shared)

/-- Checkers that share a signature cache. -/
def CheckerFactory.cached (store : Bool) : CheckerFactory (Unit × SignatureCache) := fun shared c ↦
  .caching (.transaction c (some shared)) store

/-- Verifies all inputs in turn; the shared hashes are taken from the first context. -/
def verifyInputs (factory : CheckerFactory σ) (tx : Transaction) (spent : List TxOutput)
    (flags : ScriptFlags) : StateM σ (Except CoinError (List (Except Halt Nat))) :=
  match SpendContext.forAllInputs tx spent with
  | .error e => return .error e
  | .ok [] => return .ok []
  | .ok (first :: rest) => do
    let shared := SharedHashes.ofContext first
    let answers ← (first :: rest).mapM fun c ↦ c.verify (factory shared c) flags
    return .ok answers

/-- The sum of the signature checks, or the first failure; the first answer is that of input
`index`. -/
def totalSigChecks (index : Nat) : List (Except Halt Nat) → Except SpendError Nat
  | [] => .ok 0
  | .ok count :: rest => (totalSigChecks (index + 1) rest).map (count + ·)
  | .error halt :: _ => .error (.input index halt)

/-- Verifies a transaction; returns the number of signature checks. -/
def checkInputs (factory : CheckerFactory σ) (tx : Transaction) (spent : List TxOutput)
    (flags : ScriptFlags) : StateM σ (Except SpendError Nat) := do
  match ← verifyInputs factory tx spent flags with
  | .error e => return .error (.coins e)
  | .ok answers => return totalSigChecks 0 answers

end UtxoConsensus
