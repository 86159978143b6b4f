import UtxoConsensus.Settings.Basic
import UtxoConsensus.Spend.Inputs

/-!
# The verifier of a node

A node verifies everything under the same flags and with the same signature cache. Transactions that
are relayed store their signatures in the cache; those of a block only use it.
-/

namespace UtxoConsensus

/-- The settings of a node, and the signatures it knows to be good. -/
structure Verifier where
  settings : Settings
  cache : SignatureCache

namespace Verifier

def start (settings : Settings) (nonce : Hash256) : Verifier :=
  ⟨settings, .ofMiB nonce settings.boundedCacheMiB⟩

def flags (v : Verifier) : ScriptFlags :=
  v.settings.flags

/-- Verifies a pair of scripts without a transaction: only signatures of data can be good. -/
def verifyScript (v : Verifier) (unlocking locking : Bytes) : Except Halt Nat :=
  ((UtxoConsensus.verifyScript .base v.flags unlocking locking).run ()).1

def verifyTransaction (tx : Transaction) (spent : List TxOutput) (store : Bool) :
    StateM Verifier (Except SpendError Nat) := do
  let v ← get
  let (answer, (), cache) :=
    (checkInputs (.cached store) tx spent v.flags).run ((), v.cache)
  set { v with cache }
  return answer

def resolveAndVerify (tx : Transaction) (find : OutPoint → Option TxOutput) (store : Bool) :
    StateM Verifier (Except SpendError Nat) :=
  match resolveCoins find tx.inputs with
  | .error e => return .error (.coins e)
  | .ok spent => verifyTransaction tx spent store

end Verifier

end UtxoConsensus
