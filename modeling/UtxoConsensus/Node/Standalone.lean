import UtxoConsensus.Spend.Inputs
import UtxoConsensus.Transaction.Wire

/-!
# Verifying one input for others

Wallets that are not nodes may ask whether an input of a serialized transaction satisfies a locking
script. Only the rules that are fixed for good can be asked for. The questions and their errors have
numbers, so that they can be asked from outside the library.
-/

namespace UtxoConsensus.Standalone

def version : Nat := 1

/-- What is wrong with a question. -/
inductive RequestError where
  | none
  | inputIndex
  | sizeMismatch
  | undecodable
  | amountRequired
  | unsupportedFlags
deriving DecidableEq

/-- The number that stands for an error outside the library. -/
def RequestError.code (e : RequestError) : Nat := e.ctorIdx

def RequestError.label : RequestError → String
  | .none => "Ok"
  | .inputIndex => "TxIndex"
  | .sizeMismatch => "TxSizeMismatch"
  | .undecodable => "TxDeserialize"
  | .amountRequired => "AmountRequired"
  | .unsupportedFlags => "InvalidFlags"

def RequestError.message : RequestError → String
  | .none => "no error"
  | .inputIndex => "input index out of range"
  | .sizeMismatch => "transaction size does not match the buffer"
  | .undecodable => "transaction could not be deserialized"
  | .amountRequired => "flags require the spent amount"
  | .unsupportedFlags => "unsupported verification flags"

/-! ## Flags -/

def supportedFlags : ScriptFlags :=
  .p2sh ||| .derSig ||| .checkLockTimeVerify ||| .checkSequenceVerify ||| .enableSighashForkId

/-- A flag of other chains, known only to be refused. -/
def witness : ScriptFlags := .ofBit 11

/-- The flags under which signatures may commit to the amount. -/
def amountFlags : ScriptFlags :=
  .enableSighashForkId ||| witness

/-! ## Questions -/

/-- Does an input of a transaction satisfy a locking script with this amount of money? -/
def verifyWithAmount (locking : Bytes) (amount : Amount) (tx : Bytes) (index : Nat)
    (flags : ScriptFlags) : Except RequestError Bool :=
  if (flags.without supportedFlags).bits != 0 then .error .unsupportedFlags
  else
    match Transaction.decode.run tx with
    | .error _ _ => .error .undecodable
    | .ok tx unread =>
      if index ≥ tx.inputs.length then .error .inputIndex
      else if !unread.isEmpty then .error .sizeMismatch
      else
        match SpendContext.limited tx index (.plain amount locking) with
        | .error _ => .error .inputIndex
        | .ok c =>
          let checker := Checker.transaction c (some (.ofContext c))
          .ok ((c.verify checker flags).run ()).1.isOk

/-- Does an input of a transaction satisfy a locking script, whatever the amount? -/
def verify (locking tx : Bytes) (index : Nat) (flags : ScriptFlags) : Except RequestError Bool :=
  if flags.intersects amountFlags then .error .amountRequired
  else verifyWithAmount locking ⟨0⟩ tx index flags

/-! ## Questions from outside the library -/

/-- Bytes that a caller passes. They may be absent, which stands for no bytes as long as their length
is said to be zero. -/
inductive Buffer where
  | present (data : Bytes)
  | absent (length : Nat)

def Buffer.data? : Buffer → Option Bytes
  | .present data => some data
  | .absent length => if length = 0 then some [] else none

def ask (locking tx : Buffer) (question : Bytes → Bytes → Except RequestError Bool) :
    Except RequestError Bool :=
  match locking.data?, tx.data? with
  | some locking, some tx => question locking tx
  | _, _ => .error .undecodable

/-- An answer in two numbers: whether the script is satisfied, and what was wrong with the
question. -/
def report : Except RequestError Bool → Nat × Nat
  | .ok valid => (valid.toNat, RequestError.none.code)
  | .error e => (0, e.code)

end UtxoConsensus.Standalone
