import UtxoConsensus.Bytes.Basic
import UtxoConsensus.Money.Amount

/-!
# Transactions

A transaction spends earlier outputs, which it names by transaction hash and position, and creates
new ones. An output holds money under a locking script, and may carry a token beside it.
-/

namespace UtxoConsensus

/-- The place of an output: a transaction hash and a position in its list of outputs. -/
structure OutPoint where
  hash : Hash256
  index : UInt32
deriving DecidableEq, Hashable

namespace OutPoint

/-- The place named by an input that creates new money. -/
def null : OutPoint := ⟨.zero, 0xffffffff⟩

def isNull (o : OutPoint) : Bool := o == null

end OutPoint

/-- An input: the output that it spends and the script that entitles it to. -/
structure TxInput where
  prevout : OutPoint
  unlockingScript : Bytes
  sequence : UInt32
deriving DecidableEq

/-! ## Tokens -/

/-- What the holder of a non-fungible token may do with it. -/
inductive Capability where
  | none
  | mutable
  | minting
deriving DecidableEq

namespace Capability

def toByte : Capability → UInt8
  | .none => 0
  | .mutable => 1
  | .minting => 2

def ofByte? (b : UInt8) : Option Capability :=
  if b = 0 then some .none
  else if b = 1 then some .mutable
  else if b = 2 then some .minting
  else Option.none

@[simp] theorem ofByte?_toByte (c : Capability) : ofByte? c.toByte = some c := by
  cases c <;> rfl

end Capability

structure Nft where
  capability : Capability
  commitment : Bytes
deriving DecidableEq

/-- Tokens of one category: a fungible amount, a non-fungible token, or both. -/
structure TokenData where
  category : Hash256
  amount : Int64
  nft : Option Nft
deriving DecidableEq

namespace TokenData

def fungible (category : Hash256) (amount : Int64) : TokenData := ⟨category, amount, none⟩

def hasNft (t : TokenData) : Bool := t.nft.isSome

def hasAmount (t : TokenData) : Bool := t.amount != 0

/-- The commitment of the non-fungible token; empty if there is none. -/
def commitment (t : TokenData) : Bytes := t.nft.elim [] Nft.commitment

def capability (t : TokenData) : Capability := t.nft.elim .none Nft.capability

def hasCommitment (t : TokenData) : Bool := !t.commitment.isEmpty

end TokenData

/-! ## Outputs and transactions -/

/-- An output: an amount of money, perhaps a token, and the script that guards them. -/
structure TxOutput where
  value : Amount
  lockingScript : Bytes
  token : Option TokenData
deriving DecidableEq

namespace TxOutput

def plain (value : Amount) (lockingScript : Bytes) : TxOutput := ⟨value, lockingScript, none⟩

/-- The placeholder for outputs that a signature leaves open: value -1 and no script. -/
def null : TxOutput := plain ⟨-1⟩ []

end TxOutput

structure Transaction where
  version : Int32
  inputs : List TxInput
  outputs : List TxOutput
  lockTime : UInt32
deriving DecidableEq

/-- A coinbase transaction has a single input, which names no output. -/
def Transaction.isCoinbase (tx : Transaction) : Bool :=
  match tx.inputs with
  | [input] => input.prevout.isNull
  | _ => false

end UtxoConsensus
