import UtxoConsensus.Bytes.Hex
import UtxoConsensus.Script.Error
import UtxoConsensus.Transaction.Basic

/-!
# What a script can see

While an input is verified, its scripts may look at the transaction and at the coins that it spends.
A full context knows the coins of all inputs. A limited one knows only the coin of its own input, as
when someone asks about a single locking script.
-/

namespace UtxoConsensus

/-- Why the coins of a transaction cannot be matched with its inputs. -/
inductive CoinError where
  | missing (outpoint : OutPoint)
  | wrongCount (coins inputs : Nat)
  | inputIndex (index : Nat)
deriving DecidableEq

def CoinError.message : CoinError → String
  | .missing outpoint => outpoint.hash.display ++ ":" ++ toString outpoint.index.toNat
  | .wrongCount coins inputs =>
    toString coins ++ " spent outputs for " ++ toString inputs ++ " inputs"
  | .inputIndex index => "input index " ++ toString index ++ " out of range"

/-- The coins that a context knows. -/
inductive KnownCoins where
  /-- The coins of all inputs, in order. -/
  | full (coins : List TxOutput)
  /-- The coin of one input. -/
  | limited (coin : TxOutput)
deriving DecidableEq

/-- The coins that are known fit the number of inputs. -/
def KnownCoins.Fits (coins : KnownCoins) (inputs : Nat) : Prop :=
  match coins with
  | .full coins => coins.length = inputs
  | .limited _ => True

/-- One input of a transaction, and the coins that are known. -/
structure SpendContext where
  tx : Transaction
  index : Nat
  coins : KnownCoins
  index_lt : index < tx.inputs.length
  fits : coins.Fits tx.inputs.length

namespace SpendContext

def full (tx : Transaction) (index : Nat) (spent : List TxOutput) :
    Except CoinError SpendContext :=
  if hcount : spent.length = tx.inputs.length then
    if hindex : index < tx.inputs.length then
      .ok ⟨tx, index, .full spent, hindex, hcount⟩
    else .error (.inputIndex index)
  else .error (.wrongCount spent.length tx.inputs.length)

def limited (tx : Transaction) (index : Nat) (coin : TxOutput) : Except CoinError SpendContext :=
  if hindex : index < tx.inputs.length then
    .ok ⟨tx, index, .limited coin, hindex, trivial⟩
  else .error (.inputIndex index)

/-- The input under verification. -/
def input (c : SpendContext) : TxInput :=
  c.tx.inputs.get ⟨c.index, c.index_lt⟩

def ownCoin (c : SpendContext) : TxOutput :=
  match hcoins : c.coins with
  | .full coins =>
    have hfits : coins.length = c.tx.inputs.length := by
      have hall := c.fits
      rwa [hcoins] at hall
    coins.get ⟨c.index, hfits ▸ c.index_lt⟩
  | .limited coin => coin

def isLimited (c : SpendContext) : Bool :=
  match c.coins with
  | .full _ => false
  | .limited _ => true

/-- The coins of all inputs, which a limited context does not know. -/
def allCoins? (c : SpendContext) : Option (List TxOutput) :=
  match c.coins with
  | .full coins => some coins
  | .limited _ => none

def coin (c : SpendContext) (index : Nat) : Except ScriptError TxOutput :=
  match c.coins with
  | .full coins =>
    match coins[index]? with
    | some coin => .ok coin
    | none => .error .invalidTxInputIndex
  | .limited coin =>
    if index = c.index then .ok coin
    else if index ≥ c.tx.inputs.length then .error .invalidTxInputIndex
    else .error .limitedContextNoSiblingInfo

def unlockingScript (c : SpendContext) (index : Nat) : Except ScriptError Bytes :=
  match c.tx.inputs[index]? with
  | some input => .ok input.unlockingScript
  | none => .error .invalidTxInputIndex

end SpendContext

/-! ## Finding the coins -/

/-- The coins that the inputs of a transaction spend, in order. -/
def resolveCoins (find : OutPoint → Option TxOutput) : List TxInput → Except CoinError (List TxOutput)
  | [] => .ok []
  | input :: rest =>
    match find input.prevout with
    | none => .error (.missing input.prevout)
    | some coin => (resolveCoins find rest).map (coin :: ·)

end UtxoConsensus
