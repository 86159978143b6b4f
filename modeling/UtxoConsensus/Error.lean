import UtxoConsensus.BlockTree.Basic
import UtxoConsensus.Curve.SecretKey
import UtxoConsensus.Money.Amount
import UtxoConsensus.Settings.Basic
import UtxoConsensus.Spend.Inputs
import UtxoConsensus.Text.Base58
import UtxoConsensus.Wire.Decoder

/-!
# Errors of the library

Each part of the library has its own errors. Here they come together, each with a short name and a
sentence for the people who run a node.
-/

namespace UtxoConsensus

inductive ConsensusError where
  | script (e : ScriptError)
  | decoding (e : DecodeError)
  | signing (e : Curve.SigningError)
  | amountText (text : String)
  | negativeValue (value : Amount)
  | base58 (e : Text.Base58Error)
  | spend (e : SpendError)
  | block (e : BlockError)
  | settings (e : SettingsError)

/-! ## Kinds -/

/-- The short name of an error. -/
def CoinError.label : CoinError → String
  | .missing _ => "MissingPrevout"
  | .wrongCount _ _ => "MissingPrevout"
  | .inputIndex _ => "Serialization"

@[inherit_doc CoinError.label]
def BlockError.label : BlockError → String
  | .duplicateHeader _ => "DuplicateHeader"
  | .invalidProofOfWork _ => "InvalidProofOfWork"
  | .unknownParent _ => "UnknownParent"
  | .unknownBlock _ => "UnknownBlock"

@[inherit_doc CoinError.label]
def SettingsError.label : SettingsError → String
  | .unreadable => "Json"
  | .missingFile _ => "Io"
  | .unknownFlags _ => "Configuration"
  | .cleanStackWithoutP2sh => "Configuration"

@[inherit_doc CoinError.label]
def ConsensusError.label : ConsensusError → String
  | .script _ => "ScriptExecution"
  | .decoding _ => "Serialization"
  | .signing _ => "Serialization"
  | .amountText _ => "InvalidAmount"
  | .negativeValue _ => "InvalidAmount"
  | .base58 _ => "InvalidBase58"
  | .spend (.coins e) => e.label
  | .spend (.input _ _) => "InputScript"
  | .block e => e.label
  | .settings e => e.label

/-! ## Sentences -/

def CoinError.sentence (e : CoinError) : String :=
  match e with
  | .missing _ => "Missing previous output: " ++ e.message
  | .wrongCount _ _ => "Missing previous output: " ++ e.message
  | .inputIndex _ => "Serialization error: " ++ e.message

def Halt.message : Halt → String
  | .failed e => e.message
  | .fault => "the interpreter went wrong"

def SpendError.sentence : SpendError → String
  | .coins e => e.sentence
  | .input index halt =>
    "Input " ++ toString index ++ " script verification failed: " ++ halt.message

def BlockError.sentence (e : BlockError) : String :=
  match e with
  | .duplicateHeader _ => "Duplicate block header: " ++ e.message
  | .invalidProofOfWork _ => "Invalid proof of work: " ++ e.message
  | .unknownParent _ => "Unknown parent block: " ++ e.message
  | .unknownBlock _ => "Unknown block: " ++ e.message

/-- Settings that cannot be read are reported as such, without a heading. -/
def SettingsError.sentence (e : SettingsError) : String :=
  match e with
  | .unreadable => e.message
  | .missingFile _ => e.message
  | .unknownFlags _ => "Configuration error: " ++ e.message
  | .cleanStackWithoutP2sh => "Configuration error: " ++ e.message

def ConsensusError.sentence : ConsensusError → String
  | .script e => "Script execution failed: " ++ e.message
  | .decoding e => "Serialization error: " ++ e.message
  | .signing e => "Serialization error: " ++ e.message
  | .amountText text => "Invalid amount: " ++ text
  | .negativeValue value => "Invalid amount: negative output value " ++ toString value.toInt
  | .base58 e => "Invalid base58 string: " ++ e.message
  | .spend e => e.sentence
  | .block e => e.sentence
  | .settings e => e.sentence

end UtxoConsensus
