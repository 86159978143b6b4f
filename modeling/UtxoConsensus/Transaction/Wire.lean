import UtxoConsensus.Digest.Sha256
import UtxoConsensus.Transaction.Token

/-!
# Transactions on the wire

Every field in order, numbers least significant byte first, lists after their counts. A transaction
is identified by the double hash of these bytes.
-/

namespace UtxoConsensus

namespace OutPoint

def encode (o : OutPoint) : Bytes :=
  o.hash.bytes ++ Bytes.ofUInt32 o.index

def decode : Decoder OutPoint := do
  let hash ← Decoder.hash
  let index ← Decoder.uint32
  return ⟨hash, index⟩

end OutPoint

namespace TxInput

def encode (input : TxInput) : Bytes :=
  input.prevout.encode ++ CompactSize.encodeBytes input.unlockingScript ++
    Bytes.ofUInt32 input.sequence

def decode : Decoder TxInput := do
  let prevout ← OutPoint.decode
  let unlockingScript ← CompactSize.decodeBytes
  let sequence ← Decoder.uint32
  return ⟨prevout, unlockingScript, sequence⟩

end TxInput

namespace TxOutput

def encode (output : TxOutput) : Bytes :=
  Bytes.ofInt64 output.value.satoshis ++ CompactSize.encodeBytes output.wrappedScript

def decode : Decoder TxOutput := do
  let satoshis ← Decoder.int64
  let wrapped ← CompactSize.decodeBytes
  return ofWrapped ⟨satoshis⟩ wrapped

end TxOutput

namespace Transaction

def encode (tx : Transaction) : Bytes :=
  Bytes.ofInt32 tx.version ++ CompactSize.encodeList TxInput.encode tx.inputs ++
    CompactSize.encodeList TxOutput.encode tx.outputs ++ Bytes.ofUInt32 tx.lockTime

def decode : Decoder Transaction := do
  let version ← Decoder.int32
  let inputs ← CompactSize.decodeList TxInput.decode
  let outputs ← CompactSize.decodeList TxOutput.decode
  let lockTime ← Decoder.uint32
  return ⟨version, inputs, outputs, lockTime⟩

/-- The hash by which outputs of the transaction are named. -/
def txid (tx : Transaction) : Hash256 :=
  Digest.doubleSha256 tx.encode

end Transaction

end UtxoConsensus
