import UtxoConsensus.Bytes.Hex
import UtxoConsensus.Digest.Sha256
import UtxoConsensus.Wire.Decoder

/-!
# Block headers

Eighty bytes that commit to a block and to the header before it. Their double hash names the block
and is what proof of work is measured on.
-/

namespace UtxoConsensus

structure BlockHeader where
  version : Int32
  previous : Hash256
  merkleRoot : Hash256
  timestamp : UInt32
  bits : UInt32
  nonce : UInt32
deriving DecidableEq

namespace BlockHeader

def encode (h : BlockHeader) : Bytes :=
  Bytes.ofInt32 h.version ++ h.previous.bytes ++ h.merkleRoot.bytes ++
    Bytes.ofUInt32 h.timestamp ++ Bytes.ofUInt32 h.bits ++ Bytes.ofUInt32 h.nonce

def decode : Decoder BlockHeader := do
  let version ← Decoder.int32
  let previous ← Decoder.hash
  let merkleRoot ← Decoder.hash
  let timestamp ← Decoder.uint32
  let bits ← Decoder.uint32
  let nonce ← Decoder.uint32
  return ⟨version, previous, merkleRoot, timestamp, bits, nonce⟩

/-- The name of the block. -/
def hash (h : BlockHeader) : Hash256 :=
  Digest.doubleSha256 h.encode

end BlockHeader

end UtxoConsensus
