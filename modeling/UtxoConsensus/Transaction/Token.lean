import UtxoConsensus.Transaction.Basic
import UtxoConsensus.Wire.CompactSize

/-!
# Token payloads

A token shares the script field of its output: a marker byte announces it, and the payload follows.
One byte of the payload says which parts are present, and holds the capability in its low half. A
field whose payload cannot be read is an ordinary script that begins with the marker.
-/

namespace UtxoConsensus

namespace TokenData

/-- The first byte of a script field with a token. -/
def marker : UInt8 := 0xef

def reservedBit : UInt8 := 0x80
def commitmentBit : UInt8 := 0x40
def nftBit : UInt8 := 0x20
def amountBit : UInt8 := 0x10

/-- The byte that tells which parts a payload has. -/
def bitfield (t : TokenData) : UInt8 :=
  (if t.hasCommitment then commitmentBit else 0) ||| (if t.hasNft then nftBit else 0) |||
    (if t.hasAmount then amountBit else 0) ||| t.capability.toByte

/-- The payload after the marker. -/
def encode (t : TokenData) : Bytes :=
  t.category.bytes ++ t.bitfield ::
    ((if t.hasCommitment then CompactSize.encodeBytes t.commitment else []) ++
      (if t.hasAmount then CompactSize.encode t.amount.toUInt64.toNat else []))

/-- The commitment of a payload that says that it has one. -/
def decodeCommitment : Decoder Bytes := do
  let commitment ← CompactSize.decodeBytes
  if commitment.isEmpty then throw (.token .emptyCommitment)
  return commitment

/-- The amount of a payload that says that it has one. Amounts may exceed the bound for lengths. -/
def decodeAmount : Decoder Int64 := do
  let n ← CompactSize.decodeShortest .nonCanonicalTokenAmount
  if n = 0 ∨ Int64.maxValue.toInt < n then throw (.token .amountOutOfRange)
  return Int64.ofNat n

def decode : Decoder TokenData := do
  let category ← Decoder.hash
  let bits ← Decoder.uint8
  if bits &&& reservedBit != 0 then throw (.token .reservedBit)
  let some capability := Capability.ofByte? (bits &&& 0x0f) | throw (.token .capability)
  let hasNft := bits &&& nftBit != 0
  let hasCommitment := bits &&& commitmentBit != 0
  let hasAmount := bits &&& amountBit != 0
  if !hasNft && (hasCommitment || capability != .none) then throw (.token .nftFieldsWithoutNft)
  if !hasNft && !hasAmount then throw (.token .empty)
  let commitment ← if hasCommitment then decodeCommitment else pure []
  let amount ← if hasAmount then decodeAmount else pure 0
  return ⟨category, amount, if hasNft then some ⟨capability, commitment⟩ else none⟩

end TokenData

namespace TxOutput

/-- The script field of an output: the locking script after the token, if there is one. -/
def wrappedScript (output : TxOutput) : Bytes :=
  match output.token with
  | some token => TokenData.marker :: (token.encode ++ output.lockingScript)
  | none => output.lockingScript

def ofWrapped (value : Amount) (wrapped : Bytes) : TxOutput :=
  match wrapped with
  | [] => plain value []
  | first :: payload =>
    if first = TokenData.marker then
      match TokenData.decode.run payload with
      | .ok token rest => ⟨value, rest, some token⟩
      | .error _ _ => plain value wrapped
    else plain value wrapped

end TxOutput

end UtxoConsensus
