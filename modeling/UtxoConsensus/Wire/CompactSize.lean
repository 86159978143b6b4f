import UtxoConsensus.Wire.Decoder

/-!
# Compact sizes

Lengths and counts take one byte below 253. Larger numbers follow a marker byte with two, four or
eight bytes, and must not fit the next shorter form.
-/

namespace UtxoConsensus.CompactSize

/-- No length or count on the wire exceeds this bound. -/
def maxSerializedSize : Nat := 0x02000000

def encode (n : Nat) : Bytes :=
  if n < 0xfd then [UInt8.ofNat n]
  else if n ≤ 0xffff then 0xfd :: Bytes.ofNat 2 n
  else if n ≤ 0xffffffff then 0xfe :: Bytes.ofNat 4 n
  else 0xff :: Bytes.ofNat 8 n

def encodedLength (n : Nat) : Nat :=
  if n < 0xfd then 1 else if n ≤ 0xffff then 3 else if n ≤ 0xffffffff then 5 else 9

/-- A byte string after its length. -/
def encodeBytes (b : Bytes) : Bytes :=
  encode b.length ++ b

def encodeList (item : α → Bytes) (values : List α) : Bytes :=
  encode values.length ++ (values.map item).flatten

/-- A number of `width` bytes that does not fit the form below it. -/
def decodeWide (width smallest : Nat) (tooSmall : DecodeError) : Decoder Nat := do
  let n ← Decoder.number width
  if n < smallest then throw tooSmall
  return n

/-- A number of up to 64 bits in its shortest form; `longForm` is the error for any other form. -/
def decodeShortest (longForm : DecodeError) : Decoder Nat := do
  let first ← Decoder.uint8
  if first = 0xfd then decodeWide 2 0xfd longForm
  else if first = 0xfe then decodeWide 4 0x10000 longForm
  else if first = 0xff then decodeWide 8 0x100000000 longForm
  else return first.toNat

/-- A length or count in its shortest form. -/
def decode : Decoder Nat := do
  let n ← decodeShortest .nonCanonicalSize
  if n > maxSerializedSize then throw .sizeTooLarge
  return n

def decodeBytes : Decoder Bytes := do
  Decoder.bytes (← decode)

def decodeList (item : Decoder α) : Decoder (List α) := do
  Decoder.times item (← decode)

end UtxoConsensus.CompactSize
