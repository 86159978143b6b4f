import UtxoConsensus.Bytes.Basic

/-!
# Message padding

The hash functions of this library read their message in blocks of 64 bytes. The message is
followed by one set bit, by zeros, and by its length in bits as a 64-bit number that ends the last
block.
-/

namespace UtxoConsensus.Digest

/-- The number of zero bytes between the marker byte and the length. -/
def zeroPadding (length : Nat) : Nat :=
  (119 - length % 64) % 64

/-- The padded message; `lengthField` is the length in bits, already in the byte order of the hash
function. -/
def padded (lengthField message : Bytes) : Bytes :=
  message ++ 0x80 :: (List.replicate (zeroPadding message.length) 0 ++ lengthField)

/-- The blocks to hash when the length is written most significant byte first. -/
def blocksBig (message : Bytes) : List Bytes :=
  Bytes.blocks 64 (padded (Bytes.ofNatBig 8 (8 * message.length)) message)

def blocksLittle (message : Bytes) : List Bytes :=
  Bytes.blocks 64 (padded (Bytes.ofNat 8 (8 * message.length)) message)

/-! ## Words of a block -/

/-- Every four bytes as one word, most significant byte first. -/
def wordsBig : Bytes → List UInt32
  | a :: b :: c :: d :: rest =>
    (a.toUInt32 <<< 24 ||| b.toUInt32 <<< 16 ||| c.toUInt32 <<< 8 ||| d.toUInt32) :: wordsBig rest
  | _ => []

def wordsLittle : Bytes → List UInt32
  | a :: b :: c :: d :: rest =>
    (a.toUInt32 ||| b.toUInt32 <<< 8 ||| c.toUInt32 <<< 16 ||| d.toUInt32 <<< 24) ::
      wordsLittle rest
  | _ => []

/-- A word as four bytes, most significant first. -/
def wordBytesBig (w : UInt32) : Bytes :=
  [(w >>> 24).toUInt8, (w >>> 16).toUInt8, (w >>> 8).toUInt8, w.toUInt8]

def wordBytesLittle (w : UInt32) : Bytes :=
  [w.toUInt8, (w >>> 8).toUInt8, (w >>> 16).toUInt8, (w >>> 24).toUInt8]

/-- Rotates the bits of a word by `n` places, `0 < n < 32`, towards the high end. -/
@[inline]
def rotateLeft (w n : UInt32) : UInt32 :=
  w <<< n ||| w >>> (32 - n)

/-- Rotates the bits of a word by `n` places, `0 < n < 32`, towards the low end. -/
@[inline]
def rotateRight (w n : UInt32) : UInt32 :=
  w >>> n ||| w <<< (32 - n)

end UtxoConsensus.Digest
