import UtxoConsensus.Bytes.Basic

/-!
# Reading a byte stream

A decoder takes bytes from the front of what is unread. When it fails, what it has taken stays
taken: the unread bytes are state that outlives an error.
-/

namespace UtxoConsensus

inductive TokenError where
  | reservedBit
  | capability
  | nftFieldsWithoutNft
  | empty
  | emptyCommitment
  | amountOutOfRange
deriving DecidableEq

def TokenError.message : TokenError → String
  | .reservedBit => "reserved bit set"
  | .capability => "capability"
  | .nftFieldsWithoutNft => "nft fields without nft"
  | .empty => "empty token"
  | .emptyCommitment => "empty commitment"
  | .amountOutOfRange => "amount out of range"

inductive DecodeError where
  | endOfData (needed available : Nat)
  | trailingBytes (count : Nat)
  | nonCanonicalSize
  | sizeTooLarge
  | nonCanonicalTokenAmount
  | token (cause : TokenError)
  | varIntTooLarge
  | specialScript (id : Nat)
deriving DecidableEq

def DecodeError.message : DecodeError → String
  | .endOfData needed available =>
    "unexpected end of data: need " ++ toString needed ++ " bytes, have " ++ toString available
  | .trailingBytes count => toString count ++ " trailing bytes"
  | .nonCanonicalSize => "non-canonical compact size"
  | .sizeTooLarge => "compact size too large"
  | .nonCanonicalTokenAmount => "non-canonical token amount"
  | .token cause => "invalid token data: " ++ cause.message
  | .varIntTooLarge => "varint size too large"
  | .specialScript id => "invalid special script " ++ toString id

/-- A computation that reads from the unread bytes. -/
abbrev Decoder := EStateM DecodeError Bytes

namespace Decoder

/-- The next `count` bytes. -/
def bytes (count : Nat) : Decoder Bytes := fun unread ↦
  let taken := unread.take count
  if taken.length < count then .error (.endOfData count taken.length) unread
  else .ok taken (unread.drop count)

/-- A number of `width` bytes, least significant first. -/
def number (width : Nat) : Decoder Nat := do
  return Bytes.toNat (← bytes width)

def uint8 : Decoder UInt8 := do return UInt8.ofNat (← number 1)
def uint16 : Decoder UInt16 := do return UInt16.ofNat (← number 2)
def uint32 : Decoder UInt32 := do return UInt32.ofNat (← number 4)
def uint64 : Decoder UInt64 := do return UInt64.ofNat (← number 8)
def int32 : Decoder Int32 := do return (← uint32).toInt32
def int64 : Decoder Int64 := do return (← uint64).toInt64

def hash : Decoder Hash256 := fun unread ↦
  let taken := unread.take 32
  if h : taken.length = 32 then .ok ⟨taken, h⟩ (unread.drop 32)
  else .error (.endOfData 32 taken.length) unread

/-- As many values as asked for, one after the other. -/
def times (item : Decoder α) : Nat → Decoder (List α)
  | 0 => return []
  | count + 1 => do
    let first ← item
    let rest ← times item count
    return first :: rest

/-- Decodes a value that must take up all the bytes. -/
def runWhole (value : Decoder α) (data : Bytes) : Except DecodeError α :=
  match value.run data with
  | .error e _ => .error e
  | .ok a [] => .ok a
  | .ok _ rest => .error (.trailingBytes rest.length)

end Decoder

end UtxoConsensus
