import UtxoConsensus.Wire.Decoder

/-!
# Variable-length integers

Seven bits a byte, the most significant group first, with the top bit set on every byte but the
last. Each byte that is followed by another stands for one more than its bits say, so that no
number can be written in two ways.
-/

namespace UtxoConsensus.VarInt

/-- The bytes before the last one, for a number from which the last group has been taken. -/
def leadingGroups (n : Nat) : Bytes :=
  if _h : n ≤ 0x7f then [UInt8.ofNat (n + 0x80)]
  else leadingGroups (n / 0x80 - 1) ++ [UInt8.ofNat (n % 0x80 + 0x80)]
termination_by n
decreasing_by omega

def encode (n : Nat) : Bytes :=
  if n ≤ 0x7f then [UInt8.ofNat n]
  else leadingGroups (n / 0x80 - 1) ++ [UInt8.ofNat (n % 0x80)]

/-- Reads on after bytes that stand for `n`. Numbers of more than 64 bits are refused. -/
def decodeFrom (n : Nat) : (unread : Bytes) → EStateM.Result DecodeError Bytes Nat
  | [] => .error (.endOfData 1 0) []
  | b :: rest =>
    if n > 0x1ffffffffffffff then .error .varIntTooLarge rest
    else
      let m := n * 0x80 + b.toNat % 0x80
      if b < 0x80 then .ok m rest
      else if m = 0xffffffffffffffff then .error .varIntTooLarge rest
      else decodeFrom (m + 1) rest

def decode : Decoder Nat :=
  decodeFrom 0

end UtxoConsensus.VarInt
