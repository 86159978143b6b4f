import UtxoConsensus.Word256.Division

/-!
# Compact targets

The difficulty of a block is a 256-bit target, which headers hold in 32 bits: one byte for the size
of the number in bytes, one bit for its sign, and 23 bits for its first digits in base 256.
-/

namespace UtxoConsensus

/-- The target that 32 bits stand for. -/
structure CompactTarget where
  target : Word256
  /-- The number is below zero, which no target is. -/
  negative : Bool
  /-- The number does not fit into 256 bits. -/
  overflow : Bool
deriving DecidableEq

namespace CompactTarget

def signBit : UInt32 := 0x00800000

def mantissaMask : UInt32 := 0x007fffff

/-- Reads a compact target: the digits, times 256 to the power of the size less three. -/
def decode (compact : UInt32) : CompactTarget :=
  let size := (compact >>> 24).toNat
  let digits := compact &&& mantissaMask
  let mantissa := if size ≤ 3 then digits >>> UInt32.ofNat (8 * (3 - size)) else digits
  let low := Word256.ofUInt64 mantissa.toUInt64
  { target := if size ≤ 3 then low else low.shiftLeft (8 * (size - 3))
    negative := mantissa != 0 && compact &&& signBit != 0
    overflow := mantissa != 0 && (decide (size > 34) || (decide (mantissa > 0xff) &&
      decide (size > 33)) || (decide (mantissa > 0xffff) && decide (size > 32))) }

/-- The first three digits of a number that has `size` digits in base 256. -/
def leadingDigits (value : Word256) (size : Nat) : UInt32 :=
  if size ≤ 3 then (value.limb0 <<< UInt64.ofNat (8 * (3 - size))).toUInt32
  else (value.shiftRight (8 * (size - 3))).limb0.toUInt32

/-- The shortest compact form of a number; digits that do not fit are dropped. A number whose first
digit would reach into the sign bit takes one byte more. -/
def encode (value : Word256) (negative : Bool) : UInt32 :=
  let size := (value.bits + 7) / 8
  let digits := leadingDigits value size
  let shifted := digits &&& signBit != 0
  let mantissa := if shifted then digits >>> 8 else digits
  let size := if shifted then size + 1 else size
  let unsigned := mantissa ||| UInt32.ofNat size <<< 24
  if negative && unsigned &&& mantissaMask != 0 then unsigned ||| signBit else unsigned

end CompactTarget

end UtxoConsensus
