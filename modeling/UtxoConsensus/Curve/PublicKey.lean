import UtxoConsensus.Bytes.Basic
import UtxoConsensus.Curve.Point

/-!
# Public keys

A public key is a point of the curve. It is written in 33 bytes, with its x coordinate and the
parity of y, or in 65 bytes with both coordinates. The 65-byte form may also carry the parity, which
must then be right.

`KeyGroup` lists what signing and verification need of the points. They are written against it, so
that their laws can be stated of any group; `secp256k1` is the one in use.
-/

namespace UtxoConsensus.Curve

def compressedKeySize : Nat := 33
def uncompressedKeySize : Nat := 65

/-- The operations on public keys. An operation whose result would be the point at infinity, which
is no public key, has none. -/
structure KeyGroup (Key : Type) where
  /-- Reads a key in any of its written forms. -/
  parse? : Bytes → Option Key
  /-- The form of 33 bytes. -/
  compressed : Key → Bytes
  /-- The form of 65 bytes. -/
  uncompressed : Key → Bytes
  x : Key → Nat
  y : Key → Nat
  /-- The public key of a secret scalar, for scalars from 1 to the order less 1. -/
  ofSecret? : Nat → Option Key
  negate : Key → Key
  /-- A multiple of a key, for scalars from 1 to the order less 1. -/
  multiply? : Key → Nat → Option Key
  add? : Key → Key → Option Key

/-! ## Written forms -/

def isScalar (k : Nat) : Bool :=
  decide (0 < k) && decide (k < order)

namespace Point

def parityByte (even odd : UInt8) (y : Nat) : UInt8 :=
  if y % 2 = 1 then odd else even

def compressed (a : Point) : Bytes :=
  parityByte 0x02 0x03 a.y :: Bytes.ofNatBig 32 a.x

def uncompressed (a : Point) : Bytes :=
  0x04 :: (Bytes.ofNatBig 32 a.x ++ Bytes.ofNatBig 32 a.y)

/-- The point with a given x coordinate whose y coordinate is odd or even as asked. -/
def ofX? (x : Nat) (odd : Bool) : Option Point :=
  if x < fieldPrime then
    (sqrt? (cubic x)).map fun root ↦
      ⟨x, if (root % 2 == 1) == odd then root else negMod fieldPrime root⟩
  else none

/-- Reads the coordinates of a 65-byte key, whose first byte may tell the parity of y. -/
def parseFull? (first : UInt8) (body : Bytes) : Option Point :=
  let a : Point := ⟨Bytes.toNatBig (body.take 32), Bytes.toNatBig (body.drop 32)⟩
  if a.isOnCurve && (first == 0x04 || first == parityByte 0x06 0x07 a.y) then some a else none

def parse? : Bytes → Option Point
  | [] => none
  | first :: body =>
    if body.length = 32 then
      if first = 0x02 || first = 0x03 then ofX? (Bytes.toNatBig body) (first == 0x03) else none
    else if body.length = 64 then
      if first = 0x04 || first = 0x06 || first = 0x07 then parseFull? first body else none
    else none

def multiply? (a : Point) (k : Nat) : Option Point :=
  if isScalar k then ((Jacobian.ofPoint a).multiply k).toPoint? else none

def add? (a b : Point) : Option Point :=
  ((Jacobian.ofPoint a).add (Jacobian.ofPoint b)).toPoint?

end Point

/-- The group in which all keys of the ledger lie. -/
def secp256k1 : KeyGroup Point where
  parse? := Point.parse?
  compressed := Point.compressed
  uncompressed := Point.uncompressed
  x := Point.x
  y := Point.y
  ofSecret? := generator.multiply?
  negate := Point.negate
  multiply? := Point.multiply?
  add? := Point.add?

def isValidKey (key : Bytes) : Bool :=
  (Point.parse? key).isSome

end UtxoConsensus.Curve
