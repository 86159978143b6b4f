import UtxoConsensus.Bytes.Basic
import UtxoConsensus.Curve.Field

/-!
# Written ECDSA signatures

A signature is a pair of scalars, written as two integers in a DER sequence. Old signatures are read
leniently: the length of the sequence is ignored, lengths may take a longer form than they need,
integers count as unsigned and may have zeros in front, and bytes after the second one do not
matter. A pair with a number that is no scalar is read as a pair of zeros, which verifies nothing.
-/

namespace UtxoConsensus.Curve

structure EcdsaSignature where
  r : Nat
  s : Nat
deriving DecidableEq

namespace EcdsaSignature

/-! ## Reading -/

def dropZeros (b : Bytes) : Bytes :=
  b.dropWhile (· == 0)

/-- A length in its long form: `count` bytes, most significant first. -/
def longLength? (count : Nat) (input : Bytes) : Option (Nat × Bytes) :=
  let field := input.take count
  let significant := dropZeros field
  if field.length < count || significant.length ≥ 8 then none
  else some (Bytes.toNatBig significant, input.drop count)

def length? : Bytes → Option (Nat × Bytes)
  | [] => none
  | b :: rest => if b < 0x80 then some (b.toNat, rest) else longLength? (b.toNat - 0x80) rest

def integer? : Bytes → Option (Bytes × Bytes)
  | [] => none
  | tag :: rest =>
    if tag = 0x02 then do
      let (size, body) ← length? rest
      if (body.take size).length < size then none else some (body.take size, body.drop size)
    else none

/-- What follows the length of a sequence, whatever the length says. -/
def sequenceBody? : Bytes → Option Bytes
  | tag :: b :: rest =>
    if tag = 0x30 then
      if b < 0x80 then some rest
      else
        let skipped := b.toNat - 0x80
        if (rest.take skipped).length < skipped then none else some (rest.drop skipped)
    else none
  | _ => none

def parseLax? (input : Bytes) : Option EcdsaSignature := do
  let body ← sequenceBody? input
  let (r, afterR) ← integer? body
  let (s, _) ← integer? afterR
  let r := Bytes.toNatBig r
  let s := Bytes.toNatBig s
  return if r < order ∧ s < order then ⟨r, s⟩ else ⟨0, 0⟩

/-! ## Low S

With `(r, s)` also `(r, -s)` is a signature. The one with the lower second number is preferred. -/

def isLowS (sig : EcdsaSignature) : Bool :=
  decide (sig.s ≤ order / 2)

def normalize (sig : EcdsaSignature) : EcdsaSignature :=
  if sig.isLowS then sig else ⟨sig.r, order - sig.s⟩

/-! ## Writing -/

/-- The shortest bytes of a positive integer with a clear top bit. -/
def integerBytes (n : Nat) : Bytes :=
  match dropZeros (Bytes.ofNatBig 32 n) with
  | [] => [0]
  | b :: rest => if b < 0x80 then b :: rest else 0 :: b :: rest

def derInteger (n : Nat) : Bytes :=
  let b := integerBytes n
  0x02 :: UInt8.ofNat b.length :: b

def toDer (sig : EcdsaSignature) : Bytes :=
  let body := derInteger sig.r ++ derInteger sig.s
  0x30 :: UInt8.ofNat body.length :: body

end EcdsaSignature

end UtxoConsensus.Curve
