import UtxoConsensus.Curve.PublicKey
import UtxoConsensus.Digest.Sha256
import UtxoConsensus.Word256.Jacobi

/-!
# Schnorr signatures

A signature is the x coordinate of a point `R` and a scalar `s`, in 64 bytes. It is valid if
`s·G - e·P` is `R`, where `P` is the public key and the challenge `e` is a hash of `R`, `P` and the
message. Of the two points with the x coordinate of `R` the one whose y coordinate is a square is
meant.
-/

namespace UtxoConsensus.Curve

def schnorrSignatureSize : Nat := 64

/-- Is a coordinate a square other than zero? -/
def isSquare (a : Nat) : Bool :=
  (Word256.ofNat a).jacobi (Word256.ofNat fieldPrime) == 1

/-- The challenge of a signature: a hash modulo the order, which lies above half of all hashes. -/
def challenge (group : KeyGroup Key) (r : Nat) (key : Key) (message : Hash256) : Nat :=
  let preimage := Bytes.ofNatBig 32 r ++ group.compressed key ++ message.bytes
  let e := Bytes.toNatBig (Digest.sha256 preimage).bytes
  if e ≥ order then e - order else e

/-! ## Verification -/

/-- The sum of two points of which either may be missing, being at infinity. -/
def addTerms? (group : KeyGroup Key) : Option Key → Option Key → Option Key
  | some a, some b => group.add? a b
  | some a, none => some a
  | none, some b => some b
  | none, none => none

/-- Does a written signature sign the message under a written key? -/
def verifySchnorr (group : KeyGroup Key) (sig key : Bytes) (message : Hash256) : Bool :=
  let r := Bytes.toNatBig (sig.take 32)
  let s := Bytes.toNatBig (sig.drop 32)
  if sig.length = schnorrSignatureSize ∧ r < fieldPrime ∧ s < order then
    match group.parse? key with
    | none => false
    | some key =>
      let e := challenge group r key message
      match addTerms? group (group.ofSecret? s) (group.multiply? (group.negate key) e) with
      | none => false
      | some point => group.x point == r && isSquare (group.y point)
  else false

/-! ## Signing -/

def schnorrNonce (secret : Nat) (message : Hash256) (attempt : UInt8) : Nat :=
  Bytes.toNatBig (Digest.sha256 (Bytes.ofNatBig 32 secret ++ message.bytes ++ [attempt])).bytes

/-- The first candidate that is a scalar. -/
def findNonce? (secret : Nat) (message : Hash256) : Option Nat :=
  (List.range 256).findSome? fun attempt ↦
    let k := schnorrNonce secret message (UInt8.ofNat attempt)
    if isScalar k then some k else none

/-- The signature of a message; there is none if the sum of its two parts vanishes. -/
def signSchnorr? (group : KeyGroup Key) (secret : Nat) (message : Hash256) : Option Bytes := do
  let key ← group.ofSecret? secret
  let nonce ← findNonce? secret message
  let point ← group.ofSecret? nonce
  let r := group.x point
  let k := if isSquare (group.y point) then nonce else order - nonce
  let s := (k + challenge group r key message * secret) % order
  if s = 0 then none else some (Bytes.ofNatBig 32 r ++ Bytes.ofNatBig 32 s)

end UtxoConsensus.Curve
