import UtxoConsensus.Curve.Ecdsa
import UtxoConsensus.Curve.Schnorr

/-!
# Secret keys

A secret key is a scalar, together with the choice how its public key is written.
-/

namespace UtxoConsensus.Curve

inductive SigningError where
  | invalidSecret
  | badTweak
deriving DecidableEq

def SigningError.message : SigningError → String
  | .invalidSecret => "invalid secret key: malformed or out-of-range secret key"
  | .badTweak => "bad tweak"

structure SecretKey where
  scalar : Nat
  compressed : Bool
  isScalar_scalar : isScalar scalar = true

namespace SecretKey

/-- Reads 32 bytes, most significant first. -/
def ofBytes (b : Bytes) (compressed : Bool) : Except SigningError SecretKey :=
  if h : b.length = 32 ∧ isScalar (Bytes.toNatBig b) = true then
    .ok ⟨Bytes.toNatBig b, compressed, h.2⟩
  else .error .invalidSecret

def publicKey (group : KeyGroup Key) (key : SecretKey) : Option Bytes :=
  (group.ofSecret? key.scalar).map
    (if key.compressed then group.compressed else group.uncompressed)

def signEcdsa (key : SecretKey) (message : Hash256) : Except SigningError Bytes :=
  match signEcdsa? key.scalar message with
  | some sig => .ok sig.toDer
  | none => .error .badTweak

def signSchnorr (group : KeyGroup Key) (key : SecretKey) (message : Hash256) :
    Except SigningError Bytes :=
  match signSchnorr? group key.scalar message with
  | some sig => .ok sig
  | none => .error .badTweak

end SecretKey

end UtxoConsensus.Curve
