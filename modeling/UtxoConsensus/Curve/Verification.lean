import UtxoConsensus.Curve.Ecdsa
import UtxoConsensus.Curve.Schnorr

/-!
# Signatures of either kind

Scripts do not say which kind of signature they are given. Its length decides.
-/

namespace UtxoConsensus.Curve

/-- Does a signature sign the message? Signatures of 64 bytes are Schnorr, all others ECDSA. -/
def verifySignature (sig key : Bytes) (message : Hash256) : Bool :=
  if sig.length = schnorrSignatureSize then verifySchnorr secp256k1 sig key message
  else verifyEcdsa sig key message

end UtxoConsensus.Curve
