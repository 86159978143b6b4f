import UtxoConsensus.Curve.Ecdsa
import UtxoConsensus.Curve.Schnorr
import UtxoConsensus.Script.Error
import UtxoConsensus.Script.Flags
import UtxoConsensus.Signature.HashType

/-!
# Well-formed signatures and keys

Rules about the bytes of signatures and public keys that hold before anything is verified. Empty
signatures always pass: they are the short way to say that there is none.
-/

namespace UtxoConsensus.Encoding

/-! ## Strict DER -/

/-- Reads the integer in front: its bytes, and what follows. It must not be negative nor have zeros
in front that it does not need. -/
def strictInteger? : Bytes → Option (Bytes × Bytes)
  | tag :: size :: body =>
    let integer := body.take size.toNat
    if tag = 0x02 ∧ size ≠ 0 ∧ integer.length = size.toNat ∧ integer.headD 0 < 0x80 ∧
        ¬ (1 < integer.length ∧ integer.headD 0 = 0 ∧ (integer.drop 1).headD 0 < 0x80) then
      some (integer, body.drop size.toNat)
    else none
  | _ => none

/-- A sequence of exactly two such integers, in the shortest form, with at most 72 bytes. -/
def isStrictDer (sig : Bytes) : Bool :=
  match sig with
  | tag :: size :: body =>
    decide (sig.length ≤ 72) && tag == 0x30 && size.toNat == body.length &&
      match strictInteger? body with
      | some (_, afterR) =>
        match strictInteger? afterR with
        | some (_, afterS) => afterS.isEmpty
        | none => false
      | none => false
  | _ => false

/-! ## Signatures without their hash type -/

/-- A rule passes or names the error. -/
abbrev Check := Except ScriptError Unit

def isSchnorr (sig : Bytes) : Bool :=
  sig.length == Curve.schnorrSignatureSize

/-- Signatures of 64 bytes would be Schnorr, and do not count as ECDSA. -/
def checkEcdsa (flags : ScriptFlags) (sig : Bytes) : Check :=
  if isSchnorr sig then .error .sigBadLength
  else if flags.intersects (.derSig ||| .lowS ||| .strictEnc) && !isStrictDer sig then
    .error .sigDer
  else if flags.contains .lowS && !Curve.hasLowS sig then .error .sigHighS
  else .ok ()

def checkSchnorr (_flags : ScriptFlags) (sig : Bytes) : Check :=
  if isSchnorr sig then .ok () else .error .sigNonSchnorr

def checkEither (flags : ScriptFlags) (sig : Bytes) : Check :=
  if isSchnorr sig then .ok () else checkEcdsa flags sig

/-! ## Hash types -/

/-- With strict encoding the hash type must be known, and must agree with the flags on replay
protection. Committing to all coins needs tokens and replay protection, and all inputs. -/
def checkHashType (flags : ScriptFlags) (sig : Bytes) : Check :=
  let hashType := HashType.ofSignature sig
  let forkEnabled := flags.contains .enableSighashForkId
  if !flags.contains .strictEnc then .ok ()
  else if !hashType.isDefined then .error .sigHashType
  else if !forkEnabled && hashType.hasForkId then .error .illegalForkId
  else if forkEnabled && !hashType.hasForkId then .error .mustUseForkId
  else if hashType.hasUtxos && (!flags.contains .enableTokens || !hashType.hasForkId ||
      hashType.hasAnyoneCanPay) then
    .error .sigHashType
  else .ok ()

/-! ## Signatures in scripts -/

/-- A transaction signature: a signature of the kind that `body` asks for, and a hash type. -/
def checkTransaction (body : ScriptFlags → Bytes → Check) (flags : ScriptFlags) (sig : Bytes) :
    Check :=
  if sig.isEmpty then .ok ()
  else do
    body flags sig.dropLast
    checkHashType flags sig

def checkTransactionSignature : ScriptFlags → Bytes → Check := checkTransaction checkEither

/-- The rules for a signature among several, with keys matched in order. -/
def checkTransactionEcdsa : ScriptFlags → Bytes → Check := checkTransaction checkEcdsa

/-- The rules for a signature among several, with keys chosen by a bitfield. -/
def checkTransactionSchnorr : ScriptFlags → Bytes → Check := checkTransaction checkSchnorr

/-- The rules for a signature of arbitrary data, which has no hash type. -/
def checkDataSignature (flags : ScriptFlags) (sig : Bytes) : Check :=
  if sig.isEmpty then .ok () else checkEither flags sig

/-! ## Public keys -/

/-- Is a key of 33 bytes, or of 65 bytes without a parity? -/
def hasPlainKeyForm (key : Bytes) : Bool :=
  let first := key.headD 0
  if key.length = Curve.compressedKeySize then first == 0x02 || first == 0x03
  else key.length == Curve.uncompressedKeySize && first == 0x04

/-- With strict encoding keys take one of the two common forms. -/
def checkPublicKey (flags : ScriptFlags) (key : Bytes) : Check :=
  if flags.contains .strictEnc && !hasPlainKeyForm key then .error .pubkeyType else .ok ()

end UtxoConsensus.Encoding
