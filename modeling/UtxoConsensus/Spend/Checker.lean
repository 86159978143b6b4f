import UtxoConsensus.Curve.Verification
import UtxoConsensus.Signature.Digest

/-!
# Signature checkers

The interpreter leaves everything that needs cryptography or the spending transaction to a checker.
A checker may have state, such as a cache of signatures; checking a signature then returns the state
after it. What a checker says about lock times and about the transaction depends on no state.
-/

namespace UtxoConsensus

/-- What the interpreter asks about the world outside of the script. -/
structure Checker (σ : Type) where
  /-- Does a signature without a hash type sign the message under the key? -/
  verifySignature (sig key : Bytes) (message : Hash256) : StateM σ Bool
  /-- The digest that a signature with a hash type signs, if there is a transaction. -/
  digest? (sig scriptCode : Bytes) (flags : ScriptFlags) : Option Hash256
  /-- Does a signature with a hash type sign the transaction under the key? -/
  checkSig (sig key scriptCode : Bytes) (flags : ScriptFlags) : StateM σ Bool
  /-- Has the lock time passed? -/
  checkLockTime (lockTime : Int) : Bool
  /-- Is the input old enough? -/
  checkSequence (sequence : Int) : Bool
  /-- The transaction and its coins, if there is a transaction. -/
  context : Option SpendContext

namespace Checker

/-- Takes the hash type from a signature and verifies the rest against the digest. An empty signature
signs nothing, and neither does any where there is no digest. -/
def checkDigest (verify : Bytes → Bytes → Hash256 → StateM σ Bool) (digest? : Option Hash256)
    (sig key : Bytes) : StateM σ Bool :=
  if sig.isEmpty then return false
  else match digest? with
    | some message => verify sig.dropLast key message
    | none => return false

/-! ## Without a transaction -/

/-- Only signatures of data can be verified. -/
def base : Checker Unit where
  verifySignature sig key message := return Curve.verifySignature sig key message
  digest? _ _ _ := none
  checkSig _ _ _ _ := return false
  checkLockTime _ := false
  checkSequence _ := false
  context := none

/-! ## Lock times -/

/-- Lock times below this are block heights, the others are times. -/
def lockTimeThreshold : Nat := 500000000

/-- The sequence number of an input that does not wait for the lock time. -/
def finalSequence : UInt32 := 0xffffffff

/-- The bit of a sequence number that is no relative lock time. -/
def sequenceDisableBit : UInt32 := 0x80000000

/-- The bit of relative lock times that are counted in time, not in blocks. -/
def sequenceTypeBit : UInt32 := 0x00400000

/-- The bits that hold a relative lock time. -/
def sequenceMask : UInt32 := 0x0000ffff

/-- A lock time is satisfied by a transaction whose own lock time is of the same kind and not
smaller, unless the input does not wait for it. -/
def lockTimeSatisfied (c : SpendContext) (lockTime : Int) : Bool :=
  let own : Int := c.tx.lockTime.toNat
  decide (own < lockTimeThreshold ↔ lockTime < lockTimeThreshold) && decide (lockTime ≤ own) &&
    c.input.sequence != finalSequence

/-- A relative lock time is satisfied by an input whose own one is of the same kind and not smaller.
Relative lock times exist from version 2. -/
def sequenceSatisfied (c : SpendContext) (sequence : Int) : Bool :=
  let mask := sequenceTypeBit ||| sequenceMask
  let own := c.input.sequence &&& mask
  let wanted := UInt32.ofNat (sequence % (UInt32.size : Int)).toNat &&& mask
  decide (2 ≤ c.tx.version.toUInt32) && c.input.sequence &&& sequenceDisableBit == 0 &&
    decide (own < sequenceTypeBit ↔ wanted < sequenceTypeBit) && decide (wanted ≤ own)

/-! ## With a transaction -/

/-- The digest that a signature signs. There is none for an empty signature, nor for one that
commits to coins that are not known. -/
def transactionDigest? (c : SpendContext) (shared : Option SharedHashes) (sig scriptCode : Bytes)
    (flags : ScriptFlags) : Option Hash256 :=
  let t := HashType.ofSignature sig
  if sig.isEmpty then none
  else if t.hasUtxos && flags.contains .enableTokens && c.isLimited then none
  else some (signatureDigest scriptCode c t flags shared)

/-- The checker for one input. Hashes that all inputs share may be given; they are computed anew for
every signature otherwise. -/
def transaction (c : SpendContext) (shared : Option SharedHashes) : Checker Unit where
  verifySignature sig key message := return Curve.verifySignature sig key message
  digest? := transactionDigest? c shared
  checkSig sig key scriptCode flags :=
    checkDigest (fun sig key message ↦ return Curve.verifySignature sig key message)
      (transactionDigest? c shared sig scriptCode flags) sig key
  checkLockTime := lockTimeSatisfied c
  checkSequence := sequenceSatisfied c
  context := some c

end Checker

end UtxoConsensus
