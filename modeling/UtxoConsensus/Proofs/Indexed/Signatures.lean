import UtxoConsensus.Proofs.Indexed.Encodings
import UtxoConsensus.Proofs.Indexed.Machine
import UtxoConsensus.Proofs.Indexed.Scripts

/-!
# Single signatures by positions

The rules for the bytes of signatures and keys, and the opcodes that verify one signature, with every
lookup at a position that has to be there.
-/

namespace UtxoConsensus.Indexed

open Exec

variable {σ : Type}

/-! ## Encodings -/

def checkEcdsa (flags : ScriptFlags) (sig : Bytes) : Exec σ Unit := do
  failIf (Encoding.isSchnorr sig) .sigBadLength
  if flags.intersects (.derSig ||| .lowS ||| .strictEnc) then
    failIf (!(← orFault (isStrictDer? sig))) .sigDer
  failIf (flags.contains .lowS && !Curve.hasLowS sig) .sigHighS

def checkSchnorr (flags : ScriptFlags) (sig : Bytes) : Exec σ Unit :=
  lift (Encoding.checkSchnorr flags sig)

def checkEither (flags : ScriptFlags) (sig : Bytes) : Exec σ Unit :=
  if Encoding.isSchnorr sig then pure () else checkEcdsa flags sig

def checkTransaction (body : ScriptFlags → Bytes → Exec σ Unit) (flags : ScriptFlags) (sig : Bytes) :
    Exec σ Unit :=
  if sig.isEmpty then pure ()
  else do
    body flags sig.dropLast
    lift (Encoding.checkHashType flags sig)

def checkDataSignature (flags : ScriptFlags) (sig : Bytes) : Exec σ Unit :=
  if sig.isEmpty then pure () else checkEither flags sig

def checkPublicKey (flags : ScriptFlags) (key : Bytes) : Exec σ Unit := do
  if flags.contains .strictEnc then failIf (!(← orFault (hasPlainKeyForm? key))) .pubkeyType

theorem checkEcdsa_eq (flags : ScriptFlags) (sig : Bytes) :
    (checkEcdsa flags sig : Exec σ Unit) = lift (Encoding.checkEcdsa flags sig) := by
  unfold checkEcdsa Encoding.checkEcdsa
  rw [isStrictDer?_eq]
  cases Encoding.isSchnorr sig <;> cases flags.intersects (.derSig ||| .lowS ||| .strictEnc) <;>
    cases Encoding.isStrictDer sig <;> cases flags.contains .lowS <;> cases Curve.hasLowS sig <;> rfl

theorem checkSchnorr_eq (flags : ScriptFlags) (sig : Bytes) :
    (checkSchnorr flags sig : Exec σ Unit) = lift (Encoding.checkSchnorr flags sig) := rfl

theorem checkEither_eq (flags : ScriptFlags) (sig : Bytes) :
    (checkEither flags sig : Exec σ Unit) = lift (Encoding.checkEither flags sig) := by
  unfold checkEither Encoding.checkEither
  rw [checkEcdsa_eq]
  cases Encoding.isSchnorr sig <;> rfl

/-- The last byte is looked up only in signatures that are not empty. -/
theorem checkTransaction_eq {body : ScriptFlags → Bytes → Exec σ Unit}
    {check : ScriptFlags → Bytes → Encoding.Check}
    (hbody : ∀ flags sig, body flags sig = lift (check flags sig)) (flags : ScriptFlags) (sig : Bytes) :
    checkTransaction body flags sig = lift (Encoding.checkTransaction check flags sig) := by
  unfold checkTransaction Encoding.checkTransaction
  rw [hbody]
  cases sig.isEmpty with
  | true => rfl
  | false => cases check flags sig.dropLast <;> rfl

theorem checkDataSignature_eq (flags : ScriptFlags) (sig : Bytes) :
    (checkDataSignature flags sig : Exec σ Unit) = lift (Encoding.checkDataSignature flags sig) := by
  unfold checkDataSignature Encoding.checkDataSignature
  rw [checkEither_eq]
  cases sig.isEmpty <;> rfl

theorem checkPublicKey_eq (flags : ScriptFlags) (key : Bytes) :
    (checkPublicKey flags key : Exec σ Unit) = lift (Encoding.checkPublicKey flags key) := by
  unfold checkPublicKey Encoding.checkPublicKey
  rw [hasPlainKeyForm?_eq]
  cases flags.contains .strictEnc <;> cases Encoding.hasPlainKeyForm key <;> rfl

/-! ## Single signatures -/

def cleanScriptCode (flags : ScriptFlags) (scriptCode sig : Bytes) : Exec σ Bytes := do
  if flags.contains .enableSighashForkId && (HashType.ofSignature sig).hasForkId then return scriptCode
  else return (← orFault (findAndDelete? (Script.pushData sig) scriptCode)).2

theorem cleanScriptCode_eq (flags : ScriptFlags) (scriptCode sig : Bytes) :
    (cleanScriptCode flags scriptCode sig : Exec σ Bytes) =
      pure (UtxoConsensus.cleanScriptCode flags scriptCode sig) := by
  unfold cleanScriptCode UtxoConsensus.cleanScriptCode
  rw [findAndDelete?_eq (pushData_ne_nil sig)]
  cases flags.contains .enableSighashForkId && (HashType.ofSignature sig).hasForkId <;> rfl

def executeCheckSig (env : Env σ) (verify : Bool) : Exec σ Unit := do
  require 2
  let sig ← peek 1
  let key ← peek 0
  checkTransaction checkEither env.flags sig
  checkPublicKey env.flags key
  let good ←
    if sig.isEmpty then pure false
    else do
      let scriptCode ← cleanScriptCode env.flags (← get).scriptCode sig
      let good ← Env.ask (env.checker.checkSig sig key scriptCode env.flags)
      settle env good
      pure good
  drop 2
  answer verify .checkSigVerify good

theorem executeCheckSig_eq (env : Env σ) (verify : Bool) :
    executeCheckSig env verify = UtxoConsensus.executeCheckSig env verify := by
  unfold executeCheckSig UtxoConsensus.executeCheckSig Encoding.checkTransactionSignature
  simp only [checkTransaction_eq checkEither_eq, checkPublicKey_eq, cleanScriptCode_eq, pure_bind]

theorem executeCheckDataSig_eq (env : Env σ) (verify : Bool) :
    executeCheckDataSigWith (checkDataSignature env.flags) (checkPublicKey env.flags) env verify =
      executeCheckDataSig env verify := by
  unfold executeCheckDataSig
  simp only [funext (checkDataSignature_eq env.flags), funext (checkPublicKey_eq env.flags)]

end UtxoConsensus.Indexed
