import UtxoConsensus.Proofs.Interpreter.Spends

/-!
# Signature opcodes that do the same

The signature opcodes look at a few flags, and ask the checker about signatures. Two environments that
agree on both need not agree on anything else, such as the size of numbers or the transaction that
scripts can look at: what an opcode does to a signature is the same in both.
-/

namespace UtxoConsensus

open Exec

variable {σ : Type}

/-- The flags that say how signatures and keys are read and verified. -/
def signatureFlags : ScriptFlags :=
  .strictEnc ||| .derSig ||| .lowS ||| .enableSighashForkId ||| .enableTokens ||| .nullFail |||
    .enableSchnorrMultisig

/-! ## Encodings -/

namespace Encoding

variable {f g : ScriptFlags} (hfg : signatureFlags.AgreesOn f g)
include hfg

theorem checkEcdsa_congr : checkEcdsa f = checkEcdsa g := by
  funext sig
  unfold checkEcdsa
  rw [hfg.intersects_eq (.derSig ||| .lowS ||| .strictEnc) (by decide),
    hfg.contains_eq .lowS (by decide)]

theorem checkEither_congr : checkEither f = checkEither g := by
  funext sig
  unfold checkEither
  rw [checkEcdsa_congr hfg]

theorem checkTransaction_congr {body : ScriptFlags → Bytes → Check} (hbody : body f = body g) :
    checkTransaction body f = checkTransaction body g := by
  funext sig
  unfold checkTransaction checkHashType
  rw [hbody, hfg.contains_eq .strictEnc (by decide), hfg.contains_eq .enableTokens (by decide),
    hfg.contains_eq .enableSighashForkId (by decide)]

theorem checkDataSignature_congr : checkDataSignature f = checkDataSignature g := by
  funext sig
  unfold checkDataSignature
  rw [checkEither_congr hfg]

theorem checkPublicKey_congr : checkPublicKey f = checkPublicKey g := by
  funext key
  unfold checkPublicKey
  rw [hfg.contains_eq .strictEnc (by decide)]

end Encoding

/-! ## Opcodes -/

/-- The signature opcodes of two environments follow the same rules and get the same answers. -/
structure Env.SameSignatures (env env' : Env σ) : Prop where
  flags : signatureFlags.AgreesOn env.flags env'.flags
  verifySignature : env.checker.verifySignature = env'.checker.verifySignature
  checkSig : ∀ sig key scriptCode, env.checker.checkSig sig key scriptCode env.flags =
    env'.checker.checkSig sig key scriptCode env'.flags

namespace Env.SameSignatures

variable {env env' : Env σ} (h : env.SameSignatures env')
include h

theorem cleanScriptCode_eq : cleanScriptCode env.flags = cleanScriptCode env'.flags := by
  funext scriptCode sig
  unfold cleanScriptCode
  rw [h.flags.contains_eq .enableSighashForkId (by decide)]

theorem settle_eq : settle env = settle env' := by
  funext good
  unfold settle
  rw [Env.has_eq h.flags .nullFail (by decide)]

theorem executeCheckSig_eq : executeCheckSig env = executeCheckSig env' := by
  funext verify
  have hencoding : Encoding.checkTransactionSignature env.flags =
      Encoding.checkTransactionSignature env'.flags :=
    Encoding.checkTransaction_congr h.flags (Encoding.checkEither_congr h.flags)
  unfold executeCheckSig
  simp only [hencoding, Encoding.checkPublicKey_congr h.flags, h.cleanScriptCode_eq, h.checkSig,
    h.settle_eq]

theorem executeCheckDataSig_eq : executeCheckDataSig env = executeCheckDataSig env' := by
  funext verify
  unfold executeCheckDataSig executeCheckDataSigWith
  rw [Encoding.checkDataSignature_congr h.flags, Encoding.checkPublicKey_congr h.flags,
    h.verifySignature, h.settle_eq]

theorem matchInOrder_eq (scriptCode : Bytes) (sigs keys : List Bytes) :
    matchInOrder env scriptCode sigs keys = matchInOrder env' scriptCode sigs keys := by
  have hencoding : Encoding.checkTransactionEcdsa env.flags =
      Encoding.checkTransactionEcdsa env'.flags :=
    Encoding.checkTransaction_congr h.flags (Encoding.checkEcdsa_congr h.flags)
  induction keys generalizing sigs with
  | nil => rfl
  | cons key keys ih =>
    cases sigs with
    | nil => rfl
    | cons sig rest =>
      unfold matchInOrder
      simp only [hencoding, Encoding.checkPublicKey_congr h.flags, h.checkSig, ih]

theorem legacyMultisig_eq (keys sigs : List Bytes) :
    legacyMultisig env keys sigs = legacyMultisig env' keys sigs := by
  unfold legacyMultisig
  simp only [h.cleanScriptCode_eq, h.matchInOrder_eq, Env.has_eq h.flags .nullFail (by decide)]

theorem matchChosen_eq (scriptCode : Bytes) (sigs : List Bytes) (bits : Nat) (keys : List Bytes) :
    matchChosen env scriptCode sigs bits keys = matchChosen env' scriptCode sigs bits keys := by
  have hencoding : Encoding.checkTransactionSchnorr env.flags =
      Encoding.checkTransactionSchnorr env'.flags :=
    Encoding.checkTransaction_congr h.flags rfl
  induction sigs generalizing bits keys with
  | nil => rfl
  | cons sig sigs ih =>
    unfold matchChosen
    simp only [hencoding, Encoding.checkPublicKey_congr h.flags, h.checkSig, ih]

theorem schnorrMultisig_eq (keys sigs : List Bytes) (dummy : Bytes) :
    schnorrMultisig env keys sigs dummy = schnorrMultisig env' keys sigs dummy := by
  unfold schnorrMultisig
  simp only [h.matchChosen_eq]

/-- The counts of a multisignature are numbers, which may be read in different ways. -/
theorem follows_executeCheckMultisig {lenient : Prop}
    (hnumber : ∀ b, (Comparison.onEqual σ lenient).Follows (env.number b) (env'.number b))
    (verify : Bool) :
    (Comparison.onEqual σ lenient).Follows (executeCheckMultisig env verify)
      (executeCheckMultisig env' verify) := by
  have hcount (depth limit : Nat) (e : ScriptError) : (Comparison.onEqual σ lenient).Follows
      (boundedCount env depth limit e) (boundedCount env' depth limit e) :=
    .bind (.peek depth) fun element ↦ .bind (hnumber element) fun _ ↦ .refl _
  unfold executeCheckMultisig
  simp only [Env.has_eq h.flags .enableSchnorrMultisig (by decide), h.schnorrMultisig_eq,
    h.legacyMultisig_eq]
  refine .bind (.require 1) fun _ ↦ .bind (hcount 0 _ _) fun keyCount ↦ ?_
  refine .bind (.countOperations keyCount) fun _ ↦ .bind (.require _) fun _ ↦ ?_
  exact .bind (hcount _ keyCount _) fun sigCount ↦ .refl _

end Env.SameSignatures

end UtxoConsensus
