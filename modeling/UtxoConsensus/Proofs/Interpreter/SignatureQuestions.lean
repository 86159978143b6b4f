import UtxoConsensus.Proofs.Interpreter.Questions

/-!
# Signature opcodes under two checkers

There are four places where a script asks about a signature: single signatures, signatures of data,
and multisignatures with keys in order or with chosen keys. At each of them the rules for the
signature and for the key come right before the question, so that environments that are alike run
in lockstep.
-/

namespace UtxoConsensus.Comparison.Alike

open Exec

variable {σ τ : Type} {c : Comparison σ τ} {env : Env σ} {env' : Env τ}

theorem cleanScriptCode (h : c.Alike env env') :
    UtxoConsensus.cleanScriptCode env.flags = UtxoConsensus.cleanScriptCode env'.flags := by
  funext scriptCode sig
  unfold UtxoConsensus.cleanScriptCode
  rw [h.restricts.contains_eq .enableSighashForkId (by decide)]

theorem settle (h : c.Alike env env') (good : Bool) :
    c.Follows (UtxoConsensus.settle env good) (UtxoConsensus.settle env' good) := by
  refine .bind (.countSigChecks 1) fun _ ↦ ?_
  rw [Bool.and_comm, Bool.and_comm (!good)]
  exact h.failIf_has .nullFail _ _

/-! ## Single signatures -/

/-- The same question, unless the first environment rejects the encoding. -/
theorem executeCheckSig (h : c.Alike env env') (verify : Bool) :
    c.Follows (UtxoConsensus.executeCheckSig env verify)
      (UtxoConsensus.executeCheckSig env' verify) := by
  refine .bind (.require 2) fun _ ↦ .bind (.peek 1) fun sig ↦ .bind (.peek 0) fun key ↦ ?_
  refine h.checkTransaction (fun _ ↦ Encoding.checkEither_mono h.restricts) sig fun hsig ↦ ?_
  refine h.checkPublicKey key fun hkey ↦ ?_
  have hanswer (good : Bool) : c.Follows
      (drop 2 >>= fun _ ↦ answer verify .checkSigVerify good : Exec σ Unit)
      (drop 2 >>= fun _ ↦ answer verify .checkSigVerify good) :=
    .bind (.drop 2) fun _ ↦ .answer verify _ good
  refine .ite (hanswer false) ?_
  refine .bind_get fun m w ↦ ?_
  rw [h.cleanScriptCode]
  refine .bind (.ask (h.checkSig sig key _ hsig hkey)) fun good ↦ ?_
  exact .bind (h.settle good) fun _ ↦ hanswer good

theorem executeCheckDataSig (h : c.Alike env env') (verify : Bool) :
    c.Follows (UtxoConsensus.executeCheckDataSig env verify)
      (UtxoConsensus.executeCheckDataSig env' verify) := by
  refine .bind (.require 3) fun _ ↦ .bind (.peek 2) fun sig ↦ .bind (.peek 1) fun message ↦ ?_
  refine .bind (.peek 0) fun key ↦ ?_
  refine h.check (fun _ ↦ Encoding.checkDataSignature_mono h.restricts) sig fun _ ↦ ?_
  refine h.checkPublicKey key fun hkey ↦ ?_
  have hanswer (good : Bool) : c.Follows
      (drop 3 >>= fun _ ↦ answer verify .checkDataSigVerify good : Exec σ Unit)
      (drop 3 >>= fun _ ↦ answer verify .checkDataSigVerify good) :=
    .bind (.drop 3) fun _ ↦ .answer verify _ good
  refine .ite (hanswer false) ?_
  refine .bind (.ask (h.verifySignature sig key _ hkey)) fun good ↦ ?_
  exact .bind (h.settle good) fun _ ↦ hanswer good

/-! ## Signatures matched in order -/

theorem matchInOrder (h : c.Alike env env') (scriptCode : Bytes) (sigs keys : List Bytes) :
    c.Follows (UtxoConsensus.matchInOrder env scriptCode sigs keys)
      (UtxoConsensus.matchInOrder env' scriptCode sigs keys) := by
  induction keys generalizing sigs with
  | nil => exact .ite (.pure true) (.throw _)
  | cons key keys ih =>
    cases sigs with
    | nil => exact .pure true
    | cons sig rest =>
      refine h.checkTransaction (fun _ ↦ Encoding.checkEcdsa_mono h.restricts) sig fun hsig ↦ ?_
      refine h.checkPublicKey key fun hkey ↦ ?_
      refine .bind (.ask (h.checkSig sig key scriptCode hsig hkey)) fun good ↦ ?_
      exact .ite (.pure false) (ih _)

theorem legacyMultisig (h : c.Alike env env') (keys sigs : List Bytes) :
    c.Follows (UtxoConsensus.legacyMultisig env keys sigs)
      (UtxoConsensus.legacyMultisig env' keys sigs) := by
  refine .bind_get fun m w ↦ ?_
  rw [h.cleanScriptCode]
  refine .bind (h.matchInOrder _ sigs keys) fun good ↦ ?_
  refine .bind ?_ fun _ ↦ .bind (.countSigChecks _) fun _ ↦ .pure good
  rw [Bool.and_comm (!good) (env.has _), Bool.and_comm (!good) (env'.has _), Bool.and_assoc,
    Bool.and_assoc]
  exact h.failIf_has .nullFail _ _

/-! ## Signatures with chosen keys -/

theorem matchChosen (h : c.Alike env env') (scriptCode : Bytes) (sigs : List Bytes) (bits : Nat)
    (keys : List Bytes) :
    c.Follows (UtxoConsensus.matchChosen env scriptCode sigs bits keys)
      (UtxoConsensus.matchChosen env' scriptCode sigs bits keys) := by
  induction sigs generalizing bits keys with
  | nil => exact .bind (.failIf _ _) fun _ ↦ .pure true
  | cons sig sigs ih =>
    refine .bind (.failIf _ _) fun _ ↦ ?_
    rcases skipUnset bits keys with ⟨bits, _ | ⟨key, keys⟩⟩
    · exact .fail _
    · refine h.checkTransaction (fun _ ↦ Encoding.checkSchnorr_mono) sig fun hsig ↦ ?_
      refine h.checkPublicKey key fun hkey ↦ ?_
      refine .bind (.ask (h.checkSig sig key scriptCode hsig hkey)) fun good ↦ ?_
      exact .bind (.failIf _ _) fun _ ↦ .bind (.countSigChecks 1) fun _ ↦ ih _ _

theorem schnorrMultisig (h : c.Alike env env') (keys sigs : List Bytes) (dummy : Bytes) :
    c.Follows (UtxoConsensus.schnorrMultisig env keys sigs dummy)
      (UtxoConsensus.schnorrMultisig env' keys sigs dummy) := by
  refine .bind (.lift _) fun bits ↦ .bind (.failIf _ _) fun _ ↦ ?_
  exact .bind_get fun m w ↦ h.matchChosen _ _ _ _

/-! ## Multisignatures -/

theorem boundedCount (h : c.Alike env env') (depth limit : Nat) (e : ScriptError) :
    c.Follows (UtxoConsensus.boundedCount env depth limit e)
      (UtxoConsensus.boundedCount env' depth limit e) := by
  refine .bind (.peek depth) fun element ↦ .bind (h.number element) fun _ ↦ ?_
  exact .bind (.failIf _ _) fun _ ↦ .pure _

theorem executeCheckMultisig (h : c.Alike env env') (verify : Bool) :
    c.Follows (UtxoConsensus.executeCheckMultisig env verify)
      (UtxoConsensus.executeCheckMultisig env' verify) := by
  unfold UtxoConsensus.executeCheckMultisig
  rw [h.has_eq .enableSchnorrMultisig (by decide)]
  refine .bind (.require 1) fun _ ↦ .bind (h.boundedCount 0 _ _) fun keyCount ↦ ?_
  refine .bind (.countOperations keyCount) fun _ ↦ .bind (.require _) fun _ ↦ ?_
  refine .bind (h.boundedCount _ keyCount _) fun sigCount ↦ .bind (.require _) fun _ ↦ ?_
  refine .bind (.peekMany 1 keyCount) fun keys ↦ .bind (.peekMany _ sigCount) fun sigs ↦ ?_
  refine .bind (.peek _) fun dummy ↦ ?_
  have hanswer (good : Bool) : c.Follows
      (drop (keyCount + sigCount + 3) >>= fun _ ↦ answer verify .checkMultisigVerify good :
        Exec σ Unit)
      (drop (keyCount + sigCount + 3) >>= fun _ ↦ answer verify .checkMultisigVerify good) :=
    .bind (.drop _) fun _ ↦ .answer verify _ good
  exact .ite (.bind (h.schnorrMultisig keys sigs dummy) hanswer)
    (.bind (h.legacyMultisig keys sigs) hanswer)

/-! ## All opcodes -/

theorem checkLimits (h : c.Alike env env') (i : Instruction) :
    c.Follows (UtxoConsensus.checkLimits env i) (UtxoConsensus.checkLimits env' i) := by
  have hdisabled : isDisabled i.opcode env.flags = isDisabled i.opcode env'.flags := by
    unfold isDisabled
    rw [h.restricts.contains_eq .integers64Bit (by decide)]
  refine .bind (.failIf _ _) fun _ ↦ ?_
  rw [hdisabled]
  exact .ite (.bind (.countOperations 1) fun _ ↦ .failIf _ _) (.failIf _ _)

/-- Environments that are alike run every script in lockstep. -/
theorem rules (h : c.Alike env env') : c.Rules env env' where
  number := h.number
  limits := h.checkLimits
  push := h.executePush
  condition := h.popCondition
  upgradableNop := h.executeUpgradableNop
  checkLockTime := h.executeCheckLockTime
  checkSequence := h.executeCheckSequence
  binToNum := h.binToNum
  transactionField := follows_transactionField h.context h.introspection
  inputField := follows_inputField h.context h.number h.introspection
  outputField := follows_outputField h.context h.number h.introspection
  tokenField := h.executeTokenField
  checkSig := h.executeCheckSig
  checkMultisig := h.executeCheckMultisig
  checkDataSig := h.executeCheckDataSig

end UtxoConsensus.Comparison.Alike
