import UtxoConsensus.Proofs.Interpreter.SameSignatures

/-!
# Contexts that scripts do not see

Scripts look at the transaction and at its coins only by the introspection opcodes. Where the rules do
not know these, all of them fail before they look at anything. So the context of a checker does not
matter there, whatever the scripts are.
-/

namespace UtxoConsensus

open Exec

variable {σ : Type} {env : Env σ}

/-! ## Opcodes that are not known -/

section Unknown

variable (hflags : env.has .nativeIntrospection = false)
include hflags

/-- Without the flag the opcodes are bad ones, and the context is not looked at. -/
theorem executeTransactionField_unknown (field : TransactionField) :
    executeTransactionField env field = fail .badOpcode := by
  unfold executeTransactionField executeTransactionFieldWith
  rw [hflags]
  rfl

theorem executeInputField_unknown (field : InputField) :
    executeInputField env field = fail .badOpcode := by
  unfold executeInputField executeInputFieldWith
  rw [hflags]
  rfl

theorem executeOutputField_unknown (field : OutputField) :
    executeOutputField env field = fail .badOpcode := by
  unfold executeOutputField executeOutputFieldWith
  rw [hflags]
  rfl

theorem executeTokenField_unknown (side : TokenSide) (field : TokenField) :
    executeTokenField env side field = fail .badOpcode := by
  unfold executeTokenField executeTokenFieldWith
  rw [hflags]
  rfl

end Unknown

/-! ## Another context -/

def Checker.withContext (checker : Checker σ) (context : Option SpendContext) : Checker σ :=
  { checker with context }

theorem Checker.sameSignatures_withContext (checker : Checker σ) (context : Option SpendContext)
    (flags : ScriptFlags) :
    Env.SameSignatures ⟨checker.withContext context, flags⟩ ⟨checker, flags⟩ where
  flags := .refl _ _
  verifySignature := rfl
  checkSig _ _ _ := rfl

/-- Without introspection a context makes no difference. -/
theorem Checker.rules_withContext (checker : Checker σ) (context : Option SpendContext)
    {flags : ScriptFlags} (hflags : flags.contains .nativeIntrospection = false) :
    (Comparison.onEqual σ False).Rules ⟨checker.withContext context, flags⟩ ⟨checker, flags⟩ := by
  have hsame := checker.sameSignatures_withContext context flags
  have hnew : Env.has ⟨checker.withContext context, flags⟩ .nativeIntrospection = false := hflags
  have hold : Env.has ⟨checker, flags⟩ .nativeIntrospection = false := hflags
  exact {
    number := fun _ ↦ .refl _
    limits := fun _ ↦ .refl _
    push := fun _ ↦ .refl _
    condition := .refl _
    upgradableNop := .refl _
    checkLockTime := .refl _
    checkSequence := .refl _
    binToNum := .refl _
    transactionField := fun field ↦ by
      rw [executeTransactionField_unknown hnew, executeTransactionField_unknown hold]
      exact .fail _
    inputField := fun field ↦ by
      rw [executeInputField_unknown hnew, executeInputField_unknown hold]
      exact .fail _
    outputField := fun field ↦ by
      rw [executeOutputField_unknown hnew, executeOutputField_unknown hold]
      exact .fail _
    tokenField := fun side field ↦ by
      rw [executeTokenField_unknown hnew, executeTokenField_unknown hold]
      exact .fail _
    checkSig := fun verify ↦ by
      rw [hsame.executeCheckSig_eq]
      exact .refl _
    checkMultisig := hsame.follows_executeCheckMultisig fun _ ↦ .refl _
    checkDataSig := fun verify ↦ by
      rw [hsame.executeCheckDataSig_eq]
      exact .refl _ }

/-- The answer for a spend does not depend on a context that its scripts cannot see. -/
theorem verifyScript_withContext (checker : Checker σ) (context : Option SpendContext)
    {flags : ScriptFlags} (hflags : flags.contains .nativeIntrospection = false)
    (unlocking locking : Bytes) :
    verifyScript (checker.withContext context) flags unlocking locking =
      verifyScript checker flags unlocking locking := by
  have heffective : (effectiveFlags flags).contains .nativeIntrospection = false := by
    rw [effectiveFlags_contains flags (by decide), hflags]
  have hrules := checker.rules_withContext context heffective
  exact ((hrules.verifySpend (.refl _ _) unlocking locking).verifyScript id).eq

end UtxoConsensus
