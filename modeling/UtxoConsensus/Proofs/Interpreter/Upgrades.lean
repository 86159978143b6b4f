import UtxoConsensus.Proofs.Interpreter.RestrictionFlags
import UtxoConsensus.Proofs.Interpreter.SameSignatures
import UtxoConsensus.Proofs.Script.Numbers

/-!
# Upgrades let more scripts pass

Two upgrades have given a meaning to what only failed before: to operands of more than four bytes and
the opcode that multiplies, and to the opcodes that look at the transaction. Whatever ends well without
them never came to such a place, not even in a branch that is not taken. So it is the same run with
them, down to the last element and the last signature check.
-/

namespace UtxoConsensus

open Exec

variable {σ : Type}

namespace ScriptFlags

def upgrades : ScriptFlags := integers64Bit ||| nativeIntrospection

/-- All other flags, and the bits without a meaning. -/
def besidesUpgrades : ScriptFlags := (⟨0xffffffff⟩ : ScriptFlags).without upgrades

end ScriptFlags

/-! ## Environments -/

/-- The second environment may know an upgrade that the first one does not know. In all else the two
are the same. -/
structure Env.UpgradesTo (env env' : Env σ) : Prop extends env.SameSignatures env' where
  contains : env'.flags.contains env.flags = true
  others : ScriptFlags.besidesUpgrades.AgreesOn env.flags env'.flags
  context : env.checker.context = env'.checker.context
  checkLockTime : env.checker.checkLockTime = env'.checker.checkLockTime
  checkSequence : env.checker.checkSequence = env'.checker.checkSequence

namespace Env.UpgradesTo

open Comparison

variable {env env' : Env σ}

/-- All flags but the upgrades are the same. -/
theorem has_eq (h : env.UpgradesTo env') (flag : ScriptFlags)
    (hflag : ScriptFlags.besidesUpgrades.contains flag = true) : env.has flag = env'.has flag :=
  Env.has_eq h.others flag hflag

theorem has_mono (h : env.UpgradesTo env') {flag : ScriptFlags} (hset : env.has flag = true) :
    env'.has flag = true :=
  ScriptFlags.contains_trans h.contains hset

theorem maxNumberSize_le (h : env.UpgradesTo env') : env.maxNumberSize ≤ env'.maxNumberSize := by
  unfold Env.maxNumberSize
  cases hwide : env.has .integers64Bit with
  | true => exact Nat.le_of_eq (by rw [h.has_mono hwide])
  | false =>
    cases env'.has .integers64Bit with
    | true => decide
    | false => exact Nat.le_refl _

/-! ## Opcodes -/

/-- With more room a number that could be read can still be read, with the same value. -/
theorem decode (h : env.UpgradesTo env') (b : Bytes) {size size' : Nat} (hsize : size ≤ size') :
    (onEqual σ True).Follows
      (lift (ScriptNumber.decode b (env.has .minimalData) size (env.has .integers64Bit)))
      (lift (ScriptNumber.decode b (env'.has .minimalData) size' (env'.has .integers64Bit))) := by
  rw [h.has_eq .minimalData (by decide)]
  exact .lift_of_imp (fun n hn ↦ ScriptNumber.decode_mono hsize hn) (.inl trivial)

theorem number (h : env.UpgradesTo env') (b : Bytes) :
    (onEqual σ True).Follows (env.number b) (env'.number b) :=
  h.decode b h.maxNumberSize_le

/-- An opcode that was allowed stays allowed. -/
theorem limits (h : env.UpgradesTo env') (i : Instruction) :
    (onEqual σ True).Follows (checkLimits env i) (checkLimits env' i) := by
  have hdisabled : isDisabled i.opcode env'.flags = true → isDisabled i.opcode env.flags = true := by
    unfold isDisabled
    rw [Bool.or_eq_true, Bool.or_eq_true, Bool.and_eq_true, Bool.and_eq_true, Bool.not_eq_true',
      Bool.not_eq_true']
    refine Or.imp_right (And.imp_right fun hunset ↦ ?_)
    apply eq_false_of_ne_true
    intro hset
    have hset' : env'.flags.contains .integers64Bit = true := h.has_mono hset
    rw [hunset] at hset'
    cases hset'
  -- This check is made also in branches that are not taken.
  have hlast := Follows.failIf_of_lenient (c := onEqual σ True) trivial hdisabled .disabledOpcode
    .disabledOpcode
  exact .bind (.refl _) fun _ ↦ .ite (.bind (.refl _) fun _ ↦ hlast) hlast

theorem lockTimeOperand (h : env.UpgradesTo env') :
    (onEqual σ True).Follows (lockTimeOperand env) (lockTimeOperand env') :=
  .bind (.refl _) fun _ ↦ .bind (.refl _) fun top ↦ .bind (h.decode top (Nat.le_refl _)) fun _ ↦ .refl _

theorem executeUpgradableNop_eq (h : env.UpgradesTo env') :
    executeUpgradableNop env = executeUpgradableNop env' := by
  unfold executeUpgradableNop
  rw [h.has_eq .discourageUpgradableNops (by decide)]

theorem executeCheckLockTime (h : env.UpgradesTo env') :
    (onEqual σ True).Follows (executeCheckLockTime env) (executeCheckLockTime env') := by
  unfold UtxoConsensus.executeCheckLockTime executeCheckLockTimeWith
  rw [h.has_eq .checkLockTimeVerify (by decide), h.checkLockTime, h.executeUpgradableNop_eq]
  exact .ite (.bind h.lockTimeOperand fun _ ↦ .refl _) (.refl _)

theorem executeCheckSequence (h : env.UpgradesTo env') :
    (onEqual σ True).Follows (executeCheckSequence env) (executeCheckSequence env') := by
  unfold UtxoConsensus.executeCheckSequence executeCheckSequenceWith
  rw [h.has_eq .checkSequenceVerify (by decide), h.checkSequence, h.executeUpgradableNop_eq]
  exact .ite (.bind h.lockTimeOperand fun _ ↦ .refl _) (.refl _)

theorem binToNum (h : env.UpgradesTo env') :
    (onEqual σ True).Follows (executeSplice env .binToNum) (executeSplice env' .binToNum) := by
  refine .bind (.refl _) fun element ↦ .bind (.failIf_of_lenient trivial ?_ _ _) fun _ ↦ .refl _
  rw [Bool.not_eq_true', Bool.not_eq_true', ← Bool.not_eq_true, ← Bool.not_eq_true]
  exact mt (ScriptNumber.isMinimal_mono h.maxNumberSize_le)

/-- An opcode that is known without the upgrade is known with it. -/
theorem introspection (h : env.UpgradesTo env') (b : Bool) :
    (onEqual σ True).Follows (failIf (!env.has .nativeIntrospection || b) .badOpcode)
      (failIf (!env'.has .nativeIntrospection || b) .badOpcode) := by
  refine .failIf_of_lenient trivial ?_ _ _
  rw [Bool.or_eq_true, Bool.or_eq_true, Bool.not_eq_true', Bool.not_eq_true', ← Bool.not_eq_true,
    ← Bool.not_eq_true]
  exact Or.imp_left (mt h.has_mono)

/-- All rules of the evaluator at once. -/
theorem rules (h : env.UpgradesTo env') : (onEqual σ True).Rules env env' := by
  have hknown := h.introspection false
  rw [Bool.or_false, Bool.or_false] at hknown
  exact {
    number := h.number
    limits := h.limits
    push := fun i ↦ by
      unfold executePush
      rw [h.has_eq .minimalData (by decide)]
      exact .refl _
    condition := by
      unfold popCondition
      rw [h.has_eq .minimalIf (by decide)]
      exact .refl _
    upgradableNop := by
      rw [h.executeUpgradableNop_eq]
      exact .refl _
    checkLockTime := h.executeCheckLockTime
    checkSequence := h.executeCheckSequence
    binToNum := h.binToNum
    transactionField := follows_transactionField h.context hknown
    inputField := follows_inputField h.context h.number hknown
    outputField := follows_outputField h.context h.number hknown
    tokenField := follows_tokenField h.context h.number (by
      rw [h.has_eq .enableTokens (by decide)]
      exact h.introspection _)
    checkSig := fun verify ↦ by
      rw [h.executeCheckSig_eq]
      exact .refl _
    checkMultisig := h.follows_executeCheckMultisig h.number
    checkDataSig := fun verify ↦ by
      rw [h.executeCheckDataSig_eq]
      exact .refl _ }

end Env.UpgradesTo

/-! ## Flags with upgrades -/

section Flags

variable (flags : ScriptFlags) {upgrade : ScriptFlags}
  (hupgrade : ScriptFlags.upgrades.contains upgrade = true)
include hupgrade

theorem agreesOn_upgrade {among : ScriptFlags} (hamong : among.intersects .upgrades = false) :
    among.AgreesOn flags (flags ||| upgrade) :=
  (ScriptFlags.AgreesOn.or_right flags hupgrade hamong).symm

/-- The upgrades imply no other rule. -/
theorem effectiveFlags_upgrade :
    effectiveFlags (flags ||| upgrade) = effectiveFlags flags ||| upgrade := by
  have hfork : flags.contains .enableSighashForkId =
      (flags ||| upgrade).contains .enableSighashForkId :=
    (agreesOn_upgrade flags hupgrade (by decide)).contains_eq .enableSighashForkId
      (ScriptFlags.contains_self _)
  unfold effectiveFlags
  rw [← hfork]
  split
  · apply ScriptFlags.eq_of_bit
    intro i
    simp only [ScriptFlags.bit_or, Bool.or_right_comm]
  · rfl

/-- A checker that ignores the upgrades does not change with them. -/
theorem upgradesTo_upgrade {checker : Checker σ}
    (hchecker : ∀ sig key scriptCode,
      checker.checkSig sig key scriptCode flags = checker.checkSig sig key scriptCode (flags ||| upgrade)) :
    Env.UpgradesTo ⟨checker, flags⟩ ⟨checker, flags ||| upgrade⟩ where
  flags := agreesOn_upgrade flags hupgrade (by decide)
  verifySignature := rfl
  checkSig := hchecker
  contains := ScriptFlags.contains_or_left flags upgrade
  others := agreesOn_upgrade flags hupgrade (by decide)
  context := rfl
  checkLockTime := rfl
  checkSequence := rfl

end Flags

/-! ## Runs that end well -/

/-- **Upgrades are conservative.** For a checker that ignores the flags of the upgrades, a spend that is
valid without some of them is valid with them, with the same number of signature checks and the same
state of the checker after it. And a script that ends well without them, whatever machine it starts on,
ends with the same machine. -/
theorem valid_with_upgrades (checker : Checker σ)
    (hchecker : ∀ sig key scriptCode (flags upgrade : ScriptFlags),
      ScriptFlags.upgrades.contains upgrade = true →
        checker.checkSig sig key scriptCode (flags ||| upgrade) =
          checker.checkSig sig key scriptCode flags)
    (flags : ScriptFlags) {upgrade : ScriptFlags}
    (hupgrade : ScriptFlags.upgrades.contains upgrade = true) :
    (∀ unlocking locking world sigChecks world',
      (verifyScript checker flags unlocking locking).run world = (.ok sigChecks, world') →
        (verifyScript checker (flags ||| upgrade) unlocking locking).run world =
          (.ok sigChecks, world')) ∧
      ∀ script m m', evalScript ⟨checker, flags⟩ script m = .ok () m' →
        evalScript ⟨checker, flags ||| upgrade⟩ script m = .ok () m' := by
  have hupgrades (flags : ScriptFlags) : Env.UpgradesTo ⟨checker, flags⟩ ⟨checker, flags ||| upgrade⟩ :=
    upgradesTo_upgrade flags hupgrade fun sig key scriptCode ↦
      (hchecker sig key scriptCode flags upgrade hupgrade).symm
  constructor
  · intro unlocking locking world sigChecks world' hvalid
    have hspend := hupgrades (effectiveFlags flags)
    have hfollows := hspend.rules.verifySpend (hspend.others.mono (by decide)) unlocking locking
    rw [run_verifyScript] at hvalid ⊢
    rw [effectiveFlags_upgrade flags hupgrade]
    cases hrun : verifySpend ⟨checker, effectiveFlags flags⟩ unlocking locking (.start [] world) with
    | ok u m =>
      rw [hfollows.eq_ok hrun]
      rwa [hrun] at hvalid
    | error halt m =>
      rw [hrun] at hvalid
      cases hvalid
  · intro script m m' hok
    exact ((hupgrades flags).rules.evalScript script).eq_ok hok

/-- A script with an introspection opcode in a branch that is not taken, and a sum. -/
def unusedIntrospection : Bytes := [0x00, 0x63, 0xc0, 0x68, 0x52, 0x53, 0x93, 0x55, 0x9c]

/-- A branch that is not taken may hold opcodes that an upgrade defines. -/
theorem valid_with_upgrades_unusedIntrospection :
    ScriptFlags.upgrades.contains .upgrades = true ∧
      (verifyScript .base .mandatory [] unusedIntrospection).run () = (.ok 0, ()) ∧
      (verifyScript .base (.mandatory ||| .upgrades) [] unusedIntrospection).run () = (.ok 0, ()) := by
  have hupgrade : ScriptFlags.upgrades.contains .upgrades = true := by decide
  have hvalid : (verifyScript .base .mandatory [] unusedIntrospection).run () = (.ok 0, ()) :=
    Prod.ext (by decide +kernel) rfl
  exact ⟨hupgrade, hvalid,
    (valid_with_upgrades .base (fun _ _ _ _ _ _ ↦ rfl) .mandatory hupgrade).1 _ _ _ _ _ hvalid⟩

end UtxoConsensus
