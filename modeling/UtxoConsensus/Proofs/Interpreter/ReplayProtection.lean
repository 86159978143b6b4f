import UtxoConsensus.Proofs.Interpreter.Spends

/-!
# Replay protection

With replay protection a spend depends on what the checker says only about signatures whose hash type
has the bit for it, and so not on the legacy digest. Without replay protection, but with strict
encoding, it depends only on what the checker says about signatures that do not have the bit. So no
signature for one of the two kinds of transaction is ever of use for the other.
-/

namespace UtxoConsensus

variable {σ : Type} {flags : ScriptFlags}

/-! ## Checkers that differ in some signatures -/

/-- Two checkers that may differ, under the given rules, only in what they say about transaction
signatures that are not of the given kind. -/
structure Checker.AgreeOn (rules : ScriptFlags) (kind : Bytes → Prop) (checker checker' : Checker σ) :
    Prop where
  verifySignature : checker.verifySignature = checker'.verifySignature
  checkLockTime : checker.checkLockTime = checker'.checkLockTime
  checkSequence : checker.checkSequence = checker'.checkSequence
  context : checker.context = checker'.context
  checkSig : ∀ sig, kind sig → ∀ key scriptCode,
    checker.checkSig sig key scriptCode rules = checker'.checkSig sig key scriptCode rules

theorem Checker.AgreeOn.mono {rules : ScriptFlags} {kind kind' : Bytes → Prop}
    {checker checker' : Checker σ} (h : checker.AgreeOn rules kind checker')
    (hkind : ∀ sig, kind' sig → kind sig) : checker.AgreeOn rules kind' checker' where
  verifySignature := h.verifySignature
  checkLockTime := h.checkLockTime
  checkSequence := h.checkSequence
  context := h.context
  checkSig sig hsig := h.checkSig sig (hkind sig hsig)

/-- If all signatures that the rules for hash types let pass are of the given kind, the checkers give
the same answers for spends. -/
theorem Checker.AgreeOn.verifyScript {kind : Bytes → Prop} {checker checker' : Checker σ}
    (h : checker.AgreeOn (effectiveFlags flags) kind checker')
    (hkind : ∀ sig, sig = [] ∨ Encoding.checkHashType (effectiveFlags flags) sig = .ok () → kind sig)
    (unlocking locking : Bytes) :
    UtxoConsensus.verifyScript checker flags unlocking locking =
      UtxoConsensus.verifyScript checker' flags unlocking locking := by
  funext world
  have halike : (Comparison.onEqual σ False).Alike ⟨checker, effectiveFlags flags⟩
      ⟨checker', effectiveFlags flags⟩ := {
    restricts := .refl _
    same := .inr rfl
    context := h.context
    checkLockTime := h.checkLockTime
    checkSequence := h.checkSequence
    verifySignature := fun sig key message _ ↦
      .of_eq (congrFun (congrFun (congrFun h.verifySignature sig) key) message)
    checkSig := fun sig key scriptCode hsig _ ↦ .of_eq (h.checkSig sig (hkind sig hsig) _ _) }
  exact congrFun (halike.verifyScript id unlocking locking).eq world

/-! ## The legacy digest as a parameter -/

/-- The digest for a hash type, given what to use for the legacy digest. -/
def signatureDigestWith (legacy : Bytes → Transaction → Nat → HashType → Hash256) (scriptCode : Bytes)
    (c : SpendContext) (t : HashType) (flags : ScriptFlags) (shared : Option SharedHashes) : Hash256 :=
  if t.hasForkId && flags.contains .enableSighashForkId then
    forkIdDigest scriptCode c t flags shared
  else legacy scriptCode c.tx c.index t

namespace Checker

def transactionDigestWith? (legacy : Bytes → Transaction → Nat → HashType → Hash256)
    (c : SpendContext) (shared : Option SharedHashes) (sig scriptCode : Bytes)
    (flags : ScriptFlags) : Option Hash256 :=
  let t := HashType.ofSignature sig
  if sig.isEmpty then none
  else if t.hasUtxos && flags.contains .enableTokens && c.isLimited then none
  else some (signatureDigestWith legacy scriptCode c t flags shared)

def transactionWith (legacy : Bytes → Transaction → Nat → HashType → Hash256) (c : SpendContext)
    (shared : Option SharedHashes) : Checker Unit where
  verifySignature sig key message := return Curve.verifySignature sig key message
  digest? := transactionDigestWith? legacy c shared
  checkSig sig key scriptCode flags :=
    checkDigest (fun sig key message ↦ return Curve.verifySignature sig key message)
      (transactionDigestWith? legacy c shared sig scriptCode flags) sig key
  checkLockTime := lockTimeSatisfied c
  checkSequence := sequenceSatisfied c
  context := some c

/-- The checker of a transaction has the legacy digest for its parameter. -/
theorem transactionWith_legacyDigest (c : SpendContext) (shared : Option SharedHashes) :
    transactionWith legacyDigest c shared = transaction c shared := rfl

/-- Where the hash type has the bit for replay protection, the legacy digest is not used. -/
theorem transactionDigestWith?_congr {rules : ScriptFlags} {sig : Bytes}
    (hrules : rules.contains .enableSighashForkId = true)
    (hsig : sig = [] ∨ (HashType.ofSignature sig).hasForkId = true)
    (legacy legacy' : Bytes → Transaction → Nat → HashType → Hash256) (c : SpendContext)
    (shared : Option SharedHashes) (scriptCode : Bytes) :
    transactionDigestWith? legacy c shared sig scriptCode rules =
      transactionDigestWith? legacy' c shared sig scriptCode rules := by
  unfold transactionDigestWith? signatureDigestWith
  rcases hsig with rfl | hfork
  · rfl
  · simp only [hfork, hrules, Bool.and_self, if_true]

/-- The legacy digest matters only for signatures without the bit of the fork. -/
theorem agreeOn_transactionWith {rules : ScriptFlags}
    (hrules : rules.contains .enableSighashForkId = true)
    (legacy legacy' : Bytes → Transaction → Nat → HashType → Hash256) (c : SpendContext)
    (shared : Option SharedHashes) :
    (transactionWith legacy c shared).AgreeOn rules
      (fun sig ↦ sig = [] ∨ (HashType.ofSignature sig).hasForkId = true)
      (transactionWith legacy' c shared) where
  verifySignature := rfl
  checkLockTime := rfl
  checkSequence := rfl
  context := rfl
  checkSig sig hsig key scriptCode := by
    have hdigest := transactionDigestWith?_congr hrules hsig legacy legacy' c shared scriptCode
    simp only [transactionWith, hdigest]

end Checker

/-! ## Spends -/

/-- **Replay protection.** With it, two checkers that agree about empty signatures and about those with
the bit give the same answer for a spend, and so does the checker for a transaction whatever its legacy
digest is. Without it, under strict encoding, it is enough to agree about signatures without the
bit. -/
theorem verifyScript_replayProtection (flags : ScriptFlags) (unlocking locking : Bytes) :
    (flags.contains .enableSighashForkId = true →
      (∀ {σ : Type} (checker checker' : Checker σ),
        checker.AgreeOn (effectiveFlags flags)
          (fun sig ↦ sig = [] ∨ (HashType.ofSignature sig).hasForkId = true) checker' →
        verifyScript checker flags unlocking locking =
          verifyScript checker' flags unlocking locking) ∧
      ∀ (legacy : Bytes → Transaction → Nat → HashType → Hash256) (c : SpendContext)
        (shared : Option SharedHashes),
        verifyScript (.transactionWith legacy c shared) flags unlocking locking =
          verifyScript (.transaction c shared) flags unlocking locking) ∧
    (flags.contains .strictEnc = true → flags.contains .enableSighashForkId = false →
      ∀ {σ : Type} (checker checker' : Checker σ),
        checker.AgreeOn (effectiveFlags flags)
          (fun sig ↦ (HashType.ofSignature sig).hasForkId = false) checker' →
        verifyScript checker flags unlocking locking =
          verifyScript checker' flags unlocking locking) := by
  have hfork : (effectiveFlags flags).contains .enableSighashForkId =
      flags.contains .enableSighashForkId := effectiveFlags_contains flags (by decide)
  constructor
  · intro hset
    have hstrict := effectiveFlags_contains_strictEnc (.inr hset)
    have hkind (sig : Bytes)
        (hsig : sig = [] ∨ Encoding.checkHashType (effectiveFlags flags) sig = .ok ()) :
        sig = [] ∨ (HashType.ofSignature sig).hasForkId = true := by
      refine hsig.imp_right fun hcheck ↦ ?_
      rw [Encoding.hasForkId_of_checkHashType hstrict hcheck, hfork, hset]
    constructor
    · intro σ checker checker' hagree
      exact hagree.verifyScript hkind unlocking locking
    · intro legacy c shared
      rw [← Checker.transactionWith_legacyDigest]
      exact (Checker.agreeOn_transactionWith (hfork.trans hset) legacy legacyDigest c
        shared).verifyScript hkind unlocking locking
  · intro hset hunset σ checker checker' hagree
    have hstrict := effectiveFlags_contains_strictEnc (.inl hset)
    refine hagree.verifyScript (fun sig hsig ↦ ?_) unlocking locking
    rcases hsig with rfl | hcheck
    · decide
    · rw [Encoding.hasForkId_of_checkHashType hstrict hcheck, hfork, hunset]

/-- A checker that takes every signature with the bit for replay protection, or every one without. -/
def Checker.careless (hasForkId : Bool) : Checker Unit where
  verifySignature := base.verifySignature
  digest? := base.digest?
  checkSig sig _ _ _ := return !sig.isEmpty && (HashType.ofSignature sig).hasForkId == hasForkId
  checkLockTime := base.checkLockTime
  checkSequence := base.checkSequence
  context := base.context

theorem Checker.careless_agreeOn_base (hasForkId : Bool) (rules : ScriptFlags) :
    (careless hasForkId).AgreeOn rules
      (fun sig ↦ sig = [] ∨ (HashType.ofSignature sig).hasForkId = !hasForkId) base where
  verifySignature := rfl
  checkLockTime := rfl
  checkSequence := rfl
  context := rfl
  checkSig sig hsig key scriptCode := by
    have hrefused : (!sig.isEmpty && (HashType.ofSignature sig).hasForkId == hasForkId) = false := by
      rcases hsig with rfl | hbit
      · rfl
      · rw [hbit]
        cases hasForkId <;> exact Bool.and_false _
    change pure _ = pure false
    rw [hrefused]

/-- Spends with a signature of the kind that the checker takes and the rules do not, and a spend whose
legacy digest is a constant. -/
theorem verifyScript_replayProtection_careless :
    verifyScript (.careless false) .mandatory (Script.pushData [0x30, 6, 2, 1, 1, 2, 1, 1, 0x01])
        (Script.pushData (2 :: List.replicate 32 1) ++ [Opcode.checkSig]) =
      verifyScript .base .mandatory (Script.pushData [0x30, 6, 2, 1, 1, 2, 1, 1, 0x01])
        (Script.pushData (2 :: List.replicate 32 1) ++ [Opcode.checkSig]) ∧
    verifyScript
        (.transactionWith (fun _ _ _ _ ↦ .zero)
          ⟨⟨2, [⟨.null, [], 0⟩], [], 0⟩, 0, .limited (.plain ⟨0⟩ []), by decide, trivial⟩ none)
        .mandatory (Script.pushData [0x30, 6, 2, 1, 1, 2, 1, 1, 0x41])
        (Script.pushData (2 :: List.replicate 32 1) ++ [Opcode.checkSig]) =
      verifyScript
        (.transaction
          ⟨⟨2, [⟨.null, [], 0⟩], [], 0⟩, 0, .limited (.plain ⟨0⟩ []), by decide, trivial⟩ none)
        .mandatory (Script.pushData [0x30, 6, 2, 1, 1, 2, 1, 1, 0x41])
        (Script.pushData (2 :: List.replicate 32 1) ++ [Opcode.checkSig]) ∧
    verifyScript (.careless true) .strictEnc (Script.pushData [0x30, 6, 2, 1, 1, 2, 1, 1, 0x41])
        (Script.pushData (2 :: List.replicate 32 1) ++ [Opcode.checkSig]) =
      verifyScript .base .strictEnc (Script.pushData [0x30, 6, 2, 1, 1, 2, 1, 1, 0x41])
        (Script.pushData (2 :: List.replicate 32 1) ++ [Opcode.checkSig]) := by
  refine ⟨?_, ?_, ?_⟩
  · exact ((verifyScript_replayProtection .mandatory _ _).1 (by decide)).1 _ _
      (Checker.careless_agreeOn_base false _)
  · exact ((verifyScript_replayProtection .mandatory _ _).1 (by decide)).2 _ _ none
  · exact (verifyScript_replayProtection .strictEnc _ _).2 (by decide) (by decide) _ _
      ((Checker.careless_agreeOn_base true _).mono fun _ ↦ .inr)

end UtxoConsensus
