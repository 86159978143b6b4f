import UtxoConsensus.Proofs.Interpreter.Lockstep
import UtxoConsensus.Proofs.Signature.EncodingRules

/-!
# What scripts can ask

Two environments may differ in restricting flags and in their checkers. A script cannot tell the
checkers apart if they answer alike, and they need to do so only for the signatures and keys that the
encoding rules let pass: each question about a signature comes after the rules for that signature and
that key, at all places where one is asked.
-/

namespace UtxoConsensus

open Exec

variable {σ τ : Type}

/-- Wherever a script comes to ask, the checkers of two environments answer alike. -/
structure Comparison.Alike (c : Comparison σ τ) (env : Env σ) (env' : Env τ) : Prop where
  restricts : env.flags.Restricts env'.flags
  same : c.lenient ∨ env.flags = env'.flags
  context : env.checker.context = env'.checker.context
  checkLockTime : env.checker.checkLockTime = env'.checker.checkLockTime
  checkSequence : env.checker.checkSequence = env'.checker.checkSequence
  verifySignature : ∀ sig key message, Encoding.checkPublicKey env.flags key = .ok () →
    c.Asks (env.checker.verifySignature sig key message)
      (env'.checker.verifySignature sig key message)
  checkSig : ∀ sig key scriptCode, sig = [] ∨ Encoding.checkHashType env.flags sig = .ok () →
    Encoding.checkPublicKey env.flags key = .ok () →
    c.Asks (env.checker.checkSig sig key scriptCode env.flags)
      (env'.checker.checkSig sig key scriptCode env'.flags)

namespace Comparison

variable {c : Comparison σ τ} {env : Env σ} {env' : Env τ}

namespace Alike

/-! ## Flags -/

/-- Flags that do not restrict are the same. -/
theorem has_eq (h : c.Alike env env') (flag : ScriptFlags)
    (hflag : ScriptFlags.restricting.intersects flag = false) : env.has flag = env'.has flag :=
  h.restricts.contains_eq flag hflag

theorem has_same (h : c.Alike env env') (flag : ScriptFlags) :
    c.lenient ∨ env.has flag = env'.has flag :=
  h.same.imp_right fun heq ↦ congrArg (·.contains flag) heq

/-- A flag is in both sets or in none, or the second set lacks it and failures are not compared. -/
theorem has_cases (h : c.Alike env env') (flag : ScriptFlags) :
    env.has flag = env'.has flag ∨ c.lenient ∧ env.has flag = true ∧ env'.has flag = false := by
  rcases h.has_same flag with hlenient | heq
  · cases hsecond : env'.has flag with
    | true => exact .inl (h.restricts.mono flag hsecond)
    | false =>
      cases hfirst : env.has flag with
      | false => exact .inl rfl
      | true => exact .inr ⟨hlenient, rfl, rfl⟩
  · exact .inl heq

/-- What a restricting flag asks for. -/
theorem failIf_has (h : c.Alike env env') (flag : ScriptFlags) (b : Bool) (e : ScriptError) :
    c.Follows (failIf (env.has flag && b) e) (failIf (env'.has flag && b) e) := by
  refine .failIf_of_imp (fun hb ↦ ?_) ?_ e
  · rw [Bool.and_eq_true] at hb ⊢
    exact ⟨h.restricts.mono flag hb.1, hb.2⟩
  · exact (h.has_same flag).imp_right fun heq ↦ by rw [heq]

/-- A rule for encodings, and what comes after it. -/
theorem check (h : c.Alike env env') {α : Type} {rule : ScriptFlags → Bytes → Encoding.Check}
    (hrule : ∀ b, rule env.flags b = .ok () → rule env'.flags b = .ok ()) (b : Bytes)
    {f : Unit → Exec σ α} {g : Unit → Exec τ α}
    (hfg : rule env.flags b = .ok () → c.Follows (f ()) (g ())) :
    c.Follows (lift (rule env.flags b) >>= f) (lift (rule env'.flags b) >>= g) :=
  .bind_lift (fun _ hb ↦ hrule b hb) (h.same.imp_right fun heq ↦ by rw [heq]) fun _ hb ↦ hfg hb

theorem checkPublicKey (h : c.Alike env env') {α : Type} (key : Bytes) {f : Unit → Exec σ α}
    {g : Unit → Exec τ α}
    (hfg : Encoding.checkPublicKey env.flags key = .ok () → c.Follows (f ()) (g ())) :
    c.Follows (lift (Encoding.checkPublicKey env.flags key) >>= f)
      (lift (Encoding.checkPublicKey env'.flags key) >>= g) :=
  h.check (fun _ hkey ↦ Encoding.checkPublicKey_mono h.restricts hkey) key hfg

/-- The rule for the signature of a transaction, of whatever kind. -/
theorem checkTransaction (h : c.Alike env env') {α : Type} {body : ScriptFlags → Bytes → Encoding.Check}
    (hbody : ∀ b, body env.flags b = .ok () → body env'.flags b = .ok ()) (sig : Bytes)
    {f : Unit → Exec σ α} {g : Unit → Exec τ α}
    (hfg : sig = [] ∨ Encoding.checkHashType env.flags sig = .ok () → c.Follows (f ()) (g ())) :
    c.Follows (lift (Encoding.checkTransaction body env.flags sig) >>= f)
      (lift (Encoding.checkTransaction body env'.flags sig) >>= g) :=
  h.check (fun _ hsig ↦ Encoding.checkTransaction_mono hbody h.restricts hsig) sig fun hsig ↦
    hfg (Encoding.hashType_of_checkTransaction hsig)

/-! ## Numbers and pushes -/

theorem decode (h : c.Alike env env') (b : Bytes) (maxSize : Nat) :
    c.Follows
      (lift (ScriptNumber.decode b (env.has .minimalData) maxSize (env.has .integers64Bit)))
      (lift (ScriptNumber.decode b (env'.has .minimalData) maxSize (env'.has .integers64Bit))) := by
  rw [h.has_eq .integers64Bit (by decide)]
  refine .lift_of_imp (fun n hn ↦ ?_) ((h.has_same .minimalData).imp_right fun heq ↦ by rw [heq])
  unfold ScriptNumber.decode at hn ⊢
  split
  · next hlength =>
    rw [if_pos hlength] at hn
    cases hn
  · next hlength =>
    rw [if_neg hlength] at hn
    cases hminimal : env'.has .minimalData with
    | false =>
      cases hfirst : env.has .minimalData && !ScriptNumber.isMinimal b maxSize with
      | true =>
        rw [hfirst] at hn
        cases hn
      | false =>
        rw [hfirst] at hn
        exact hn
    | true =>
      have hfirst : env.has .minimalData = true := h.restricts.mono .minimalData hminimal
      rw [hfirst] at hn
      exact hn

theorem maxNumberSize (h : c.Alike env env') : env.maxNumberSize = env'.maxNumberSize := by
  unfold Env.maxNumberSize
  rw [h.has_eq .integers64Bit (by decide)]

/-- A number is read alike, or the first environment rejects it. -/
theorem number (h : c.Alike env env') (b : Bytes) : c.Follows (env.number b) (env'.number b) := by
  unfold Env.number
  rw [h.maxNumberSize]
  exact h.decode b _

/-- A push that is not minimal may be rejected by the first environment only. -/
theorem executePush (h : c.Alike env env') (i : Instruction) :
    c.Follows (UtxoConsensus.executePush env i) (UtxoConsensus.executePush env' i) :=
  .bind (h.failIf_has .minimalData _ _) fun _ ↦ .push i.data

theorem binToNum (h : c.Alike env env') :
    c.Follows (executeSplice env .binToNum) (executeSplice env' .binToNum) := by
  refine .bind .pop fun element ↦ ?_
  rw [h.maxNumberSize, h.has_eq .integers64Bit (by decide)]
  exact .bind (.failIf _ _) fun _ ↦ .push _

theorem popCondition (h : c.Alike env env') :
    c.Follows (UtxoConsensus.popCondition env) (UtxoConsensus.popCondition env') := by
  refine .bind_get fun m w ↦ ?_
  rw [Machine.stack_withWorld]
  cases m.stack with
  | nil => exact .fail _
  | cons condition rest =>
    refine .bind ?_ fun _ ↦ .bind .pop fun _ ↦ .pure _
    rw [Bool.and_assoc, Bool.and_assoc]
    exact h.failIf_has .minimalIf _ _

/-! ## Lock times -/

theorem executeUpgradableNop (h : c.Alike env env') :
    c.Follows (UtxoConsensus.executeUpgradableNop env) (UtxoConsensus.executeUpgradableNop env') := by
  have hnop := h.failIf_has .discourageUpgradableNops true .discourageUpgradableNops
  rwa [Bool.and_true, Bool.and_true] at hnop

theorem lockTimeOperand (h : c.Alike env env') :
    c.Follows (UtxoConsensus.lockTimeOperand env) (UtxoConsensus.lockTimeOperand env') := by
  refine .bind (.require 1) fun _ ↦ .bind (.peek 0) fun top ↦ .bind (h.decode top _) fun _ ↦ ?_
  exact .bind (.failIf _ _) fun _ ↦ .pure _

/-- An opcode with a meaning where the flag is set, which it may lose only to pass. -/
theorem upgraded (h : c.Alike env env') {flag : ScriptFlags} {x : Exec σ Unit} {y : Exec τ Unit}
    (hflag : env'.has .discourageUpgradableNops = true → env.has flag = true →
      env'.has flag = true) (hx : Keeps id x) (hxy : c.Follows x y) :
    c.Follows (if env.has flag then x else UtxoConsensus.executeUpgradableNop env)
      (if env'.has flag then y else UtxoConsensus.executeUpgradableNop env') := by
  rcases h.has_cases flag with heq | ⟨hlenient, hfirst, hsecond⟩
  · rw [heq]
    exact .ite hxy h.executeUpgradableNop
  · rw [hfirst, hsecond]
    have hnop : env'.has .discourageUpgradableNops = false := by
      cases hdiscourage : env'.has .discourageUpgradableNops with
      | false => rfl
      | true =>
        have hset := hflag hdiscourage hfirst
        rw [hsecond] at hset
        exact absurd hset Bool.false_ne_true
    have hpass : UtxoConsensus.executeUpgradableNop env' = pure () := by
      unfold UtxoConsensus.executeUpgradableNop
      rw [hnop]
      rfl
    change c.Follows x (UtxoConsensus.executeUpgradableNop env')
    rw [hpass, ← bind_pure x]
    exact .bind_of_keeps hlenient hx fun u ↦ .pure u

theorem keeps_lockTimeOperand (env : Env σ) : Keeps id (UtxoConsensus.lockTimeOperand env) := by
  refine .bind (.require 1) fun _ ↦ .bind (.peek 0) fun _ ↦ .bind (.lift _) fun _ ↦ ?_
  exact .bind (.failIf _ _) fun _ ↦ .pure _

theorem executeCheckLockTime (h : c.Alike env env') :
    c.Follows (UtxoConsensus.executeCheckLockTime env) (UtxoConsensus.executeCheckLockTime env') := by
  refine h.upgraded h.restricts.lockTime ?_ ?_
  · exact .bind (keeps_lockTimeOperand env) fun _ ↦ .failIf _ _
  · rw [h.checkLockTime]
    exact .bind h.lockTimeOperand fun _ ↦ .failIf _ _

theorem executeCheckSequence (h : c.Alike env env') :
    c.Follows (UtxoConsensus.executeCheckSequence env) (UtxoConsensus.executeCheckSequence env') := by
  refine h.upgraded h.restricts.sequence ?_ ?_
  · exact .bind (keeps_lockTimeOperand env) fun _ ↦ .failIf _ _
  · rw [h.checkSequence]
    exact .bind h.lockTimeOperand fun _ ↦ .failIf _ _

/-! ## Introspection -/

theorem introspection (h : c.Alike env env') :
    c.Follows (failIf (!env.has .nativeIntrospection) .badOpcode)
      (failIf (!env'.has .nativeIntrospection) .badOpcode) := by
  rw [h.has_eq .nativeIntrospection (by decide)]
  exact .failIf _ _

theorem executeTokenField (h : c.Alike env env') (side : TokenSide) (field : TokenField) :
    c.Follows (UtxoConsensus.executeTokenField env side field)
      (UtxoConsensus.executeTokenField env' side field) := by
  refine follows_tokenField h.context h.number ?_ side field
  rw [h.has_eq .nativeIntrospection (by decide), h.has_eq .enableTokens (by decide)]
  exact .failIf _ _

end Alike

end Comparison

end UtxoConsensus
