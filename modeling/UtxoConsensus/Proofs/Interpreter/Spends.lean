import UtxoConsensus.Proofs.Interpreter.SignatureQuestions
import UtxoConsensus.Proofs.Script.Parsing

/-!
# Spends in lockstep

A spend is two runs on the same stack, and then what becomes of them: the script behind a script hash,
and the checks at the end. Environments with the same flags that are alike verify spends in lockstep,
so that checkers that answer alike give the same answer for the spend.
-/

namespace UtxoConsensus

open Exec

variable {σ τ : Type}

/-! ## The two parts of a spend -/

/-- Runs both scripts; returns what the unlocking script left on the stack. -/
def runBoth (env : Env σ) (unlocking locking : Bytes) : Exec σ (List Bytes) := do
  failIf (env.has .sigPushOnly && !Script.isPushOnly unlocking) .sigPushOnly
  evalScript env unlocking
  let pushed := (← get).stack
  evalScript env locking
  requireTrue
  return pushed

def checkEnd (env : Env σ) (unlocking : Bytes) (applies : Bool) : Exec σ Unit := do
  if applies then
    checkCleanStack env
    checkDensity env unlocking

/-- What becomes of a spend after both scripts. -/
def finishSpend (env : Env σ) (unlocking locking : Bytes) (pushed : List Bytes) : Exec σ Unit :=
  if env.has .p2sh && Script.isPayToScriptHash locking env.flags then
    runRedeemScript env unlocking pushed >>= checkEnd env unlocking
  else checkEnd env unlocking true

/-- A spend is the run of both scripts, and what is checked of its end. -/
theorem verifySpend_eq (env : Env σ) (unlocking locking : Bytes) :
    verifySpend env unlocking locking =
      runBoth env unlocking locking >>= finishSpend env unlocking locking := by
  unfold verifySpend verifySpendWith runScripts runBoth finishSpend
  simp only [bind_assoc, pure_bind]
  refine bind_congr fun _ ↦ bind_congr fun _ ↦ bind_congr fun m ↦ bind_congr fun _ ↦
    bind_congr fun _ ↦ ?_
  split
  · rfl
  · rw [pure_bind]
    rfl

theorem Env.has_eq {env : Env σ} {env' : Env τ} {among : ScriptFlags}
    (h : among.AgreesOn env.flags env'.flags) (flag : ScriptFlags)
    (hflag : among.contains flag = true) : env.has flag = env'.has flag :=
  h.contains_eq flag hflag

namespace Comparison

variable {c : Comparison σ τ} {env : Env σ} {env' : Env τ}

theorem follows_requireTrue : c.Follows (requireTrue : Exec σ Unit) requireTrue :=
  .bind_get fun _ _ ↦ .failIf _ _

/-! ## Spends that look at the same flags -/

/-- The flags that matter to a spend apart from its scripts. -/
def spendFlags : ScriptFlags :=
  .sigPushOnly ||| .p2sh ||| .enableP2sh32 ||| .disallowSegwitRecovery ||| .cleanStack |||
    .inputSigChecks

theorem follows_checkEnd (hflags : spendFlags.AgreesOn env.flags env'.flags)
    (unlocking : Bytes) (applies : Bool) :
    c.Follows (checkEnd env unlocking applies) (checkEnd env' unlocking applies) := by
  unfold checkEnd checkCleanStack checkDensity
  rw [Env.has_eq hflags .cleanStack (by decide), Env.has_eq hflags .p2sh (by decide),
    Env.has_eq hflags .inputSigChecks (by decide)]
  have hclean : c.Follows (get >>= fun m ↦ failIf (m.stack.length != 1) .cleanStack : Exec σ Unit)
      (get >>= fun m ↦ failIf (m.stack.length != 1) .cleanStack) := .bind_get fun _ _ ↦ .failIf _ _
  refine .ite (.bind (.ite (.bind (.failIf _ _) fun _ ↦ hclean) (.pure ())) fun _ ↦ ?_) (.pure ())
  exact .ite (.bind_get fun _ _ ↦ .failIf _ _) (.pure ())

namespace Rules

theorem runBoth (h : c.Rules env env') (hflags : spendFlags.AgreesOn env.flags env'.flags)
    (unlocking locking : Bytes) :
    c.Follows (UtxoConsensus.runBoth env unlocking locking)
      (UtxoConsensus.runBoth env' unlocking locking) := by
  unfold UtxoConsensus.runBoth
  rw [Env.has_eq hflags .sigPushOnly (by decide)]
  refine .bind (.failIf _ _) fun _ ↦ .bind (h.evalScript unlocking) fun _ ↦ ?_
  refine .bind_get fun m w ↦ .bind (h.evalScript locking) fun _ ↦ ?_
  exact .bind follows_requireTrue fun _ ↦ .pure m.stack

theorem runRedeemScript (h : c.Rules env env')
    (hflags : spendFlags.AgreesOn env.flags env'.flags) (unlocking : Bytes)
    (pushed : List Bytes) :
    c.Follows (UtxoConsensus.runRedeemScript env unlocking pushed)
      (UtxoConsensus.runRedeemScript env' unlocking pushed) := by
  unfold UtxoConsensus.runRedeemScript
  rw [Env.has_eq hflags .disallowSegwitRecovery (by decide)]
  refine .bind (.failIf _ _) fun _ ↦ ?_
  cases pushed with
  | nil => exact .fail _
  | cons redeemScript rest =>
    refine .bind (.modify (fun _ ↦ rfl) fun _ _ ↦ rfl) fun _ ↦ .ite (.pure false) ?_
    exact .bind (h.evalScript redeemScript) fun _ ↦ .bind follows_requireTrue fun _ ↦ .pure true

/-- Whole spends follow where the scripts do and the flags are the same. -/
theorem verifySpend (h : c.Rules env env')
    (hflags : spendFlags.AgreesOn env.flags env'.flags) (unlocking locking : Bytes) :
    c.Follows (UtxoConsensus.verifySpend env unlocking locking)
      (UtxoConsensus.verifySpend env' unlocking locking) := by
  have hlong : env.flags.contains .enableP2sh32 = env'.flags.contains .enableP2sh32 :=
    Env.has_eq hflags .enableP2sh32 (by decide)
  have hend := follows_checkEnd (c := c) hflags unlocking
  rw [verifySpend_eq, verifySpend_eq]
  refine .bind (h.runBoth hflags unlocking locking) fun pushed ↦ ?_
  unfold finishSpend
  rw [Env.has_eq hflags .p2sh (by decide), Script.isPayToScriptHash_congr hlong]
  exact .ite (.bind (h.runRedeemScript hflags unlocking pushed) hend) (hend true)

end Rules

namespace Alike

theorem evalScript (h : c.Alike env env') (script : Bytes) :
    c.Follows (UtxoConsensus.evalScript env script) (UtxoConsensus.evalScript env' script) :=
  h.rules.evalScript script

theorem runBoth (h : c.Alike env env') (unlocking locking : Bytes) :
    c.Follows (UtxoConsensus.runBoth env unlocking locking)
      (UtxoConsensus.runBoth env' unlocking locking) := by
  refine .bind (h.failIf_has .sigPushOnly _ _) fun _ ↦ .bind (h.evalScript unlocking) fun _ ↦ ?_
  refine .bind_get fun m w ↦ .bind (h.evalScript locking) fun _ ↦ ?_
  exact .bind follows_requireTrue fun _ ↦ .pure m.stack

/-- A clean stack may be asked for by the first environment only. -/
theorem checkCleanStack (h : c.Alike env env')
    (hclean : c.lenient → env'.has .cleanStack = true → env'.has .p2sh = true) :
    c.Follows (UtxoConsensus.checkCleanStack env) (UtxoConsensus.checkCleanStack env') := by
  unfold UtxoConsensus.checkCleanStack
  have hlength : c.Follows
      (get >>= fun m ↦ failIf (m.stack.length != 1) .cleanStack : Exec σ Unit)
      (get >>= fun m ↦ failIf (m.stack.length != 1) .cleanStack) :=
    .bind_get fun _ _ ↦ .failIf _ _
  rcases h.has_cases .cleanStack with heq | ⟨hlenient, hfirst, hsecond⟩
  · rw [heq]
    cases hset : env'.has .cleanStack with
    | false => exact .pure ()
    | true =>
      have hp2sh : env.has .p2sh = env'.has .p2sh := by
        refine (h.has_cases .p2sh).resolve_right ?_
        rintro ⟨hlenient, -, hnone⟩
        rw [hclean hlenient hset] at hnone
        exact Bool.noConfusion hnone
      rw [hp2sh]
      exact .bind (.failIf _ _) fun _ ↦ hlength
  · rw [hfirst, hsecond, ← bind_pure (if true = true then _ else _)]
    refine .bind_of_keeps hlenient ?_ fun u ↦ .pure u
    exact .bind (.failIf _ _) fun _ ↦ .bind_get fun _ ↦ .failIf _ _

theorem checkDensity (h : c.Alike env env') (unlocking : Bytes) :
    c.Follows (UtxoConsensus.checkDensity env unlocking)
      (UtxoConsensus.checkDensity env' unlocking) := by
  unfold UtxoConsensus.checkDensity
  rcases h.has_cases .inputSigChecks with heq | ⟨hlenient, hfirst, hsecond⟩
  · rw [heq]
    exact .ite (.bind_get fun _ _ ↦ .failIf _ _) (.pure ())
  · rw [hfirst, hsecond, ← bind_pure (if true = true then _ else _)]
    refine .bind_of_keeps hlenient ?_ fun u ↦ .pure u
    exact .bind_get fun _ ↦ .failIf _ _

theorem checkEnd (h : c.Alike env env')
    (hclean : c.lenient → env'.has .cleanStack = true → env'.has .p2sh = true) (unlocking : Bytes)
    (applies : Bool) :
    c.Follows (UtxoConsensus.checkEnd env unlocking applies)
      (UtxoConsensus.checkEnd env' unlocking applies) :=
  .ite (.bind (h.checkCleanStack hclean) fun _ ↦ h.checkDensity unlocking) (.pure ())

theorem isPayToScriptHash (h : c.Alike env env') (script : Bytes) :
    Script.isPayToScriptHash script env.flags = Script.isPayToScriptHash script env'.flags :=
  Script.isPayToScriptHash_congr (h.restricts.contains_eq .enableP2sh32 (by decide)) script

/-- The script behind a script hash. Where it is a lone witness program, it has to be exempt in both
runs or in none. -/
theorem runRedeemScript (h : c.Alike env env') (unlocking : Bytes) {pushed : List Bytes}
    (hexempt : env.has .disallowSegwitRecovery = env'.has .disallowSegwitRecovery ∨
      ∀ program, pushed = [program] → Script.isWitnessProgram program = false) :
    c.Follows (UtxoConsensus.runRedeemScript env unlocking pushed)
      (UtxoConsensus.runRedeemScript env' unlocking pushed) := by
  refine .bind (.failIf _ _) fun _ ↦ ?_
  cases pushed with
  | nil => exact .fail _
  | cons redeemScript rest =>
    refine .bind (.modify (fun _ ↦ rfl) fun _ _ ↦ rfl) fun _ ↦ ?_
    have hrun := Follows.bind (h.evalScript redeemScript) fun _ ↦
      Follows.bind (follows_requireTrue (c := c)) fun _ ↦ Follows.pure true
    rcases hexempt with heq | hprogram
    · rw [heq]
      exact .ite (.pure false) hrun
    · have hnone : (rest.isEmpty && Script.isWitnessProgram redeemScript) = false := by
        cases rest with
        | nil => exact hprogram redeemScript rfl
        | cons second rest => rfl
      rw [Bool.and_assoc, Bool.and_assoc, hnone, Bool.and_false, Bool.and_false]
      exact hrun

/-- Under the same flags, whole spends run in lockstep. -/
theorem verifySpend (h : c.Alike env env') (hstrict : ¬ c.lenient) (unlocking locking : Bytes) :
    c.Follows (UtxoConsensus.verifySpend env unlocking locking)
      (UtxoConsensus.verifySpend env' unlocking locking) :=
  h.rules.verifySpend ((h.same.resolve_left hstrict) ▸ .refl _ _) unlocking locking

end Alike

end Comparison

/-! ## The rules that hold given the flags -/

/-- Only strict encoding is added. -/
theorem effectiveFlags_contains (flags : ScriptFlags) {flag : ScriptFlags}
    (hflag : ScriptFlags.strictEnc.intersects flag = false) :
    (effectiveFlags flags).contains flag = flags.contains flag := by
  unfold effectiveFlags
  split
  · exact ScriptFlags.contains_or_of_disjoint flags hflag
  · rfl

/-- The fork makes encodings strict. -/
theorem effectiveFlags_contains_strictEnc {flags : ScriptFlags}
    (hstrict : flags.contains .strictEnc = true ∨ flags.contains .enableSighashForkId = true) :
    (effectiveFlags flags).contains .strictEnc = true := by
  unfold effectiveFlags
  split
  · exact ScriptFlags.contains_or_right flags .strictEnc
  · next hfork => exact hstrict.resolve_right hfork

/-! ## Answers for spends -/

instance decidableEqExcept {ε α : Type} [DecidableEq ε] [DecidableEq α] : DecidableEq (Except ε α)
  | .ok a, .ok b => decidable_of_iff (a = b) (by simp)
  | .error a, .error b => decidable_of_iff (a = b) (by simp)
  | .ok _, .error _ => isFalse nofun
  | .error _, .ok _ => isFalse nofun

/-- The answer for a spend, and the state of the checker after it. -/
def spendAnswer : EStateM.Result Halt (Machine σ) Unit → Except Halt Nat × σ
  | .ok () m => (.ok m.sigChecks, m.world)
  | .error halt m => (.error halt, m.world)

/-- The answer of a spend is read off its last machine. -/
theorem run_verifyScript (checker : Checker σ) (flags : ScriptFlags) (unlocking locking : Bytes)
    (world : σ) :
    (verifyScript checker flags unlocking locking).run world =
      spendAnswer (verifySpend ⟨checker, effectiveFlags flags⟩ unlocking locking
        (.start [] world)) := rfl

theorem snd_spendAnswer (r : EStateM.Result Halt (Machine σ) Unit) :
    (spendAnswer r).2 = (Machine.after r).world := by
  cases r <;> rfl

namespace Comparison

variable {c : Comparison σ τ}

/-- Machines that agree give one answer. -/
theorem Agrees.spendAnswer (hstrict : ¬ c.lenient) {r : EStateM.Result Halt (Machine σ) Unit}
    {r' : EStateM.Result Halt (Machine τ) Unit} (h : c.Agrees r r') :
    (UtxoConsensus.spendAnswer r).1 = (UtxoConsensus.spendAnswer r').1 ∧
      c.worlds (UtxoConsensus.spendAnswer r).2 (UtxoConsensus.spendAnswer r').2 := by
  cases r with
  | ok u m =>
    obtain ⟨w, rfl, hw⟩ := h
    exact ⟨rfl, hw⟩
  | error halt m =>
    obtain ⟨w, rfl, hw⟩ := h.resolve_left hstrict
    exact ⟨rfl, hw⟩

/-- Where whole spends follow and failures are compared, the answers are the same. -/
theorem Follows.verifyScript {checker : Checker σ} {checker' : Checker τ} {flags flags' : ScriptFlags}
    (hstrict : ¬ c.lenient) {unlocking locking : Bytes}
    (h : c.Follows (verifySpend ⟨checker, effectiveFlags flags⟩ unlocking locking)
      (verifySpend ⟨checker', effectiveFlags flags'⟩ unlocking locking)) :
    c.Asks (UtxoConsensus.verifyScript checker flags unlocking locking)
      (UtxoConsensus.verifyScript checker' flags' unlocking locking) := by
  constructor
  · intro s w hs
    rw [run_verifyScript, snd_spendAnswer]
    exact h.void (.start [] s) w hs
  · intro s w hw
    rw [run_verifyScript, run_verifyScript, snd_spendAnswer]
    refine (h.agrees (.start [] s) w hw).imp_right fun hagrees ↦ ?_
    rw [← snd_spendAnswer]
    exact hagrees.spendAnswer hstrict

/-- Environments that are alike give one answer, and their checkers go on alike. -/
theorem Alike.verifyScript {checker : Checker σ} {checker' : Checker τ}
    {flags : ScriptFlags} (hstrict : ¬ c.lenient)
    (h : c.Alike ⟨checker, effectiveFlags flags⟩ ⟨checker', effectiveFlags flags⟩)
    (unlocking locking : Bytes) :
    c.Asks (UtxoConsensus.verifyScript checker flags unlocking locking)
      (UtxoConsensus.verifyScript checker' flags unlocking locking) :=
  (h.verifySpend hstrict unlocking locking).verifyScript hstrict

end Comparison

/-! ## Checkers of one transaction -/

/-- Two checkers of one transaction, which differ at most in how they verify a signature of a
message. -/
structure Checker.SameTransaction (checker : Checker σ) (checker' : Checker τ) : Prop where
  digest? : checker.digest? = checker'.digest?
  checkLockTime : checker.checkLockTime = checker'.checkLockTime
  checkSequence : checker.checkSequence = checker'.checkSequence
  context : checker.context = checker'.context
  checkSig : ∀ sig key scriptCode flags, checker.checkSig sig key scriptCode flags =
    checkDigest checker.verifySignature (checker.digest? sig scriptCode flags) sig key
  checkSig' : ∀ sig key scriptCode flags, checker'.checkSig sig key scriptCode flags =
    checkDigest checker'.verifySignature (checker'.digest? sig scriptCode flags) sig key

theorem Checker.SameTransaction.alike {c : Comparison σ τ} {checker : Checker σ}
    {checker' : Checker τ} {flags : ScriptFlags} (h : checker.SameTransaction checker')
    (hverify : ∀ sig key message, Encoding.checkPublicKey flags key = .ok () →
      c.Asks (checker.verifySignature sig key message) (checker'.verifySignature sig key message)) :
    c.Alike ⟨checker, flags⟩ ⟨checker', flags⟩ where
  restricts := .refl _
  same := .inr rfl
  context := h.context
  checkLockTime := h.checkLockTime
  checkSequence := h.checkSequence
  verifySignature := hverify
  checkSig sig key scriptCode _ hkey := by
    rw [h.checkSig, h.checkSig', h.digest?]
    exact .checkDigest (fun sig message ↦ hverify sig key message hkey) _ sig

/-- What verifying signatures keeps is kept by a spend. -/
theorem verifyScript_keeps {checker : Checker σ} (hchecker : checker.SameTransaction checker)
    {flags : ScriptFlags} {invariant : σ → Prop}
    (hverify : ∀ sig key message, Encoding.checkPublicKey (effectiveFlags flags) key = .ok () →
      ∀ s, invariant s → invariant ((checker.verifySignature sig key message).run s).2)
    (unlocking locking : Bytes) {s : σ} (hs : invariant s) :
    invariant ((verifyScript checker flags unlocking locking).run s).2 := by
  have halike : (Comparison.keeping invariant).Alike ⟨checker, effectiveFlags flags⟩
      ⟨checker, effectiveFlags flags⟩ :=
    hchecker.alike fun sig key message hkey ↦ .of_keeps (hverify sig key message hkey)
  exact (halike.verifyScript id unlocking locking).keeps hs

end UtxoConsensus
