import UtxoConsensus.Proofs.Interpreter.FreeScripts
import UtxoConsensus.Proofs.Interpreter.Spends

/-!
# Restricting flags only restrict

A spend that is valid under some flags is valid under fewer restricting flags. Up to the end of the
locking script the run under fewer flags keeps pace with the other one. After that it may take another
path in two ways. Without script hashes it stops there, having checked no signature, since the
unlocking script only pushes and the locking script only compares a hash. And it may exempt a witness
program from evaluation, which ends it well.
-/

namespace UtxoConsensus

open Exec

variable {σ : Type}

/-- Flags that restrict others do so with all that they imply. -/
theorem ScriptFlags.Restricts.effectiveFlags {f g : ScriptFlags} (hfg : f.Restricts g) :
    (UtxoConsensus.effectiveFlags f).Restricts (UtxoConsensus.effectiveFlags g) := by
  unfold UtxoConsensus.effectiveFlags
  rw [hfg.contains_eq .enableSighashForkId (by decide)]
  split
  · exact hfg.or (by decide) (by decide) (by decide)
  · exact hfg

/-! ## Where only success counts -/

/-- Where only success counts, the second run succeeds as the first one did. -/
theorem Comparison.Follows.eq_ok {α : Type} {x y : Exec σ α} {m m' : Machine σ} {a : α}
    (h : (onEqual σ True).Follows x y) (hx : x m = .ok a m') : y m = .ok a m' := by
  rcases h.agrees m m.world rfl with hvoid | hagrees
  · exact hvoid.elim
  · rw [hx] at hagrees
    obtain ⟨w, hy, hw⟩ := hagrees
    rw [← hw] at hy
    exact hy

/-! ## After both scripts -/

/-- Pushes and a comparison of hashes check no signatures. -/
theorem keeps_runBoth {env : Env σ} {unlocking locking : Bytes} {flags : ScriptFlags}
    (hunlocking : Script.isPushOnly unlocking = true)
    (hlocking : Script.isPayToScriptHash locking flags = true) :
    Keeps Machine.sigChecks (runBoth env unlocking locking) := by
  refine .bind (.failIf _ _) fun _ ↦ .bind (keeps_evalScript_of_isPushOnly hunlocking) fun _ ↦ ?_
  refine .bind_get fun m ↦ .bind (keeps_evalScript_of_isPayToScriptHash hlocking) fun _ ↦ ?_
  exact .bind (.bind_get fun _ ↦ .failIf _ _) fun _ ↦ .pure _

theorem isPushOnly_of_runRedeemScript {env : Env σ} {unlocking : Bytes} {pushed : List Bytes}
    {m m' : Machine σ} {applies : Bool}
    (h : runRedeemScript env unlocking pushed m = .ok applies m') :
    Script.isPushOnly unlocking = true := by
  obtain ⟨u, m₁, hpush, -⟩ := exists_of_bind_eq_ok h
  have hfalse := false_of_failIf_eq_ok hpush
  rwa [Bool.not_eq_false'] at hfalse

/-- A witness program that is exempt ends the spend well. -/
theorem finish_exempt {env : Env σ} {unlocking program : Bytes} (m : Machine σ)
    (hpush : Script.isPushOnly unlocking = true) (hprogram : Script.isWitnessProgram program = true)
    (hexempt : env.has .disallowSegwitRecovery = false) :
    (runRedeemScript env unlocking [program] >>= checkEnd env unlocking) m =
      .ok () { m with stack := [] } := by
  unfold runRedeemScript
  simp only [hpush, hexempt, hprogram]
  rfl

/-- Without signature checks the unlocking script may be of any length. -/
theorem checkDensity_of_sigChecks_eq_zero (env : Env σ) (unlocking : Bytes) {m : Machine σ}
    (hzero : m.sigChecks = 0) : checkDensity env unlocking m = .ok () m := by
  unfold checkDensity
  split
  · change failIf (decide (unlocking.length < requiredLength m.sigChecks)) _ m = _
    rw [hzero]
    rfl
  · rfl

/-- A spend ends well where script hashes are not known. -/
theorem checkEnd_of_no_p2sh {env : Env σ} {unlocking : Bytes} {m : Machine σ}
    (hclean : env.has .cleanStack = true → env.has .p2sh = true) (hp2sh : env.has .p2sh = false)
    (hzero : m.sigChecks = 0) : checkEnd env unlocking true m = .ok () m := by
  have hnone : env.has .cleanStack = false := by
    cases hset : env.has .cleanStack with
    | false => rfl
    | true =>
      rw [hclean hset] at hp2sh
      exact Bool.noConfusion hp2sh
  have hpass : checkCleanStack env m = .ok () m := by
    unfold checkCleanStack
    rw [hnone]
    rfl
  change (checkCleanStack env >>= fun _ ↦ checkDensity env unlocking) m = _
  rw [bind_of_ok hpass, checkDensity_of_sigChecks_eq_zero env unlocking hzero]

section Fewer

variable {env env' : Env σ}

/-- With fewer flags, fewer checks follow the scripts. -/
theorem finishSpend_of_fewer_flags (h : (Comparison.onEqual σ True).Alike env env')
    (hclean : env'.has .cleanStack = true → env'.has .p2sh = true) {unlocking locking : Bytes}
    {pushed : List Bytes} {m m' : Machine σ}
    (hzero : Script.isPushOnly unlocking = true →
      Script.isPayToScriptHash locking env'.flags = true → m.sigChecks = 0)
    (hfirst : finishSpend env unlocking locking pushed m = .ok () m') :
    ∃ m'', finishSpend env' unlocking locking pushed m = .ok () m'' := by
  have hend := h.checkEnd (fun _ ↦ hclean) unlocking
  unfold finishSpend at hfirst ⊢
  rw [h.isPayToScriptHash locking] at hfirst
  cases hlocking : Script.isPayToScriptHash locking env'.flags with
  | false =>
    rw [hlocking, Bool.and_false] at hfirst
    rw [Bool.and_false]
    exact ⟨m', (hend true).eq_ok hfirst⟩
  | true =>
    rw [hlocking, Bool.and_true] at hfirst
    rw [Bool.and_true]
    rcases h.has_cases .p2sh with heq | ⟨-, hset, hunset⟩
    · rw [heq] at hfirst
      cases hp2sh : env'.has .p2sh with
      | false =>
        rw [hp2sh] at hfirst
        exact ⟨m', (hend true).eq_ok hfirst⟩
      | true =>
        rw [hp2sh] at hfirst
        change (runRedeemScript env unlocking pushed >>= checkEnd env unlocking) m = _ at hfirst
        change ∃ m'', (runRedeemScript env' unlocking pushed >>= checkEnd env' unlocking) m = _
        obtain ⟨applies, m₁, hrun, -⟩ := exists_of_bind_eq_ok hfirst
        have hpush := isPushOnly_of_runRedeemScript hrun
        by_cases hexempt : env.has .disallowSegwitRecovery = env'.has .disallowSegwitRecovery ∨
            ∀ program, pushed = [program] → Script.isWitnessProgram program = false
        · exact ⟨m', (Comparison.Follows.bind (h.runRedeemScript unlocking hexempt) hend).eq_ok hfirst⟩
        · rw [not_or, Classical.not_forall] at hexempt
          obtain ⟨hdiffers, program, hlone⟩ := hexempt
          rw [Classical.not_imp] at hlone
          obtain ⟨rfl, hprogram⟩ := hlone
          obtain ⟨-, -, hunset⟩ := (h.has_cases .disallowSegwitRecovery).resolve_left hdiffers
          exact ⟨_, finish_exempt m hpush (eq_true_of_ne_false hprogram) hunset⟩
    · -- The first run goes on with the script behind the hash, and the second one stops here.
      rw [hset] at hfirst
      rw [hunset]
      obtain ⟨applies, m₁, hrun, -⟩ := exists_of_bind_eq_ok hfirst
      have hpush := isPushOnly_of_runRedeemScript hrun
      exact ⟨m, checkEnd_of_no_p2sh hclean hunset (hzero hpush hlocking)⟩

/-- A spend that passes under the flags passes under fewer. -/
theorem verifySpend_of_fewer_flags (h : (Comparison.onEqual σ True).Alike env env')
    (hclean : env'.has .cleanStack = true → env'.has .p2sh = true) {unlocking locking : Bytes}
    {world : σ} {m : Machine σ}
    (hfirst : verifySpend env unlocking locking (.start [] world) = .ok () m) :
    ∃ m', verifySpend env' unlocking locking (.start [] world) = .ok () m' := by
  rw [verifySpend_eq] at hfirst ⊢
  obtain ⟨pushed, m₁, hboth, hfinish⟩ := exists_of_bind_eq_ok hfirst
  rw [bind_of_ok ((h.runBoth unlocking locking).eq_ok hboth)]
  refine finishSpend_of_fewer_flags h hclean (fun hunlocking hlocking ↦ ?_) hfinish
  have hkeeps : Keeps Machine.sigChecks (runBoth env unlocking locking) :=
    keeps_runBoth hunlocking hlocking
  have hsame := hkeeps (.start [] world)
  rwa [hboth] at hsame

end Fewer

/-! ## Answers -/

theorem exists_ok_of_run_eq_ok {checker : Checker σ} {flags : ScriptFlags}
    {unlocking locking : Bytes} {world : σ} {sigChecks : Nat}
    (h : ((verifyScript checker flags unlocking locking).run world).1 = .ok sigChecks) :
    ∃ m, verifySpend ⟨checker, effectiveFlags flags⟩ unlocking locking (.start [] world) =
      .ok () m := by
  rw [run_verifyScript] at h
  cases hr : verifySpend ⟨checker, effectiveFlags flags⟩ unlocking locking (.start [] world) with
  | ok u m => exact ⟨m, rfl⟩
  | error halt m =>
    rw [hr] at h
    cases h

/-- **Restricting flags only restrict.** For a checker that looks only at those flags that give
signatures their meaning, a spend that is valid under `more` flags is valid under `fewer`, if the
sets differ in restricting flags. A clean stack is asked for only together with script hashes, and
opcodes that lose their meaning must not be discouraged. -/
theorem verifyScript_of_fewer_flags (checker : Checker σ)
    (hchecker : ∀ sig key scriptCode (f g : ScriptFlags),
      f.contains .enableSighashForkId = g.contains .enableSighashForkId →
      f.contains .enableTokens = g.contains .enableTokens →
      checker.checkSig sig key scriptCode f = checker.checkSig sig key scriptCode g)
    {fewer more : ScriptFlags} (hsubset : more.contains fewer = true)
    (hextra : ScriptFlags.restricting.contains (more.without fewer) = true)
    (hclean : fewer.contains .cleanStack = true → fewer.contains .p2sh = true)
    (hlockTime : fewer.contains .discourageUpgradableNops = true →
      more.contains .checkLockTimeVerify = true → fewer.contains .checkLockTimeVerify = true)
    (hsequence : fewer.contains .discourageUpgradableNops = true →
      more.contains .checkSequenceVerify = true → fewer.contains .checkSequenceVerify = true)
    {unlocking locking : Bytes} {world : σ} {sigChecks : Nat}
    (hmore : ((verifyScript checker more unlocking locking).run world).1 = .ok sigChecks) :
    ∃ sigChecks', ((verifyScript checker fewer unlocking locking).run world).1 = .ok sigChecks' := by
  have hrestricts : (effectiveFlags more).Restricts (effectiveFlags fewer) :=
    ScriptFlags.Restricts.effectiveFlags ⟨hsubset, hextra, hlockTime, hsequence⟩
  have halike : (Comparison.onEqual σ True).Alike ⟨checker, effectiveFlags more⟩
      ⟨checker, effectiveFlags fewer⟩ := {
    restricts := hrestricts
    same := .inl trivial
    context := rfl
    checkLockTime := rfl
    checkSequence := rfl
    verifySignature := fun _ _ _ _ ↦ .of_eq rfl
    checkSig := fun sig key scriptCode _ _ ↦ Comparison.Asks.of_eq (hchecker sig key scriptCode _ _
      (hrestricts.contains_eq .enableSighashForkId (by decide))
      (hrestricts.contains_eq .enableTokens (by decide))) }
  have hcleanStack : Env.has ⟨checker, effectiveFlags fewer⟩ .cleanStack = true →
      Env.has ⟨checker, effectiveFlags fewer⟩ .p2sh = true := by
    unfold Env.has
    rw [effectiveFlags_contains fewer (by decide), effectiveFlags_contains fewer (by decide)]
    exact hclean
  obtain ⟨m, hfirst⟩ := exists_ok_of_run_eq_ok hmore
  obtain ⟨m', hsecond⟩ := verifySpend_of_fewer_flags halike hcleanStack hfirst
  refine ⟨m'.sigChecks, ?_⟩
  rw [run_verifyScript, hsecond]
  rfl

/-- A script behind its hash, under all restricting flags and under three of them. -/
theorem verifyScript_scriptHash_of_fewer_flags :
    ((verifyScript .base (.enableSighashForkId ||| .restricting) [1, 0x51]
        (Script.payToScriptHash [0x51])).run ()).1 = .ok 0 ∧
      ∃ sigChecks, ((verifyScript .base (.enableSighashForkId ||| .discourageUpgradableNops |||
          .checkLockTimeVerify ||| .checkSequenceVerify) [1, 0x51]
        (Script.payToScriptHash [0x51])).run ()).1 = .ok sigChecks := by
  have hmore : ((verifyScript .base (.enableSighashForkId ||| .restricting) [1, 0x51]
      (Script.payToScriptHash [0x51])).run ()).1 = .ok 0 := by decide +kernel
  exact ⟨hmore, verifyScript_of_fewer_flags .base (fun _ _ _ _ _ _ _ ↦ rfl) (by decide) (by decide)
    (by decide) (fun _ _ ↦ by decide) (fun _ _ ↦ by decide) hmore⟩

end UtxoConsensus
