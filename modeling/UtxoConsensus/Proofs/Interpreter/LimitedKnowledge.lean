import UtxoConsensus.Proofs.Interpreter.RestrictionFlags

/-!
# Checkers that know less

A checker may know less of a spend than another one: not all coins, and for want of them not what some
signatures sign, so that it refuses these. What it accepts, the other one has to accept as well. A coin
that is not known ends the script. A signature that is refused would only make the script take another
path; but where failed signatures must be empty it ends the script too, in a multisignature whatever the
other signatures are, since one that is refused is never left behind.
-/

namespace UtxoConsensus

open Exec

variable {σ α β : Type}

/-! ## Computations that cannot succeed -/

namespace Exec

/-- The computation never ends well. -/
def Fails (x : Exec σ α) : Prop :=
  ∀ m a m', x m ≠ .ok a m'

/-- What goes on to fail fails. -/
theorem Fails.bind (x : Exec σ α) {f : α → Exec σ β} (h : ∀ a, Fails (f a)) : Fails (x >>= f) := by
  intro m b m' hok
  obtain ⟨a, m₁, -, hrest⟩ := exists_of_bind_eq_ok hok
  exact h a m₁ b m' hrest

theorem Fails.failIf_bind {b : Bool} (hb : b = true) (e : ScriptError) (f : Unit → Exec σ α) :
    Fails (failIf b e >>= f) := by
  intro m a m' hok
  obtain ⟨u, m₁, hpass, -⟩ := exists_of_bind_eq_ok hok
  rw [false_of_failIf_eq_ok hpass] at hb
  cases hb

end Exec

theorem Env.ask_pure (a : α) : (ask (pure a) : Exec σ α) = pure a := rfl

/-- What never ends well is followed by anything. -/
theorem Comparison.Follows.of_fails {x y : Exec σ α} (h : Fails x) : (onEqual σ True).Follows x y where
  void _ _ hvoid := hvoid
  agrees m w _ := by
    cases hr : x m with
    | ok a m' => exact absurd hr (h m a m')
    | error e m' => exact .inr (.inl trivial)

/-! ## Knowing less -/

/-- A context of the same input that knows some of the coins, or all of them. -/
structure SpendContext.IsPartOf (c c' : SpendContext) : Prop where
  tx_eq : c.tx = c'.tx
  index_eq : c.index = c'.index
  coin_eq : ∀ index coin, c.coin index = .ok coin → c'.coin index = .ok coin

/-- A checker that refuses some signatures, about which another one may say anything, and otherwise says
the same as far as it knows. -/
structure Checker.KnowsLess (rules : ScriptFlags) (refuses : Bytes → Prop) (checker checker' : Checker σ) :
    Prop where
  verifySignature : checker.verifySignature = checker'.verifySignature
  checkLockTime : checker.checkLockTime = checker'.checkLockTime
  checkSequence : checker.checkSequence = checker'.checkSequence
  context : ∀ c, checker.context = some c → ∃ c', checker'.context = some c' ∧ c.IsPartOf c'
  checkSig : ∀ sig, ¬ refuses sig → ∀ key scriptCode,
    checker.checkSig sig key scriptCode rules = checker'.checkSig sig key scriptCode rules
  refused : ∀ sig, refuses sig → ∀ key scriptCode,
    checker.checkSig sig key scriptCode rules = pure false
  isEmpty_eq : ∀ sig, refuses sig → sig.isEmpty = false
  nullFail : ∀ sig, refuses sig → rules.contains .nullFail = true

namespace Checker.KnowsLess

open Comparison

variable {flags : ScriptFlags} {refuses : Bytes → Prop} {checker checker' : Checker σ}

/-! ## Introspection -/

/-- Where the first checker has a context, it is part of the one that the other checker has. -/
theorem requireContext_bind (h : checker.KnowsLess flags refuses checker') {f g : SpendContext → Exec σ α}
    (hfg : ∀ c c', c.IsPartOf c' → (onEqual σ True).Follows (f c) (g c')) :
    (onEqual σ True).Follows (requireContext ⟨checker, flags⟩ >>= f)
      (requireContext ⟨checker', flags⟩ >>= g) := by
  unfold requireContext
  dsimp only
  cases hcontext : checker.context with
  | none =>
    apply Follows.of_fails
    intro m a m' hok
    obtain ⟨c, m₁, hnone, -⟩ := exists_of_bind_eq_ok hok
    cases hnone
  | some c =>
    obtain ⟨c', hcontext', hpart⟩ := h.context c hcontext
    rw [hcontext']
    dsimp only
    rw [pure_bind, pure_bind]
    exact hfg c c' hpart

/-- A coin that is known is the same for both. -/
theorem coin_bind {c c' : SpendContext} (hpart : c.IsPartOf c') (index : Nat) (f : TxOutput → Exec σ α) :
    (onEqual σ True).Follows (lift (c.coin index) >>= f) (lift (c'.coin index) >>= f) :=
  .bind_lift (hpart.coin_eq index) (.inl trivial) fun coin _ ↦ .refl (f coin)

theorem transactionField (h : checker.KnowsLess flags refuses checker') (field : TransactionField) :
    (onEqual σ True).Follows (executeTransactionField ⟨checker, flags⟩ field)
      (executeTransactionField ⟨checker', flags⟩ field) := by
  refine .bind (.failIf _ _) fun _ ↦ h.requireContext_bind fun c c' hpart ↦ ?_
  rw [hpart.tx_eq, hpart.index_eq]
  exact .refl _

theorem inputField (h : checker.KnowsLess flags refuses checker') (field : InputField) :
    (onEqual σ True).Follows (executeInputField ⟨checker, flags⟩ field)
      (executeInputField ⟨checker', flags⟩ field) := by
  refine .bind (.failIf _ _) fun _ ↦ h.requireContext_bind fun c c' hpart ↦ ?_
  rw [hpart.tx_eq]
  refine .bind (.refl _) fun index ↦ .bind (.orFault _) fun input ↦ ?_
  cases field with
  | coinValue => exact coin_bind hpart index _
  | coinBytecode => exact coin_bind hpart index _
  | bytecode =>
    unfold SpendContext.unlockingScript
    rw [hpart.tx_eq]
    exact .refl _
  | _ => exact .refl _

theorem outputField (h : checker.KnowsLess flags refuses checker') (field : OutputField) :
    (onEqual σ True).Follows (executeOutputField ⟨checker, flags⟩ field)
      (executeOutputField ⟨checker', flags⟩ field) := by
  refine .bind (.failIf _ _) fun _ ↦ h.requireContext_bind fun c c' hpart ↦ ?_
  unfold popOutput popOutputWith
  rw [hpart.tx_eq]
  exact .refl _

theorem tokenField (h : checker.KnowsLess flags refuses checker') (side : TokenSide) (field : TokenField) :
    (onEqual σ True).Follows (executeTokenField ⟨checker, flags⟩ side field)
      (executeTokenField ⟨checker', flags⟩ side field) := by
  refine .bind (.failIf _ _) fun _ ↦ h.requireContext_bind fun c c' hpart ↦ .bind ?_ fun token ↦ .refl _
  cases side with
  | coin =>
    unfold popToken popTokenWith
    dsimp only
    rw [hpart.tx_eq]
    exact .bind (.refl _) fun index ↦ coin_bind hpart index _
  | output =>
    unfold popToken popTokenWith popOutput popOutputWith
    dsimp only
    rw [hpart.tx_eq]
    exact .refl _

/-! ## Single signatures -/

/-- What comes after a question about a signature: nothing comes of it where the signature is refused. -/
theorem ask_bind (h : checker.KnowsLess flags refuses checker') {sig key scriptCode : Bytes}
    {f g : Bool → Exec σ α} (hrefused : refuses sig → Fails (f false))
    (hfg : ∀ good, (onEqual σ True).Follows (f good) (g good)) :
    (onEqual σ True).Follows (Env.ask (checker.checkSig sig key scriptCode flags) >>= f)
      (Env.ask (checker'.checkSig sig key scriptCode flags) >>= g) := by
  by_cases hsig : refuses sig
  · rw [h.refused sig hsig, Env.ask_pure, pure_bind]
    exact .of_fails (hrefused hsig)
  · rw [h.checkSig sig hsig]
    exact .bind (.refl _) hfg

/-- Under the rule about null signatures, a false answer ends the run. -/
theorem fails_settle (hnull : flags.contains .nullFail = true) (f : Unit → Exec σ α) :
    Fails (settle ⟨checker, flags⟩ false >>= f) := by
  unfold settle
  rw [bind_assoc]
  exact .bind _ fun _ ↦ .failIf_bind hnull _ f

/-- A signature that the first checker cannot judge counts as bad, and then the run fails. -/
theorem executeCheckSig (h : checker.KnowsLess flags refuses checker') (verify : Bool) :
    (onEqual σ True).Follows (UtxoConsensus.executeCheckSig ⟨checker, flags⟩ verify)
      (UtxoConsensus.executeCheckSig ⟨checker', flags⟩ verify) := by
  refine .bind (.require 2) fun _ ↦ .bind (.peek 1) fun sig ↦ .bind (.peek 0) fun key ↦ ?_
  refine .bind (.lift _) fun _ ↦ .bind (.lift _) fun _ ↦ .ite (.refl _) ?_
  refine .bind_get fun m w ↦ h.ask_bind (fun hsig ↦ ?_) fun good ↦ .refl _
  exact fails_settle (h.nullFail sig hsig) _

theorem executeCheckDataSig (h : checker.KnowsLess flags refuses checker') (verify : Bool) :
    (onEqual σ True).Follows (UtxoConsensus.executeCheckDataSig ⟨checker, flags⟩ verify)
      (UtxoConsensus.executeCheckDataSig ⟨checker', flags⟩ verify) := by
  unfold UtxoConsensus.executeCheckDataSig executeCheckDataSigWith
  dsimp only
  rw [h.verifySignature]
  exact .refl _

/-! ## Signatures matched in order -/

/-- Where no signature is refused all answers are the same. -/
theorem matchInOrder (h : checker.KnowsLess flags refuses checker') {sigs : List Bytes}
    (hsigs : ∀ sig ∈ sigs, ¬ refuses sig) (scriptCode : Bytes) (keys : List Bytes) :
    (onEqual σ True).Follows (UtxoConsensus.matchInOrder ⟨checker, flags⟩ scriptCode sigs keys)
      (UtxoConsensus.matchInOrder ⟨checker', flags⟩ scriptCode sigs keys) := by
  induction keys generalizing sigs with
  | nil => exact .refl _
  | cons key keys ih =>
    cases sigs with
    | nil => exact .pure true
    | cons sig rest =>
      refine .bind (.lift _) fun _ ↦ .bind (.lift _) fun _ ↦ h.ask_bind (fun hsig ↦ ?_) fun good ↦ ?_
      · exact absurd hsig (hsigs sig List.mem_cons_self)
      · refine .ite (.pure false) (ih ?_)
        cases good with
        | true => exact fun other hother ↦ hsigs other (List.mem_cons_of_mem sig hother)
        | false => exact hsigs

/-- A signature that is refused is left for all keys, so that the match fails. -/
theorem eq_false_of_matchInOrder (h : checker.KnowsLess flags refuses checker') {sig : Bytes}
    (hsig : refuses sig) {sigs keys : List Bytes} (hmem : sig ∈ sigs) {scriptCode : Bytes} {good : Bool}
    {m m' : Machine σ}
    (hok : UtxoConsensus.matchInOrder ⟨checker, flags⟩ scriptCode sigs keys m = .ok good m') :
    good = false := by
  -- By induction on the keys: the signature stays among those that are left.
  induction keys generalizing sigs m with
  | nil =>
    cases sigs with
    | nil => cases hmem
    | cons first rest => cases hok
  | cons key keys ih =>
    cases sigs with
    | nil => cases hmem
    | cons first rest =>
      obtain ⟨_, m₁, -, hkey⟩ := exists_of_bind_eq_ok hok
      obtain ⟨_, m₂, -, hquestion⟩ := exists_of_bind_eq_ok hkey
      obtain ⟨answer, m₃, hask, hrest⟩ := exists_of_bind_eq_ok hquestion
      dsimp only at hrest
      have hleft : sig ∈ if answer = true then rest else first :: rest := by
        cases answer with
        | false => exact hmem
        | true =>
          rcases List.mem_cons.mp hmem with rfl | htail
          · dsimp only at hask
            rw [h.refused sig hsig, Env.ask_pure] at hask
            cases hask
          · exact htail
      generalize (if answer = true then rest else first :: rest) = left at hleft hrest
      split at hrest
      · cases hrest
        rfl
      · exact ih hleft hrest

/-- If one signature is refused the match fails, and as this signature is not empty the run fails with
it. -/
theorem legacyMultisig (h : checker.KnowsLess flags refuses checker') (keys sigs : List Bytes) :
    (onEqual σ True).Follows (UtxoConsensus.legacyMultisig ⟨checker, flags⟩ keys sigs)
      (UtxoConsensus.legacyMultisig ⟨checker', flags⟩ keys sigs) := by
  -- One signature that is refused is enough: the match fails, and not all signatures are empty.
  by_cases hsigs : ∀ sig ∈ sigs, ¬ refuses sig
  · exact .bind_get fun m w ↦ .bind (h.matchInOrder hsigs _ keys) fun good ↦ .refl _
  · simp only [Classical.not_forall, Classical.not_not] at hsigs
    obtain ⟨sig, hmem, hsig⟩ := hsigs
    have hempty : sigs.all List.isEmpty = false := by
      rw [List.all_eq_false]
      exact ⟨sig, hmem, Bool.not_eq_true _ ▸ h.isEmpty_eq sig hsig⟩
    apply Follows.of_fails
    intro m good m' hok
    obtain ⟨_, m₁, -, hmatch⟩ := exists_of_bind_eq_ok hok
    obtain ⟨answer, m₂, hanswer, hrest⟩ := exists_of_bind_eq_ok hmatch
    obtain rfl : answer = false := h.eq_false_of_matchInOrder hsig hmem hanswer
    refine Fails.failIf_bind ?_ _ _ m₂ good m' hrest
    rw [hempty]
    exact (Bool.and_true _).trans (h.nullFail sig hsig)

/-! ## Signatures with chosen keys -/

theorem matchChosen (h : checker.KnowsLess flags refuses checker') (scriptCode : Bytes) (sigs : List Bytes)
    (bits : Nat) (keys : List Bytes) :
    (onEqual σ True).Follows (UtxoConsensus.matchChosen ⟨checker, flags⟩ scriptCode sigs bits keys)
      (UtxoConsensus.matchChosen ⟨checker', flags⟩ scriptCode sigs bits keys) := by
  induction sigs generalizing bits keys with
  | nil => exact .refl _
  | cons sig sigs ih =>
    refine .bind (.failIf _ _) fun _ ↦ ?_
    rcases skipUnset bits keys with ⟨bits, _ | ⟨key, keys⟩⟩
    · exact .fail _
    · refine .bind (.lift _) fun _ ↦ .bind (.lift _) fun _ ↦ h.ask_bind (fun _ ↦ ?_) fun good ↦ ?_
      · exact .failIf_bind rfl _ _
      · exact .bind (.failIf _ _) fun _ ↦ .bind (.countSigChecks 1) fun _ ↦ ih _ _

theorem executeCheckMultisig (h : checker.KnowsLess flags refuses checker') (verify : Bool) :
    (onEqual σ True).Follows (UtxoConsensus.executeCheckMultisig ⟨checker, flags⟩ verify)
      (UtxoConsensus.executeCheckMultisig ⟨checker', flags⟩ verify) := by
  refine .bind (.require 1) fun _ ↦ .bind (.refl _) fun keyCount ↦ ?_
  refine .bind (.countOperations keyCount) fun _ ↦ .bind (.require _) fun _ ↦ ?_
  refine .bind (.refl _) fun sigCount ↦ .bind (.require _) fun _ ↦ ?_
  refine .bind (.peekMany 1 keyCount) fun keys ↦ .bind (.peekMany _ sigCount) fun sigs ↦ ?_
  refine .bind (.peek _) fun dummy ↦ .ite (.bind ?_ fun good ↦ .refl _) ?_
  · exact .bind (.lift _) fun bits ↦ .bind (.failIf _ _) fun _ ↦
      .bind_get fun m w ↦ h.matchChosen _ _ _ _
  · exact .bind (h.legacyMultisig keys sigs) fun good ↦ .refl _

/-! ## Whole spends -/

/-- All rules of the evaluator at once. -/
theorem rules (h : checker.KnowsLess flags refuses checker') :
    (onEqual σ True).Rules ⟨checker, flags⟩ ⟨checker', flags⟩ where
  number _ := .refl _
  limits _ := .refl _
  push _ := .refl _
  condition := .refl _
  upgradableNop := .refl _
  checkLockTime := by
    unfold executeCheckLockTime executeCheckLockTimeWith
    dsimp only
    rw [h.checkLockTime]
    exact .refl _
  checkSequence := by
    unfold executeCheckSequence executeCheckSequenceWith
    dsimp only
    rw [h.checkSequence]
    exact .refl _
  binToNum := .refl _
  transactionField := h.transactionField
  inputField := h.inputField
  outputField := h.outputField
  tokenField := h.tokenField
  checkSig := h.executeCheckSig
  checkMultisig := h.executeCheckMultisig
  checkDataSig := h.executeCheckDataSig

/-- Under the same flags whole spends keep pace. -/
theorem verifySpend (h : checker.KnowsLess (effectiveFlags flags) refuses checker')
    (unlocking locking : Bytes) :
    (onEqual σ True).Follows
      (UtxoConsensus.verifySpend ⟨checker, effectiveFlags flags⟩ unlocking locking)
      (UtxoConsensus.verifySpend ⟨checker', effectiveFlags flags⟩ unlocking locking) :=
  h.rules.verifySpend (.refl _ _) unlocking locking

/-- What the checker that knows less accepts, the other one accepts with the same count. -/
theorem verifyScript_eq_ok (h : checker.KnowsLess (effectiveFlags flags) refuses checker')
    {unlocking locking : Bytes} {world : σ} {sigChecks : Nat}
    (hok : ((verifyScript checker flags unlocking locking).run world).1 = .ok sigChecks) :
    ((verifyScript checker' flags unlocking locking).run world).1 = .ok sigChecks := by
  obtain ⟨m, hspend⟩ := exists_ok_of_run_eq_ok hok
  have hspend' := (h.verifySpend unlocking locking).eq_ok hspend
  rw [run_verifyScript, hspend] at hok
  rw [run_verifyScript, hspend']
  exact hok

end Checker.KnowsLess

end UtxoConsensus
