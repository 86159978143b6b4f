import Mathlib
import UtxoConsensus.Proofs.Spend.InputContexts
import UtxoConsensus.Proofs.Spend.SequentialRuns

/-!
# What the verification of a transaction answers

Verifying all inputs of a transaction shares hashes between them, may share a cache with all that has
been verified before, and may take the inputs in any order or all at once. None of this can be seen in
the answer: it is the sum of the signature checks, or the failure of the first input that fails, where
each input is taken on its own, without a cache and without shared hashes.
-/

namespace UtxoConsensus

/-! ## Answers for transactions -/

/-- The answer for a transaction, given those for its inputs: the sum of their counts, or the error of
the first input that has one. -/
inductive IsOutcome (answers : List (Except Halt Nat)) : Except SpendError Nat → Prop
  | ok (counts : List Nat) (hall : answers = counts.map .ok) : IsOutcome answers (.ok counts.sum)
  | error (index : Nat) (halt : Halt) (hfailed : answers[index]? = some (.error halt))
      (hfirst : ∀ earlier < index, ∃ count, answers[earlier]? = some (.ok count)) :
      IsOutcome answers (.error (.input index halt))

/-- All spends are valid and their counts are added, or the first error is the answer. -/
theorem totalSigChecks_cases (start : Nat) (answers : List (Except Halt Nat)) :
    (∃ counts : List Nat, answers = counts.map .ok ∧
      totalSigChecks start answers = .ok counts.sum) ∨
    ∃ index halt, answers[index]? = some (.error halt) ∧
      (∀ earlier < index, ∃ count, answers[earlier]? = some (.ok count)) ∧
      totalSigChecks start answers = .error (.input (start + index) halt) := by
  induction answers generalizing start with
  | nil => exact .inl ⟨[], rfl, rfl⟩
  | cons answer rest ih =>
    cases answer with
    | error halt => exact .inr ⟨0, halt, rfl, fun _ h ↦ absurd h (Nat.not_lt_zero _), rfl⟩
    | ok count =>
      rcases ih (start + 1) with ⟨counts, hall, htotal⟩ | ⟨index, halt, hfailed, hfirst, htotal⟩
      · left
        refine ⟨count :: counts, congrArg _ hall, ?_⟩
        rw [totalSigChecks, htotal, List.sum_cons]
        rfl
      · right
        refine ⟨index + 1, halt, hfailed, fun earlier hearlier ↦ ?_, ?_⟩
        · cases earlier with
          | zero => exact ⟨count, rfl⟩
          | succ earlier => exact hfirst earlier (Nat.lt_of_succ_lt_succ hearlier)
        · rw [totalSigChecks, htotal, Nat.add_right_comm start 1 index]
          rfl

theorem isOutcome_totalSigChecks (answers : List (Except Halt Nat)) :
    IsOutcome answers (totalSigChecks 0 answers) := by
  rcases totalSigChecks_cases 0 answers with ⟨counts, hall, htotal⟩ |
    ⟨index, halt, hfailed, hfirst, htotal⟩
  · rw [htotal]
    exact .ok counts hall
  · rw [htotal, Nat.zero_add]
    exact .error index halt hfailed hfirst

/-! ## Inputs on their own -/

section Inputs

variable {tx : Transaction} {spent : List TxOutput} (hspent : spent.length = tx.inputs.length)
  (flags : ScriptFlags)

def inputContexts : List SpendContext :=
  (List.finRange tx.inputs.length).map (SpendContext.ofInput tx spent hspent)

/-- The answers for the inputs, each verified on its own, without a cache and without shared hashes. -/
def aloneAnswers : List (Except Halt Nat) :=
  (inputContexts hspent).map fun c ↦ ((c.verify (.transaction c none) flags).run ()).1

/-- The inputs as jobs that share the hashes of the first context. -/
def inputJobs (store : Bool) : List SpendJob :=
  (inputContexts hspent).map fun c ↦
    ⟨c, (inputContexts hspent).head?.map SharedHashes.ofContext, flags, store⟩

/-- Shared hashes change nothing. -/
theorem transaction_shared {c first : SpendContext} (hc : c ∈ inputContexts hspent)
    (hfirst : first ∈ inputContexts hspent) :
    Checker.transaction c (some (.ofContext first)) = Checker.transaction c none := by
  obtain ⟨index, -, rfl⟩ := List.mem_map.mp hc
  obtain ⟨other, -, rfl⟩ := List.mem_map.mp hfirst
  exact transaction_ofContext rfl rfl

/-- Without a cache the jobs are the spends of the inputs. -/
theorem inputJobs_map_alone (store : Bool) :
    (inputJobs hspent flags store).map SpendJob.alone = aloneAnswers hspent flags := by
  unfold inputJobs aloneAnswers
  rw [List.map_map]
  refine List.map_congr_left fun c hc ↦ ?_
  unfold Function.comp SpendJob.alone SpendJob.checker
  cases hfirst : (inputContexts hspent).head? with
  | none => rfl
  | some first =>
    dsimp only
    rw [Option.map_some, transaction_shared hspent hc (List.mem_of_head? hfirst)]

/-! ## Inputs in turn -/

theorem verifyInputs_of_nil {σ : Type} (factory : CheckerFactory σ)
    (h : inputContexts hspent = []) : verifyInputs factory tx spent flags = pure (.ok []) := by
  unfold verifyInputs
  rw [SpendContext.forAllInputs_eq_ok hspent]
  unfold inputContexts at h
  rw [h]

theorem verifyInputs_of_cons {σ : Type} (factory : CheckerFactory σ) {first : SpendContext}
    {rest : List SpendContext} (h : inputContexts hspent = first :: rest) :
    verifyInputs factory tx spent flags =
      Except.ok <$> (first :: rest).mapM fun c ↦ c.verify (factory (.ofContext first) c) flags := by
  unfold verifyInputs
  rw [SpendContext.forAllInputs_eq_ok hspent]
  unfold inputContexts at h
  rw [h]
  rfl

theorem run_mapM_unit {α β : Type} (f : α → StateM Unit β) (l : List α) :
    (l.mapM f).run () = (l.map fun a ↦ ((f a).run ()).1, ()) := by
  induction l with
  | nil => rfl
  | cons a l ih =>
    rw [List.mapM_cons, List.map_cons]
    change (((f a).run ()).1 :: ((l.mapM f).run ()).1, ()) = _
    rw [ih]

/-- Without a cache every input is answered on its own. -/
theorem run_verifyInputs_plain :
    (verifyInputs .plain tx spent flags).run () = (.ok (aloneAnswers hspent flags), ()) := by
  have hjobs := inputJobs_map_alone hspent flags true
  unfold inputJobs at hjobs
  cases hcontexts : inputContexts hspent with
  | nil =>
    rw [verifyInputs_of_nil hspent flags _ hcontexts, ← hjobs, hcontexts]
    rfl
  | cons first rest =>
    rw [verifyInputs_of_cons hspent flags _ hcontexts, ← hjobs, hcontexts, StateT.run_map,
      run_mapM_unit, List.map_map]
    rfl

/-- With a cache the jobs run in turn, and each finds what the ones before it have left. -/
theorem run_verifyInputs_cached (store : Bool) (start : Unit × SignatureCache) :
    (verifyInputs (.cached store) tx spent flags).run start =
      (.ok ((runInTurn (inputJobs hspent flags store)).run start).1,
        ((runInTurn (inputJobs hspent flags store)).run start).2) := by
  unfold inputJobs
  cases hcontexts : inputContexts hspent with
  | nil =>
    rw [verifyInputs_of_nil hspent flags _ hcontexts]
    rfl
  | cons first rest =>
    rw [verifyInputs_of_cons hspent flags _ hcontexts]
    unfold runInTurn
    rw [List.mapM_map]
    rfl

end Inputs

/-! ## Transactions -/

/-- **The answer for a transaction is that of its inputs on their own.** The inputs are verified under
strict encoding, either without a cache, or on any cache that can come about, with their operations on
it in any order; one of these orders is to take the inputs in turn. It is assumed of a run on a cache
that no two strings that were hashed for the cache have the same hash. -/
theorem checkInputs_isOutcome {tx : Transaction} {spent : List TxOutput}
    (hspent : spent.length = tx.inputs.length) {flags : ScriptFlags}
    (hflags : flags.contains .strictEnc = true ∨ flags.contains .enableSighashForkId = true) :
    IsOutcome (aloneAnswers hspent flags) ((checkInputs .plain tx spent flags).run ()).1 ∧
    ∀ (store : Bool) (cache : SignatureCache) (asked : List SignedMessage), Reached cache asked →
      (∀ trace finish answers,
        Interleaves (inputJobs hspent flags store) cache trace finish answers →
        ¬ Digest.Collides ((asked ++ questions trace).map (·.preimage cache.nonce)) →
        IsOutcome (aloneAnswers hspent flags) (totalSigChecks 0 answers)) ∧
      ∃ trace finish answers,
        Interleaves (inputJobs hspent flags store) cache trace finish answers ∧
        (checkInputs (.cached store) tx spent flags).run ((), cache) =
          (totalSigChecks 0 answers, ((), finish)) := by
  constructor
  · unfold checkInputs
    rw [StateT.run_bind, run_verifyInputs_plain hspent]
    exact isOutcome_totalSigChecks _
  · intro store cache asked hreached
    constructor
    · intro trace finish answers hrun hcollides
      have hstrict : ∀ job ∈ inputJobs hspent flags store,
          (effectiveFlags job.flags).contains .strictEnc = true := by
        intro job hjob
        obtain ⟨c, -, rfl⟩ := List.mem_map.mp hjob
        exact effectiveFlags_contains_strictEnc hflags
      rw [hrun.answers_eq hreached hstrict hcollides, inputJobs_map_alone]
      exact isOutcome_totalSigChecks _
    · obtain ⟨trace, hrun⟩ := exists_interleaves_runInTurn (inputJobs hspent flags store) cache
      refine ⟨trace, _, _, hrun, ?_⟩
      unfold checkInputs
      rw [StateT.run_bind, run_verifyInputs_cached hspent]
      rfl

/-! ## A payment that is signed by half -/

def payeeKey : Bytes :=
  2 :: Bytes.ofNatBig 32 0xf9308a019258c31049344f85f89d5229b531c845836f99b08601f113bce036f9

/-- The signature under that key for the first input of `halfSigned`. -/
def payeeSignature : Bytes :=
  Bytes.ofNatBig 32 0x6500585e69624773cde36f04600aa705756a3a5ba0431a829421c78898e73015 ++
    Bytes.ofNatBig 32 0xf9f480a970b08716ef199b79b703f0cf9f62f5d9b226e66681b3af87dae7ba09

/-- Both inputs spend coins of `payeeCoins` with the signature for the first of them. -/
def halfSigned : Transaction :=
  let unlocking := Script.pushData (payeeSignature ++ [0x41])
  ⟨2, [⟨⟨.zero, 0⟩, unlocking, 0⟩, ⟨⟨.zero, 1⟩, unlocking, 0⟩], [], 0⟩

def payeeCoins : List TxOutput :=
  List.replicate 2 (.plain ⟨0⟩ (Script.pushData payeeKey ++ [Opcode.checkSig]))

/-- What is asked about an input with the given digest. -/
def payeeQuestion (digest : Nat) : SignedMessage :=
  ⟨payeeSignature, payeeKey, ⟨Bytes.ofNatBig 32 digest, Bytes.length_ofNatBig 32 digest⟩⟩

def goodQuestion : SignedMessage :=
  payeeQuestion 0x380cd92ce0378ba88bf21b45a8cdf2108a8916b3da1e376f2ff04790cd6aad1b

def badQuestion : SignedMessage :=
  payeeQuestion 0x2aa496b1c4ba5a4526ed6c23eef2e32572c566fd8fb91821932468d250634e5d

def halfSignedAnswers : List (Except Halt Nat) :=
  [.ok 1, .error (.failed .sigNullFail)]

theorem sha256_badQuestion_ne : Digest.sha256 (badQuestion.preimage .zero) ≠
    Digest.sha256 (goodQuestion.preimage .zero) := by
  decide +kernel

/-- The cache after the payment has been verified on a fresh one. -/
def cacheOfHalfSigned : SignatureCache :=
  (SignatureCache.ofMiB .zero 1).insert (Digest.sha256 (goodQuestion.preimage .zero))

/-- Both inputs are looked up before the first one is stored. -/
theorem interleaves_halfSigned :
    Interleaves (@inputJobs halfSigned payeeCoins rfl .mandatory true) (.ofMiB .zero 1)
      [(0, .get goodQuestion false false), (1, .get badQuestion false false), (0, .insert goodQuestion)]
      cacheOfHalfSigned halfSignedAnswers where
  performs := by
    have hmiss (t : SignedMessage) : (SignatureCache.ofMiB .zero 1).perform? (.get t false false) =
        some (.ofMiB .zero 1) := by
      rw [SignatureCache.perform?_get (SignatureCache.get_ofMiB _ _ _ _)]
      exact congrArg some (SignatureCache.get_snd_keep _ _)
    rw [List.map_cons, List.map_cons, SignatureCache.performAll?_cons (hmiss _),
      SignatureCache.performAll?_cons (hmiss _)]
    rfl
  owner_lt := by decide
  length_answers := rfl
  runs index job hjob := by
    refine ⟨fun _ _ ↦ false, ?_⟩
    match index, hjob with
    | 0, rfl => exact ⟨_, rfl, by decide +kernel⟩
    | 1, rfl => exact ⟨_, rfl, by decide +kernel⟩

/-- When the payment is met again, say in a block, the first input is found and gives up its slot. -/
theorem interleaves_halfSigned_again :
    ∃ finish, Interleaves (@inputJobs halfSigned payeeCoins rfl .mandatory false) cacheOfHalfSigned
      [(1, .get badQuestion true false), (0, .get goodQuestion true true)] finish halfSignedAnswers := by
  have hmiss : (cacheOfHalfSigned.lookUp badQuestion true).1 = false :=
    SignatureCache.get_insert_ofMiB_of_ne _ _ sha256_badQuestion_ne _
  have hhit : (cacheOfHalfSigned.lookUp goodQuestion true).1 = true :=
    SignatureCache.get_insert_ofMiB _ _ _ _
  refine ⟨(cacheOfHalfSigned.lookUp goodQuestion true).2, ?_, by decide, rfl, fun index job hjob ↦ ?_⟩
  · have hkept : (cacheOfHalfSigned.lookUp badQuestion true).2 = cacheOfHalfSigned :=
      SignatureCache.get_snd_of_miss hmiss
    rw [List.map_cons, List.map_cons, SignatureCache.performAll?_cons (SignatureCache.perform?_get hmiss),
      hkept, SignatureCache.performAll?_cons (SignatureCache.perform?_get hhit)]
    rfl
  · match index, hjob with
    | 0, rfl => exact ⟨fun _ _ ↦ true, _, rfl, by decide +kernel⟩
    | 1, rfl => exact ⟨fun _ _ ↦ false, _, rfl, by decide +kernel⟩

/-- The payment is verified on a fresh cache and once more on the cache that this leaves. Both times the
second input is the first one that fails, as it is without a cache. -/
theorem checkInputs_isOutcome_halfSigned :
    let alone := @aloneAnswers halfSigned payeeCoins rfl .mandatory
    let failed : Except SpendError Nat := .error (.input 1 (.failed .sigNullFail))
    let asked := [goodQuestion, badQuestion, goodQuestion]
    IsOutcome alone ((checkInputs .plain halfSigned payeeCoins .mandatory).run ()).1 ∧
    (¬ Digest.Collides (asked.map (·.preimage .zero)) ∧ IsOutcome alone failed) ∧
    Reached cacheOfHalfSigned asked ∧
    ¬ Digest.Collides ((asked ++ [badQuestion, goodQuestion]).map (·.preimage .zero)) ∧
      IsOutcome alone failed := by
  have hall := @checkInputs_isOutcome halfSigned payeeCoins rfl .mandatory (.inl (by decide))
  have hfirst := Reached.run (.fresh .zero 1) interleaves_halfSigned
  obtain ⟨finish, hagain⟩ := interleaves_halfSigned_again
  have hcollides : ¬ Digest.Collides
      ([goodQuestion, badQuestion, goodQuestion].map (·.preimage .zero)) :=
    Digest.not_collides_of_two sha256_badQuestion_ne (by simp)
  have hcollides' : ¬ Digest.Collides
      ([goodQuestion, badQuestion, goodQuestion, badQuestion, goodQuestion].map (·.preimage .zero)) :=
    Digest.not_collides_of_two sha256_badQuestion_ne (by simp)
  exact ⟨hall.1,
    ⟨hcollides, (hall.2 true _ _ (.fresh .zero 1)).1 _ _ _ interleaves_halfSigned hcollides⟩,
    hfirst, hcollides', (hall.2 false _ _ hfirst).1 _ _ _ hagain hcollides'⟩

end UtxoConsensus
