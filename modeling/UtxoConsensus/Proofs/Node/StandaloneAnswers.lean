import UtxoConsensus.Node.Standalone
import UtxoConsensus.Proofs.Interpreter.ReplayProtection
import UtxoConsensus.Proofs.Interpreter.UnseenContexts
import UtxoConsensus.Proofs.Spend.LimitedContexts
import UtxoConsensus.Proofs.Transaction.WireFormat

/-!
# Answers for one input alone

Whoever asks about one input of a serialized transaction knows nothing of the other coins, nor of the
token of its own one. Under the rules that can be asked for this makes no difference. Scripts cannot look
at coins there, and of all coins a signature commits at most to the amount of its own, which is part of
the question wherever it may matter.
-/

namespace UtxoConsensus

/-! ## Digests without tokens -/

namespace SpendContext

variable {c c' : SpendContext}

theorem input_congr (htx : c.tx = c'.tx) (hindex : c.index = c'.index) : c.input = c'.input := by
  cases c
  cases c'
  cases htx
  cases hindex
  rfl

end SpendContext

section Digests

variable {c c' : SpendContext} (htx : c.tx = c'.tx) (hindex : c.index = c'.index)
include htx hindex

/-- Lock times look at the transaction and at the index. -/
theorem lockTimeSatisfied_congr : Checker.lockTimeSatisfied c = Checker.lockTimeSatisfied c' := by
  funext lockTime
  unfold Checker.lockTimeSatisfied
  rw [htx, SpendContext.input_congr htx hindex]

theorem sequenceSatisfied_congr : Checker.sequenceSatisfied c = Checker.sequenceSatisfied c' := by
  funext sequence
  unfold Checker.sequenceSatisfied
  rw [htx, SpendContext.input_congr htx hindex]

/-- Where tokens are not known, a digest depends on the amount of the own coin alone, and that only with
replay protection. -/
theorem signatureDigest_congr {flags : ScriptFlags} (htokens : flags.contains .enableTokens = false)
    (hvalue : flags.contains .enableSighashForkId = true → c.ownCoin.value = c'.ownCoin.value)
    (scriptCode : Bytes) (t : HashType) :
    signatureDigest scriptCode c t flags none = signatureDigest scriptCode c' t flags none := by
  have hinput : c.input = c'.input := SpendContext.input_congr htx hindex
  unfold signatureDigest
  cases hfork : t.hasForkId && flags.contains .enableSighashForkId with
  | true =>
    rw [Bool.and_eq_true] at hfork
    unfold forkIdDigest forkIdPreimage signedCoinsHash? signedOutputsHash
    simp only [htokens, hinput, htx, hindex, hvalue hfork.2, Bool.and_false, Bool.false_eq_true,
      if_false]
  | false => simp only [htx, hindex, Bool.false_eq_true, if_false]

/-- Without tokens a digest commits to the value of the coin that is spent, and to no other coin. -/
theorem transactionDigest?_congr {flags : ScriptFlags} (htokens : flags.contains .enableTokens = false)
    (hvalue : flags.contains .enableSighashForkId = true → c.ownCoin.value = c'.ownCoin.value)
    {shared shared' : Option SharedHashes} (hshared : ∀ s ∈ shared, s.AreOf c.tx)
    (hshared' : ∀ s ∈ shared', s.AreOf c'.tx) (sig scriptCode : Bytes) :
    Checker.transactionDigest? c shared sig scriptCode flags =
      Checker.transactionDigest? c' shared' sig scriptCode flags := by
  have hcoins (t : HashType) : (t.hasUtxos && flags.contains .enableTokens) = false := by
    rw [htokens, Bool.and_false]
  unfold Checker.transactionDigest?
  simp only [hcoins, Bool.false_and, signatureDigest_shared scriptCode c (hcoins _) hshared,
    signatureDigest_shared scriptCode c' (hcoins _) hshared',
    signatureDigest_congr htx hindex htokens hvalue]

theorem agreeOn_transaction {flags : ScriptFlags} (htokens : flags.contains .enableTokens = false)
    (hvalue : flags.contains .enableSighashForkId = true → c.ownCoin.value = c'.ownCoin.value)
    {shared shared' : Option SharedHashes} (hshared : ∀ s ∈ shared, s.AreOf c.tx)
    (hshared' : ∀ s ∈ shared', s.AreOf c'.tx) :
    (Checker.transaction c shared).AgreeOn flags (fun _ ↦ True)
      ((Checker.transaction c' shared').withContext (some c)) := by
  unfold Checker.withContext Checker.transaction
  constructor <;> dsimp only
  case checkLockTime => exact lockTimeSatisfied_congr htx hindex
  case checkSequence => exact sequenceSatisfied_congr htx hindex
  case checkSig =>
    intro sig _ key scriptCode
    rw [transactionDigest?_congr htx hindex htokens hvalue hshared hshared']

/-- Without tokens and introspection two contexts of one input give the same answers for spends, if they
agree on the amount or signatures do not commit to it. -/
theorem verifyScript_transaction_congr {flags : ScriptFlags}
    (hintrospection : flags.contains .nativeIntrospection = false)
    (htokens : flags.contains .enableTokens = false)
    (hvalue : flags.contains .enableSighashForkId = true → c.ownCoin.value = c'.ownCoin.value)
    {shared shared' : Option SharedHashes} (hshared : ∀ s ∈ shared, s.AreOf c.tx)
    (hshared' : ∀ s ∈ shared', s.AreOf c'.tx) (unlocking locking : Bytes) :
    verifyScript (.transaction c shared) flags unlocking locking =
      verifyScript (.transaction c' shared') flags unlocking locking := by
  have hagree : (Checker.transaction c shared).AgreeOn (effectiveFlags flags) (fun _ ↦ True)
      ((Checker.transaction c' shared').withContext (some c)) := by
    apply agreeOn_transaction htx hindex _ _ hshared hshared'
    · rw [effectiveFlags_contains flags (by decide), htokens]
    · rw [effectiveFlags_contains flags (by decide)]
      exact hvalue
  -- The checkers agree on answers, but show different contexts, so the context is exchanged on its own.
  calc
    verifyScript (.transaction c shared) flags unlocking locking
      = verifyScript ((Checker.transaction c' shared').withContext (some c)) flags unlocking
          locking := hagree.verifyScript (fun _ _ ↦ trivial) unlocking locking
    _ = verifyScript (.transaction c' shared') flags unlocking locking :=
      verifyScript_withContext _ _ hintrospection unlocking locking

/-- Without introspection and tokens, contexts that agree on the coin that is spent give one answer. -/
theorem SpendContext.verify_congr {flags : ScriptFlags}
    (hintrospection : flags.contains .nativeIntrospection = false)
    (htokens : flags.contains .enableTokens = false)
    (hscript : c.ownCoin.lockingScript = c'.ownCoin.lockingScript)
    (hvalue : flags.contains .enableSighashForkId = true → c.ownCoin.value = c'.ownCoin.value)
    {shared shared' : Option SharedHashes} (hshared : ∀ s ∈ shared, s.AreOf c.tx)
    (hshared' : ∀ s ∈ shared', s.AreOf c'.tx) :
    c.verify (.transaction c shared) flags = c'.verify (.transaction c' shared') flags := by
  unfold SpendContext.verify
  rw [SpendContext.input_congr htx hindex, hscript]
  exact verifyScript_transaction_congr htx hindex hintrospection htokens hvalue hshared hshared' _ _

end Digests

/-! ## Questions about one input -/

namespace Standalone

/-- Flags that cannot be asked for are not set. -/
theorem contains_eq_false {flags : ScriptFlags} (hflags : supportedFlags.contains flags = true)
    {flag : ScriptFlags} (hflag : supportedFlags.contains flag = false) :
    flags.contains flag = false := by
  apply Bool.eq_false_of_not_eq_true
  intro hset
  rw [ScriptFlags.contains_trans hflags hset] at hflag
  exact Bool.noConfusion hflag

theorem without_supportedFlags {flags : ScriptFlags} (hflags : supportedFlags.contains flags = true) :
    flags.without supportedFlags = .none := by
  apply ScriptFlags.eq_of_bit
  intro i
  rw [ScriptFlags.bit_without, ScriptFlags.bit_none]
  cases hbit : flags.bit i with
  | false => rfl
  | true =>
    rw [ScriptFlags.contains_iff.mp hflags i hbit]
    rfl

/-- Without replay protection nothing that can be asked for makes signatures commit to the amount. -/
theorem intersects_amountFlags {flags : ScriptFlags} (hflags : supportedFlags.contains flags = true)
    (hfork : flags.contains .enableSighashForkId = false) : flags.intersects amountFlags = false := by
  have hwitness : flags.contains witness = false := contains_eq_false hflags (by decide)
  unfold amountFlags
  rw [ScriptFlags.intersects_or, Bool.or_eq_false_iff]
  exact ⟨ScriptFlags.intersects_ofBit hfork, ScriptFlags.intersects_ofBit hwitness⟩

variable {tx : Transaction} {index : Fin tx.inputs.length} {flags : ScriptFlags}

/-- A question about a transaction that is read back is answered by the context of its coin alone. -/
theorem verifyWithAmount_eq {unread : Bytes} (hdecode : Transaction.decode.run tx.encode = .ok tx unread)
    (hflags : supportedFlags.contains flags = true) (locking : Bytes) (amount : Amount) :
    let c := SpendContext.ofOwnInput tx index (.plain amount locking)
    verifyWithAmount locking amount tx.encode index flags =
      .ok ((c.verify (.transaction c (some (.ofContext c))) flags).run ()).1.isOk := by
  have hunread : unread = [] := by
    have hwritten := (Transaction.inverts_decode.run_eq_ok.mp hdecode).2
    exact List.append_right_eq_self.mp hwritten.symm
  have hindex : ¬ (index : Nat) ≥ tx.inputs.length := Nat.not_le.mpr index.isLt
  unfold verifyWithAmount
  rw [without_supportedFlags hflags, hdecode, hunread]
  simp only [hindex, if_false, SpendContext.limited_eq_ok]
  rfl

/-- The verification in the context of one coin is the one in the context of all coins. -/
theorem verify_ofOwnInput {spent : List TxOutput} (hspent : spent.length = tx.inputs.length)
    {coin : TxOutput} (hcoin : spent[(index : Nat)]? = some coin)
    (hflags : supportedFlags.contains flags = true) {amount : Amount}
    (hamount : flags.contains .enableSighashForkId = true → amount = coin.value)
    {shared shared' : Option SharedHashes} (hshared : ∀ s ∈ shared, s.AreOf tx)
    (hshared' : ∀ s ∈ shared', s.AreOf tx) :
    let own := SpendContext.ofOwnInput tx index (.plain amount coin.lockingScript)
    let full := SpendContext.ofInput tx spent hspent index
    own.verify (.transaction own shared) flags = full.verify (.transaction full shared') flags := by
  intro own full
  have hfull : full.ownCoin = coin := SpendContext.ownCoin_ofInput hspent hcoin
  have hscript : own.ownCoin.lockingScript = full.ownCoin.lockingScript := by
    rw [hfull]
    rfl
  have hvalue : flags.contains .enableSighashForkId = true →
      own.ownCoin.value = full.ownCoin.value := by
    intro hfork
    calc
      own.ownCoin.value = amount := rfl
      _ = coin.value := hamount hfork
      _ = full.ownCoin.value := by rw [hfull]
  have htx : own.tx = full.tx := rfl
  have hindex : own.index = full.index := rfl
  exact SpendContext.verify_congr htx hindex (contains_eq_false hflags (by decide))
    (contains_eq_false hflags (by decide)) hscript hvalue hshared hshared'

/-- **A question about one input is answered as in the full context.** Let a transaction be read back
from its bytes, and let each input have a coin. Under all rules that can be asked for there is an answer
to the question with the amount of the coin: whether the input is valid in the full context. Without
replay protection the same answer is given without the amount. -/
theorem answers_of_fullContext {unread : Bytes}
    (hdecode : Transaction.decode.run tx.encode = .ok tx unread) {spent : List TxOutput}
    (hspent : spent.length = tx.inputs.length) {index : Nat} {coin : TxOutput}
    (hcoin : spent[index]? = some coin) (hflags : supportedFlags.contains flags = true) :
    ∃ full, SpendContext.full tx index spent = .ok full ∧
      ∀ shared : Option SharedHashes, (∀ s ∈ shared, s.AreOf tx) →
        ∃ valid : Bool,
          (valid = true ↔ ∃ sigChecks,
            ((full.verify (.transaction full shared) flags).run ()).1 = .ok sigChecks) ∧
          verifyWithAmount coin.lockingScript coin.value tx.encode index flags = .ok valid ∧
          (flags.contains .enableSighashForkId = false →
            verify coin.lockingScript tx.encode index flags = .ok valid) := by
  obtain ⟨hlt, -⟩ := List.getElem?_eq_some_iff.mp hcoin
  let own : Fin tx.inputs.length := ⟨index, hspent ▸ hlt⟩
  refine ⟨_, SpendContext.full_eq_ok hspent own, fun shared hshared ↦ ?_⟩
  have hanswer (amount : Amount)
      (hamount : flags.contains .enableSighashForkId = true → amount = coin.value) :
      verifyWithAmount coin.lockingScript amount tx.encode index flags =
        .ok (((SpendContext.ofInput tx spent hspent own).verify
          (.transaction (.ofInput tx spent hspent own) shared) flags).run ()).1.isOk := by
    let c := SpendContext.ofOwnInput tx own (.plain amount coin.lockingScript)
    have hown : ∀ s ∈ some (SharedHashes.ofContext c), s.AreOf tx := by
      rintro _ ⟨⟩
      exact SharedHashes.areOf_ofContext c
    rw [← verify_ofOwnInput hspent hcoin hflags hamount hown hshared]
    change verifyWithAmount _ _ _ (own : Nat) _ = _
    exact verifyWithAmount_eq hdecode hflags coin.lockingScript amount
  have hisOk (answer : Except Halt Nat) : answer.isOk = true ↔ ∃ sigChecks, answer = .ok sigChecks := by
    cases answer with
    | error _ => exact ⟨nofun, nofun⟩
    | ok sigChecks => exact ⟨fun _ ↦ ⟨sigChecks, rfl⟩, fun _ ↦ rfl⟩
  refine ⟨_, hisOk _, hanswer coin.value fun _ ↦ rfl, fun hfork ↦ ?_⟩
  unfold verify
  rw [intersects_amountFlags hflags hfork]
  exact hanswer ⟨0⟩ fun hset ↦ by rw [hfork] at hset; cases hset

/-- A script that waits for block 10, and then asks for the lack of a signature. -/
def lockedScript : Bytes :=
  [0x5a, 0xb1, 0x75, 0x00] ++ Script.pushData (2 :: List.replicate 32 1) ++ [Opcode.checkSig, 0x91]

/-- A transaction of block 10 that spends two coins. -/
def lockedSpend : Transaction :=
  ⟨2, [⟨.null, [0x51], 0⟩, ⟨.null, [], 0⟩], [], 10⟩

/-- The first coin has no value, and the second one tokens and that script. -/
def lockedCoins : List TxOutput :=
  [.plain ⟨0⟩ [], ⟨⟨7⟩, lockedScript, some (.fungible .zero 3)⟩]

/-- The second input of two, with a lock time and a coin that holds tokens. -/
theorem answers_of_fullContext_locked :
    Transaction.decode.run lockedSpend.encode = .ok lockedSpend [] ∧
      lockedCoins.length = lockedSpend.inputs.length ∧
      lockedCoins[1]? = some ⟨⟨7⟩, lockedScript, some (.fungible .zero 3)⟩ ∧
      supportedFlags.contains .checkLockTimeVerify = true ∧
      verifyWithAmount lockedScript ⟨7⟩ lockedSpend.encode 1 .checkLockTimeVerify = .ok true ∧
      verify lockedScript lockedSpend.encode 1 .checkLockTimeVerify = .ok true := by
  have hdecode : Transaction.decode.run lockedSpend.encode = .ok lockedSpend [] := rfl
  have hspent : lockedCoins.length = lockedSpend.inputs.length := rfl
  have hcoin : lockedCoins[1]? = some ⟨⟨7⟩, lockedScript, some (.fungible .zero 3)⟩ := rfl
  have hflags : supportedFlags.contains .checkLockTimeVerify = true := by decide
  refine ⟨hdecode, hspent, hcoin, hflags, ?_⟩
  obtain ⟨full, hfull, hanswers⟩ := answers_of_fullContext hdecode hspent hcoin hflags
  obtain ⟨valid, hvalid, hwith, hwithout⟩ := hanswers none nofun
  have hrun : ((full.verify (.transaction full none) .checkLockTimeVerify).run ()).1 = .ok 0 := by
    cases hfull
    decide +kernel
  have htrue : valid = true := hvalid.mpr ⟨0, hrun⟩
  subst htrue
  exact ⟨hwith, hwithout (by decide)⟩

end Standalone

end UtxoConsensus
