import UtxoConsensus.Proofs.Interpreter.LimitedKnowledge
import UtxoConsensus.Proofs.Spend.InputContexts

/-!
# Limited contexts

A context with only the coin of its own input knows less than the one with the coins of all inputs, and
that is all that tells them apart. In it there is no digest for a signature that commits to all coins.
So whatever a spend is worth in a limited context it is worth in the full one, as long as there are no
such signatures or none of them may fail without failing the script.
-/

namespace UtxoConsensus

/-! ## Shared hashes -/

/-- The hashes are those of a transaction. Those of its coins may be missing. -/
structure SharedHashes.AreOf (shared : SharedHashes) (tx : Transaction) : Prop where
  prevouts_eq : shared.prevouts = prevoutsHash tx
  sequences_eq : shared.sequences = sequencesHash tx
  outputs_eq : shared.outputs = outputsHash tx.outputs

theorem SharedHashes.areOf_ofContext (c : SpendContext) : (ofContext c).AreOf c.tx :=
  ⟨rfl, rfl, rfl⟩

/-- A signature that commits to the coins of all inputs. -/
def CommitsToCoins (flags : ScriptFlags) (sig : Bytes) : Prop :=
  sig.isEmpty = false ∧ (HashType.ofSignature sig).hasUtxos = true ∧ flags.contains .enableTokens = true

/-- Apart from the coins, shared hashes are used in place of those that would be computed. -/
theorem signatureDigest_shared (scriptCode : Bytes) (c : SpendContext) {t : HashType} {flags : ScriptFlags}
    (hcoins : (t.hasUtxos && flags.contains .enableTokens) = false) {shared : Option SharedHashes}
    (hshared : ∀ s ∈ shared, s.AreOf c.tx) :
    signatureDigest scriptCode c t flags shared = signatureDigest scriptCode c t flags none := by
  cases shared with
  | none => rfl
  | some s =>
    have hs : s.AreOf c.tx := hshared s rfl
    unfold signatureDigest forkIdDigest forkIdPreimage signedCoinsHash? signedOutputsHash
    simp only [hcoins, Option.elim_some, Option.elim_none, hs.prevouts_eq, hs.sequences_eq, hs.outputs_eq]
    rfl

namespace SpendContext

/-! ## One input with its coin and with all coins -/

variable {tx : Transaction} {spent : List TxOutput} (hspent : spent.length = tx.inputs.length)
  {index : Fin tx.inputs.length} {coin : TxOutput}

/-- The coin of an input is found among all coins. -/
theorem ownCoin_ofInput (hcoin : spent[(index : Nat)]? = some coin) :
    (ofInput tx spent hspent index).ownCoin = coin := by
  obtain ⟨hlt, heq⟩ := List.getElem?_eq_some_iff.mp hcoin
  exact heq

/-- What is known of one coin is part of what is known of all. -/
theorem ofOwnInput_isPartOf (hcoin : spent[(index : Nat)]? = some coin) :
    (ofOwnInput tx index coin).IsPartOf (ofInput tx spent hspent index) where
  tx_eq := rfl
  index_eq := rfl
  coin_eq := by
    intro position found hfound
    change (if position = index then Except.ok coin else _) = _ at hfound
    split at hfound
    · next hposition =>
      cases hfound
      unfold SpendContext.coin ofInput
      dsimp only
      rw [hposition, hcoin]
    · split at hfound <;> cases hfound

/-! ## Digests -/

/-- A digest that commits to all coins is not computed from one. -/
theorem digest?_ofOwnInput_of_commits {flags : ScriptFlags} {sig : Bytes} (hsig : CommitsToCoins flags sig)
    (shared : Option SharedHashes) (scriptCode : Bytes) :
    Checker.transactionDigest? (ofOwnInput tx index coin) shared sig scriptCode flags = none := by
  obtain ⟨hempty, hutxos, htokens⟩ := hsig
  unfold Checker.transactionDigest?
  dsimp only
  rw [hempty, hutxos, htokens]
  rfl

/-- Any other digest is computed from one coin as from all. -/
theorem signatureDigest_ofOwnInput (hcoin : spent[(index : Nat)]? = some coin) {t : HashType}
    {flags : ScriptFlags} (hcoins : (t.hasUtxos && flags.contains .enableTokens) = false)
    (scriptCode : Bytes) :
    signatureDigest scriptCode (ofOwnInput tx index coin) t flags none =
      signatureDigest scriptCode (ofInput tx spent hspent index) t flags none := by
  have hown : (ofInput tx spent hspent index).ownCoin = (ofOwnInput tx index coin).ownCoin :=
    ownCoin_ofInput hspent hcoin
  unfold signatureDigest forkIdDigest forkIdPreimage signedCoinsHash? signedOutputsHash
  simp only [hcoins, hown]
  rfl

/-- The digest of any other signature is the same. -/
theorem digest?_ofOwnInput (hcoin : spent[(index : Nat)]? = some coin) {flags : ScriptFlags} {sig : Bytes}
    (hsig : ¬ CommitsToCoins flags sig) {shared shared' : Option SharedHashes}
    (hshared : ∀ s ∈ shared, s.AreOf tx) (hshared' : ∀ s ∈ shared', s.AreOf tx) (scriptCode : Bytes) :
    Checker.transactionDigest? (ofOwnInput tx index coin) shared sig scriptCode flags =
      Checker.transactionDigest? (ofInput tx spent hspent index) shared' sig scriptCode flags := by
  unfold Checker.transactionDigest?
  dsimp only
  cases hempty : sig.isEmpty with
  | true => rw [if_pos rfl, if_pos rfl]
  | false =>
    have hcoins : ((HashType.ofSignature sig).hasUtxos && flags.contains .enableTokens) = false := by
      apply Bool.eq_false_of_not_eq_true
      intro hboth
      exact hsig ⟨hempty, Bool.and_eq_true_iff.mp hboth⟩
    rw [hcoins, Bool.false_and, Bool.false_and,
      signatureDigest_shared scriptCode (ofOwnInput tx index coin) hcoins hshared,
      signatureDigest_shared scriptCode (ofInput tx spent hspent index) hcoins hshared',
      signatureDigest_ofOwnInput hspent hcoin hcoins]

/-! ## Checkers -/

/-- The checker in a limited context knows less. Where failed signatures need not be empty it must not
meet a signature that commits to coins. -/
theorem knowsLess_transaction (hcoin : spent[(index : Nat)]? = some coin) {flags : ScriptFlags}
    (hflags : flags.contains .nullFail = true ∨ flags.contains .enableTokens = false)
    {shared shared' : Option SharedHashes} (hshared : ∀ s ∈ shared, s.AreOf tx)
    (hshared' : ∀ s ∈ shared', s.AreOf tx) :
    (Checker.transaction (ofOwnInput tx index coin) shared).KnowsLess flags (CommitsToCoins flags)
      (.transaction (ofInput tx spent hspent index) shared') where
  verifySignature := rfl
  checkLockTime := rfl
  checkSequence := rfl
  context := by
    rintro _ ⟨⟩
    exact ⟨_, rfl, ofOwnInput_isPartOf hspent hcoin⟩
  checkSig sig hsig key scriptCode := by
    unfold Checker.transaction
    dsimp only
    rw [digest?_ofOwnInput hspent hcoin hsig hshared hshared']
  refused sig hsig key scriptCode := by
    unfold Checker.transaction Checker.checkDigest
    dsimp only
    rw [digest?_ofOwnInput_of_commits hsig, hsig.1]
    rfl
  isEmpty_eq _ hsig := hsig.1
  nullFail _ hsig := by
    apply hflags.resolve_right
    rw [hsig.2.2]
    exact Bool.noConfusion

end SpendContext

/-! ## Spends -/

/-- **A limited context accepts no more than the full one.** Given one coin for each input, both contexts
of an input exist. If failed signatures must be empty, or tokens are not known, then a spend that is valid
in the limited context is valid in the full one, with the same number of signature checks. -/
theorem verifyScript_full_of_limited {tx : Transaction} {index : Nat} {spent : List TxOutput}
    {coin : TxOutput} (hspent : spent.length = tx.inputs.length) (hcoin : spent[index]? = some coin)
    {flags : ScriptFlags}
    (hflags : flags.contains .nullFail = true ∨ flags.contains .enableTokens = false)
    (unlocking locking : Bytes) :
    ∃ limited full, SpendContext.limited tx index coin = .ok limited ∧
      SpendContext.full tx index spent = .ok full ∧
      ∀ shared shared' : Option SharedHashes, (∀ s ∈ shared, s.AreOf tx) → (∀ s ∈ shared', s.AreOf tx) →
        ∀ sigChecks,
          ((verifyScript (.transaction limited shared) flags unlocking locking).run ()).1 = .ok sigChecks →
            ((verifyScript (.transaction full shared') flags unlocking locking).run ()).1 =
              .ok sigChecks := by
  obtain ⟨hlt, -⟩ := List.getElem?_eq_some_iff.mp hcoin
  let own : Fin tx.inputs.length := ⟨index, hspent ▸ hlt⟩
  refine ⟨_, _, SpendContext.limited_eq_ok own coin, SpendContext.full_eq_ok hspent own, ?_⟩
  intro shared shared' hshared hshared' sigChecks hok
  have heffective : (effectiveFlags flags).contains .nullFail = true ∨
      (effectiveFlags flags).contains .enableTokens = false := by
    rw [effectiveFlags_contains flags (by decide), effectiveFlags_contains flags (by decide)]
    exact hflags
  have hown : spent[(own : Nat)]? = some coin := hcoin
  exact (SpendContext.knowsLess_transaction hspent hown heffective hshared hshared').verifyScript_eq_ok hok

/-- A script that asks for the value of its own coin, and for the lack of a signature. -/
def ownValueScript : Bytes :=
  [0xc0, 0xc6, 0x5a, 0x9d, 0x00] ++ Script.pushData (2 :: List.replicate 32 1) ++ [Opcode.checkSig, 0x91]

/-- A transaction that spends two coins, the second one with that script. -/
def ownValueSpend : Transaction :=
  ⟨2, [⟨.null, [], 0⟩, ⟨.null, [], 0⟩], [], 0⟩

def ownValueCoins : List TxOutput :=
  [.plain ⟨3⟩ [], .plain ⟨10⟩ ownValueScript]

/-- A script that compares the value of its own coin. -/
theorem verifyScript_full_of_limited_ownValue :
    ownValueCoins.length = ownValueSpend.inputs.length ∧
      ownValueCoins[1]? = some (.plain ⟨10⟩ ownValueScript) ∧
      ScriptFlags.standard.contains .nullFail = true ∧
      ∃ limited full, SpendContext.limited ownValueSpend 1 (.plain ⟨10⟩ ownValueScript) = .ok limited ∧
        SpendContext.full ownValueSpend 1 ownValueCoins = .ok full ∧
        ((verifyScript (.transaction limited none) .standard [] ownValueScript).run ()).1 = .ok 0 ∧
        ((verifyScript (.transaction full (some (.ofContext full))) .standard [] ownValueScript).run ()).1 =
          .ok 0 := by
  have hspent : ownValueCoins.length = ownValueSpend.inputs.length := rfl
  have hcoin : ownValueCoins[1]? = some (.plain ⟨10⟩ ownValueScript) := rfl
  have hnull : ScriptFlags.standard.contains .nullFail = true := by decide
  obtain ⟨limited, full, hlimited, hfull, himp⟩ :=
    verifyScript_full_of_limited hspent hcoin (.inl hnull) [] ownValueScript
  refine ⟨hspent, hcoin, hnull, limited, full, hlimited, hfull, ?_⟩
  have hvalid : ((verifyScript (.transaction limited none) .standard [] ownValueScript).run ()).1 =
      .ok 0 := by
    cases hlimited
    decide +kernel
  refine ⟨hvalid, himp none (some (.ofContext full)) nofun ?_ 0 hvalid⟩
  rintro _ ⟨⟩
  cases hfull
  exact SharedHashes.areOf_ofContext _

end UtxoConsensus
