import UtxoConsensus.Proofs.Signature.Preimage

/-!
# What a replay-protected signature commits to

Two replay-protected digests are equal if everything is the same that the hash type does not leave open.
The converse holds up to a failure of the hash: where digests are equal and something differs, two
different strings that were hashed on the way have the same hash, or one of them has the hash that stands
for an absent part. The lists behind the inner hashes have no count in front, but their items tell where
they end.
-/

namespace UtxoConsensus

open Digest (doubleSha256)

theorem HashType.commitsToAllOutputs_iff {t : HashType} :
    t.commitsToAllOutputs = true ↔ t.base ≠ noOutputs ∧ t.base ≠ single := by
  unfold commitsToAllOutputs
  rw [Bool.and_eq_true, bne_iff_ne, bne_iff_ne]
  exact and_comm

namespace ForkIdRequest

variable {flags : ScriptFlags} {x y : ForkIdRequest}

/-! ## What is the same -/

/-- Everything is the same that a replay-protected signature commits to. -/
structure SameCommitment (flags : ScriptFlags) (x y : ForkIdRequest) : Prop where
  hashType : x.hashType = y.hashType
  version : x.tx.version = y.tx.version
  lockTime : x.tx.lockTime = y.tx.lockTime
  prevout : x.context.input.prevout = y.context.input.prevout
  sequence : x.context.input.sequence = y.context.input.sequence
  value : x.context.ownCoin.value = y.context.ownCoin.value
  scriptCode : x.scriptCode = y.scriptCode
  token : flags.contains .enableTokens = true →
    x.context.ownCoin.token.map TokenData.encode = y.context.ownCoin.token.map TokenData.encode
  prevouts : x.hashType.hasAnyoneCanPay = false →
    x.tx.inputs.map (·.prevout) = y.tx.inputs.map (·.prevout)
  sequences : x.hashType.hasAnyoneCanPay = false → x.hashType.base ≠ HashType.noOutputs →
    x.hashType.base ≠ HashType.single →
      x.tx.inputs.map (·.sequence) = y.tx.inputs.map (·.sequence)
  outputs : x.hashType.base ≠ HashType.noOutputs → x.hashType.base ≠ HashType.single →
    x.tx.outputs.map TxOutput.encode = y.tx.outputs.map TxOutput.encode
  /-- With `single` the output at the place of the input, which may be absent on both sides. -/
  output : x.hashType.base = HashType.single →
    x.tx.outputs[x.context.index]?.map TxOutput.encode =
      y.tx.outputs[y.context.index]?.map TxOutput.encode
  coins : x.hashType.hasUtxos = true → flags.contains .enableTokens = true →
    x.coins.map TxOutput.encode = y.coins.map TxOutput.encode

/-- Two different strings that are hashed on the way to the two digests have the same hash. -/
def Collision (flags : ScriptFlags) (x y : ForkIdRequest) : Prop :=
  ∃ a ∈ x.hashedStrings flags, ∃ b ∈ y.hashedStrings flags, a ≠ b ∧ doubleSha256 a = doubleSha256 b

/-- A string that is hashed on the way to the digest has the hash that stands for an absent part. -/
def HashesToZero (flags : ScriptFlags) (x : ForkIdRequest) : Prop :=
  ∃ a ∈ x.hashedStrings flags, doubleSha256 a = .zero

/-! ## Parts that are covered -/

theorem coversPrevouts_congr (h : x.hashType = y.hashType) :
    x.coversPrevouts = y.coversPrevouts := by
  rw [coversPrevouts, coversPrevouts, h]

theorem coversSequences_congr (h : x.hashType = y.hashType) :
    x.coversSequences = y.coversSequences := by
  rw [coversSequences, coversSequences, h]

theorem coversCoins_congr (h : x.hashType = y.hashType) :
    x.coversCoins flags = y.coversCoins flags := by
  rw [coversCoins, coversCoins, h]

/-- All previous outputs are covered unless anyone can pay. -/
theorem coversPrevouts_iff : x.coversPrevouts = true ↔ x.hashType.hasAnyoneCanPay = false := by
  rw [coversPrevouts, Bool.not_eq_true']

/-- Sequences are covered if all inputs and all outputs are. -/
theorem coversSequences_iff :
    x.coversSequences = true ↔ x.hashType.hasAnyoneCanPay = false ∧
      x.hashType.base ≠ HashType.noOutputs ∧ x.hashType.base ≠ HashType.single := by
  rw [coversSequences, Bool.and_eq_true, Bool.not_eq_true', HashType.commitsToAllOutputs_iff]

/-- All coins are covered on request, if there are tokens. -/
theorem coversCoins_iff :
    x.coversCoins flags = true ↔
      x.hashType.hasUtxos = true ∧ flags.contains .enableTokens = true := by
  rw [coversCoins, Bool.and_eq_true]

/-- The outputs that are signed are written in the same way if all outputs are, or the ones that are
asked for. -/
theorem signedOutputs?_map_eq_iff (h : x.hashType = y.hashType) :
    x.signedOutputs?.map (·.map TxOutput.encode) = y.signedOutputs?.map (·.map TxOutput.encode) ↔
      (x.hashType.base ≠ HashType.noOutputs → x.hashType.base ≠ HashType.single →
        x.tx.outputs.map TxOutput.encode = y.tx.outputs.map TxOutput.encode) ∧
      (x.hashType.base = HashType.single →
        x.tx.outputs[x.context.index]?.map TxOutput.encode =
          y.tx.outputs[y.context.index]?.map TxOutput.encode) := by
  have hforms (output : Option TxOutput) :
      (output.map ([·])).map (·.map TxOutput.encode) = (output.map TxOutput.encode).map ([·]) := by
    cases output <;> rfl
  unfold signedOutputs?
  rw [← h]
  by_cases hall : x.hashType.commitsToAllOutputs = true
  · obtain ⟨hnone, hsingle⟩ := HashType.commitsToAllOutputs_iff.mp hall
    simp [hall, hnone, hsingle]
  · by_cases hsingle : x.hashType.base = HashType.single
    · rw [if_neg hall, if_neg hall, if_pos hsingle, if_pos hsingle, hforms, hforms,
        Option.map_inj_right fun _ _ ↦ List.singleton_inj.mp]
      simp [hsingle]
    · have hnone : x.hashType.base = HashType.noOutputs := by
        rw [HashType.commitsToAllOutputs_iff, not_and] at hall
        exact Classical.byContradiction fun hne ↦ hall hne hsingle
      rw [if_neg hall, if_neg hall, if_neg hsingle, if_neg hsingle]
      exact ⟨fun _ ↦ ⟨fun hne ↦ absurd hnone hne, fun heq ↦ absurd heq hsingle⟩, fun _ ↦ rfl⟩

/-! ## The same fields for the same commitment -/

theorem outputsHash_congr {l m : List TxOutput} (h : l.map TxOutput.encode = m.map TxOutput.encode) :
    outputsHash l = outputsHash m := by
  unfold outputsHash
  rw [List.flatMap_def, List.flatMap_def, h]

theorem prevoutsString_congr (h : x.tx.inputs.map (·.prevout) = y.tx.inputs.map (·.prevout)) :
    x.prevoutsString = y.prevoutsString := by
  have hmap (x : ForkIdRequest) :
      x.prevoutsString = (x.tx.inputs.map (·.prevout)).flatMap OutPoint.encode := by
    rw [List.flatMap_map]
    rfl
  rw [hmap, hmap, h]

theorem sequencesString_congr (h : x.tx.inputs.map (·.sequence) = y.tx.inputs.map (·.sequence)) :
    x.sequencesString = y.sequencesString := by
  have hmap (x : ForkIdRequest) :
      x.sequencesString = (x.tx.inputs.map (·.sequence)).flatMap Bytes.ofUInt32 := by
    rw [List.flatMap_map]
    rfl
  rw [hmap, hmap, h]

namespace SameCommitment

theorem prevouts_congr (h : SameCommitment flags x y) :
    (if x.coversPrevouts then doubleSha256 x.prevoutsString else .zero) =
      if y.coversPrevouts then doubleSha256 y.prevoutsString else .zero := by
  rw [← coversPrevouts_congr h.hashType]
  apply ite_congr rfl
  · intro hcovers
    rw [prevoutsString_congr (h.prevouts (coversPrevouts_iff.mp hcovers))]
  · exact fun _ ↦ rfl

theorem sequences_congr (h : SameCommitment flags x y) :
    (if x.coversSequences then doubleSha256 x.sequencesString else .zero) =
      if y.coversSequences then doubleSha256 y.sequencesString else .zero := by
  rw [← coversSequences_congr h.hashType]
  apply ite_congr rfl
  · intro hcovers
    obtain ⟨hothers, hnone, hsingle⟩ := coversSequences_iff.mp hcovers
    rw [sequencesString_congr (h.sequences hothers hnone hsingle)]
  · exact fun _ ↦ rfl

theorem coins_congr (h : SameCommitment flags x y) :
    (if x.coversCoins flags then some (outputsHash x.coins) else none) =
      if y.coversCoins flags then some (outputsHash y.coins) else none := by
  rw [← coversCoins_congr h.hashType]
  apply ite_congr rfl
  · intro hcovers
    obtain ⟨hutxos, htokens⟩ := coversCoins_iff.mp hcovers
    rw [outputsHash_congr (h.coins hutxos htokens)]
  · exact fun _ ↦ rfl

theorem token_congr (h : SameCommitment flags x y) :
    (if flags.contains .enableTokens then x.context.ownCoin.token.map TokenData.encode else none) =
      if flags.contains .enableTokens then y.context.ownCoin.token.map TokenData.encode else none :=
  ite_congr rfl h.token fun _ ↦ rfl

theorem outputs_congr (h : SameCommitment flags x y) :
    x.signedOutputs?.elim .zero outputsHash = y.signedOutputs?.elim .zero outputsHash := by
  have hforms := (signedOutputs?_map_eq_iff h.hashType).mpr ⟨h.outputs, h.output⟩
  cases hx : x.signedOutputs? with
  | none =>
    cases hy : y.signedOutputs? with
    | none => rfl
    | some _ =>
      rw [hx, hy] at hforms
      cases hforms
  | some _ =>
    cases hy : y.signedOutputs? with
    | none =>
      rw [hx, hy] at hforms
      cases hforms
    | some _ =>
      rw [hx, hy] at hforms
      exact outputsHash_congr (Option.some.inj hforms)

/-- Requests with the same commitment have the same fields. -/
theorem fields_eq (h : SameCommitment flags x y) : x.fields flags = y.fields flags := by
  unfold fields
  rw [h.prevouts_congr, h.sequences_congr, h.coins_congr, h.token_congr, h.outputs_congr,
    h.version, h.lockTime, h.prevout, h.sequence, h.value, h.scriptCode, h.hashType]

end SameCommitment

/-! ## The same commitment for the same fields -/

section Hashes

variable (hcollision : ¬ Collision flags x y)

include hcollision

/-- Without collisions a hash stands for its string. -/
theorem eq_of_doubleSha256_eq {a b : Bytes} (ha : a ∈ x.hashedStrings flags)
    (hb : b ∈ y.hashedStrings flags) (h : doubleSha256 a = doubleSha256 b) : a = b := by
  apply Classical.byContradiction
  intro hne
  exact hcollision ⟨a, ha, b, hb, hne, h⟩

theorem prevouts_eq (hx : x.coversPrevouts = true) (hy : y.coversPrevouts = true)
    (h : (x.fields flags).prevouts = (y.fields flags).prevouts) :
    x.tx.inputs.map (·.prevout) = y.tx.inputs.map (·.prevout) := by
  have hhash : doubleSha256 x.prevoutsString = doubleSha256 y.prevoutsString := by
    simpa [fields, hx, hy] using h
  have hstring : x.prevoutsString = y.prevoutsString :=
    eq_of_doubleSha256_eq hcollision (prevoutsString_mem hx) (prevoutsString_mem hy) hhash
  exact Delimited.map_eq_of_length OutPoint.length_encode (by decide)
    (fun _ _ ↦ OutPoint.encode_injective) TxInput.prevout hstring

theorem sequences_eq (hx : x.coversSequences = true) (hy : y.coversSequences = true)
    (h : (x.fields flags).sequences = (y.fields flags).sequences) :
    x.tx.inputs.map (·.sequence) = y.tx.inputs.map (·.sequence) := by
  have hhash : doubleSha256 x.sequencesString = doubleSha256 y.sequencesString := by
    simpa [fields, hx, hy] using h
  have hstring : x.sequencesString = y.sequencesString :=
    eq_of_doubleSha256_eq hcollision (sequencesString_mem hx) (sequencesString_mem hy) hhash
  exact Delimited.map_eq_of_length Bytes.length_ofUInt32 (by decide)
    (fun _ _ ↦ Bytes.ofUInt32_injective) TxInput.sequence hstring

theorem coins_eq (hx : x.coversCoins flags = true) (hy : y.coversCoins flags = true)
    (h : (x.fields flags).coins = (y.fields flags).coins) :
    x.coins.map TxOutput.encode = y.coins.map TxOutput.encode := by
  have hhash : outputsHash x.coins = outputsHash y.coins := by
    simpa [fields, hx, hy] using h
  have hstring : x.coins.flatMap TxOutput.encode = y.coins.flatMap TxOutput.encode :=
    eq_of_doubleSha256_eq hcollision (coinsString_mem hx) (coinsString_mem hy) hhash
  exact TxOutput.delimited_encode.map_eq_of_flatMap TxOutput.encode_ne_nil x.length_coins
    y.length_coins hstring

/-- Hashed outputs are told from their hash, and from outputs that are not hashed. -/
theorem signedOutputs?_map_eq (hx : ¬ HashesToZero flags x) (hy : ¬ HashesToZero flags y)
    (h : (x.fields flags).outputs = (y.fields flags).outputs) :
    x.signedOutputs?.map (·.map TxOutput.encode) = y.signedOutputs?.map (·.map TxOutput.encode) := by
  have hhash : x.signedOutputs?.elim .zero outputsHash = y.signedOutputs?.elim .zero outputsHash := h
  cases hxs : x.signedOutputs? with
  | none =>
    cases hys : y.signedOutputs? with
    | none => rfl
    | some outputs =>
      rw [hxs, hys] at hhash
      exact absurd ⟨_, outputsString_mem hys, hhash.symm⟩ hy
  | some outputs =>
    cases hys : y.signedOutputs? with
    | none =>
      rw [hxs, hys] at hhash
      exact absurd ⟨_, outputsString_mem hxs, hhash⟩ hx
    | some outputs' =>
      rw [hxs, hys] at hhash
      have hstring : outputs.flatMap TxOutput.encode = outputs'.flatMap TxOutput.encode :=
        eq_of_doubleSha256_eq hcollision (outputsString_mem hxs) (outputsString_mem hys) hhash
      have hforms := TxOutput.delimited_encode.map_eq_of_flatMap TxOutput.encode_ne_nil
        (fun output houtput ↦ x.length_outputs output (mem_of_signedOutputs? hxs output houtput))
        (fun output houtput ↦ y.length_outputs output (mem_of_signedOutputs? hys output houtput))
        hstring
      exact congrArg some hforms

/-- Where the hash does not fail, the fields tell everything that is committed to. -/
theorem sameCommitment_of_fields_eq (hx : ¬ HashesToZero flags x) (hy : ¬ HashesToZero flags y)
    (h : x.fields flags = y.fields flags) : SameCommitment flags x y := by
  have hhashType : x.hashType = y.hashType := congrArg ForkIdFields.hashType h
  have hforms := signedOutputs?_map_eq hcollision hx hy (congrArg ForkIdFields.outputs h)
  obtain ⟨houtputs, houtput⟩ := (signedOutputs?_map_eq_iff hhashType).mp hforms
  refine
    { hashType := hhashType
      version := congrArg ForkIdFields.version h
      lockTime := congrArg ForkIdFields.lockTime h
      prevout := congrArg ForkIdFields.prevout h
      sequence := congrArg ForkIdFields.sequence h
      value := congrArg ForkIdFields.value h
      scriptCode := congrArg ForkIdFields.scriptCode h
      outputs := houtputs
      output := houtput
      token := ?token, prevouts := ?prevouts, sequences := ?sequences, coins := ?coins }
  case token =>
    intro htokens
    have htoken := congrArg ForkIdFields.token h
    simpa only [fields, htokens, if_true] using htoken
  case prevouts =>
    intro hothers
    have hcovers := coversPrevouts_iff.mpr hothers
    exact prevouts_eq hcollision hcovers (coversPrevouts_congr hhashType ▸ hcovers)
      (congrArg ForkIdFields.prevouts h)
  case sequences =>
    intro hothers hnone hsingle
    have hcovers := coversSequences_iff.mpr ⟨hothers, hnone, hsingle⟩
    exact sequences_eq hcollision hcovers (coversSequences_congr hhashType ▸ hcovers)
      (congrArg ForkIdFields.sequences h)
  case coins =>
    intro hutxos htokens
    have hcovers := coversCoins_iff.mpr ⟨hutxos, htokens⟩
    exact coins_eq hcollision hcovers (coversCoins_congr hhashType ▸ hcovers)
      (congrArg ForkIdFields.coins h)

end Hashes

/-! ## The commitment -/

/-- **What a replay-protected signature commits to.** Digests are equal if everything is the same that
the hash types do not leave open, and if they are equal then it is, unless two different strings that were
hashed have the same hash or a string that was hashed has the hash of an absent part. -/
theorem digest_eq_iff (hflags : flags.contains .enableSighashForkId = true)
    (htoken : x.context.ownCoin.token.isSome = y.context.ownCoin.token.isSome) :
    (SameCommitment flags x y → x.digest flags = y.digest flags) ∧
      (x.digest flags = y.digest flags →
        SameCommitment flags x y ∨ Collision flags x y ∨ HashesToZero flags x ∨
          HashesToZero flags y) := by
  rw [digest_eq hflags, digest_eq hflags]
  constructor
  · intro h
    rw [preimage_eq, preimage_eq, h.fields_eq]
  · intro hdigest
    by_cases hcollision : Collision flags x y
    · exact .inr (.inl hcollision)
    by_cases hx : HashesToZero flags x
    · exact .inr (.inr (.inl hx))
    by_cases hy : HashesToZero flags y
    · exact .inr (.inr (.inr hy))
    left
    have hpreimage : x.preimage flags = y.preimage flags :=
      eq_of_doubleSha256_eq hcollision (preimage_mem x) (preimage_mem y) hdigest
    rw [preimage_eq, preimage_eq] at hpreimage
    have hcoins (hhashType : x.hashType = y.hashType) :
        (x.fields flags).coins.isSome = (y.fields flags).coins.isSome := by
      simp only [fields, coversCoins_congr hhashType]
      split <;> simp only [Option.isSome_some, Option.isSome_none]
    have hpresent : (x.fields flags).token.isSome = (y.fields flags).token.isSome := by
      simp only [fields]
      split
      · simpa only [Option.isSome_map] using htoken
      · simp only [Option.isSome_none]
    have hfields := ForkIdFields.encode_inj (hasPayload_fields flags x) (hasPayload_fields flags y)
      hcoins hpresent hpreimage
    exact sameCommitment_of_fields_eq hcollision hx hy hfields

/-- Two coins, the first of them with a token. -/
def tokenCoins : List TxOutput :=
  [⟨⟨1000⟩, [0x51], some ⟨.filled 0xaa, 300, some ⟨.mutable, [9]⟩⟩⟩, .plain ⟨5000⟩ [0x76, 0xa9]]

theorem length_tokenCoins : ∀ coin ∈ tokenCoins, coin.wrappedScript.length < UInt64.size := by
  decide

/-- Spends the first coin, leaves the other input open, and pays the same coins again. -/
def openPayment (other lockTime : UInt32) : ForkIdRequest where
  scriptCode := [0x51, 0xac]
  context :=
    ⟨⟨2, [⟨⟨.filled 0x11, 3⟩, [], 7⟩, ⟨⟨.filled 0x22, other⟩, [], 8⟩], tokenCoins, lockTime⟩, 0,
      .full tokenCoins, by simp, rfl⟩
  hashType := ⟨0xe1⟩
  shared := none
  coins := tokenCoins
  hasForkId := by decide
  allCoins_eq := rfl
  shared_eq := nofun
  length_outputs := length_tokenCoins
  length_coins := length_tokenCoins

/-- The other input can be exchanged, and the lock time cannot. -/
theorem digest_eq_iff_openPayment :
    ScriptFlags.standard.contains .enableSighashForkId = true ∧
      (openPayment 0 5).context.ownCoin.token.isSome =
        (openPayment 1 5).context.ownCoin.token.isSome ∧
      (openPayment 0 5).tx ≠ (openPayment 1 5).tx ∧
      (openPayment 0 5).digest .standard = (openPayment 1 5).digest .standard ∧
      ((openPayment 0 5).digest .standard = (openPayment 0 6).digest .standard →
        Collision .standard (openPayment 0 5) (openPayment 0 6) ∨
          HashesToZero .standard (openPayment 0 5) ∨ HashesToZero .standard (openPayment 0 6)) := by
  have hflags : ScriptFlags.standard.contains .enableSighashForkId = true := by decide
  have htoken (a b c d : UInt32) : (openPayment a b).context.ownCoin.token.isSome =
      (openPayment c d).context.ownCoin.token.isSome := rfl
  have hsame : SameCommitment .standard (openPayment 0 5) (openPayment 1 5) := by
    constructor
    case prevouts => exact fun hothers ↦ absurd hothers (by decide)
    case sequences => exact fun hothers ↦ absurd hothers (by decide)
    all_goals intros; rfl
  refine ⟨hflags, htoken 0 5 1 5, ?_, (digest_eq_iff hflags (htoken 0 5 1 5)).1 hsame, ?_⟩
  · intro htx
    have hindices : (openPayment 0 5).tx.inputs.map (·.prevout.index) =
        (openPayment 1 5).tx.inputs.map (·.prevout.index) := by rw [htx]
    exact absurd hindices (by decide)
  · intro hdigest
    rcases (digest_eq_iff hflags (htoken 0 5 0 6)).2 hdigest with hlate | hfailure
    · exact absurd hlate.lockTime (by decide)
    · exact hfailure

end ForkIdRequest

end UtxoConsensus
