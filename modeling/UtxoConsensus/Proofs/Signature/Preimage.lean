import UtxoConsensus.Proofs.Wire.Delimited
import UtxoConsensus.Signature.Digest

/-!
# The preimage of a replay-protected digest

The fields of a preimage can be told apart though none of them has a count in front. The hash type says
whether the coins of all inputs are covered; it is at a fixed place from the end, and can be read first. A
token tells where it ends, and so does the script code after it. Hashes that inputs share are those that
would be computed for each input by itself, so that a request determines the strings that are hashed on the
way to its digest.
-/

namespace UtxoConsensus

open Digest (doubleSha256)

/-! ## The fields of the preimage -/

/-- The fields that a replay-protected signature signs. -/
@[ext]
structure ForkIdFields where
  version : Int32
  prevouts : Hash256
  coins : Option Hash256
  sequences : Hash256
  prevout : OutPoint
  /-- The payload of the token. -/
  token : Option Bytes
  scriptCode : Bytes
  value : Amount
  sequence : UInt32
  outputs : Hash256
  lockTime : UInt32
  hashType : HashType

namespace ForkIdFields

/-- The fields from the version to the script code. Some of them may be absent. -/
def front (f : ForkIdFields) : Bytes :=
  Bytes.ofInt32 f.version ++ (f.prevouts.bytes ++ (f.coins.elim [] Hash256.bytes ++
    (f.sequences.bytes ++ (f.prevout.encode ++
      (f.token.elim [] (TokenData.marker :: ·) ++ CompactSize.encodeBytes f.scriptCode)))))

/-- The fields from the amount to the hash type. -/
def back (f : ForkIdFields) : Bytes :=
  Bytes.ofInt64 f.value.satoshis ++ (Bytes.ofUInt32 f.sequence ++ (f.outputs.bytes ++
    (Bytes.ofUInt32 f.lockTime ++ Bytes.ofUInt32 f.hashType.raw)))

def encode (f : ForkIdFields) : Bytes :=
  f.front ++ f.back

/-- The token, where there is one, is the payload of a token with a commitment of any length that is
found in memory. -/
def HasPayload (f : ForkIdFields) : Prop :=
  ∀ payload, f.token = some payload →
    ∃ t : TokenData, payload = t.encode ∧ t.commitment.length < UInt64.size

variable {f g : ForkIdFields}

theorem length_back (f : ForkIdFields) : f.back.length = 52 := by
  simp [back, f.outputs.length_bytes]

/-- Behind the script all fields have fixed widths. -/
theorem back_inj (h : f.back = g.back) :
    f.value = g.value ∧ f.sequence = g.sequence ∧ f.outputs = g.outputs ∧
      f.lockTime = g.lockTime ∧ f.hashType = g.hashType := by
  obtain ⟨hvalue, h⟩ := List.append_inj h (by simp)
  obtain ⟨hsequence, h⟩ := List.append_inj h (by simp)
  obtain ⟨houtputs, h⟩ := List.append_inj h (by simp [Hash256.length_bytes])
  obtain ⟨hlockTime, hhashType⟩ := List.append_inj h (by simp)
  exact ⟨Amount.ext (Bytes.ofInt64_injective hvalue), Bytes.ofUInt32_injective hsequence,
    Bytes.hash_injective houtputs, Bytes.ofUInt32_injective hlockTime,
    HashType.ext (Bytes.ofUInt32_injective hhashType)⟩

/-- A part that is there on both sides or on none. -/
theorem elim_append_inj {a b : Option α} {encode : α → Bytes} {rest rest' : Bytes}
    (hpresent : a.isSome = b.isSome)
    (hpart : ∀ x y, a = some x → b = some y → encode x ++ rest = encode y ++ rest' →
      x = y ∧ rest = rest')
    (h : a.elim [] encode ++ rest = b.elim [] encode ++ rest') : a = b ∧ rest = rest' := by
  cases a with
  | none =>
    cases b with
    | none => exact ⟨rfl, h⟩
    | some y => cases hpresent
  | some x =>
    cases b with
    | none => cases hpresent
    | some y =>
      obtain ⟨hsame, hrest⟩ := hpart x y rfl rfl h
      exact ⟨congrArg some hsame, hrest⟩

theorem hash_append_inj {x y : Hash256} {rest rest' : Bytes}
    (h : x.bytes ++ rest = y.bytes ++ rest') : x = y ∧ rest = rest' := by
  obtain ⟨hbytes, hrest⟩ := List.append_inj h (x.length_bytes.trans y.length_bytes.symm)
  exact ⟨Bytes.hash_injective hbytes, hrest⟩

/-- In front of the script the optional fields are told apart by whether they are there. -/
theorem front_inj (hf : f.HasPayload) (hg : g.HasPayload)
    (hcoins : f.coins.isSome = g.coins.isSome) (htoken : f.token.isSome = g.token.isSome)
    (h : f.front = g.front) :
    f.version = g.version ∧ f.prevouts = g.prevouts ∧ f.coins = g.coins ∧
      f.sequences = g.sequences ∧ f.prevout = g.prevout ∧ f.token = g.token ∧
      f.scriptCode = g.scriptCode := by
  obtain ⟨hversion, h⟩ := List.append_inj h (by simp)
  obtain ⟨hprevouts, h⟩ := hash_append_inj h
  obtain ⟨hcoins, h⟩ := elim_append_inj hcoins (fun _ _ _ _ ↦ hash_append_inj) h
  obtain ⟨hsequences, h⟩ := hash_append_inj h
  obtain ⟨hprevout, h⟩ := List.append_inj h (by simp)
  have hpayload (x y : Bytes) (hx : f.token = some x) (hy : g.token = some y) {rest rest' : Bytes}
      (hxy : TokenData.marker :: x ++ rest = TokenData.marker :: y ++ rest') :
      x = y ∧ rest = rest' := by
    obtain ⟨t, rfl, ht⟩ := hf x hx
    obtain ⟨u, rfl, hu⟩ := hg y hy
    exact TokenData.delimited_encode.append_inj ht hu (List.cons.inj hxy).2
  obtain ⟨htoken, hscriptCode⟩ := elim_append_inj htoken (fun x y hx hy ↦ hpayload x y hx hy) h
  exact ⟨Bytes.ofInt32_injective hversion, hprevouts, hcoins, hsequences,
    OutPoint.encode_injective hprevout, htoken, CompactSize.encodeBytes_injective hscriptCode⟩

/-- The fields can be told from the preimage. The hash type is read first, from the end, as it says
whether there is a hash of the coins. -/
theorem encode_inj (hf : f.HasPayload) (hg : g.HasPayload)
    (hcoins : f.hashType = g.hashType → f.coins.isSome = g.coins.isSome)
    (htoken : f.token.isSome = g.token.isSome) (h : f.encode = g.encode) : f = g := by
  obtain ⟨hfront, hback⟩ := List.append_inj' h (f.length_back.trans g.length_back.symm)
  obtain ⟨hvalue, hsequence, houtputs, hlockTime, hhashType⟩ := back_inj hback
  obtain ⟨hversion, hprevouts, hsameCoins, hsequences, hprevout, hsameToken, hscriptCode⟩ :=
    front_inj hf hg (hcoins hhashType) htoken hfront
  exact ForkIdFields.ext hversion hprevouts hsameCoins hsequences hprevout hsameToken hscriptCode
    hvalue hsequence houtputs hlockTime hhashType

end ForkIdFields

/-! ## Requests -/

/-- What is given where a digest is asked for. The context knows the coins of all inputs, hashes that
are shared are those of the context, and byte strings are no longer than those in memory. -/
structure ForkIdRequest where
  scriptCode : Bytes
  context : SpendContext
  hashType : HashType
  shared : Option SharedHashes
  coins : List TxOutput
  hasForkId : hashType.hasForkId = true
  allCoins_eq : context.allCoins? = some coins
  shared_eq : ∀ hashes, shared = some hashes → hashes = .ofContext context
  length_outputs : ∀ output ∈ context.tx.outputs, output.wrappedScript.length < UInt64.size
  length_coins : ∀ coin ∈ coins, coin.wrappedScript.length < UInt64.size

theorem SpendContext.ownCoin_mem {c : SpendContext} {coins : List TxOutput}
    (h : c.allCoins? = some coins) : c.ownCoin ∈ coins := by
  unfold allCoins? at h
  unfold ownCoin
  split
  · next all hall =>
    rw [hall] at h
    cases h
    exact List.get_mem _ _
  · next coin hcoin =>
    rw [hcoin] at h
    cases h

namespace ForkIdRequest

variable {flags : ScriptFlags} {x : ForkIdRequest}

def tx (x : ForkIdRequest) : Transaction := x.context.tx

def digest (flags : ScriptFlags) (x : ForkIdRequest) : Hash256 :=
  signatureDigest x.scriptCode x.context x.hashType flags x.shared

/-! ## What is hashed -/

/-- Does the digest cover all outpoints? -/
def coversPrevouts (x : ForkIdRequest) : Bool := !x.hashType.hasAnyoneCanPay

def coversSequences (x : ForkIdRequest) : Bool :=
  !x.hashType.hasAnyoneCanPay && x.hashType.commitsToAllOutputs

def coversCoins (flags : ScriptFlags) (x : ForkIdRequest) : Bool :=
  x.hashType.hasUtxos && flags.contains .enableTokens

/-- The outputs that are hashed, if any are: all of them, or the one at the place of the input. -/
def signedOutputs? (x : ForkIdRequest) : Option (List TxOutput) :=
  if x.hashType.commitsToAllOutputs then some x.tx.outputs
  else if x.hashType.base = HashType.single then x.tx.outputs[x.context.index]?.map ([·])
  else none

def prevoutsString (x : ForkIdRequest) : Bytes :=
  x.tx.inputs.flatMap fun input ↦ input.prevout.encode

def sequencesString (x : ForkIdRequest) : Bytes :=
  x.tx.inputs.flatMap fun input ↦ Bytes.ofUInt32 input.sequence

def preimage (flags : ScriptFlags) (x : ForkIdRequest) : Bytes :=
  forkIdPreimage x.scriptCode x.context x.hashType flags x.shared

/-- The strings that are hashed on the way to the digest. -/
def hashedStrings (flags : ScriptFlags) (x : ForkIdRequest) : List Bytes :=
  x.preimage flags ::
    ((if x.coversPrevouts then [x.prevoutsString] else []) ++
      (if x.coversSequences then [x.sequencesString] else []) ++
      x.signedOutputs?.elim [] (fun outputs ↦ [outputs.flatMap TxOutput.encode]) ++
      if x.coversCoins flags then [x.coins.flatMap TxOutput.encode] else [])

theorem preimage_mem (x : ForkIdRequest) : x.preimage flags ∈ x.hashedStrings flags :=
  List.mem_cons_self

theorem prevoutsString_mem (h : x.coversPrevouts = true) :
    x.prevoutsString ∈ x.hashedStrings flags := by
  simp [hashedStrings, h]

theorem sequencesString_mem (h : x.coversSequences = true) :
    x.sequencesString ∈ x.hashedStrings flags := by
  simp [hashedStrings, h]

theorem outputsString_mem {outputs : List TxOutput} (h : x.signedOutputs? = some outputs) :
    outputs.flatMap TxOutput.encode ∈ x.hashedStrings flags := by
  simp [hashedStrings, h]

theorem coinsString_mem (h : x.coversCoins flags = true) :
    x.coins.flatMap TxOutput.encode ∈ x.hashedStrings flags := by
  simp [hashedStrings, h]

theorem mem_of_signedOutputs? {outputs : List TxOutput} (h : x.signedOutputs? = some outputs) :
    ∀ output ∈ outputs, output ∈ x.tx.outputs := by
  unfold signedOutputs? at h
  split at h
  · cases h
    exact fun _ hmem ↦ hmem
  · split at h
    · obtain ⟨output, houtput, rfl⟩ := Option.map_eq_some_iff.mp h
      intro other hother
      rw [List.mem_singleton.mp hother]
      exact List.mem_of_getElem? houtput
    · cases h

/-! ## The preimage -/

def fields (flags : ScriptFlags) (x : ForkIdRequest) : ForkIdFields where
  version := x.tx.version
  prevouts := if x.coversPrevouts then doubleSha256 x.prevoutsString else .zero
  coins := if x.coversCoins flags then some (outputsHash x.coins) else none
  sequences := if x.coversSequences then doubleSha256 x.sequencesString else .zero
  prevout := x.context.input.prevout
  token :=
    if flags.contains .enableTokens then x.context.ownCoin.token.map TokenData.encode else none
  scriptCode := x.scriptCode
  value := x.context.ownCoin.value
  sequence := x.context.input.sequence
  outputs := x.signedOutputs?.elim .zero outputsHash
  lockTime := x.tx.lockTime
  hashType := x.hashType

/-- Shared hashes are those that would be computed without them. -/
theorem elim_shared (x : ForkIdRequest) (part : SharedHashes → α) :
    x.shared.elim (part (.ofContext x.context)) part = part (.ofContext x.context) := by
  cases hshared : x.shared with
  | none => rfl
  | some hashes => rw [Option.elim_some, x.shared_eq hashes hshared]

theorem signedCoinsHash?_eq (flags : ScriptFlags) (x : ForkIdRequest) :
    signedCoinsHash? x.context x.hashType flags x.shared =
      if x.coversCoins flags then some (outputsHash x.coins) else none := by
  have hcoins : (x.shared.bind (·.coins)).or (x.context.allCoins?.map outputsHash) =
      some (outputsHash x.coins) := by
    cases hshared : x.shared with
    | none => simp [x.allCoins_eq]
    | some hashes =>
      rw [x.shared_eq hashes hshared]
      simp [SharedHashes.ofContext, x.allCoins_eq]
  unfold signedCoinsHash? coversCoins
  rw [hcoins]

/-- The hash of the outputs, shared or computed, with zero for none. -/
theorem signedOutputsHash_eq (x : ForkIdRequest) :
    signedOutputsHash x.context x.hashType x.shared = x.signedOutputs?.elim .zero outputsHash := by
  have hshared := x.elim_shared (·.outputs)
  unfold signedOutputsHash signedOutputs?
  split
  · exact hshared
  · split
    · unfold tx
      cases x.context.tx.outputs[x.context.index]? <;> rfl
    · rfl

/-- The preimage is the encoding of its fields. -/
theorem preimage_eq (flags : ScriptFlags) (x : ForkIdRequest) :
    x.preimage flags = (x.fields flags).encode := by
  have hprevouts : (if x.hashType.hasAnyoneCanPay then .zero
      else x.shared.elim (prevoutsHash x.context.tx) (·.prevouts)) = (x.fields flags).prevouts := by
    have hshared := x.elim_shared (·.prevouts)
    unfold fields coversPrevouts
    cases x.hashType.hasAnyoneCanPay with
    | true => rfl
    | false => exact hshared
  have hsequences : (if !x.hashType.hasAnyoneCanPay && x.hashType.commitsToAllOutputs then
      x.shared.elim (sequencesHash x.context.tx) (·.sequences) else .zero) =
      (x.fields flags).sequences := by
    have hshared := x.elim_shared (·.sequences)
    unfold fields coversSequences
    cases !x.hashType.hasAnyoneCanPay && x.hashType.commitsToAllOutputs with
    | true => exact hshared
    | false => rfl
  have htoken : (if flags.contains .enableTokens then
      x.context.ownCoin.token.elim [] fun token ↦ TokenData.marker :: token.encode else []) =
      (x.fields flags).token.elim [] (TokenData.marker :: ·) := by
    unfold fields
    cases flags.contains .enableTokens <;> cases x.context.ownCoin.token <;> rfl
  unfold preimage forkIdPreimage ForkIdFields.encode ForkIdFields.front ForkIdFields.back
  simp only [hprevouts, hsequences, htoken, signedCoinsHash?_eq, signedOutputsHash_eq,
    List.append_assoc]
  rfl

theorem digest_eq (hflags : flags.contains .enableSighashForkId = true) (x : ForkIdRequest) :
    x.digest flags = doubleSha256 (x.preimage flags) := by
  unfold digest signatureDigest
  rw [if_pos (by rw [x.hasForkId, hflags]; rfl)]
  rfl

theorem hasPayload_fields (flags : ScriptFlags) (x : ForkIdRequest) : (x.fields flags).HasPayload := by
  intro payload hpayload
  unfold fields at hpayload
  dsimp only at hpayload
  split at hpayload
  · obtain ⟨t, ht, rfl⟩ := Option.map_eq_some_iff.mp hpayload
    have hlength := x.length_coins _ (SpendContext.ownCoin_mem x.allCoins_eq)
    have hcommitment := t.length_commitment_le
    unfold TxOutput.wrappedScript at hlength
    rw [ht] at hlength
    simp only [List.length_cons, List.length_append] at hlength
    exact ⟨t, rfl, by omega⟩
  · cases hpayload

end ForkIdRequest

end UtxoConsensus
