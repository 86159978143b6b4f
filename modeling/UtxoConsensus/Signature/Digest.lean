import UtxoConsensus.Script.Flags
import UtxoConsensus.Script.Instruction
import UtxoConsensus.Signature.HashType
import UtxoConsensus.Spend.Context
import UtxoConsensus.Transaction.Wire

/-!
# Signature digests

What a transaction signature signs. The legacy digest hashes a copy of the transaction from which
the parts that are left open have been taken out. The replay-protected digest hashes a fixed list of
fields, of which the larger ones are hashes themselves and can be shared by all inputs.
-/

namespace UtxoConsensus

open Digest (doubleSha256)

/-! ## Shared hashes -/

def prevoutsHash (tx : Transaction) : Hash256 :=
  doubleSha256 (tx.inputs.flatMap fun input ↦ input.prevout.encode)

def sequencesHash (tx : Transaction) : Hash256 :=
  doubleSha256 (tx.inputs.flatMap fun input ↦ Bytes.ofUInt32 input.sequence)

/-- The hash of a list of outputs, or of coins. -/
def outputsHash (outputs : List TxOutput) : Hash256 :=
  doubleSha256 (outputs.flatMap TxOutput.encode)

/-- The hashes that the signatures of all inputs have in common. -/
structure SharedHashes where
  prevouts : Hash256
  sequences : Hash256
  outputs : Hash256
  /-- The hash of all coins, where they are known. -/
  coins : Option Hash256
deriving DecidableEq

def SharedHashes.ofContext (c : SpendContext) : SharedHashes where
  prevouts := prevoutsHash c.tx
  sequences := sequencesHash c.tx
  outputs := outputsHash c.tx.outputs
  coins := c.allCoins?.map outputsHash

/-! ## The replay-protected digest -/

/-- Does a signature commit to other inputs and outputs than its own? -/
def HashType.commitsToAllOutputs (t : HashType) : Bool :=
  t.base != HashType.single && t.base != HashType.noOutputs

/-- The hash of the coins of all inputs, for the hash types that commit to it. -/
def signedCoinsHash? (c : SpendContext) (t : HashType) (flags : ScriptFlags)
    (shared : Option SharedHashes) : Option Hash256 :=
  if t.hasUtxos && flags.contains .enableTokens then
    (shared.bind (·.coins)).or (c.allCoins?.map outputsHash)
  else none

/-- The hash of the outputs that a hash type commits to. -/
def signedOutputsHash (c : SpendContext) (t : HashType) (shared : Option SharedHashes) : Hash256 :=
  if t.commitsToAllOutputs then
    shared.elim (outputsHash c.tx.outputs) (·.outputs)
  else if t.base = HashType.single then
    match c.tx.outputs[c.index]? with
    | some output => outputsHash [output]
    | none => .zero
  else .zero

/-- The fields that a replay-protected signature signs. -/
def forkIdPreimage (scriptCode : Bytes) (c : SpendContext) (t : HashType) (flags : ScriptFlags)
    (shared : Option SharedHashes) : Bytes :=
  let prevouts :=
    if t.hasAnyoneCanPay then .zero else shared.elim (prevoutsHash c.tx) (·.prevouts)
  let coins := (signedCoinsHash? c t flags shared).elim [] Hash256.bytes
  let sequences :=
    if !t.hasAnyoneCanPay && t.commitsToAllOutputs then
      shared.elim (sequencesHash c.tx) (·.sequences)
    else .zero
  let token :=
    if flags.contains .enableTokens then
      c.ownCoin.token.elim [] fun token ↦ TokenData.marker :: token.encode
    else []
  Bytes.ofInt32 c.tx.version ++ prevouts.bytes ++ coins ++ sequences.bytes ++
    c.input.prevout.encode ++ token ++ CompactSize.encodeBytes scriptCode ++
    Bytes.ofInt64 c.ownCoin.value.satoshis ++ Bytes.ofUInt32 c.input.sequence ++
    (signedOutputsHash c t shared).bytes ++ Bytes.ofUInt32 c.tx.lockTime ++ Bytes.ofUInt32 t.raw

def forkIdDigest (scriptCode : Bytes) (c : SpendContext) (t : HashType) (flags : ScriptFlags)
    (shared : Option SharedHashes) : Hash256 :=
  doubleSha256 (forkIdPreimage scriptCode c t flags shared)

/-! ## The legacy digest -/

/-- What is signed where a signature asks for something that is not there. -/
def digestOne : Hash256 :=
  ⟨1 :: List.replicate 31 0, by simp⟩

/-- An input as the legacy digest sees it: the signed one with the script code, the others with an
empty script and, where outputs are left open, with the sequence number zero. -/
def legacyInput (scriptCode : Bytes) (signed : Bool) (t : HashType) (input : TxInput) : Bytes :=
  input.prevout.encode ++
    (if signed then CompactSize.encodeBytes (Script.withoutCodeSeparators scriptCode)
      else CompactSize.encode 0) ++
    Bytes.ofUInt32 (if signed || t.commitsToAllOutputs then input.sequence else 0)

/-- The inputs that the legacy digest keeps, after their count. -/
def legacyInputs (scriptCode : Bytes) (inputs : List TxInput) (index : Nat) (t : HashType) : Bytes :=
  if t.hasAnyoneCanPay then
    CompactSize.encode 1 ++
      (inputs[index]?).elim [] (legacyInput scriptCode true t)
  else
    CompactSize.encode inputs.length ++
      (inputs.zipIdx.flatMap fun (input, position) ↦
        legacyInput scriptCode (position == index) t input)

/-- The outputs that the legacy digest keeps, after their count. With `single` the ones before the
place of the input are replaced by placeholders. -/
def legacyOutputs (outputs : List TxOutput) (index : Nat) (t : HashType) : Bytes :=
  if t.base = HashType.noOutputs then CompactSize.encode 0
  else if t.base = HashType.single then
    CompactSize.encode (index + 1) ++
      ((List.replicate index TxOutput.null).flatMap TxOutput.encode ++
        (outputs[index]?).elim [] TxOutput.encode)
  else CompactSize.encodeList TxOutput.encode outputs

def legacyDigest (scriptCode : Bytes) (tx : Transaction) (index : Nat) (t : HashType) : Hash256 :=
  if index ≥ tx.inputs.length then digestOne
  else if t.base = HashType.single ∧ index ≥ tx.outputs.length then digestOne
  else
    doubleSha256 (Bytes.ofInt32 tx.version ++ legacyInputs scriptCode tx.inputs index t ++
      legacyOutputs tx.outputs index t ++ Bytes.ofUInt32 tx.lockTime ++ Bytes.ofUInt32 t.raw)

/-! ## Choice of the digest -/

/-- The digest for a hash type under the given rules. -/
def signatureDigest (scriptCode : Bytes) (c : SpendContext) (t : HashType) (flags : ScriptFlags)
    (shared : Option SharedHashes) : Hash256 :=
  if t.hasForkId && flags.contains .enableSighashForkId then
    forkIdDigest scriptCode c t flags shared
  else legacyDigest scriptCode c.tx c.index t

end UtxoConsensus
