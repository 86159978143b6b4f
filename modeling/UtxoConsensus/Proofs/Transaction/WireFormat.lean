import UtxoConsensus.Proofs.Transaction.Tokens
import UtxoConsensus.Transaction.Wire

/-!
# The wire format of transactions

Transactions are read exactly as they are written. A byte string that is read as a transaction is the
written form of that transaction and of no other, so that the hash that names the transaction is that
of the bytes that were received. In the other direction every transaction within the bounds of the
format is read back, unless one of its scripts could be taken for a token. The script field of an
output keeps its bytes in any case.
-/

namespace UtxoConsensus

open Decoder

/-! ## Script fields -/

theorem TokenData.length_commitment_le (t : TokenData) : t.commitment.length ≤ t.encode.length := by
  unfold TokenData.encode
  cases hpresent : t.hasCommitment with
  | false =>
    have hempty : t.commitment = [] := by simpa [TokenData.hasCommitment] using hpresent
    rw [hempty]
    exact Nat.zero_le _
  | true =>
    simp only [if_true, CompactSize.encodeBytes, List.length_append, List.length_cons]
    omega

namespace TxOutput

theorem value_ofWrapped (value : Amount) (wrapped : Bytes) : (ofWrapped value wrapped).value = value := by
  unfold ofWrapped
  repeat' split
  all_goals rfl

/-- Whatever is read from a script field, its bytes can be told from it. -/
theorem wrappedScript_ofWrapped (value : Amount) (wrapped : Bytes) :
    (ofWrapped value wrapped).wrappedScript = wrapped := by
  cases wrapped with
  | nil => rfl
  | cons first payload =>
    unfold ofWrapped
    dsimp only
    split
    · next hfirst =>
      split
      · next token rest hread =>
        obtain ⟨-, hpayload⟩ := TokenData.inverts_decode.run_eq_ok.mp hread
        rw [hfirst, hpayload]
        rfl
      · rfl
    · rfl

/-- An output that can be told from its script field: its token has something in it, or it has no token
and its script does not begin as one. -/
structure IsWritable (output : TxOutput) : Prop where
  length_wrappedScript : output.wrappedScript.length ≤ CompactSize.maxSerializedSize
  token : ∀ t, output.token = some t → 0 ≤ t.amount ∧ (0 < t.amount ∨ t.hasNft = true)
  script : output.token = none → output.lockingScript.head? ≠ some TokenData.marker

/-- Tokens and script are found again in the script field. -/
theorem IsWritable.ofWrapped_eq {output : TxOutput} (h : output.IsWritable) :
    ofWrapped output.value output.wrappedScript = output := by
  obtain ⟨hlength, htoken, hscript⟩ := h
  unfold wrappedScript at hlength
  cases output with
  | mk value lockingScript token =>
    cases token with
    | some t =>
      obtain ⟨hnonneg, hpresent⟩ := htoken t rfl
      have hcommitment : t.commitment.length ≤ CompactSize.maxSerializedSize := by
        have hle := t.length_commitment_le
        simp only [List.length_cons, List.length_append] at hlength
        omega
      have hread : TokenData.decode.run (t.encode ++ lockingScript) = .ok t lockingScript :=
        TokenData.inverts_decode.run_encode ⟨hnonneg, hpresent, hcommitment⟩ lockingScript
      simp only [ofWrapped, wrappedScript, if_true, hread]
    | none =>
      cases lockingScript with
      | nil => rfl
      | cons first rest =>
        have hfirst : first ≠ TokenData.marker := fun heq ↦ hscript rfl (congrArg some heq)
        simp only [ofWrapped, wrappedScript, if_neg hfirst]
        rfl

end TxOutput

/-! ## Parts of a transaction -/

theorem OutPoint.inverts_decode : OutPoint.decode.Inverts OutPoint.encode fun _ ↦ True := by
  intro unread o rest
  unfold OutPoint.decode OutPoint.encode
  simp only [inverts_hash.run_bind_eq_ok, inverts_uint32.run_bind_eq_ok, run_pure_eq_ok, true_and,
    List.append_assoc]
  constructor
  · rintro ⟨hash, _, rfl, index, _, rfl, rfl, rfl⟩
    rfl
  · rintro rfl
    exact ⟨o.hash, _, rfl, o.index, _, rfl, rfl, rfl⟩

/-- An input is read exactly as it is written, if its script is not too long. -/
theorem TxInput.inverts_decode :
    TxInput.decode.Inverts TxInput.encode
      fun input ↦ input.unlockingScript.length ≤ CompactSize.maxSerializedSize := by
  intro unread input rest
  unfold TxInput.decode TxInput.encode
  simp only [OutPoint.inverts_decode.run_bind_eq_ok, CompactSize.inverts_decodeBytes.run_bind_eq_ok,
    inverts_uint32.run_bind_eq_ok, run_pure_eq_ok, true_and, List.append_assoc]
  constructor
  · rintro ⟨prevout, _, rfl, script, _, hscript, rfl, sequence, _, rfl, rfl, rfl⟩
    exact ⟨hscript, rfl⟩
  · rintro ⟨hscript, rfl⟩
    exact ⟨input.prevout, _, rfl, input.unlockingScript, _, hscript, rfl, input.sequence, _, rfl, rfl, rfl⟩

/-- Outputs are read back if their script field is read as what it was. -/
theorem TxOutput.inverts_decode :
    TxOutput.decode.Inverts TxOutput.encode fun output ↦
      output.wrappedScript.length ≤ CompactSize.maxSerializedSize ∧
        ofWrapped output.value output.wrappedScript = output := by
  intro unread output rest
  unfold TxOutput.decode TxOutput.encode
  simp only [inverts_int64.run_bind_eq_ok, CompactSize.inverts_decodeBytes.run_bind_eq_ok,
    run_pure_eq_ok, true_and, List.append_assoc]
  constructor
  · rintro ⟨satoshis, _, rfl, wrapped, _, hlength, rfl, rfl, rfl⟩
    rw [wrappedScript_ofWrapped, value_ofWrapped]
    exact ⟨⟨hlength, rfl⟩, rfl⟩
  · rintro ⟨⟨hlength, hsame⟩, rfl⟩
    exact ⟨output.value.satoshis, _, rfl, output.wrappedScript, _, hlength, rfl, hsame.symm, rfl⟩

/-! ## Transactions -/

namespace Transaction

/-- A transaction is read exactly as it is written, if no list and no script is too long. -/
theorem inverts_decode :
    decode.Inverts encode fun tx ↦
      (tx.inputs.length ≤ CompactSize.maxSerializedSize ∧
        ∀ input ∈ tx.inputs, input.unlockingScript.length ≤ CompactSize.maxSerializedSize) ∧
      tx.outputs.length ≤ CompactSize.maxSerializedSize ∧
        ∀ output ∈ tx.outputs, output.wrappedScript.length ≤ CompactSize.maxSerializedSize ∧
          TxOutput.ofWrapped output.value output.wrappedScript = output := by
  intro unread tx rest
  unfold decode encode
  simp only [inverts_int32.run_bind_eq_ok, inverts_uint32.run_bind_eq_ok, run_pure_eq_ok, true_and,
    (CompactSize.inverts_decodeList TxInput.inverts_decode).run_bind_eq_ok,
    (CompactSize.inverts_decodeList TxOutput.inverts_decode).run_bind_eq_ok, List.append_assoc]
  constructor
  · rintro ⟨version, _, rfl, inputs, _, hinputs, rfl, outputs, _, houtputs, rfl, lockTime, _, rfl, rfl, rfl⟩
    exact ⟨⟨hinputs, houtputs⟩, rfl⟩
  · rintro ⟨⟨hinputs, houtputs⟩, rfl⟩
    exact ⟨tx.version, _, rfl, tx.inputs, _, hinputs, rfl, tx.outputs, _, houtputs, rfl, tx.lockTime, _,
      rfl, rfl, rfl⟩

/-- A transaction within the bounds of the format, with outputs that can be told from their script
fields. -/
structure IsWritable (tx : Transaction) : Prop where
  length_inputs : tx.inputs.length ≤ CompactSize.maxSerializedSize
  length_outputs : tx.outputs.length ≤ CompactSize.maxSerializedSize
  unlockingScripts :
    ∀ input ∈ tx.inputs, input.unlockingScript.length ≤ CompactSize.maxSerializedSize
  outputs : ∀ output ∈ tx.outputs, output.IsWritable

/-- What was written is read back, and what follows it is left. -/
theorem IsWritable.run_encode {tx : Transaction} (h : tx.IsWritable) (rest : Bytes) :
    decode.run (tx.encode ++ rest) = .ok tx rest := by
  apply inverts_decode.run_encode
  refine ⟨⟨h.length_inputs, h.unlockingScripts⟩, h.length_outputs, ?_⟩
  intro output houtput
  have hwritable : output.IsWritable := h.outputs output houtput
  exact ⟨hwritable.length_wrappedScript, hwritable.ofWrapped_eq⟩

/-- What is read takes up the whole data. -/
theorem encode_of_runWhole {tx : Transaction} {data : Bytes} (h : decode.runWhole data = .ok tx) :
    tx.encode = data := by
  obtain ⟨-, hdata⟩ := inverts_decode.run_eq_ok.mp (runWhole_eq_ok.mp h)
  rw [hdata, List.append_nil]

/-- **The wire format is a bijection.** Data that is read as a transaction is the written form of it,
so the transaction is named by the hash of the data, and no other data is read as the same one. A
transaction within the bounds of the format is read back, whatever follows it. The script field of an
output keeps its bytes. -/
theorem wireFormat_bijective :
    (∀ (data : Bytes) (tx : Transaction), decode.runWhole data = .ok tx →
      tx.encode = data ∧ tx.txid = Digest.doubleSha256 data ∧
        ∀ other : Bytes, decode.runWhole other = .ok tx → other = data) ∧
    (∀ tx : Transaction, tx.IsWritable → ∀ rest : Bytes,
      decode.run (tx.encode ++ rest) = .ok tx rest) ∧
    ∀ (value : Amount) (wrapped : Bytes),
      (TxOutput.ofWrapped value wrapped).wrappedScript = wrapped := by
  refine ⟨?_, fun tx htx rest ↦ htx.run_encode rest, TxOutput.wrappedScript_ofWrapped⟩
  intro data tx hread
  have hdata : tx.encode = data := encode_of_runWhole hread
  refine ⟨hdata, ?_, ?_⟩
  · rw [txid, hdata]
  · intro other hother
    rw [← encode_of_runWhole hother, hdata]

/-- A transaction whose first output carries an amount and a token with a commitment. -/
def taggedPayment : Transaction :=
  ⟨2, [⟨⟨.filled 0x11, 3⟩, [0x51], 0xfffffffe⟩],
    [⟨⟨1000⟩, [0x51], some ⟨.filled 0xaa, 300, some ⟨.mutable, [9]⟩⟩⟩, .plain ⟨5000⟩ [0x76, 0xa9]], 99⟩

theorem isWritable_taggedPayment : taggedPayment.IsWritable where
  length_inputs := by decide
  length_outputs := by decide
  unlockingScripts := by decide
  outputs := by
    intro output houtput
    simp only [taggedPayment, List.mem_cons, List.not_mem_nil, or_false] at houtput
    rcases houtput with rfl | rfl
    · refine ⟨by decide, ?_, nofun⟩
      rintro t ⟨⟩
      exact ⟨by decide, .inr rfl⟩
    · exact ⟨by decide, nofun, fun _ ↦ by decide⟩

/-- It is read from its bytes, also where two more bytes follow. -/
theorem wireFormat_bijective_taggedPayment :
    taggedPayment.IsWritable ∧ decode.runWhole taggedPayment.encode = .ok taggedPayment ∧
      taggedPayment.txid = Digest.doubleSha256 taggedPayment.encode ∧
      decode.run (taggedPayment.encode ++ [0, 0]) = .ok taggedPayment [0, 0] := by
  have hwhole : decode.runWhole taggedPayment.encode = .ok taggedPayment := by rfl
  exact ⟨isWritable_taggedPayment, hwhole, (wireFormat_bijective.1 _ _ hwhole).2.1,
    wireFormat_bijective.2.1 _ isWritable_taggedPayment [0, 0]⟩

end Transaction

end UtxoConsensus
