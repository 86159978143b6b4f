import UtxoConsensus.Proofs.Money.CompactAmounts
import UtxoConsensus.Proofs.Script.StoredScripts
import UtxoConsensus.Proofs.Transaction.WireFormat

/-!
# Which outputs are read from storage as they were stored

The stored form of an output is the code of its value and the stored form of its script field. The reader
finds the end of both, and the script field and the token are always those of the output. The value is so
only where its code has 64 bits. Negative values are refused.
-/

namespace UtxoConsensus.TxOutput

open Decoder

variable {output : TxOutput}

def withValue (output : TxOutput) (value : Amount) : TxOutput :=
  { output with value := value }

theorem withValue_eq_iff {value : Amount} : output.withValue value = output ↔ value = output.value := by
  cases output with
  | mk value' lockingScript token => simp [withValue]

theorem IsWritable.withValue (h : output.IsWritable) (value : Amount) : (output.withValue value).IsWritable :=
  ⟨h.length_wrappedScript, h.token, h.script⟩

/-- What is read, with the value that goes with the code. -/
theorem IsWritable.run_decodeCompressed (h : output.IsWritable)
    (hlength : output.wrappedScript.length ≤ Script.maxSize) (code : UInt64) (rest : Bytes) :
    decodeCompressed.run (VarInt.encode code.toNat ++ Script.encodeCompressed output.wrappedScript ++ rest) =
      .ok (output.withValue (Amount.decompress code)) rest := by
  have hvalue := (h.withValue (Amount.decompress code)).ofWrapped_eq
  unfold decodeCompressed
  rw [List.append_assoc, VarInt.inverts_decode.run_bind_eq_ok]
  refine ⟨code.toNat, _, code.toNat_lt, rfl, ?_⟩
  rw [run_bind_eq_ok]
  refine ⟨output.wrappedScript, rest, Script.run_encodeCompressed hlength rest, ?_⟩
  rw [run_pure_eq_ok, UInt64.ofNat_toNat]
  exact ⟨hvalue.symm, rfl⟩

/-- Negative values are not stored. -/
theorem encodeCompressed_of_neg (h : output.value.toInt < 0) :
    output.encodeCompressed = .error ⟨output.value⟩ := by
  unfold encodeCompressed
  rw [Amount.compress_of_neg h]

/-- The code of the value, and then the script. -/
theorem encodeCompressed_of_compress {code : UInt64} (h : output.value.compress = some code) :
    output.encodeCompressed =
      .ok (VarInt.encode code.toNat ++ Script.encodeCompressed output.wrappedScript) := by
  unfold encodeCompressed
  rw [h]

/-- **Storage keeps all of an output but a large value.** Of an output with a script that can be run, and that
can be told from its script field, a negative value is refused. Any other is stored, and read back with the same
script and the same token, and what follows is left. The value that is read is the one that was stored if and
only if that ends in a zero or is at most `maxCoded`. -/
theorem storedOutputs_value_iff (h : output.IsWritable)
    (hlength : output.wrappedScript.length ≤ Script.maxSize) :
    (output.value.toInt < 0 → output.encodeCompressed = .error ⟨output.value⟩) ∧
    (0 ≤ output.value.toInt → ∃ (bytes : Bytes) (value : Amount), output.encodeCompressed = .ok bytes ∧
      (∀ rest : Bytes, decodeCompressed.run (bytes ++ rest) = .ok (output.withValue value) rest) ∧
      (output.withValue value = output ↔
        output.value.toInt % 10 = 0 ∨ output.value.toInt ≤ Amount.maxCoded)) := by
  refine ⟨encodeCompressed_of_neg, fun hnonneg ↦ ?_⟩
  obtain ⟨code, hcompress, hkept⟩ := Amount.exists_compress_decompress_iff hnonneg
  refine ⟨_, Amount.decompress code, encodeCompressed_of_compress hcompress,
    h.run_decodeCompressed hlength code, ?_⟩
  rw [withValue_eq_iff, hkept]

/-- An output of any value, with a token and a script of one byte. -/
def tokenPayment (satoshis : Int64) : TxOutput :=
  ⟨⟨satoshis⟩, [0x51], some (.fungible (.filled 0xaa) 300)⟩

theorem length_wrappedScript_tokenPayment (satoshis : Int64) :
    (tokenPayment satoshis).wrappedScript.length = 38 := by
  rfl

theorem isWritable_tokenPayment (satoshis : Int64) : (tokenPayment satoshis).IsWritable where
  length_wrappedScript := by
    rw [length_wrappedScript_tokenPayment]
    decide
  token := by
    rintro t ⟨⟩
    exact ⟨by decide, .inl (by decide)⟩
  script := nofun

/-- The largest value that is not lost and the one after it, and a negative one. -/
theorem storedOutputs_value_iff_tokenPayment :
    (tokenPayment 2049638230412172402).wrappedScript.length ≤ Script.maxSize ∧
    (tokenPayment (-1)).encodeCompressed = .error ⟨⟨-1⟩⟩ ∧
    (∃ bytes : Bytes, (tokenPayment 2049638230412172402).encodeCompressed = .ok bytes ∧
      decodeCompressed.run (bytes ++ [7]) = .ok (tokenPayment 2049638230412172402) [7]) ∧
    ∃ (bytes : Bytes) (value : Amount), (tokenPayment 2049638230412172403).encodeCompressed = .ok bytes ∧
      decodeCompressed.run (bytes ++ [7]) = .ok ((tokenPayment 2049638230412172403).withValue value) [7] ∧
      (tokenPayment 2049638230412172403).withValue value ≠ tokenPayment 2049638230412172403 := by
  have hlength (satoshis : Int64) : (tokenPayment satoshis).wrappedScript.length ≤ Script.maxSize := by
    rw [length_wrappedScript_tokenPayment]
    decide
  have hstored (satoshis : Int64) :=
    storedOutputs_value_iff (isWritable_tokenPayment satoshis) (hlength satoshis)
  refine ⟨hlength _, (hstored (-1)).1 (by decide), ?_, ?_⟩
  · obtain ⟨bytes, value, hencode, hread, hkept⟩ := (hstored 2049638230412172402).2 (by decide)
    have hsame := hread [7]
    rw [hkept.mpr (.inr (by decide))] at hsame
    exact ⟨bytes, hencode, hsame⟩
  · obtain ⟨bytes, value, hencode, hread, hkept⟩ := (hstored 2049638230412172403).2 (by decide)
    exact ⟨bytes, value, hencode, hread [7], mt hkept.mp (by decide)⟩

/-- The largest value of all is stored and is not read back. -/
theorem not_forall_storedOutputs_readBack :
    ¬ ∀ (output : TxOutput) (bytes rest : Bytes), output.IsWritable →
      output.wrappedScript.length ≤ Script.maxSize → output.encodeCompressed = .ok bytes →
      decodeCompressed.run (bytes ++ rest) = .ok output rest := by
  intro h
  have hwritable : (plain ⟨9223372036854775807⟩ [0x51]).IsWritable :=
    ⟨by decide, nofun, fun _ ↦ by decide⟩
  have hlength : (plain ⟨9223372036854775807⟩ [0x51]).wrappedScript.length ≤ Script.maxSize := by decide
  obtain ⟨code, hcompress, hkept⟩ :=
    Amount.exists_compress_decompress_iff (a := ⟨9223372036854775807⟩) (by decide)
  have hread := h _ _ [] hwritable hlength (encodeCompressed_of_compress hcompress)
  rw [hwritable.run_decodeCompressed hlength, EStateM.Result.ok.injEq, withValue_eq_iff] at hread
  exact absurd (hkept.mp hread.1) (by decide)

end UtxoConsensus.TxOutput
