import UtxoConsensus.Proofs.Script.CodeSeparators
import UtxoConsensus.Signature.Digest

/-!
# The copy behind the legacy digest

The legacy digest is the hash of a transaction, of a copy from which everything has been taken out that
the signature leaves open. The copy is made here in the order in which such a digest is explained: the
scripts, then the sequence numbers, then the outputs, then the other inputs. The digest writes the bytes
of the copy without making it, with counts of its own; the main statement says that these are the bytes
of the copy.
-/

namespace UtxoConsensus

namespace Transaction

/-! ## The copy -/

/-- The signed input takes the code for its script, and the scripts of the others are emptied. -/
def withCode (tx : Transaction) (index : Nat) (code : Bytes) : Transaction :=
  { tx with
    inputs := tx.inputs.mapIdx fun position input ↦
      { input with unlockingScript := if position = index then code else [] } }

/-- The sequence numbers of all inputs but the signed one are zero. -/
def withoutSequences (tx : Transaction) (index : Nat) : Transaction :=
  { tx with
    inputs := tx.inputs.mapIdx fun position input ↦
      if position = index then input else { input with sequence := 0 } }

def withoutOutputs (tx : Transaction) : Transaction :=
  { tx with outputs := [] }

/-- The outputs end at the place of the signed input, and those before it are placeholders. -/
def withOutputsUpTo (tx : Transaction) (index : Nat) : Transaction :=
  { tx with
    outputs := (tx.outputs.take (index + 1)).mapIdx fun position output ↦
      if position < index then .null else output }

/-- The signed input is the only one. -/
def withInput (tx : Transaction) (index : Nat) : Transaction :=
  { tx with inputs := tx.inputs[index]?.toList }

/-- The copy of a transaction that a signature with the given hash type commits to. -/
def legacyCopy (tx : Transaction) (code : Bytes) (index : Nat) (t : HashType) : Transaction :=
  let signed := tx.withCode index code
  let released :=
    if t.base = HashType.noOutputs ∨ t.base = HashType.single then signed.withoutSequences index
    else signed
  let cut :=
    if t.base = HashType.noOutputs then released.withoutOutputs
    else if t.base = HashType.single then released.withOutputsUpTo index
    else released
  if t.hasAnyoneCanPay then cut.withInput index else cut

end Transaction

/-! ## Its inputs -/

def copiedInput (code : Bytes) (signed : Bool) (t : HashType) (input : TxInput) : TxInput where
  prevout := input.prevout
  unlockingScript := if signed then code else []
  sequence := if signed || t.commitsToAllOutputs then input.sequence else 0

/-- What is streamed of an input is the encoding of the copied input. -/
theorem legacyInput_eq (scriptCode : Bytes) (signed : Bool) (t : HashType) (input : TxInput) :
    legacyInput scriptCode signed t input =
      (copiedInput (Script.withoutCodeSeparators scriptCode) signed t input).encode := by
  cases signed with
  | true => rfl
  | false => simp [legacyInput, copiedInput, TxInput.encode, CompactSize.encodeBytes]

theorem commitsToAllOutputs_eq_false_iff {t : HashType} :
    t.commitsToAllOutputs = false ↔ t.base = HashType.noOutputs ∨ t.base = HashType.single := by
  unfold HashType.commitsToAllOutputs
  rw [Bool.and_eq_false_iff, bne_eq_false_iff_eq, bne_eq_false_iff_eq]
  exact or_comm

/-- The scripts and the sequence numbers of the copy. -/
theorem inputs_released (tx : Transaction) (code : Bytes) (index : Nat) (t : HashType) :
    (if t.base = HashType.noOutputs ∨ t.base = HashType.single then
        (tx.withCode index code).withoutSequences index
      else tx.withCode index code).inputs =
      tx.inputs.mapIdx fun position input ↦ copiedInput code (position == index) t input := by
  by_cases hopen : t.base = HashType.noOutputs ∨ t.base = HashType.single
  · have hall : t.commitsToAllOutputs = false := commitsToAllOutputs_eq_false_iff.mpr hopen
    have hinput (position : Nat) (input : TxInput) :
        copiedInput code (position == index) t input =
          if position = index then { input with unlockingScript := code }
          else { input with unlockingScript := [], sequence := 0 } := by
      by_cases hposition : position = index <;> simp [copiedInput, hall, hposition]
    simp only [if_pos hopen, hinput, Transaction.withoutSequences, Transaction.withCode,
      List.mapIdx_mapIdx]
    congr 1
    funext position input
    by_cases hposition : position = index <;> simp [hposition]
  · have hall : t.commitsToAllOutputs = true := by
      rw [← commitsToAllOutputs_eq_false_iff, Bool.not_eq_false] at hopen
      exact hopen
    have hinput (position : Nat) (input : TxInput) :
        copiedInput code (position == index) t input =
          { input with unlockingScript := if position = index then code else [] } := by
      simp [copiedInput, hall]
    simp only [if_neg hopen, hinput]
    rfl

/-- The inputs of the copy: one alone if anyone can pay, all of them otherwise. -/
theorem inputs_legacyCopy (tx : Transaction) (code : Bytes) (index : Nat) (t : HashType) :
    (tx.legacyCopy code index t).inputs =
      if t.hasAnyoneCanPay then (tx.inputs[index]?.map (copiedInput code true t)).toList
      else tx.inputs.mapIdx fun position input ↦ copiedInput code (position == index) t input := by
  have hcut (released : Transaction) :
      (if t.base = HashType.noOutputs then released.withoutOutputs
        else if t.base = HashType.single then released.withOutputsUpTo index
        else released).inputs = released.inputs := by
    repeat' split
    all_goals rfl
  unfold Transaction.legacyCopy
  dsimp only
  split
  · unfold Transaction.withInput
    rw [hcut, inputs_released, List.getElem?_mapIdx, beq_self_eq_true]
  · rw [hcut, inputs_released]

/-! ## Its outputs -/

/-- The outputs of the copy: none, those up to the index with all but the last one blanked, or all. -/
theorem outputs_legacyCopy (tx : Transaction) (code : Bytes) (index : Nat) (t : HashType) :
    (tx.legacyCopy code index t).outputs =
      if t.base = HashType.noOutputs then []
      else if t.base = HashType.single then
        (tx.outputs.take (index + 1)).mapIdx fun position output ↦
          if position < index then .null else output
      else tx.outputs := by
  have hreleased : (if t.base = HashType.noOutputs ∨ t.base = HashType.single then
      (tx.withCode index code).withoutSequences index
      else tx.withCode index code).outputs = tx.outputs := by
    split <;> rfl
  have hcut (released : Transaction) (houtputs : released.outputs = tx.outputs) :
      (if t.base = HashType.noOutputs then released.withoutOutputs
        else if t.base = HashType.single then released.withOutputsUpTo index
        else released).outputs =
      if t.base = HashType.noOutputs then []
      else if t.base = HashType.single then
        (tx.outputs.take (index + 1)).mapIdx fun position output ↦
          if position < index then .null else output
      else tx.outputs := by
    rw [← houtputs]
    repeat' split
    all_goals rfl
  unfold Transaction.legacyCopy
  dsimp only
  split
  · exact hcut _ hreleased
  · exact hcut _ hreleased

/-- The outputs before the place of the input are as many placeholders. -/
theorem mapIdx_take_null {outputs : List TxOutput} {index : Nat} (hindex : index < outputs.length) :
    ((outputs.take (index + 1)).mapIdx fun position output ↦
        if position < index then TxOutput.null else output) =
      List.replicate index TxOutput.null ++ outputs[index]?.toList := by
  have hbefore : (outputs.take index).mapIdx (fun position output ↦
      if position < index then TxOutput.null else output) = List.replicate index TxOutput.null := by
    apply List.ext_getElem
    · simp; omega
    · intro position hposition _
      have hlt : position < index := by simp at hposition; omega
      simp [hlt]
  have hplace : (outputs.take index).length = index := by
    rw [List.length_take]
    omega
  rw [List.take_add_one, List.mapIdx_append, hbefore, hplace, List.getElem?_eq_getElem hindex]
  simp

/-! ## Its bytes -/

theorem version_legacyCopy (tx : Transaction) (code : Bytes) (index : Nat) (t : HashType) :
    (tx.legacyCopy code index t).version = tx.version ∧
      (tx.legacyCopy code index t).lockTime = tx.lockTime := by
  unfold Transaction.legacyCopy
  dsimp only
  repeat' split
  all_goals exact ⟨rfl, rfl⟩

theorem legacyInputs_eq {inputs : List TxInput} (scriptCode : Bytes) {index : Nat}
    (hindex : index < inputs.length) (t : HashType) :
    legacyInputs scriptCode inputs index t =
      CompactSize.encodeList TxInput.encode
        (if t.hasAnyoneCanPay then
          (inputs[index]?.map (copiedInput (Script.withoutCodeSeparators scriptCode) true t)).toList
        else inputs.mapIdx fun position input ↦
          copiedInput (Script.withoutCodeSeparators scriptCode) (position == index) t input) := by
  unfold legacyInputs CompactSize.encodeList
  split
  · simp [List.getElem?_eq_getElem hindex, legacyInput_eq]
  · rw [List.length_mapIdx, List.mapIdx_eq_zipIdx_map, List.map_map, List.flatMap_def]
    simp only [legacyInput_eq]
    rfl

theorem legacyOutputs_eq {outputs : List TxOutput} {index : Nat} {t : HashType}
    (hindex : t.base = HashType.single → index < outputs.length) :
    legacyOutputs outputs index t =
      CompactSize.encodeList TxOutput.encode
        (if t.base = HashType.noOutputs then []
        else if t.base = HashType.single then
          (outputs.take (index + 1)).mapIdx fun position output ↦
            if position < index then .null else output
        else outputs) := by
  unfold legacyOutputs
  split
  · rfl
  · split
    · next hsingle =>
      have hplace := hindex hsingle
      rw [mapIdx_take_null hplace, List.getElem?_eq_getElem hplace]
      simp [CompactSize.encodeList, List.flatMap_def]
    · rfl

/-- **The legacy digest is the hash of the copy.** Leaving out the separators gives the code, and one
code only. Where the signed input is not there, or the output at its place is not there though the hash
type asks for it, the digest is a constant. Otherwise it is the hash of the bytes of the copy, and of the
hash type after them. -/
theorem legacyDigest_eq_hash_of_copy (scriptCode : Bytes) (tx : Transaction) (index : Nat)
    (t : HashType) :
    ∃ code, (∀ other, Script.StripsTo scriptCode other ↔ other = code) ∧
      legacyDigest scriptCode tx index t =
        if index ≥ tx.inputs.length ∨ (t.base = HashType.single ∧ index ≥ tx.outputs.length) then
          digestOne
        else
          Digest.doubleSha256 ((tx.legacyCopy code index t).encode ++ Bytes.ofUInt32 t.raw) := by
  refine ⟨Script.withoutCodeSeparators scriptCode, fun other ↦ Script.stripsTo_iff, ?_⟩
  unfold legacyDigest
  by_cases hinput : index ≥ tx.inputs.length
  · rw [if_pos hinput, if_pos (.inl hinput)]
  · rw [if_neg hinput]
    by_cases houtput : t.base = HashType.single ∧ index ≥ tx.outputs.length
    · rw [if_pos houtput, if_pos (.inr houtput)]
    · rw [if_neg houtput, if_neg (not_or.mpr ⟨hinput, houtput⟩)]
      have hplace : t.base = HashType.single → index < tx.outputs.length :=
        fun hsingle ↦ Nat.lt_of_not_le fun hle ↦ houtput ⟨hsingle, hle⟩
      obtain ⟨hversion, hlockTime⟩ :=
        version_legacyCopy tx (Script.withoutCodeSeparators scriptCode) index t
      rw [legacyInputs_eq scriptCode (Nat.lt_of_not_le hinput), legacyOutputs_eq hplace,
        ← inputs_legacyCopy, ← outputs_legacyCopy tx (Script.withoutCodeSeparators scriptCode),
        Transaction.encode, hversion, hlockTime]

end UtxoConsensus
