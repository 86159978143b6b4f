import UtxoConsensus.Proofs.Transaction.WireFormat

/-!
# Written forms that tell where they end

Fields that are written one after the other, without a count in front or a separator between them, can
be told apart if no written form is the beginning of another one. Forms of a fixed width are of this
kind, as are those that a decoder inverts. It is a property of the written forms and not of the values:
two outputs may be written in the same way, and amounts that no decoder accepts still end where they say.
-/

namespace UtxoConsensus

/-- No written form of a good value is the beginning of a different one. -/
def Delimited (encode : α → Bytes) (good : α → Prop) : Prop :=
  ∀ a b, good a → good b → ∀ rest rest' : Bytes,
    encode a ++ rest = encode b ++ rest' → encode a = encode b

namespace Delimited

variable {encode : α → Bytes} {good : α → Prop}

/-- Where one encoding ends is seen from its bytes. -/
theorem append_inj (h : Delimited encode good) {a b : α} {rest rest' : Bytes} (ha : good a)
    (hb : good b) (heq : encode a ++ rest = encode b ++ rest') :
    encode a = encode b ∧ rest = rest' := by
  have hform : encode a = encode b := h a b ha hb rest rest' heq
  rw [hform] at heq
  exact ⟨hform, List.append_cancel_left heq⟩

/-! ## Rules -/

theorem of_length {width : Nat} (h : ∀ a, (encode a).length = width) :
    Delimited encode fun _ ↦ True := by
  intro a b _ _ rest rest' heq
  have hwidth : (encode a).length = (encode b).length := (h a).trans (h b).symm
  exact (List.append_inj heq hwidth).1

theorem of_inverts {d : Decoder α} (h : d.Inverts encode good) : Delimited encode good := by
  intro a b ha hb rest rest' heq
  rw [(h.append_inj ha hb heq).1]

/-- A part of a value, written in its own form. -/
theorem part (h : Delimited encode good) (f : β → α) :
    Delimited (fun b ↦ encode (f b)) fun b ↦ good (f b) :=
  fun a b ↦ h (f a) (f b)

/-- A part that is there for all values, or for none. -/
theorem optional (h : Delimited encode good) (present : Bool) :
    Delimited (fun a ↦ if present = true then encode a else []) good := by
  cases present with
  | false => exact fun _ _ _ _ _ _ _ ↦ rfl
  | true => simpa using h

theorem append {encode' : α → Bytes} {good' : α → Prop} (h : Delimited encode good)
    (h' : Delimited encode' good') :
    Delimited (fun a ↦ encode a ++ encode' a) fun a ↦ good a ∧ good' a := by
  intro a b ha hb rest rest' heq
  dsimp only at heq ⊢
  rw [List.append_assoc, List.append_assoc] at heq
  obtain ⟨hfirst, htail⟩ := h.append_inj ha.1 hb.1 heq
  obtain ⟨hsecond, -⟩ := h'.append_inj ha.2 hb.2 htail
  rw [hfirst, hsecond]

/-- Forms in a row are told apart, with nothing between them. -/
theorem map_eq_of_flatMap (h : Delimited encode good) (hne : ∀ a, encode a ≠ []) {l m : List α}
    (hl : ∀ a ∈ l, good a) (hm : ∀ a ∈ m, good a) (heq : l.flatMap encode = m.flatMap encode) :
    l.map encode = m.map encode := by
  induction l generalizing m with
  | nil =>
    cases m with
    | nil => rfl
    | cons b m =>
      rw [List.flatMap_nil, List.flatMap_cons] at heq
      exact absurd (List.append_eq_nil_iff.mp heq.symm).1 (hne b)
  | cons a l ih =>
    cases m with
    | nil =>
      rw [List.flatMap_nil, List.flatMap_cons] at heq
      exact absurd (List.append_eq_nil_iff.mp heq).1 (hne a)
    | cons b m =>
      rw [List.forall_mem_cons] at hl hm
      rw [List.flatMap_cons, List.flatMap_cons] at heq
      obtain ⟨hhead, htail⟩ := h.append_inj hl.1 hm.1 heq
      rw [List.map_cons, List.map_cons, hhead, ih hl.2 hm.2 htail]

/-- Parts of a fixed width that are told by their written form, in a row. -/
theorem map_eq_of_length {encode : α → Bytes} {width : Nat} (hlength : ∀ a, (encode a).length = width)
    (hpos : 0 < width) (hinj : ∀ a b, encode a = encode b → a = b) (f : β → α) {l m : List β}
    (heq : (l.flatMap fun b ↦ encode (f b)) = m.flatMap fun b ↦ encode (f b)) : l.map f = m.map f := by
  have hdelimited := (of_length hlength).part f
  have hne (b : β) : encode (f b) ≠ [] := by
    intro hnil
    have hzero := hlength (f b)
    rw [hnil, List.length_nil] at hzero
    omega
  have hforms := hdelimited.map_eq_of_flatMap hne (fun _ _ ↦ trivial) (fun _ _ ↦ trivial) heq
  have hcomp (l : List β) : (l.map fun b ↦ encode (f b)) = (l.map f).map encode :=
    List.map_map.symm
  rw [hcomp, hcomp] at hforms
  exact (List.map_inj_right hinj).mp hforms

end Delimited

/-! ## Byte strings -/

namespace CompactSize

theorem delimited_encodeBytes : Delimited encodeBytes fun b ↦ b.length < UInt64.size := by
  intro a b ha hb rest rest' heq
  rw [(encodeBytes_append_inj ha hb heq).1]

theorem length_encode (n : Nat) : (encode n).length = encodedLength n := by
  unfold encode encodedLength
  repeat' split
  all_goals simp [Bytes.length_ofNat]

theorem encodeBytes_ne_nil (b : Bytes) : encodeBytes b ≠ [] := by
  have hlength : 0 < (encode b.length).length := by
    rw [length_encode]
    unfold encodedLength
    repeat' split
    all_goals decide
  exact List.append_ne_nil_of_left_ne_nil (List.length_pos_iff.mp hlength) b

/-- A longer byte string has a longer form, so that its form alone tells a byte string of any length. -/
theorem encodeBytes_injective {a b : Bytes} (h : encodeBytes a = encodeBytes b) : a = b := by
  have htotal : encodedLength a.length + a.length = encodedLength b.length + b.length := by
    have hlengths := congrArg List.length h
    simpa only [encodeBytes, List.length_append, length_encode] using hlengths
  have hlength : a.length = b.length := by
    unfold encodedLength at htotal
    repeat' split at htotal
    all_goals omega
  exact List.append_inj_right' h hlength

end CompactSize

/-! ## Parts of a transaction -/

namespace OutPoint

@[simp] theorem length_encode (o : OutPoint) : o.encode.length = 36 := by
  simp [encode, o.hash.length_bytes]

theorem encode_injective {o p : OutPoint} (h : o.encode = p.encode) : o = p := by
  obtain ⟨hhash, hindex⟩ := List.append_inj h (by simp [o.hash.length_bytes, p.hash.length_bytes])
  cases o with
  | mk hash index =>
    cases p with
    | mk hash' index' =>
      have hsameHash : hash = hash' := Bytes.hash_injective hhash
      have hsameIndex : index = index' := Bytes.ofUInt32_injective hindex
      rw [hsameHash, hsameIndex]

end OutPoint

/-- The byte in front tells which parts of a token follow. -/
theorem TokenData.delimited_encode :
    Delimited TokenData.encode fun t ↦ t.commitment.length < UInt64.size := by
  intro t u ht hu rest rest' heq
  have hcategory := (Delimited.of_length Hash256.length_bytes).part TokenData.category
  have hcommitment := CompactSize.delimited_encodeBytes.part TokenData.commitment
  have hamount := (Delimited.of_inverts (CompactSize.inverts_decodeShortest .nonCanonicalSize)).part
    fun t : TokenData ↦ t.amount.toUInt64.toNat
  unfold TokenData.encode at heq ⊢
  rw [List.append_assoc, List.append_assoc] at heq
  obtain ⟨hsameCategory, hafter⟩ := hcategory.append_inj trivial trivial heq
  rw [List.cons_append, List.cons_append, List.cons.injEq] at hafter
  obtain ⟨hbits, hparts⟩ := hafter
  obtain ⟨-, -, htCommitment, -, htAmount⟩ := eq_partsByte_iff.mp t.bitfield_eq
  obtain ⟨-, -, huCommitment, -, huAmount⟩ := eq_partsByte_iff.mp u.bitfield_eq
  have hsameCommitment : u.hasCommitment = t.hasCommitment := by
    rw [← huCommitment, ← hbits, htCommitment]
  have hsameAmount : u.hasAmount = t.hasAmount := by
    rw [← huAmount, ← hbits, htAmount]
  rw [hsameCommitment, hsameAmount] at hparts ⊢
  have hboth := (hcommitment.optional t.hasCommitment).append (hamount.optional t.hasAmount)
  have hsame := hboth t u ⟨ht, t.amount.toUInt64.toNat_lt⟩ ⟨hu, u.amount.toUInt64.toNat_lt⟩
    rest rest' hparts
  dsimp only at hsame
  rw [hsameCategory, hbits, hsame]

namespace TxOutput

theorem delimited_encode :
    Delimited TxOutput.encode fun output ↦ output.wrappedScript.length < UInt64.size := by
  have hvalue := (Delimited.of_length Bytes.length_ofInt64).part
    fun output : TxOutput ↦ output.value.satoshis
  have hscript := CompactSize.delimited_encodeBytes.part wrappedScript
  have hboth := hvalue.append hscript
  exact fun o p ho hp ↦ hboth o p ⟨trivial, ho⟩ ⟨trivial, hp⟩

theorem encode_ne_nil (output : TxOutput) : output.encode ≠ [] :=
  List.append_ne_nil_of_right_ne_nil _ (CompactSize.encodeBytes_ne_nil output.wrappedScript)

end TxOutput

end UtxoConsensus
