import UtxoConsensus.Proofs.Wire.CompactSize
import UtxoConsensus.Transaction.Token

/-!
# Token payloads are read as they are written

One byte of a payload tells which parts follow, and the value of each part tells whether it is there:
an empty commitment and an amount of zero are never written. So the byte is a function of the token, and
the token of the byte and the parts. A script field keeps its bytes whether or not it holds a token.
-/

namespace UtxoConsensus

theorem Capability.ofByte?_eq_some_iff {b : UInt8} {c : Capability} :
    ofByte? b = some c ↔ b = c.toByte := by
  constructor
  · intro h
    unfold ofByte? at h
    repeat' split at h
    all_goals cases h
    all_goals assumption
  · rintro rfl
    exact ofByte?_toByte c

namespace TokenData

open Decoder

/-! ## The byte that tells the parts -/

/-- The byte of a payload with the given parts. -/
def partsByte (hasCommitment hasNft hasAmount : Bool) (capability : Capability) : UInt8 :=
  (if hasCommitment then commitmentBit else 0) ||| (if hasNft then nftBit else 0) |||
    (if hasAmount then amountBit else 0) ||| capability.toByte

/-- The byte tells which parts there are. -/
theorem bitfield_eq (t : TokenData) :
    t.bitfield = partsByte t.hasCommitment t.hasNft t.hasAmount t.capability := rfl

set_option maxRecDepth 4096 in
/-- A byte is made of its single bits and its low half. -/
theorem eq_or_of_reservedBit {bits : UInt8} (hreserved : bits &&& reservedBit = 0) :
    bits = (if bits &&& commitmentBit != 0 then commitmentBit else 0) |||
      (if bits &&& nftBit != 0 then nftBit else 0) |||
      (if bits &&& amountBit != 0 then amountBit else 0) ||| bits &&& 0x0f := by
  -- There are 256 bytes.
  cases bits with
  | ofBitVec bits =>
    cases bits with
    | ofFin bits =>
      revert bits
      decide

/-- A byte that announces the parts of a payload, and the parts that it announces. -/
theorem eq_partsByte_iff {bits : UInt8} {hasCommitment hasNft hasAmount : Bool}
    {capability : Capability} :
    bits = partsByte hasCommitment hasNft hasAmount capability ↔
      bits &&& reservedBit = 0 ∧ Capability.ofByte? (bits &&& 0x0f) = some capability ∧
        (bits &&& commitmentBit != 0) = hasCommitment ∧ (bits &&& nftBit != 0) = hasNft ∧
        (bits &&& amountBit != 0) = hasAmount := by
  constructor
  · rintro rfl
    revert hasCommitment hasNft hasAmount
    cases capability <;> decide
  · rintro ⟨hreserved, hcapability, rfl, rfl, rfl⟩
    rw [Capability.ofByte?_eq_some_iff] at hcapability
    unfold partsByte
    rw [← hcapability]
    exact eq_or_of_reservedBit hreserved

/-! ## The parts -/

theorem inverts_decodeCommitment :
    decodeCommitment.Inverts CompactSize.encodeBytes
      fun b ↦ b.isEmpty = false ∧ b.length ≤ CompactSize.maxSerializedSize := by
  intro unread b rest
  unfold decodeCommitment
  simp only [CompactSize.inverts_decodeBytes.run_bind_eq_ok, run_unless_eq_ok, run_pure_eq_ok,
    Bool.not_eq_true]
  constructor
  · rintro ⟨b, _, hlength, rfl, hempty, rfl, rfl⟩
    exact ⟨⟨hempty, hlength⟩, rfl⟩
  · rintro ⟨⟨hempty, hlength⟩, rfl⟩
    exact ⟨b, rest, hlength, rfl, hempty, rfl, rfl⟩

/-- Amounts are signed words, and positive ones are read. -/
theorem inverts_decodeAmount :
    decodeAmount.Inverts (fun a ↦ CompactSize.encode a.toUInt64.toNat) fun a ↦ 0 < a := by
  intro unread a rest
  unfold decodeAmount
  simp only [(CompactSize.inverts_decodeShortest _).run_bind_eq_ok, run_unless_eq_ok,
    run_pure_eq_ok, not_or]
  constructor
  · rintro ⟨n, _, hn, rfl, ⟨hzero, hmax⟩, rfl, rfl⟩
    rw [Int64.toInt_maxValue] at hmax
    have hvalue : (Int64.ofNat n).toInt = n := Int64.toInt_ofNat_of_lt (by omega)
    have hword : (Int64.ofNat n).toUInt64.toNat = n := UInt64.toNat_ofNat_of_lt hn
    rw [hword, Int64.lt_iff_toInt_lt, hvalue]
    exact ⟨Int.natCast_pos.mpr (Nat.pos_of_ne_zero hzero), rfl⟩
  · rintro ⟨hpositive, rfl⟩
    have hvalue : a.toUInt64.toNat = a.toNatClampNeg :=
      Int64.toNat_toUInt64_of_le (Int64.le_of_lt hpositive)
    have hmax : a.toNatClampNeg < 2 ^ 63 := a.toNatClampNeg_lt
    have hmin : 0 < a.toNatClampNeg := (Int64.toNatClampNeg_pos_iff a).mpr hpositive
    refine ⟨a.toUInt64.toNat, rest, a.toUInt64.toNat_lt, rfl, ?_, ?_, rfl⟩
    · rw [hvalue, Int64.toInt_maxValue]
      omega
    · rw [hvalue, Int64.ofNat_toNatClampNeg a (Int64.le_of_lt hpositive)]

/-- A part that is read if it is announced, and takes a fixed value otherwise. -/
theorem inverts_optional {d : Decoder α} {encode : α → Bytes} {good : α → Prop}
    (h : d.Inverts encode good) (present : Bool) (absent : α) :
    Inverts (if present = true then d else pure absent)
      (fun a ↦ if present = true then encode a else [])
      fun a ↦ if present = true then good a else a = absent := by
  intro unread a rest
  cases present with
  | false => simp only [Bool.false_eq_true, if_false, run_pure_eq_ok, List.nil_append]
  | true => simpa using h unread a rest

/-- The commitment is there unless it is empty. -/
theorem inverts_optionalCommitment (present : Bool) :
    Inverts (if present = true then decodeCommitment else pure [])
      (fun b ↦ if present = true then CompactSize.encodeBytes b else [])
      fun b ↦ b.isEmpty = !present ∧ b.length ≤ CompactSize.maxSerializedSize := by
  intro unread b rest
  rw [(inverts_optional inverts_decodeCommitment present []).run_eq_ok]
  apply and_congr_left
  intro _
  cases present with
  | false =>
    simp only [Bool.false_eq_true, if_false, Bool.not_false, List.isEmpty_iff]
    exact ⟨fun h ↦ ⟨h, h ▸ Nat.zero_le _⟩, And.left⟩
  | true => simp only [if_true, Bool.not_true]

/-- The amount is there unless it is zero. -/
theorem inverts_optionalAmount (present : Bool) :
    Inverts (if present = true then decodeAmount else pure 0)
      (fun a ↦ if present = true then CompactSize.encode a.toUInt64.toNat else [])
      fun a ↦ (a != 0) = present ∧ 0 ≤ a := by
  intro unread a rest
  rw [(inverts_optional inverts_decodeAmount present 0).run_eq_ok]
  apply and_congr_left
  intro _
  cases present with
  | false =>
    simp only [Bool.false_eq_true, if_false, bne_eq_false_iff_eq]
    exact ⟨fun h ↦ ⟨h, h ▸ Int64.le_refl 0⟩, And.left⟩
  | true =>
    simp only [if_true, bne_iff_ne]
    rw [Int64.lt_iff_le_and_ne]
    exact ⟨fun h ↦ ⟨h.2.symm, h.1⟩, fun h ↦ ⟨h.2, h.1.symm⟩⟩

/-! ## Payloads -/

/-- A token with something in it, whose commitment is short enough to be read. -/
structure IsWritable (t : TokenData) : Prop where
  amount_nonneg : 0 ≤ t.amount
  pos_or_hasNft : 0 < t.amount ∨ t.hasNft = true
  length_commitment : t.commitment.length ≤ CompactSize.maxSerializedSize

/-- An amount that is there is positive. -/
theorem hasAmount_iff {t : TokenData} (hnonneg : 0 ≤ t.amount) :
    t.hasAmount = true ↔ 0 < t.amount := by
  unfold hasAmount
  rw [bne_iff_ne, Int64.lt_iff_le_and_ne]
  exact ⟨fun h ↦ ⟨hnonneg, h.symm⟩, fun h ↦ h.2.symm⟩

/-- Parts that fit together make a token that has just these parts. -/
theorem parts_of_fit {t : TokenData} {category : Hash256} {amount : Int64} {capability : Capability}
    {commitment : Bytes} {hasCommitment hasNft : Bool}
    (hfit : ¬ (!hasNft && (hasCommitment || capability != .none)) = true)
    (hcommitment : commitment.isEmpty = !hasCommitment)
    (ht : t = ⟨category, amount, if hasNft = true then some ⟨capability, commitment⟩ else none⟩) :
    t.hasCommitment = hasCommitment ∧ t.hasNft = hasNft ∧ t.capability = capability ∧
      t.commitment = commitment := by
  rw [ht]
  cases hasNft with
  | true =>
    have hthere : (!commitment.isEmpty) = hasCommitment := by rw [hcommitment, Bool.not_not]
    exact ⟨hthere, rfl, rfl, rfl⟩
  | false =>
    have hnone : hasCommitment = false ∧ capability = .none := by simpa using hfit
    have hempty : commitment = [] := by simpa [hnone.1] using hcommitment
    rw [hnone.1, hnone.2, hempty]
    exact ⟨rfl, rfl, rfl, rfl⟩

/-- A token is made of its parts, and these fit together. -/
theorem fit_parts (t : TokenData) :
    ¬ (!t.hasNft && (t.hasCommitment || t.capability != .none)) = true ∧
      t = ⟨t.category, t.amount,
        if t.hasNft = true then some ⟨t.capability, t.commitment⟩ else none⟩ := by
  cases t with
  | mk category amount nft => cases nft <;> simp [hasNft, hasCommitment, commitment, capability]

/-- What the decoder asks of a byte and of the parts after it. -/
structure Announces (bits : UInt8) (capability : Capability) (commitment : Bytes) (amount : Int64) :
    Prop where
  reserved : bits &&& reservedBit = 0
  capability_eq : Capability.ofByte? (bits &&& 0x0f) = some capability
  fit : ¬ (!(bits &&& nftBit != 0) && (bits &&& commitmentBit != 0 || capability != .none)) = true
  present : ¬ (!(bits &&& nftBit != 0) && !(bits &&& amountBit != 0)) = true
  commitment_eq : commitment.isEmpty = !(bits &&& commitmentBit != 0)
  length_commitment : commitment.length ≤ CompactSize.maxSerializedSize
  amount_eq : (amount != 0) = (bits &&& amountBit != 0)
  amount_nonneg : 0 ≤ amount

/-- The steps of the decoder, one after the other. -/
theorem run_decode_eq_ok {unread rest : Bytes} {t : TokenData} :
    decode.run unread = .ok t rest ↔
      ∃ category bits capability commitment amount, Announces bits capability commitment amount ∧
        unread = category.bytes ++ bits ::
          ((if bits &&& commitmentBit != 0 then CompactSize.encodeBytes commitment else []) ++
            ((if bits &&& amountBit != 0 then CompactSize.encode amount.toUInt64.toNat else []) ++
              rest)) ∧
        t = ⟨category, amount, if bits &&& nftBit != 0 then some ⟨capability, commitment⟩ else none⟩ := by
  unfold decode
  simp only [inverts_hash.run_bind_eq_ok, inverts_uint8.run_bind_eq_ok, ↓run_unless_eq_ok]
  constructor
  · rintro ⟨category, _, -, rfl, bits, _, -, rfl, hreserved, h⟩
    cases hcapability : Capability.ofByte? (bits &&& 0x0f) with
    | none =>
      rw [hcapability] at h
      exact (run_throw_eq_ok.mp h).elim
    | some capability =>
      rw [hcapability] at h
      rw [run_unless_eq_ok, run_unless_eq_ok, run_ite_bind,
        (inverts_optionalCommitment _).run_bind_eq_ok] at h
      obtain ⟨hfit, hpresent, commitment, _, ⟨hcommitment, hlength⟩, rfl, h⟩ := h
      rw [run_ite_bind, (inverts_optionalAmount _).run_bind_eq_ok] at h
      obtain ⟨amount, _, ⟨hamount, hnonneg⟩, rfl, h⟩ := h
      obtain ⟨ht, rfl⟩ := run_pure_eq_ok.mp h
      have hzero : bits &&& reservedBit = 0 := by simpa using hreserved
      exact ⟨category, bits, capability, commitment, amount,
        ⟨hzero, hcapability, hfit, hpresent, hcommitment, hlength, hamount, hnonneg⟩, rfl, ht⟩
  · rintro ⟨category, bits, capability, commitment, amount, h, rfl, ht⟩
    refine ⟨category, _, trivial, rfl, bits, _, trivial, rfl, by simp [h.reserved], ?_⟩
    rw [h.capability_eq, run_unless_eq_ok, run_unless_eq_ok, run_ite_bind,
      (inverts_optionalCommitment _).run_bind_eq_ok]
    refine ⟨h.fit, h.present, commitment, _, ⟨h.commitment_eq, h.length_commitment⟩, rfl, ?_⟩
    rw [run_ite_bind, (inverts_optionalAmount _).run_bind_eq_ok]
    exact ⟨amount, rest, ⟨h.amount_eq, h.amount_nonneg⟩, rfl, run_pure_eq_ok.mpr ⟨ht, rfl⟩⟩

/-- The parts of a token are announced by its byte. -/
theorem IsWritable.announces {t : TokenData} (h : t.IsWritable) :
    Announces t.bitfield t.capability t.commitment t.amount := by
  obtain ⟨hreserved, hcapability, hcommitment, hnft, hamount⟩ := eq_partsByte_iff.mp t.bitfield_eq
  have hpresent := h.pos_or_hasNft
  rw [← hasAmount_iff h.amount_nonneg] at hpresent
  refine ⟨hreserved, hcapability, ?_, ?_, ?_, h.length_commitment, hamount.symm, h.amount_nonneg⟩
  · rw [hnft, hcommitment]
    exact t.fit_parts.1
  · rw [hnft, hamount]
    rcases hpresent with hpart | hpart <;> simp [hpart]
  · rw [hcommitment]
    exact (Bool.not_not _).symm

/-- Parts that are announced make a token, whose byte announces them. -/
theorem Announces.isWritable {bits : UInt8} {capability : Capability} {commitment : Bytes}
    {amount : Int64} (h : Announces bits capability commitment amount) {t : TokenData}
    {category : Hash256}
    (ht : t = ⟨category, amount, if bits &&& nftBit != 0 then some ⟨capability, commitment⟩ else none⟩) :
    t.IsWritable ∧ t.bitfield = bits ∧ t.commitment = commitment := by
  obtain ⟨hthisCommitment, hthisNft, hthisCapability, hcontent⟩ :=
    parts_of_fit h.fit h.commitment_eq ht
  have hthisAmount : t.hasAmount = (bits &&& amountBit != 0) := by
    rw [ht]
    exact h.amount_eq
  have hnonneg : 0 ≤ t.amount := by
    rw [ht]
    exact h.amount_nonneg
  have hbits := eq_partsByte_iff.mpr ⟨h.reserved, h.capability_eq, rfl, rfl, rfl⟩
  refine ⟨⟨hnonneg, ?_, ?_⟩, ?_, hcontent⟩
  · have hpresent := h.present
    rw [Bool.and_eq_true, Bool.not_eq_true', Bool.not_eq_true', Classical.not_and_iff_not_or_not,
      Bool.not_eq_false, Bool.not_eq_false] at hpresent
    rw [← hasAmount_iff hnonneg, hthisAmount, hthisNft]
    exact hpresent.symm
  · rw [hcontent]
    exact h.length_commitment
  · rw [bitfield_eq, hthisCommitment, hthisNft, hthisCapability, hthisAmount, ← hbits]

/-- Token data are read exactly as they are written. -/
theorem inverts_decode : decode.Inverts encode IsWritable := by
  intro unread t rest
  rw [run_decode_eq_ok]
  unfold encode
  simp only [List.append_assoc, List.cons_append]
  constructor
  · rintro ⟨category, bits, capability, commitment, amount, h, rfl, ht⟩
    obtain ⟨hwritable, hbits, hcontent⟩ := h.isWritable ht
    obtain ⟨-, -, hcommitment, -, hamount⟩ := eq_partsByte_iff.mp t.bitfield_eq
    rw [hbits] at hcommitment hamount
    refine ⟨hwritable, ?_⟩
    rw [hbits, ← hcommitment, ← hamount, hcontent, ht]
  · rintro ⟨hwritable, rfl⟩
    obtain ⟨-, -, hcommitment, hnft, hamount⟩ := eq_partsByte_iff.mp t.bitfield_eq
    refine ⟨t.category, t.bitfield, t.capability, t.commitment, t.amount, hwritable.announces, ?_, ?_⟩
    · rw [hcommitment, hamount]
    · rw [hnft]
      exact t.fit_parts.2

end TokenData

end UtxoConsensus
