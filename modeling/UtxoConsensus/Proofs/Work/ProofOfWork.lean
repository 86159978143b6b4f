import UtxoConsensus.Proofs.Word256.LongDivision
import UtxoConsensus.Proofs.Work.CompactTargets
import UtxoConsensus.Work.Proof

/-!
# Proof of work in numbers

The target that 32 bits stand for is valid if it is positive and fits into a word. The work of a block is the
number of hashes divided by the number of those that meet the target. The former does not fit into a word, and
what is divided in its place is the number of hashes that do not meet the target; the quotient is one less.
No sum on the way wraps: the largest word has no compact form, and at least two hashes meet a valid target.
-/

namespace UtxoConsensus

variable {bits : UInt32}

/-! ## Valid targets -/

namespace CompactTarget

/-- The bits stand for a number that a target can be. -/
structure IsValid (bits : UInt32) : Prop where
  unsigned : isSigned bits = false
  pos : 0 < magnitude bits
  lt : magnitude bits < 2 ^ 256

theorem IsValid.toNat_target (h : IsValid bits) : (decode bits).target.toNat = magnitude bits := by
  rw [(decode_spec bits).1, Nat.mod_eq_of_lt h.lt]

theorem isValid_decode_iff : (decode bits).isValid = true ↔ IsValid bits := by
  obtain ⟨htarget, hoverflow, hnegative⟩ := decode_spec bits
  simp only [isValid, Bool.and_eq_true, Bool.not_eq_true', ← Bool.not_eq_true, hnegative, hoverflow,
    Word256.isZero_iff, htarget]
  constructor
  · rintro ⟨⟨hsign, hfits⟩, hzero⟩
    have hlt := Nat.lt_of_not_le hfits
    rw [Nat.mod_eq_of_lt hlt] at hzero
    have hunsigned : isSigned bits = false := Bool.eq_false_iff.mpr fun hsigned ↦ hsign ⟨hzero, hsigned⟩
    exact ⟨hunsigned, Nat.pos_of_ne_zero hzero, hlt⟩
  · rintro ⟨hunsigned, hpos, hlt⟩
    rw [Nat.mod_eq_of_lt hlt]
    exact ⟨⟨fun hsign ↦ Bool.false_ne_true (hunsigned ▸ hsign.2), Nat.not_le_of_lt hlt⟩, Nat.ne_of_gt hpos⟩

/-- All ones is not a compact number: its last digit is not zero, and all of its digits are too many. -/
theorem IsCompact.succ_ne {n : Nat} (h : IsCompact n) : n + 1 ≠ 2 ^ 256 := by
  obtain ⟨m, k, hm, rfl⟩ := h
  intro heq
  cases k with
  | zero => omega
  | succ k =>
    rw [Nat.pow_succ, ← Nat.mul_assoc] at heq
    omega

/-- The number of hashes that meet a target is a word. -/
theorem IsValid.succ_lt (h : IsValid bits) : magnitude bits + 1 < 2 ^ 256 :=
  Nat.lt_of_le_of_ne h.lt (isCompact_magnitude bits).succ_ne

end CompactTarget

open CompactTarget

/-! ## Hashes that meet a target -/

/-- What it takes to pass the check. -/
theorem checkProofOfWork_iff (hash : Hash256) (bits : UInt32) (params : WorkParams) :
    checkProofOfWork hash bits params = true ↔ IsValid bits ∧
      magnitude bits ≤ params.limit.toNat ∧ hash.bytes.toNat ≤ magnitude bits := by
  unfold checkProofOfWork
  rw [Bool.and_eq_true, Bool.and_eq_true, decide_eq_true_eq, decide_eq_true_eq, and_assoc,
    isValid_decode_iff, Word256.le_iff_toNat_le, Word256.le_iff_toNat_le, Word256.toNat_ofHash]
  apply and_congr_right
  intro hvalid
  rw [hvalid.toNat_target]

/-! ## Work -/

/-- The work of a valid target, exactly. -/
theorem CompactTarget.IsValid.toNat_blockProof (h : CompactTarget.IsValid bits) :
    (blockProof bits).toNat = 2 ^ 256 / (magnitude bits + 1) := by
  have hsucc := h.succ_lt
  generalize hread : (decode bits).target = target
  have htarget : target.toNat = magnitude bits := hread ▸ h.toNat_target
  have hdivisor : (target + .one).toNat = magnitude bits + 1 := by
    rw [Word256.toNat_add, htarget, Word256.toNat_one, Word256.size_eq, Nat.mod_eq_of_lt hsucc]
  obtain ⟨division, hdivision, hquotient, -⟩ :=
    target.complement.divRem?_eq_some (d := target + .one) (by rw [hdivisor]; exact Nat.succ_pos _)
  have hless : 2 ^ 256 / (magnitude bits + 1) < 2 ^ 256 :=
    Nat.div_lt_self (by decide) (Nat.succ_lt_succ h.pos)
  have hwork : division.quotient.toNat + 1 = 2 ^ 256 / (magnitude bits + 1) := by
    rw [hquotient, hdivisor, Word256.toNat_complement, htarget, Word256.size_eq, Nat.sub_sub, Nat.add_comm 1]
    exact (Nat.div_eq_sub_div (Nat.succ_pos _) (Nat.le_of_lt hsucc)).symm
  have hproof : blockProof bits = division.quotient + .one := by
    simp only [blockProof, isValid_decode_iff.mpr h, if_true, hread, hdivision]
  rw [hproof, Word256.toNat_add, Word256.toNat_one, hwork, Word256.size_eq, Nat.mod_eq_of_lt hless]

/-- A target that is not valid is no work. -/
theorem toNat_blockProof_of_not_isValid (h : ¬IsValid bits) : (blockProof bits).toNat = 0 := by
  unfold blockProof
  rw [if_neg (mt isValid_decode_iff.mp h), Word256.toNat_zero]

theorem CompactTarget.IsValid.blockProof_pos (h : CompactTarget.IsValid bits) :
    1 ≤ (blockProof bits).toNat := by
  rw [h.toNat_blockProof]
  exact Nat.div_pos (Nat.le_of_lt h.succ_lt) (Nat.succ_pos _)

/-- Proof of work is decided in the integers: the check asks that the sign is not set, that the target is
positive and not above the limit, and that the hash is not above the target. The work of a block is the
rounded quotient of the number of hashes by the number of those that meet the target, and nothing for what is
no target. So a harder target never proves less, and what the check accepts proves some work. -/
theorem checkProofOfWork_blockProof_exact :
    (∀ (hash : Hash256) (bits : UInt32) (params : WorkParams),
      checkProofOfWork hash bits params = true ↔
        isSigned bits = false ∧ 0 < magnitude bits ∧ magnitude bits ≤ params.limit.toNat ∧
          hash.bytes.toNat ≤ magnitude bits) ∧
    (∀ bits : UInt32, (blockProof bits).toNat =
      if isSigned bits = false ∧ 0 < magnitude bits ∧ magnitude bits < 2 ^ 256 then
        2 ^ 256 / (magnitude bits + 1)
      else 0) ∧
    (∀ hard easy : UInt32, IsValid hard → IsValid easy →
      magnitude hard ≤ magnitude easy → (blockProof easy).toNat ≤ (blockProof hard).toNat) ∧
    ∀ (header : BlockHeader) (params : WorkParams), header.checkProofOfWork params = true →
      1 ≤ (blockProof header.bits).toNat := by
  refine ⟨?check, ?work, ?order, ?accepted⟩
  case check =>
    intro hash bits params
    rw [checkProofOfWork_iff]
    constructor
    · rintro ⟨⟨hunsigned, hpos, -⟩, hlimit, hmeets⟩
      exact ⟨hunsigned, hpos, hlimit, hmeets⟩
    · rintro ⟨hunsigned, hpos, hlimit, hmeets⟩
      have hlt : magnitude bits < 2 ^ 256 := Word256.size_eq ▸ Nat.lt_of_le_of_lt hlimit params.limit.toNat_lt
      exact ⟨⟨hunsigned, hpos, hlt⟩, hlimit, hmeets⟩
  case work =>
    intro bits
    split
    · next hvalid => exact (IsValid.mk hvalid.1 hvalid.2.1 hvalid.2.2).toNat_blockProof
    · next hinvalid => exact toNat_blockProof_of_not_isValid fun h ↦ hinvalid ⟨h.unsigned, h.pos, h.lt⟩
  case order =>
    intro hard easy hhard heasy hle
    rw [hhard.toNat_blockProof, heasy.toNat_blockProof]
    exact Nat.div_le_div_left (Nat.succ_le_succ hle) (Nat.succ_pos _)
  case accepted =>
    intro header params haccepted
    exact ((checkProofOfWork_iff header.hash header.bits params).mp haccepted).1.blockProof_pos

/-- The easiest targets of the two networks. -/
theorem checkProofOfWork_blockProof_exact_limits : IsValid 0x1d00ffff ∧ IsValid 0x207fffff ∧
    magnitude 0x1d00ffff ≤ magnitude 0x207fffff ∧
    (blockProof 0x207fffff).toNat ≤ (blockProof 0x1d00ffff).toNat := by
  have hhard : IsValid 0x1d00ffff := ⟨by decide, by decide, by decide⟩
  have heasy : IsValid 0x207fffff := ⟨by decide, by decide, by decide⟩
  have hle : magnitude 0x1d00ffff ≤ magnitude 0x207fffff := by decide
  exact ⟨hhard, heasy, hle, checkProofOfWork_blockProof_exact.2.2.1 _ _ hhard heasy hle⟩

end UtxoConsensus
