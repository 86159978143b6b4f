import UtxoConsensus.Proofs.Word256.Digits

/-!
# Products of 256-bit words

A limb that is multiplied takes in the limb that is carried to it and hands the high limb of the product on.
What the last limb hands on has no place in the word, so that there is a product exactly if it is a word.
-/

namespace UtxoConsensus.Word256

/-- With the largest limbs the product still has two limbs. -/
theorem mul_add_lt (a factor carry : UInt64) :
    a.toNat * factor.toNat + carry.toNat < UInt64.size * UInt64.size := by
  have ha : a.toNat ≤ UInt64.size - 1 := Nat.le_sub_one_of_lt a.toNat_lt
  have hfactor : factor.toNat ≤ UInt64.size - 1 := Nat.le_sub_one_of_lt factor.toNat_lt
  have hcarry : carry.toNat ≤ UInt64.size - 1 := Nat.le_sub_one_of_lt carry.toNat_lt
  calc a.toNat * factor.toNat + carry.toNat
    _ ≤ (UInt64.size - 1) * (UInt64.size - 1) + (UInt64.size - 1) :=
      Nat.add_le_add (Nat.mul_le_mul ha hfactor) hcarry
    _ < UInt64.size * UInt64.size := by decide

/-- Nothing is lost in one limb. -/
theorem toNat_mulLimb (a factor carry : UInt64) :
    (mulLimb a factor carry).1.toNat + UInt64.size * (mulLimb a factor carry).2.toNat =
      a.toNat * factor.toNat + carry.toNat := by
  have hlt := mul_add_lt a factor carry
  have hhigh : (UInt64.ofNat ((a.toNat * factor.toNat + carry.toNat) / UInt64.size)).toNat =
      (a.toNat * factor.toNat + carry.toNat) / UInt64.size :=
    UInt64.toNat_ofNat_of_lt' (Nat.div_lt_of_lt_mul hlt)
  have hlow : (UInt64.ofNat (a.toNat * factor.toNat + carry.toNat)).toNat =
      (a.toNat * factor.toNat + carry.toNat) % UInt64.size := UInt64.toNat_ofNat'
  simp only [mulLimb, hhigh, hlow]
  exact Nat.mod_add_div _ _

/-- Four limbs and what leaves the last one make the product. -/
theorem exists_checkedMul (a : Word256) (factor : UInt64) : ∃ (low : Word256) (high : UInt64),
    low.toNat + size * high.toNat = a.toNat * factor.toNat ∧
      a.checkedMul factor = if high = 0 then some low else none := by
  have h0 := toNat_mulLimb a.limb0 factor 0
  have h1 := toNat_mulLimb a.limb1 factor (mulLimb a.limb0 factor 0).2
  have h2 := toNat_mulLimb a.limb2 factor (mulLimb a.limb1 factor (mulLimb a.limb0 factor 0).2).2
  have h3 := toNat_mulLimb a.limb3 factor
    (mulLimb a.limb2 factor (mulLimb a.limb1 factor (mulLimb a.limb0 factor 0).2).2).2
  refine ⟨_, _, ?_, rfl⟩
  rw [UInt64.toNat_zero] at h0
  simp only [toNat, Nat.add_mul, Nat.mul_assoc, size, UInt64.size] at h0 h1 h2 h3 ⊢
  omega

/-- There is a product exactly if it is a word. -/
theorem checkedMul_eq_some_iff {a product : Word256} {factor : UInt64} :
    a.checkedMul factor = some product ↔ product.toNat = a.toNat * factor.toNat := by
  obtain ⟨low, high, hsum, hproduct⟩ := exists_checkedMul a factor
  have hlow := low.toNat_lt
  have hlt := product.toNat_lt
  rw [hproduct, ← hsum, Option.ite_none_right_eq_some, Option.some.injEq, ← toNat_inj,
    ← UInt64.toNat_inj, UInt64.toNat_zero]
  constructor
  · rintro ⟨hhigh, hsame⟩
    rw [hhigh, Nat.mul_zero, Nat.add_zero, hsame]
  · intro hsame
    have hhigh : high.toNat = 0 := by
      rw [hsame] at hlt
      exact Nat.eq_zero_of_not_pos fun hpos ↦
        absurd (Nat.le_mul_of_pos_right size hpos) (by omega)
    rw [hhigh, Nat.mul_zero, Nat.add_zero] at hsame
    exact ⟨hhigh, hsame.symm⟩

/-- The product is rejected exactly if it does not fit. -/
theorem checkedMul_eq_none_iff {a : Word256} {factor : UInt64} :
    a.checkedMul factor = none ↔ size ≤ a.toNat * factor.toNat := by
  obtain ⟨low, high, hsum, hproduct⟩ := exists_checkedMul a factor
  have hlow := low.toNat_lt
  rw [hproduct, ← hsum, ite_eq_right_iff, ← UInt64.toNat_inj, UInt64.toNat_zero]
  constructor
  · intro hnone
    have hpos : 0 < high.toNat := Nat.pos_of_ne_zero fun hzero ↦ nomatch hnone hzero
    exact Nat.le_add_left_of_le (Nat.le_mul_of_pos_right size hpos)
  · intro hle hzero
    rw [hzero, Nat.mul_zero, Nat.add_zero] at hle
    exact absurd hlow (Nat.not_lt_of_le hle)

end UtxoConsensus.Word256
