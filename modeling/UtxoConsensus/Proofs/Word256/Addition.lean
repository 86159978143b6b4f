import UtxoConsensus.Word256.Basic

/-!
# Addition and subtraction of 256-bit words

A sum of limbs with a carry is the sum of their values, with the carry out in the place above them. Four
such sums make the sum of two words, modulo their number. Differences wrap in the same way.
-/

namespace UtxoConsensus.Word256

/-- Nothing is lost in one limb. -/
theorem toNat_addLimbs (a b : UInt64) (carry : Bool) :
    (addLimbs a b carry).1.toNat + UInt64.size * (addLimbs a b carry).2.toNat =
      a.toNat + b.toNat + carry.toNat := by
  have ha : a.toNat < 2 ^ 64 := a.toNat_lt
  have hb : b.toNat < 2 ^ 64 := b.toNat_lt
  have hcarry : carry.toUInt64.toNat = carry.toNat := by cases carry <;> rfl
  have hle : carry.toNat ≤ 1 := Bool.toNat_le carry
  have hs : (a + b).toNat = (a.toNat + b.toNat) % 2 ^ 64 := UInt64.toNat_add ..
  have ht : (a + b + carry.toUInt64).toNat = ((a + b).toNat + carry.toNat) % 2 ^ 64 := by
    rw [UInt64.toNat_add, hcarry]
  simp only [addLimbs, UInt64.lt_iff_toNat_lt, ht, UInt64.size]
  by_cases h1 : (a + b).toNat < a.toNat <;>
    by_cases h2 : ((a + b).toNat + carry.toNat) % 2 ^ 64 < (a + b).toNat <;>
    simp only [h1, h2, decide_true, decide_false, Bool.or_true, Bool.or_false, Bool.toNat_true,
      Bool.toNat_false] <;> omega

/-- Nothing is lost in the word and its carry. -/
theorem toNat_overflowingAdd (a b : Word256) :
    (overflowingAdd a b).1.toNat + size * (overflowingAdd a b).2.toNat = a.toNat + b.toNat := by
  have h0 := toNat_addLimbs a.limb0 b.limb0 false
  have h1 := toNat_addLimbs a.limb1 b.limb1 (addLimbs a.limb0 b.limb0 false).2
  have h2 := toNat_addLimbs a.limb2 b.limb2
    (addLimbs a.limb1 b.limb1 (addLimbs a.limb0 b.limb0 false).2).2
  have h3 := toNat_addLimbs a.limb3 b.limb3 (addLimbs a.limb2 b.limb2
    (addLimbs a.limb1 b.limb1 (addLimbs a.limb0 b.limb0 false).2).2).2
  simp only [Bool.toNat_false, UInt64.size] at h0 h1 h2 h3
  simp only [overflowingAdd, toNat, size, UInt64.size]
  omega

/-- Words are added modulo their number. -/
theorem toNat_add (a b : Word256) : (a + b).toNat = (a.toNat + b.toNat) % size := by
  have hsum := toNat_overflowingAdd a b
  have hlt : (a + b).toNat < size := toNat_lt (a + b)
  change (a + b).toNat + size * (overflowingAdd a b).2.toNat = a.toNat + b.toNat at hsum
  rw [← hsum, Nat.add_mul_mod_self_left, Nat.mod_eq_of_lt hlt]

/-- Words are subtracted modulo their number. -/
theorem toNat_sub (a b : Word256) : (a - b).toNat = (a.toNat + size - b.toNat) % size := by
  have hsum := toNat_sub_add a b
  have hlt : (a - b).toNat < size := toNat_lt (a - b)
  have hb : b.toNat < size := toNat_lt b
  change (a - b).toNat + b.toNat = a.toNat + size * (overflowingSub a b).2.toNat at hsum
  have hborrow : (overflowingSub a b).2.toNat ≤ 1 := Bool.toNat_le _
  rw [← Nat.mod_eq_of_lt hlt]
  rcases Nat.le_one_iff_eq_zero_or_eq_one.mp hborrow with hzero | hone
  · rw [hzero] at hsum
    have hdiff : a.toNat + size - b.toNat = (a - b).toNat + size := by omega
    rw [hdiff, Nat.add_mod_right]
  · rw [hone] at hsum
    have hdiff : a.toNat + size - b.toNat = (a - b).toNat := by omega
    rw [hdiff]

end UtxoConsensus.Word256
