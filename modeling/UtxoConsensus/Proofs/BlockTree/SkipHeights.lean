import Mathlib.Algebra.Order.Ring.Nat
import Mathlib.Tactic.Ring
import UtxoConsensus.Proofs.BlockTree.Ancestors

/-!
# Skip heights

At an even height twice `m` the skip ancestor is found by clearing the lowest bit of `m`, and at the odd
height above it by clearing the two lowest ones. So a walk is told by what it does to `m`: at odd heights it
clears two bits as long as that does not lead past the target, and else it steps down to the even height; at
even heights it clears one bit if it can, unless the odd height below clears two and gets further.
-/

namespace UtxoConsensus

/-! ## Lowest bits -/

def clearLowest (n : Nat) : Nat := n &&& (n - 1)

/-- The trick with `n - 1` clears the lowest bit of a number. -/
theorem toNat_clearLowestBit (n : UInt32) : (clearLowestBit n).toNat = clearLowest n.toNat := by
  unfold clearLowestBit clearLowest
  rw [UInt32.toNat_and]
  by_cases hzero : n = 0
  · rw [hzero, UInt32.toNat_zero, Nat.zero_and, Nat.zero_and]
  · have hpos : 1 ≤ n.toNat := Nat.pos_of_ne_zero fun h ↦ hzero (UInt32.toNat_inj.mp h)
    rw [UInt32.toNat_sub_of_le n 1 (UInt32.le_iff_toNat_le.mpr hpos), UInt32.toNat_one]

@[simp] theorem clearLowest_two_mul_add_one (n : Nat) : clearLowest (2 * n + 1) = 2 * n := by
  unfold clearLowest
  apply Nat.eq_of_testBit_eq
  rintro (_ | i)
  · simp [Nat.testBit_zero]
  · have hhalf : (2 * n + 1) / 2 = 2 * n / 2 := by omega
    rw [Nat.add_sub_cancel, Nat.testBit_and, Nat.testBit_succ, hhalf, Nat.testBit_succ, Bool.and_self]

@[simp] theorem clearLowest_two_mul (n : Nat) : clearLowest (2 * n) = 2 * clearLowest n := by
  unfold clearLowest
  apply Nat.eq_of_testBit_eq
  rintro (_ | i)
  · simp [Nat.testBit_zero]
  · rw [Nat.testBit_and, Nat.testBit_succ, Nat.testBit_succ, Nat.testBit_succ]
    have hbelow : (2 * n - 1) / 2 = n - 1 := by omega
    rw [hbelow, Nat.mul_div_cancel_left n Nat.two_pos,
      Nat.mul_div_cancel_left _ Nat.two_pos, Nat.testBit_and]

theorem clearLowest_le (n : Nat) : clearLowest n ≤ n := Nat.and_le_left

theorem clearLowest_lt {n : Nat} (hn : 0 < n) : clearLowest n < n := by
  have hle : clearLowest n ≤ n - 1 := Nat.and_le_right
  omega

theorem two_pow_dvd_clearLowest {n p : Nat} (h : 2 ^ p ∣ n) : 2 ^ (p + 1) ∣ clearLowest n := by
  induction p generalizing n with
  | zero =>
    rcases Nat.even_or_odd' n with ⟨m, rfl | rfl⟩
    · exact ⟨clearLowest m, clearLowest_two_mul m⟩
    · exact ⟨m, clearLowest_two_mul_add_one m⟩
  | succ p ih =>
    rw [Nat.pow_succ'] at h
    obtain ⟨m, rfl⟩ := dvd_of_mul_right_dvd h
    rw [clearLowest_two_mul, Nat.pow_succ']
    exact Nat.mul_dvd_mul_left 2 (ih (Nat.dvd_of_mul_dvd_mul_left Nat.two_pos h))

/-- What is cleared is a power of two that divides the number. -/
theorem exists_clearLowest_add {n : Nat} (hn : 0 < n) : ∃ q, 2 ^ q ∣ n ∧ clearLowest n + 2 ^ q = n := by
  induction n using Nat.strongRecOn with
  | ind n ih =>
    rcases Nat.even_or_odd' n with ⟨m, rfl | rfl⟩
    · obtain ⟨q, hdvd, hsum⟩ := ih m (by omega) (by omega)
      refine ⟨q + 1, ?_, ?_⟩
      · rw [Nat.pow_succ']
        exact Nat.mul_dvd_mul_left 2 hdvd
      · rw [clearLowest_two_mul, Nat.pow_succ', ← Nat.mul_add, hsum]
    · exact ⟨0, Nat.one_dvd _, by rw [clearLowest_two_mul_add_one, Nat.pow_zero]⟩

/-- What is cleared is the greatest power of two that divides the number. -/
theorem exists_le_clearLowest_add {n p : Nat} (hn : 0 < n) (hdvd : 2 ^ p ∣ n) :
    ∃ q, p ≤ q ∧ 2 ^ q ∣ n ∧ clearLowest n + 2 ^ q = n := by
  obtain ⟨q, hq, hsum⟩ := exists_clearLowest_add hn
  have hclear : 2 ^ p ∣ clearLowest n := (Nat.pow_dvd_pow 2 p.le_succ).trans (two_pow_dvd_clearLowest hdvd)
  rw [← hsum, Nat.dvd_add_right hclear] at hdvd
  exact ⟨q, Nat.pow_dvd_pow_iff_le_right'.mp hdvd, hq, hsum⟩

/-- Below a multiple of four the two lowest bits are set, and clearing them leaves more than clearing the
lowest bit of the multiple. -/
theorem clearLowest_le_of_four_dvd {n : Nat} (hn : 0 < n) (h : 4 ∣ n) :
    clearLowest n ≤ clearLowest (clearLowest (n - 1)) := by
  obtain ⟨m, rfl⟩ := h
  have hlt : clearLowest m < m := clearLowest_lt (by omega)
  have hleft : clearLowest (4 * m) = 4 * clearLowest m := by
    rw [show 4 * m = 2 * (2 * m) by ring, clearLowest_two_mul, clearLowest_two_mul]
    ring
  have hright : clearLowest (clearLowest (4 * m - 1)) = 4 * (m - 1) := by
    rw [show 4 * m - 1 = 2 * (2 * (m - 1) + 1) + 1 by omega, clearLowest_two_mul_add_one,
      clearLowest_two_mul, clearLowest_two_mul_add_one]
    ring
  omega

/-- Elsewhere clearing two bits of the number below is between clearing two bits and clearing three. -/
theorem clearLowest_between_of_not_four_dvd {n : Nat} (h : ¬4 ∣ n) :
    clearLowest (clearLowest (clearLowest n)) ≤ clearLowest (clearLowest (n - 1)) ∧
      clearLowest (clearLowest (n - 1)) ≤ clearLowest (clearLowest n) := by
  rcases Nat.even_or_odd' n with ⟨m, rfl | rfl⟩
  · obtain ⟨l, rfl⟩ : Odd m := Nat.not_even_iff_odd.mp fun ⟨l, hl⟩ ↦ h ⟨l, by omega⟩
    have hbelow : clearLowest (2 * (2 * l + 1) - 1) = clearLowest (2 * (2 * l + 1)) := by
      rw [show 2 * (2 * l + 1) - 1 = 2 * (2 * l) + 1 by omega, clearLowest_two_mul_add_one,
        clearLowest_two_mul, clearLowest_two_mul_add_one]
    rw [hbelow]
    exact ⟨clearLowest_le _, Nat.le_refl _⟩
  · rw [clearLowest_two_mul_add_one, Nat.add_sub_cancel]
    exact ⟨Nat.le_refl _, clearLowest_le _⟩

/-! ## Skip heights -/

/-- At an even height one bit is cleared. -/
theorem toNat_skipHeight_two_mul {m : Nat} (hm : 2 * m < UInt32.size) :
    (skipHeight (UInt32.ofNat (2 * m))).toNat = 2 * clearLowest m := by
  have heven : (UInt32.ofNat (2 * m)).toNat = 2 * m := UInt32.toNat_ofNat_of_lt' hm
  unfold skipHeight
  by_cases hsmall : UInt32.ofNat (2 * m) < 2
  · rw [if_pos hsmall]
    rw [UInt32.lt_iff_toNat_lt, heven] at hsmall
    have hzero : m = 0 := by
      have htwo : 2 * m < 2 := hsmall
      omega
    subst hzero
    rfl
  · rw [if_neg hsmall, if_neg, toNat_clearLowestBit, heven, clearLowest_two_mul]
    rw [← UInt32.toNat_inj, UInt32.toNat_and, heven, UInt32.toNat_one, Nat.and_one_is_mod]
    omega

/-- At an odd height two bits of the height below are cleared, and one is added. -/
theorem toNat_skipHeight_two_mul_add_one {m : Nat} (hpos : 0 < m) (hm : 2 * m + 1 < UInt32.size) :
    (skipHeight (UInt32.ofNat (2 * m + 1))).toNat = 2 * clearLowest (clearLowest m) + 1 := by
  have hodd : (UInt32.ofNat (2 * m + 1)).toNat = 2 * m + 1 := UInt32.toNat_ofNat_of_lt' hm
  have hone : (UInt32.ofNat (2 * m + 1) - 1).toNat = 2 * m := by
    rw [UInt32.toNat_sub_of_le _ 1, hodd, UInt32.toNat_one, Nat.add_sub_cancel]
    rw [UInt32.le_iff_toNat_le, hodd, UInt32.toNat_one]
    omega
  unfold skipHeight
  rw [if_neg, if_pos, UInt32.toNat_add, toNat_clearLowestBit, toNat_clearLowestBit, hone,
    clearLowest_two_mul, clearLowest_two_mul, UInt32.toNat_one, Nat.mod_eq_of_lt]
  · have hle : clearLowest (clearLowest m) ≤ m := (clearLowest_le _).trans (clearLowest_le m)
    have hsize : 2 * m + 1 < 2 ^ 32 := hm
    omega
  · rw [← UInt32.toNat_inj, UInt32.toNat_and, hodd, UInt32.toNat_one, Nat.and_one_is_mod]
    omega
  · rw [UInt32.lt_iff_toNat_lt, hodd]
    change ¬2 * m + 1 < 2
    omega

namespace BlockTree

/-! ## Steps -/

theorem skipHelps_iff {height target : Nat} : skipHelps height target = true ↔
    target ≤ (skipHeight (UInt32.ofNat height)).toNat ∧
      ¬(target < (skipHeight (UInt32.ofNat height)).toNat ∧
        (skipHeight (UInt32.ofNat (height - 1))).toNat + 2 < (skipHeight (UInt32.ofNat height)).toNat ∧
        target ≤ (skipHeight (UInt32.ofNat (height - 1))).toNat) := by
  unfold skipHelps
  simp only [Bool.or_eq_true, Bool.and_eq_true, Bool.not_eq_true', beq_iff_eq, decide_eq_true_eq,
    Bool.and_eq_false_iff, decide_eq_false_iff_not]
  omega

/-- At an odd height two bits are cleared, if that does not lead past the target. -/
theorem nextHeight_two_mul_add_one {m target : Nat} (hpos : 0 < m) (hm : 2 * m + 1 < UInt32.size) :
    nextHeight (2 * m + 1) target =
      if target / 2 ≤ clearLowest (clearLowest m) then 2 * clearLowest (clearLowest m) + 1 else 2 * m := by
  have hlt : clearLowest (clearLowest m) ≤ clearLowest m := clearLowest_le _
  have hhelps : skipHelps (2 * m + 1) target = true ↔ target / 2 ≤ clearLowest (clearLowest m) := by
    rw [skipHelps_iff, toNat_skipHeight_two_mul_add_one hpos hm, Nat.add_sub_cancel,
      toNat_skipHeight_two_mul (Nat.lt_of_succ_lt hm)]
    omega
  unfold nextHeight
  simp only [hhelps, toNat_skipHeight_two_mul_add_one hpos hm, Nat.add_sub_cancel]

/-- The odd height below twice a number helps more than clearing a bit of the number: clearing two bits there
leads further, and not past the target. -/
def BelowHelps (target m : Nat) : Prop :=
  clearLowest (clearLowest (m - 1)) + 1 < clearLowest m ∧ target / 2 ≤ clearLowest (clearLowest (m - 1))

instance (target m : Nat) : Decidable (BelowHelps target m) :=
  inferInstanceAs (Decidable (_ ∧ _))

/-- At an even height one bit is cleared, if that does not lead past the target, and if the odd height below
does not help more. -/
theorem nextHeight_two_mul {m target : Nat} (hpos : 0 < m) (hm : 2 * m < UInt32.size) :
    nextHeight (2 * m) target =
      if (target + 1) / 2 ≤ clearLowest m ∧ ¬BelowHelps target m then 2 * clearLowest m
      else 2 * (m - 1) + 1 := by
  have hbelow : 2 * m - 1 = 2 * (m - 1) + 1 := by omega
  have hhelps : skipHelps (2 * m) target = true ↔
      (target + 1) / 2 ≤ clearLowest m ∧ ¬BelowHelps target m := by
    unfold BelowHelps
    rw [skipHelps_iff, toNat_skipHeight_two_mul hm, hbelow]
    by_cases hone : m - 1 = 0
    · -- Nothing is left of the lowest bit, and no skip ancestor is below that.
      have hm1 : m = 1 := by omega
      subst hm1
      have hclear : clearLowest 1 = 0 := rfl
      rw [hclear]
      omega
    · rw [toNat_skipHeight_two_mul_add_one (Nat.pos_of_ne_zero hone) (by omega)]
      omega
  unfold nextHeight
  simp only [hhelps, toNat_skipHeight_two_mul hm, hbelow]

section Below

variable {m target : Nat}

theorem not_belowHelps_of_four_dvd (hpos : 0 < m) (h : 4 ∣ m) : ¬BelowHelps target m := by
  rintro ⟨hfurther, -⟩
  have hle := clearLowest_le_of_four_dvd hpos h
  omega

theorem not_belowHelps_of_past (hpos : 0 < m) (hpast : clearLowest (clearLowest m) < target / 2) :
    ¬BelowHelps target m := by
  by_cases hfour : 4 ∣ m
  · exact not_belowHelps_of_four_dvd hpos hfour
  · rintro ⟨-, hreach⟩
    obtain ⟨-, hle⟩ := clearLowest_between_of_not_four_dvd hfour
    omega

/-- But for multiples of four, where three bits can be cleared the odd height below helps more. -/
theorem belowHelps_of_not_four_dvd (hfour : ¬4 ∣ m) (hpos : 0 < clearLowest m)
    (hreach : target / 2 ≤ clearLowest (clearLowest (clearLowest m))) : BelowHelps target m := by
  obtain ⟨hge, hle⟩ := clearLowest_between_of_not_four_dvd hfour
  -- The second bit stands for two at least.
  obtain ⟨q, hq, -, hsum⟩ :=
    exists_le_clearLowest_add hpos (two_pow_dvd_clearLowest (p := 0) (Nat.one_dvd m))
  have htwo : 2 ^ 1 ≤ 2 ^ q := Nat.pow_le_pow_right Nat.two_pos hq
  constructor <;> omega

end Below

end BlockTree

end UtxoConsensus
