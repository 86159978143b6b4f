import Mathlib.Tactic.Ring
import UtxoConsensus.Proofs.Bytes.FixedWidth
import UtxoConsensus.Word256.Basic

/-!
# The digits of 256-bit words

A word is a number of four digits in base 2^64, and each of them one of 64 bits. What the operations do to the
limbs is what multiplying, dividing and combining do to the number: a limb that is shifted hands its bits on
to the next one, and limbs that are moved are multiplied by the base.
-/

namespace UtxoConsensus.Word256

theorem size_eq : size = 2 ^ 256 := by decide

theorem toNat_inj {a b : Word256} : a.toNat = b.toNat ↔ a = b := by
  have ha0 := a.limb0.toNat_lt
  have ha1 := a.limb1.toNat_lt
  have ha2 := a.limb2.toNat_lt
  have hb0 := b.limb0.toNat_lt
  have hb1 := b.limb1.toNat_lt
  have hb2 := b.limb2.toNat_lt
  simp only [Word256.ext_iff, ← UInt64.toNat_inj, toNat, UInt64.size]
  omega

/-! ## Order -/

theorem compare_swap (a b : Word256) : (compare a b).swap = compare b a := by
  have hlimb (x y : UInt64) : (compare x y).swap = compare y x :=
    Std.OrientedCmp.eq_swap.symm
  change ((compare a.limb3 b.limb3).then ((compare a.limb2 b.limb2).then
    ((compare a.limb1 b.limb1).then (compare a.limb0 b.limb0)))).swap = _
  simp only [Ordering.swap_then, hlimb]
  rfl

theorem le_iff_toNat_le (a b : Word256) : a ≤ b ↔ a.toNat ≤ b.toNat := by
  rw [← Nat.not_lt, ← lt_iff_toNat_lt]
  change (compare a b).isLE = true ↔ ¬compare b a = .lt
  rw [← compare_swap a b]
  cases compare a b <;> decide

/-! ## Small words and complements -/

@[simp] theorem toNat_zero : zero.toNat = 0 := rfl

@[simp] theorem toNat_one : one.toNat = 1 := rfl

@[simp] theorem toNat_ofUInt64 (x : UInt64) : (ofUInt64 x).toNat = x.toNat := by
  simp [ofUInt64, toNat]

/-- Complements add up to the largest word. -/
theorem toNat_complement (a : Word256) : a.complement.toNat = size - 1 - a.toNat := by
  have h0 := a.limb0.toNat_lt
  have h1 := a.limb1.toNat_lt
  have h2 := a.limb2.toNat_lt
  have h3 := a.limb3.toNat_lt
  simp only [complement, toNat, UInt64.toNat_not, size, UInt64.size]
  omega

/-! ## Shifts of limbs -/

section Limbs

variable {s : Nat}

theorem two_pow_split (hs : s ≤ 64) : UInt64.size = 2 ^ s * 2 ^ (64 - s) := by
  rw [← Nat.pow_add, Nat.add_sub_cancel' hs]

theorem toNat_ofNat_shift (hs : s < 64) : (UInt64.ofNat s).toNat % 64 = s := by
  rw [UInt64.toNat_ofNat_of_lt' (Nat.lt_trans hs (by decide)), Nat.mod_eq_of_lt hs]

/-- A limb that is shifted up takes in the upper bits of the limb below it, and its own upper bits leave. -/
theorem toNat_spillUp (hs : s < 64) (high low : UInt64) :
    (spillUp s high low).toNat + UInt64.size * (high.toNat / 2 ^ (64 - s)) =
      high.toNat * 2 ^ s + low.toNat / 2 ^ (64 - s) := by
  unfold spillUp
  by_cases hzero : s = 0
  · subst hzero
    rw [if_pos rfl, Nat.div_eq_of_lt high.toNat_lt, Nat.div_eq_of_lt low.toNat_lt]
    simp
  · have hlow : low.toNat / 2 ^ (64 - s) < 2 ^ s := by
      apply Nat.div_lt_of_lt_mul
      rw [Nat.mul_comm, ← two_pow_split (Nat.le_of_lt hs)]
      exact low.toNat_lt
    have hhigh : (high <<< UInt64.ofNat s).toNat = 2 ^ s * (high.toNat % 2 ^ (64 - s)) := by
      rw [UInt64.toNat_shiftLeft, toNat_ofNat_shift hs, Nat.shiftLeft_eq, Nat.mul_comm,
        ← Nat.mul_mod_mul_left]
      exact congrArg _ (two_pow_split (Nat.le_of_lt hs))
    have hspill : (low >>> UInt64.ofNat (64 - s)).toNat = low.toNat / 2 ^ (64 - s) := by
      rw [UInt64.toNat_shiftRight, toNat_ofNat_shift (by omega), Nat.shiftRight_eq_div_pow]
    rw [if_neg hzero, UInt64.toNat_or, hhigh, hspill, ← Nat.two_pow_add_eq_or_of_lt hlow,
      two_pow_split (Nat.le_of_lt hs)]
    conv_rhs => rw [← Nat.div_add_mod high.toNat (2 ^ (64 - s))]
    ring

/-- A limb that is shifted down takes in the lower bits of the limb above it. -/
theorem toNat_spillDown (hs : s < 64) (low high : UInt64) :
    (spillDown s low high).toNat = low.toNat / 2 ^ s + 2 ^ (64 - s) * (high.toNat % 2 ^ s) := by
  unfold spillDown
  by_cases hzero : s = 0
  · subst hzero
    rw [if_pos rfl, Nat.pow_zero, Nat.div_one, Nat.mod_one, Nat.mul_zero, Nat.add_zero]
  · have hlow : low.toNat / 2 ^ s < 2 ^ (64 - s) := by
      apply Nat.div_lt_of_lt_mul
      rw [← two_pow_split (Nat.le_of_lt hs)]
      exact low.toNat_lt
    have hhigh : (high <<< UInt64.ofNat (64 - s)).toNat = 2 ^ (64 - s) * (high.toNat % 2 ^ s) := by
      rw [UInt64.toNat_shiftLeft, toNat_ofNat_shift (by omega), Nat.shiftLeft_eq, Nat.mul_comm,
        ← Nat.mul_mod_mul_left, Nat.mul_comm (2 ^ (64 - s)) (2 ^ s)]
      exact congrArg _ (two_pow_split (Nat.le_of_lt hs))
    have hspill : (low >>> UInt64.ofNat s).toNat = low.toNat / 2 ^ s := by
      rw [UInt64.toNat_shiftRight, toNat_ofNat_shift hs, Nat.shiftRight_eq_div_pow]
    rw [if_neg hzero, UInt64.toNat_or, hhigh, hspill, Nat.or_comm, ← Nat.two_pow_add_eq_or_of_lt hlow,
      Nat.add_comm]

end Limbs

/-! ## Shifts -/

/-- Limbs that are moved up, where those at the top are lost. -/
theorem toNat_raiseLimbs (a : Word256) (count : Nat) :
    (a.raiseLimbs count).toNat = a.toNat * UInt64.size ^ count % size := by
  have h0 := a.limb0.toNat_lt
  have h1 := a.limb1.toNat_lt
  have h2 := a.limb2.toNat_lt
  have h3 := a.limb3.toNat_lt
  match count with
  | 0 | 1 | 2 | 3 =>
    simp only [raiseLimbs, toNat, UInt64.toNat_zero, size, UInt64.size]
    omega
  | count + 4 =>
    have hsplit : a.toNat * UInt64.size ^ (count + 4) = size * (a.toNat * UInt64.size ^ count) := by
      rw [Nat.pow_add]
      simp only [size]
      ring
    rw [hsplit, Nat.mul_mod_right]
    rfl

/-- Limbs that are moved down, where those at the bottom are lost. -/
theorem toNat_lowerLimbs (a : Word256) (count : Nat) :
    (a.lowerLimbs count).toNat = a.toNat / UInt64.size ^ count := by
  have h0 := a.limb0.toNat_lt
  have h1 := a.limb1.toNat_lt
  have h2 := a.limb2.toNat_lt
  have h3 := a.limb3.toNat_lt
  match count with
  | 0 | 1 | 2 | 3 =>
    simp only [lowerLimbs, toNat, UInt64.toNat_zero, UInt64.size]
    omega
  | count + 4 =>
    have hlt : a.toNat < UInt64.size ^ (count + 4) := by
      calc a.toNat
        _ < UInt64.size ^ 4 := a.toNat_lt
        _ ≤ UInt64.size ^ (count + 4) := Nat.pow_le_pow_right (by decide) (Nat.le_add_left 4 count)
    rw [Nat.div_eq_of_lt hlt]
    rfl

theorem two_pow_eq_limbs (count : Nat) : 2 ^ count = UInt64.size ^ (count / 64) * 2 ^ (count % 64) := by
  have hbase : UInt64.size = 2 ^ 64 := rfl
  rw [hbase, ← Nat.pow_mul, ← Nat.pow_add, Nat.div_add_mod]

/-- Bits that leave a limb enter the next one, and those of the last limb leave the word. -/
theorem toNat_spillUp_limbs {s : Nat} (hs : s < 64) (a : Word256) :
    toNat ⟨spillUp s a.limb0 0, spillUp s a.limb1 a.limb0, spillUp s a.limb2 a.limb1,
      spillUp s a.limb3 a.limb2⟩ + size * (a.limb3.toNat / 2 ^ (64 - s)) = a.toNat * 2 ^ s := by
  have h0 := toNat_spillUp hs a.limb0 0
  have h1 := toNat_spillUp hs a.limb1 a.limb0
  have h2 := toNat_spillUp hs a.limb2 a.limb1
  have h3 := toNat_spillUp hs a.limb3 a.limb2
  rw [UInt64.toNat_zero, Nat.zero_div] at h0
  simp only [toNat, Nat.add_mul, Nat.mul_assoc, size, UInt64.size] at h0 h1 h2 h3 ⊢
  omega

/-- Bits that leave a limb enter the one below it, and those of the first limb are the remainder. -/
theorem toNat_spillDown_limbs {s : Nat} (hs : s < 64) (a : Word256) :
    toNat ⟨spillDown s a.limb0 a.limb1, spillDown s a.limb1 a.limb2, spillDown s a.limb2 a.limb3,
      spillDown s a.limb3 0⟩ = a.toNat / 2 ^ s := by
  have hpos : 0 < 2 ^ s := Nat.two_pow_pos s
  have hbase (x y : UInt64) : 2 ^ s * (spillDown s x y).toNat + x.toNat % 2 ^ s =
      x.toNat + UInt64.size * (y.toNat % 2 ^ s) := by
    rw [toNat_spillDown hs, two_pow_split (Nat.le_of_lt hs)]
    conv_rhs => rw [← Nat.div_add_mod x.toNat (2 ^ s)]
    ring
  have h0 := hbase a.limb0 a.limb1
  have h1 := hbase a.limb1 a.limb2
  have h2 := hbase a.limb2 a.limb3
  have h3 := hbase a.limb3 0
  rw [UInt64.toNat_zero, Nat.zero_mod] at h3
  have hsum : 2 ^ s * toNat ⟨spillDown s a.limb0 a.limb1, spillDown s a.limb1 a.limb2,
      spillDown s a.limb2 a.limb3, spillDown s a.limb3 0⟩ + a.limb0.toNat % 2 ^ s = a.toNat := by
    simp only [toNat, Nat.mul_add, Nat.mul_left_comm (2 ^ s), UInt64.size] at h0 h1 h2 h3 ⊢
    omega
  rw [← hsum, Nat.mul_add_div hpos, Nat.div_eq_of_lt (Nat.mod_lt _ hpos), Nat.add_zero]

/-- A shift up multiplies, and what leaves the word is lost. -/
theorem toNat_shiftLeft (a : Word256) (count : Nat) :
    (a.shiftLeft count).toNat = a.toNat * 2 ^ count % size := by
  have hsum := toNat_spillUp_limbs (Nat.mod_lt count (by decide)) (a.raiseLimbs (count / 64))
  calc (a.shiftLeft count).toNat
    _ = (a.raiseLimbs (count / 64)).toNat * 2 ^ (count % 64) % size := by
      rw [← hsum, Nat.add_mul_mod_self_left]
      exact (Nat.mod_eq_of_lt (toNat_lt (a.shiftLeft count))).symm
    _ = a.toNat * UInt64.size ^ (count / 64) % size * 2 ^ (count % 64) % size := by
      rw [toNat_raiseLimbs]
    _ = a.toNat * UInt64.size ^ (count / 64) * 2 ^ (count % 64) % size := Nat.mod_mul_mod _ _ _
    _ = a.toNat * 2 ^ count % size := by rw [Nat.mul_assoc, ← two_pow_eq_limbs]

/-- A shift down divides, and the remainder is lost. -/
theorem toNat_shiftRight (a : Word256) (count : Nat) :
    (a.shiftRight count).toNat = a.toNat / 2 ^ count := by
  calc (a.shiftRight count).toNat
    _ = (a.lowerLimbs (count / 64)).toNat / 2 ^ (count % 64) :=
      toNat_spillDown_limbs (Nat.mod_lt count (by decide)) (a.lowerLimbs (count / 64))
    _ = a.toNat / 2 ^ count := by
      rw [toNat_lowerLimbs, Nat.div_div_eq_div_mul, ← two_pow_eq_limbs]

/-! ## Bits -/

theorem limbBits_le_iff (x : UInt64) (count : Nat) : limbBits x ≤ count ↔ x.toNat < 2 ^ count := by
  unfold limbBits
  by_cases hx : x = 0
  · subst hx
    exact iff_of_true (by rw [if_pos rfl]; exact Nat.zero_le _) (Nat.two_pow_pos count)
  · have hne : x.toNat ≠ 0 := fun hzero ↦ hx (UInt64.toNat_inj.mp hzero)
    rw [if_neg hx]
    exact Nat.log2_lt hne

/-- The highest limb that is not zero tells how many digits there are. -/
theorem add_limbBits_le_iff {x : UInt64} (hx : x ≠ 0) {low place : Nat} (hlow : low < 2 ^ place)
    (count : Nat) : place + limbBits x ≤ count ↔ low + 2 ^ place * x.toNat < 2 ^ count := by
  have hpos : 0 < x.toNat := Nat.pos_of_ne_zero fun hzero ↦ hx (UInt64.toNat_inj.mp hzero)
  rcases Nat.lt_or_ge count place with hless | hge
  · have hpow : 2 ^ count ≤ 2 ^ place := Nat.pow_le_pow_right Nat.two_pos (Nat.le_of_lt hless)
    have hle : 2 ^ place ≤ 2 ^ place * x.toNat := Nat.le_mul_of_pos_right _ hpos
    exact iff_of_false (by omega) (by omega)
  · obtain ⟨more, rfl⟩ := Nat.exists_eq_add_of_le hge
    rw [Nat.add_le_add_iff_left, limbBits_le_iff, Nat.pow_add]
    constructor
    · intro hlt
      calc low + 2 ^ place * x.toNat
        _ < 2 ^ place + 2 ^ place * x.toNat := Nat.add_lt_add_right hlow _
        _ = 2 ^ place * (x.toNat + 1) := by rw [Nat.mul_succ, Nat.add_comm]
        _ ≤ 2 ^ place * 2 ^ more := Nat.mul_le_mul_left _ hlt
    · intro hlt
      exact Nat.lt_of_mul_lt_mul_left (Nat.lt_of_le_of_lt (Nat.le_add_left _ low) hlt)

/-- The number of digits is the least one that is enough. -/
theorem bits_le_iff (a : Word256) (count : Nat) : a.bits ≤ count ↔ a.toNat < 2 ^ count := by
  have h0 := a.limb0.toNat_lt
  have h1 := a.limb1.toNat_lt
  have h2 := a.limb2.toNat_lt
  have hzero {x : UInt64} (hx : ¬x ≠ 0) : x.toNat = 0 := by rw [Decidable.not_not.mp hx, UInt64.toNat_zero]
  unfold bits
  split
  · next h3 =>
    have hvalue : a.toNat = a.limb0.toNat + UInt64.size * (a.limb1.toNat + UInt64.size * a.limb2.toNat) +
        2 ^ 192 * a.limb3.toNat := by
      simp only [toNat, UInt64.size]
      omega
    rw [hvalue]
    exact add_limbBits_le_iff h3 (by simp only [UInt64.size]; omega) count
  · next h3 =>
    split
    · next h2 =>
      have hvalue : a.toNat = a.limb0.toNat + UInt64.size * a.limb1.toNat + 2 ^ 128 * a.limb2.toNat := by
        simp only [toNat, hzero h3, UInt64.size]
        omega
      rw [hvalue]
      exact add_limbBits_le_iff h2 (by simp only [UInt64.size]; omega) count
    · next h2 =>
      split
      · next h1 =>
        have hvalue : a.toNat = a.limb0.toNat + 2 ^ 64 * a.limb1.toNat := by
          simp only [toNat, hzero h3, hzero h2, UInt64.size]
          omega
        rw [hvalue]
        exact add_limbBits_le_iff h1 h0 count
      · next h1 =>
        have hvalue : a.toNat = a.limb0.toNat := by
          simp only [toNat, hzero h3, hzero h2, hzero h1, Nat.add_zero, Nat.mul_zero]
        rw [hvalue]
        exact limbBits_le_iff a.limb0 count

theorem bits_le (a : Word256) : a.bits ≤ 256 := by
  rw [bits_le_iff, ← size_eq]
  exact a.toNat_lt

theorem toNat_mod (a : Word256) : a.toNat % UInt64.size = a.limb0.toNat := by
  rw [toNat, Nat.add_mul_mod_self_left, Nat.mod_eq_of_lt a.limb0.toNat_lt]

theorem limb_eq (a : Word256) (i : Nat) : a.limb i = (a.lowerLimbs i).limb0 :=
  match i with
  | 0 | 1 | 2 | 3 => rfl
  | _ + 4 => rfl

/-- A bit of a word is a bit of its number. -/
theorem bit_eq_testBit (a : Word256) (i : Nat) : a.bit i = a.toNat.testBit i := by
  have hs : i % 64 < 64 := Nat.mod_lt _ (by decide)
  have hbase : UInt64.size = 2 ^ 64 := rfl
  have hshift : (a.limb (i / 64) >>> UInt64.ofNat (i % 64)).toNat =
      (a.limb (i / 64)).toNat / 2 ^ (i % 64) := by
    rw [UInt64.toNat_shiftRight, toNat_ofNat_shift hs, Nat.shiftRight_eq_div_pow]
  have hlimb : (a.limb (i / 64)).toNat.testBit (i % 64) = a.toNat.testBit i := by
    rw [limb_eq, ← toNat_mod, toNat_lowerLimbs, hbase, Nat.testBit_mod_two_pow, ← Nat.pow_mul,
      Nat.testBit_div_two_pow, decide_eq_true hs, Bool.true_and, Nat.mod_add_div]
  rw [← hlimb, Nat.testBit_eq_decide_div_mod_eq, ← hshift, bit]
  rw [Bool.eq_iff_iff, beq_iff_eq, decide_eq_true_eq, ← UInt64.toNat_inj, UInt64.toNat_and, UInt64.toNat_one,
    Nat.and_one_is_mod]

/-- A disjunction of numbers, limb by limb. -/
theorem or_add_mul (l m x y : Nat) (hl : l < 2 ^ 64) (hm : m < 2 ^ 64) :
    (l + 2 ^ 64 * x) ||| (m + 2 ^ 64 * y) = (l ||| m) + 2 ^ 64 * (x ||| y) := by
  have hor : l ||| m < 2 ^ 64 := Nat.or_lt_two_pow hl hm
  apply Nat.eq_of_testBit_eq
  intro i
  rw [Nat.testBit_or, Nat.add_comm l, Nat.add_comm m, Nat.add_comm (l ||| m),
    Nat.testBit_two_pow_mul_add x hl, Nat.testBit_two_pow_mul_add y hm, Nat.testBit_two_pow_mul_add _ hor]
  split
  · rw [Nat.testBit_or]
  · rw [Nat.testBit_or]

/-- A disjunction of words is that of their numbers. -/
theorem toNat_or (a b : Word256) : (a.or b).toNat = a.toNat ||| b.toNat := by
  simp only [or, toNat, UInt64.toNat_or]
  have hbase : UInt64.size = 2 ^ 64 := rfl
  rw [hbase, or_add_mul _ _ _ _ a.limb0.toNat_lt b.limb0.toNat_lt,
    or_add_mul _ _ _ _ a.limb1.toNat_lt b.limb1.toNat_lt,
    or_add_mul _ _ _ _ a.limb2.toNat_lt b.limb2.toNat_lt]

/-! ## Bytes -/

/-- Eight bytes make a limb, and those after them the limbs above it. -/
theorem toNat_limbAt_add (b : Bytes) (offset : Nat) (hlength : offset + 8 ≤ b.length) :
    (limbAt b offset).toNat + UInt64.size * Bytes.toNat (b.drop (offset + 8)) =
      Bytes.toNat (b.drop offset) := by
  have htake : ((b.drop offset).take 8).length = 8 := by
    rw [List.length_take, List.length_drop]
    omega
  have hlimb : (limbAt b offset).toNat = Bytes.toNat ((b.drop offset).take 8) := by
    have hlt := Bytes.toNat_lt ((b.drop offset).take 8)
    rw [htake] at hlt
    exact UInt64.toNat_ofNat_of_lt' hlt
  have hrest : b.drop (offset + 8) = (b.drop offset).drop 8 := List.drop_drop.symm
  have hbase : 256 ^ 8 = UInt64.size := rfl
  have hsplit := Bytes.toNat_append ((b.drop offset).take 8) ((b.drop offset).drop 8)
  rw [List.take_append_drop, htake, hbase] at hsplit
  rw [hlimb, hrest, hsplit]

/-- The word in bytes is their number. -/
theorem toNat_ofHash (h : Hash256) : (ofHash h).toNat = h.bytes.toNat := by
  have hlength := h.length_bytes
  have h0 := toNat_limbAt_add h.bytes 0 (by omega)
  have h8 := toNat_limbAt_add h.bytes 8 (by omega)
  have h16 := toNat_limbAt_add h.bytes 16 (by omega)
  have h24 := toNat_limbAt_add h.bytes 24 (by omega)
  have hend : Bytes.toNat (h.bytes.drop (24 + 8)) = 0 := by
    rw [List.drop_eq_nil_of_le (by omega)]
    rfl
  rw [hend] at h24
  rw [List.drop_zero] at h0
  simp only [ofHash, toNat]
  rw [← h0, ← h8, ← h16, ← h24, Nat.mul_zero, Nat.add_zero]

end UtxoConsensus.Word256
