import Mathlib.Data.Nat.Bitwise
import Mathlib.Order.Bounds.Basic
import Mathlib.Tactic.Ring
import UtxoConsensus.Proofs.Word256.Digits
import UtxoConsensus.Work.Target

/-!
# Compact targets

Thirty-two bits hold a size, a sign and a mantissa of 23 bits, and stand for the mantissa times a power of
256. Reading them gives this number, or says that it does not fit. Writing a number keeps its first digits in
base 256: as many as fit into the mantissa, for the least power of 256 for which they fit. What is written
so is the largest number with a compact form that is not above the given one, and it is the number itself
if this has a compact form.
-/

namespace UtxoConsensus.CompactTarget

/-! ## Fields -/

/-- The upper eight bits. -/
def sizeField (compact : UInt32) : Nat := compact.toNat / 2 ^ 24

/-- The lower 23 bits. -/
def mantissa (compact : UInt32) : Nat := compact.toNat % 2 ^ 23

/-- The bit between them. -/
def isSigned (compact : UInt32) : Bool := compact.toNat.testBit 23

/-- The number that is meant but for its sign: the mantissa times 256 to the power of the size less three,
without what is behind the point. -/
def magnitude (compact : UInt32) : Nat := mantissa compact * 256 ^ sizeField compact / 256 ^ 3

/-- The number has a compact form. -/
def IsCompact (n : Nat) : Prop := ∃ m k, m < 2 ^ 23 ∧ n = m * 256 ^ k

/-- The digits of the mantissa that are not behind the point. -/
def digits (compact : UInt32) : Nat := mantissa compact / 256 ^ (3 - sizeField compact)

section Fields

variable (compact : UInt32)

theorem mantissa_lt : mantissa compact < 2 ^ 23 := Nat.mod_lt _ (by decide)

theorem digits_lt : digits compact < 2 ^ 23 :=
  Nat.lt_of_le_of_lt (Nat.div_le_self _ _) (mantissa_lt compact)

/-- A magnitude is its digits times a power of 256. -/
theorem magnitude_eq : magnitude compact = digits compact * 256 ^ (sizeField compact - 3) := by
  unfold magnitude digits
  rcases Nat.le_total (sizeField compact) 3 with hle | hge
  · have hsplit : 256 ^ 3 = 256 ^ (3 - sizeField compact) * 256 ^ sizeField compact :=
      (Nat.pow_sub_mul_pow 256 hle).symm
    rw [Nat.sub_eq_zero_of_le hle, Nat.pow_zero, Nat.mul_one, hsplit,
      Nat.mul_div_mul_right _ _ (Nat.pow_pos (by decide))]
  · have hsplit : 256 ^ sizeField compact = 256 ^ (sizeField compact - 3) * 256 ^ 3 :=
      (Nat.pow_sub_mul_pow 256 hge).symm
    rw [Nat.sub_eq_zero_of_le hge, Nat.pow_zero, Nat.div_one, hsplit, ← Nat.mul_assoc,
      Nat.mul_div_cancel _ (by decide)]

theorem isCompact_magnitude : IsCompact (magnitude compact) :=
  ⟨digits compact, sizeField compact - 3, digits_lt compact, magnitude_eq compact⟩

theorem magnitude_ne_zero_iff : magnitude compact ≠ 0 ↔ digits compact ≠ 0 := by
  rw [magnitude_eq, Nat.mul_ne_zero_iff]
  exact and_iff_left (Nat.ne_of_gt (Nat.pow_pos (by decide)))

end Fields

/-! ## Reading -/

theorem toNat_and_mantissaMask (x : UInt32) : (x &&& mantissaMask).toNat = x.toNat % 2 ^ 23 := by
  rw [UInt32.toNat_and]
  exact Nat.and_two_pow_sub_one_eq_mod x.toNat 23

theorem and_signBit_bne_zero (x : UInt32) : (x &&& signBit != 0) = x.toNat.testBit 23 := by
  have hmask : (x &&& signBit).toNat = (x.toNat.testBit 23).toNat * 2 ^ 23 := by
    rw [UInt32.toNat_and]
    exact Nat.and_two_pow x.toNat 23
  have hzero : x &&& signBit = 0 ↔ (x.toNat.testBit 23).toNat * 2 ^ 23 = 0 := by
    rw [← UInt32.toNat_inj, hmask, UInt32.toNat_zero]
  rw [Bool.eq_iff_iff, bne_iff_ne, ne_eq, hzero]
  cases x.toNat.testBit 23 <;> decide

theorem toNat_sizeField (compact : UInt32) : (compact >>> 24).toNat = sizeField compact := by
  rw [UInt32.toNat_shiftRight, Nat.shiftRight_eq_div_pow]
  rfl

/-- What is read, by the digits before the point. -/
theorem decode_eq (compact : UInt32) : ∃ word : UInt32, word.toNat = digits compact ∧
    decode compact =
      { target := if sizeField compact ≤ 3 then Word256.ofUInt64 word.toUInt64
          else (Word256.ofUInt64 word.toUInt64).shiftLeft (8 * (sizeField compact - 3))
        negative := word != 0 && isSigned compact
        overflow := word != 0 && (decide (sizeField compact > 34) ||
          (decide (word > 0xff) && decide (sizeField compact > 33)) ||
          (decide (word > 0xffff) && decide (sizeField compact > 32))) } := by
  refine ⟨if sizeField compact ≤ 3 then
      (compact &&& mantissaMask) >>> UInt32.ofNat (8 * (3 - sizeField compact))
    else compact &&& mantissaMask, ?_, ?_⟩
  · unfold digits
    split
    · next hle =>
      have hcount : (UInt32.ofNat (8 * (3 - sizeField compact))).toNat % 32 =
          8 * (3 - sizeField compact) := by
        rw [UInt32.toNat_ofNat_of_lt' (Nat.lt_of_le_of_lt (by omega : _ ≤ 24) (by decide)),
          Nat.mod_eq_of_lt (by omega)]
      rw [UInt32.toNat_shiftRight, hcount, Nat.shiftRight_eq_div_pow, toNat_and_mantissaMask,
        Bytes.two_pow_eight_mul]
      rfl
    · next hgt =>
      rw [Nat.sub_eq_zero_of_le (Nat.le_of_not_le hgt), Nat.pow_zero, Nat.div_one]
      exact toNat_and_mantissaMask compact
  · unfold decode isSigned
    rw [← toNat_sizeField, ← and_signBit_bne_zero]

/-! ### Numbers that do not fit -/

/-- A number with a byte above the word does not fit. -/
theorem le_mul_pow {x j e : Nat} (hx : 256 ^ j ≤ x) (h : 32 ≤ j + e) : 2 ^ 256 ≤ x * 256 ^ e := by
  calc 2 ^ 256
    _ = 256 ^ 32 := by decide
    _ ≤ 256 ^ (j + e) := Nat.pow_le_pow_right (by decide) h
    _ = 256 ^ j * 256 ^ e := Nat.pow_add 256 j e
    _ ≤ x * 256 ^ e := Nat.mul_le_mul_right _ hx

/-- A number with all bytes within the word fits. -/
theorem mul_pow_lt {x j e : Nat} (hx : x < 256 ^ j) (h : j + e ≤ 32) : x * 256 ^ e < 2 ^ 256 := by
  calc x * 256 ^ e
    _ < 256 ^ j * 256 ^ e := Nat.mul_lt_mul_of_pos_right hx (Nat.pow_pos (by decide))
    _ = 256 ^ (j + e) := (Nat.pow_add 256 j e).symm
    _ ≤ 256 ^ 32 := Nat.pow_le_pow_right (by decide) h
    _ = 2 ^ 256 := by decide

/-- A mantissa of three digits leaves 256 bits by as many of them as it has. -/
theorem overflows_iff {x size : Nat} (hx : x < 2 ^ 23) :
    (x ≠ 0 ∧ (size > 34 ∨ x > 0xff ∧ size > 33 ∨ x > 0xffff ∧ size > 32)) ↔
      2 ^ 256 ≤ x * 256 ^ (size - 3) := by
  constructor
  · rintro ⟨hpos, hsize | ⟨htwo, hsize⟩ | ⟨hthree, hsize⟩⟩
    · exact le_mul_pow (j := 0) (by omega) (by omega)
    · exact le_mul_pow (j := 1) (by omega) (by omega)
    · exact le_mul_pow (j := 2) (by omega) (by omega)
  · intro hover
    have hpos : x ≠ 0 := by
      rintro rfl
      rw [Nat.zero_mul] at hover
      exact absurd hover (by decide)
    refine ⟨hpos, ?_⟩
    apply Decidable.byContradiction
    intro hfits
    have hcases : size ≤ 32 ∨ size = 33 ∧ x < 256 ^ 2 ∨ size = 34 ∧ x < 256 ^ 1 := by omega
    apply absurd hover (Nat.not_le_of_lt ?_)
    rcases hcases with hsize | ⟨hsize, htwo⟩ | ⟨hsize, hone⟩
    · exact mul_pow_lt (j := 3) (by omega) (by omega)
    · exact mul_pow_lt htwo (by omega)
    · exact mul_pow_lt hone (by omega)

/-- Reading gives the number that is meant, if it fits. -/
theorem decode_spec (compact : UInt32) :
    (decode compact).target.toNat = magnitude compact % 2 ^ 256 ∧
      ((decode compact).overflow = true ↔ 2 ^ 256 ≤ magnitude compact) ∧
      ((decode compact).negative = true ↔ magnitude compact ≠ 0 ∧ isSigned compact = true) := by
  obtain ⟨word, hword, hdecode⟩ := decode_eq compact
  have hlt : word.toNat < 2 ^ 23 := hword ▸ digits_lt compact
  have hne : (word != 0) = true ↔ word.toNat ≠ 0 := by
    rw [bne_iff_ne, ne_eq, ne_eq, ← UInt32.toNat_inj, UInt32.toNat_zero]
  rw [hdecode, magnitude_ne_zero_iff, magnitude_eq, ← hword, ← overflows_iff hlt]
  refine ⟨?_, ?_, ?_⟩
  · dsimp only
    split
    · next hle =>
      rw [Word256.toNat_ofUInt64, UInt32.toNat_toUInt64, Nat.sub_eq_zero_of_le hle, Nat.pow_zero, Nat.mul_one]
      exact (Nat.mod_eq_of_lt (Nat.lt_trans hlt (by decide))).symm
    · rw [Word256.toNat_shiftLeft, Word256.toNat_ofUInt64, UInt32.toNat_toUInt64, Bytes.two_pow_eight_mul,
        Word256.size_eq]
  · simp only [Bool.and_eq_true, Bool.or_eq_true, decide_eq_true_eq, hne, GT.gt, UInt32.lt_iff_toNat_lt,
      or_assoc]
    rfl
  · rw [Bool.and_eq_true, hne]

/-! ## Rounding down -/

/-- The least exponent with which the digits of a number fit into the mantissa. -/
structure IsExponent (n e : Nat) : Prop where
  lt : n < 2 ^ 23 * 256 ^ e
  least : ∀ k < e, 2 ^ 23 * 256 ^ k ≤ n

theorem le_div_mul_of_dvd {x y n d : Nat} (hxy : x ≤ y) (hdvd : d ∣ y) (hle : y ≤ n) : x ≤ n / d * d := by
  obtain ⟨z, rfl⟩ := hdvd
  calc x
    _ ≤ d * z / d * d := by rwa [Nat.div_mul_cancel (Nat.dvd_mul_right d z)]
    _ ≤ n / d * d := Nat.mul_le_mul_right d (Nat.div_le_div_right hle)

/-- With fewer digits kept no compact number comes closer, and with more the mantissa does not hold them. -/
theorem IsExponent.isGreatest {n e : Nat} (h : IsExponent n e) :
    IsGreatest {x | IsCompact x ∧ x ≤ n} (n / 256 ^ e * 256 ^ e) := by
  constructor
  · refine ⟨⟨n / 256 ^ e, e, ?_, rfl⟩, Nat.div_mul_le_self _ _⟩
    exact Nat.div_lt_of_lt_mul (Nat.mul_comm _ _ ▸ h.lt)
  · rintro _ ⟨⟨m, k, hm, rfl⟩, hle⟩
    rcases Nat.lt_or_ge k e with hless | hge
    · obtain ⟨below, rfl⟩ := Nat.exists_eq_add_of_lt hless
      have hdvd : 256 ^ (k + below + 1) ∣ 2 ^ 23 * 256 ^ (k + below) :=
        ⟨2 ^ 15, by rw [Nat.pow_succ]; ring⟩
      apply le_div_mul_of_dvd _ hdvd (h.least (k + below) (Nat.lt_succ_self _))
      calc m * 256 ^ k
        _ ≤ 2 ^ 23 * 256 ^ k := Nat.mul_le_mul_right _ (Nat.le_of_lt hm)
        _ ≤ 2 ^ 23 * 256 ^ (k + below) :=
          Nat.mul_le_mul_left _ (Nat.pow_le_pow_right (by decide) (Nat.le_add_right k below))
    · exact le_div_mul_of_dvd (Nat.le_refl _) (Dvd.dvd.mul_left (Nat.pow_dvd_pow 256 hge) m) hle

/-! ## Writing -/

/-- The number of bytes of a number. -/
theorem byteLength_le_iff (value : Word256) (count : Nat) :
    (value.bits + 7) / 8 ≤ count ↔ value.toNat < 256 ^ count := by
  rw [← Bytes.two_pow_eight_mul, ← Word256.bits_le_iff]
  omega

/-- The size that is written: the number of bytes that the number takes with a bit for the sign. -/
def IsWrittenSize (n size : Nat) : Prop := ∀ count, size ≤ count ↔ 2 * n < 256 ^ count

theorem IsWrittenSize.isExponent {n size : Nat} (h : IsWrittenSize n size) : IsExponent n (size - 3) where
  lt := by
    have hfits : 2 * n < 256 ^ (size - 3 + 3) := (h _).mp (by omega)
    rw [Nat.pow_add] at hfits
    omega
  least k hk := by
    have hlong : ¬2 * n < 256 ^ (k + 3) := mt (h _).mpr (by omega)
    rw [Nat.pow_add] at hlong
    omega

theorem IsWrittenSize.mantissa_lt {n size : Nat} (h : IsWrittenSize n size) :
    n * 256 ^ 3 / 256 ^ size < 2 ^ 23 := by
  have hfits : 2 * n < 256 ^ size := (h size).mp (Nat.le_refl _)
  apply Nat.div_lt_of_lt_mul
  omega

/-- The bytes of the number are enough if its highest bit does not reach the sign. -/
theorem IsWrittenSize.of_fits {n bytes : Nat} (hlength : ∀ count, bytes ≤ count ↔ n < 256 ^ count)
    (hfits : 2 * n < 256 ^ bytes) : IsWrittenSize n bytes := by
  intro count
  constructor
  · intro hle
    exact Nat.lt_of_lt_of_le hfits (Nat.pow_le_pow_right (by decide) hle)
  · intro hlt
    exact (hlength count).mpr (by omega)

/-- One more byte is enough otherwise. -/
theorem IsWrittenSize.of_shifted {n bytes : Nat} (hfits : n < 256 ^ bytes) (hshifted : 256 ^ bytes ≤ 2 * n) :
    IsWrittenSize n (bytes + 1) := by
  intro count
  constructor
  · intro hle
    calc 2 * n
      _ < 256 ^ bytes * 256 := by omega
      _ = 256 ^ (bytes + 1) := (Nat.pow_succ ..).symm
      _ ≤ 256 ^ count := Nat.pow_le_pow_right (by decide) hle
  · intro hlt
    exact (Nat.pow_lt_pow_iff_right (by decide)).mp (Nat.lt_of_le_of_lt hshifted hlt)

/-- The mantissa of the given size stands for the number less its further digits. -/
theorem shifted_mantissa_eq (n size : Nat) :
    n * 256 ^ 3 / 256 ^ size * 256 ^ size / 256 ^ 3 = n / 256 ^ (size - 3) * 256 ^ (size - 3) := by
  rcases Nat.le_total size 3 with hle | hge
  · have hdvd : 256 ^ size ∣ n * 256 ^ 3 := Dvd.dvd.mul_left (Nat.pow_dvd_pow 256 hle) n
    rw [Nat.div_mul_cancel hdvd, Nat.mul_div_cancel _ (by decide), Nat.sub_eq_zero_of_le hle, Nat.pow_zero,
      Nat.div_one, Nat.mul_one]
  · have hsplit : 256 ^ size = 256 ^ (size - 3) * 256 ^ 3 := (Nat.pow_sub_mul_pow 256 hge).symm
    rw [hsplit, Nat.mul_div_mul_right _ _ (by decide), ← Nat.mul_assoc, Nat.mul_div_cancel _ (by decide)]

/-- The first three digits of a number. -/
theorem toNat_leadingDigits (value : Word256) {size : Nat} (hsize : value.toNat < 256 ^ size) :
    (leadingDigits value size).toNat = value.toNat * 256 ^ 3 / 256 ^ size := by
  unfold leadingDigits
  split
  · next hle =>
    have hpow : 256 ^ 3 = 256 ^ (3 - size) * 256 ^ size := (Nat.pow_sub_mul_pow 256 hle).symm
    have hlimb : value.limb0.toNat = value.toNat := by
      rw [← Word256.toNat_mod, Nat.mod_eq_of_lt]
      calc value.toNat
        _ < 256 ^ size := hsize
        _ ≤ 256 ^ 3 := Nat.pow_le_pow_right (by decide) hle
        _ ≤ UInt64.size := by decide
    have hlt : value.toNat * 256 ^ (3 - size) < 256 ^ 3 := by
      rw [hpow, Nat.mul_comm]
      exact Nat.mul_lt_mul_of_pos_left hsize (Nat.pow_pos (by decide))
    rw [UInt64.toNat_toUInt32, UInt64.toNat_shiftLeft, Word256.toNat_ofNat_shift (by omega), hlimb,
      Nat.shiftLeft_eq, Bytes.two_pow_eight_mul, Nat.mod_eq_of_lt (Nat.lt_trans hlt (by decide)),
      Nat.mod_eq_of_lt (Nat.lt_trans hlt (by decide)), hpow, ← Nat.mul_assoc,
      Nat.mul_div_cancel _ (Nat.pow_pos (by decide))]
  · next hgt =>
    have hpow : 256 ^ size = 256 ^ (size - 3) * 256 ^ 3 :=
      (Nat.pow_sub_mul_pow 256 (Nat.le_of_not_le hgt)).symm
    have hlt : value.toNat / 256 ^ (size - 3) < 256 ^ 3 := by
      apply Nat.div_lt_of_lt_mul
      rwa [← hpow]
    rw [UInt64.toNat_toUInt32, ← Word256.toNat_mod, Word256.toNat_shiftRight, Bytes.two_pow_eight_mul,
      Nat.mod_eq_of_lt (Nat.lt_trans hlt (by decide)), Nat.mod_eq_of_lt (Nat.lt_trans hlt (by decide)), hpow,
      Nat.mul_div_mul_right _ _ (by decide)]

/-! ### Assembling -/

/-- Digits and size do not overlap. -/
theorem toNat_assembled {m : UInt32} {size : Nat} (hm : m.toNat < 2 ^ 24) (hsize : size < 256) :
    (m ||| UInt32.ofNat size <<< 24).toNat = m.toNat + 2 ^ 24 * size := by
  have hplace : (UInt32.ofNat size <<< 24).toNat = 2 ^ 24 * size := by
    have hfield : (UInt32.ofNat size).toNat = size :=
      UInt32.toNat_ofNat_of_lt' (Nat.lt_trans hsize (by decide))
    have hcount : (24 : UInt32).toNat % 32 = 24 := rfl
    rw [UInt32.toNat_shiftLeft, hfield, hcount, Nat.shiftLeft_eq, Nat.mul_comm, Nat.mod_eq_of_lt (by omega)]
  rw [UInt32.toNat_or, hplace, Nat.or_comm, ← Nat.two_pow_add_eq_or_of_lt hm, Nat.add_comm]

theorem toNat_or_signBit {x : UInt32} {m size : Nat} (hm : m < 2 ^ 23) (hx : x.toNat = m + 2 ^ 24 * size) :
    (x ||| signBit).toNat = m + 2 ^ 23 + 2 ^ 24 * size := by
  have hsign : 2 ^ 24 * size + 2 ^ 23 = 2 ^ 24 * size ||| 2 ^ 23 :=
    Nat.two_pow_add_eq_or_of_lt (by decide) size
  have hfields : 2 ^ 24 * size + m = 2 ^ 24 * size ||| m :=
    Nat.two_pow_add_eq_or_of_lt (Nat.lt_trans hm (by decide)) size
  have hbelow : 2 ^ 23 * (2 * size + 1) + m = 2 ^ 23 * (2 * size + 1) ||| m :=
    Nat.two_pow_add_eq_or_of_lt hm (2 * size + 1)
  have hplace : 2 ^ 23 * (2 * size + 1) = 2 ^ 24 * size + 2 ^ 23 := by omega
  rw [UInt32.toNat_or, hx, Nat.add_comm m, hfields, Nat.or_assoc, Nat.or_comm m, ← Nat.or_assoc]
  change 2 ^ 24 * size ||| 2 ^ 23 ||| m = _
  rw [← hsign, ← hplace, ← hbelow]
  omega

/-- A word with the three fields in their places. -/
theorem fields_of_toNat {compact : UInt32} {m size : Nat} {signed : Bool} (hm : m < 2 ^ 23)
    (h : compact.toNat = m + 2 ^ 23 * signed.toNat + 2 ^ 24 * size) :
    sizeField compact = size ∧ mantissa compact = m ∧ isSigned compact = signed := by
  have hsign : signed.toNat ≤ 1 := Bool.toNat_le signed
  unfold sizeField mantissa isSigned
  rw [h]
  refine ⟨by omega, by omega, ?_⟩
  rw [Nat.testBit_eq_decide_div_mod_eq]
  cases signed with
  | true => exact decide_eq_true (by rw [Bool.toNat_true]; omega)
  | false => exact decide_eq_false (by rw [Bool.toNat_false]; omega)

/-- Size and mantissa are written as they are, and the sign if the mantissa is not zero. -/
theorem fields_assemble {m : UInt32} {size : Nat} (negative : Bool) (hm : m.toNat < 2 ^ 23)
    (hsize : size < 256) :
    let unsigned := m ||| UInt32.ofNat size <<< 24
    let compact := if negative && unsigned &&& mantissaMask != 0 then unsigned ||| signBit else unsigned
    sizeField compact = size ∧ mantissa compact = m.toNat ∧
      isSigned compact = (negative && m.toNat != 0) := by
  intro unsigned compact
  have hunsigned : unsigned.toNat = m.toNat + 2 ^ 24 * size := toNat_assembled (by omega) hsize
  have hmask : (unsigned &&& mantissaMask != 0) = (m.toNat != 0) := by
    have hvalue : (unsigned &&& mantissaMask).toNat = m.toNat := by
      rw [toNat_and_mantissaMask, hunsigned]
      omega
    rw [Bool.eq_iff_iff, bne_iff_ne, bne_iff_ne, ne_eq, ne_eq, ← UInt32.toNat_inj, hvalue, UInt32.toNat_zero]
  apply fields_of_toNat hm
  change (if negative && unsigned &&& mantissaMask != 0 then unsigned ||| signBit else unsigned).toNat = _
  rw [hmask]
  cases negative && m.toNat != 0 with
  | true => rw [if_pos rfl, toNat_or_signBit hm hunsigned, Bool.toNat_true, Nat.mul_one]
  | false => rw [if_neg (by decide), hunsigned, Bool.toNat_false, Nat.mul_zero, Nat.add_zero]

/-- The first three digits reach into the sign bit exactly if there is no bit left for the sign. -/
theorem leading_bit_iff {n size : Nat} (hsize : n < 256 ^ size) :
    (n * 256 ^ 3 / 256 ^ size).testBit 23 = true ↔ 256 ^ size ≤ 2 * n := by
  have hpos : 0 < 256 ^ size := Nat.pow_pos (by decide)
  have hlt : n * 256 ^ 3 / 256 ^ size < 256 ^ 3 := by
    apply Nat.div_lt_of_lt_mul
    exact Nat.mul_lt_mul_of_pos_right hsize (by decide)
  have hge : 2 ^ 23 ≤ n * 256 ^ 3 / 256 ^ size ↔ 256 ^ size ≤ 2 * n := by
    rw [Nat.le_div_iff_mul_le hpos]
    omega
  rw [← hge, Nat.testBit_eq_decide_div_mod_eq, decide_eq_true_eq]
  generalize n * 256 ^ 3 / 256 ^ size = leading at hlt
  omega

/-- What is written, field by field. -/
theorem encode_fields (value : Word256) (negative : Bool) : ∃ size, IsWrittenSize value.toNat size ∧
    sizeField (encode value negative) = size ∧
    mantissa (encode value negative) = value.toNat * 256 ^ 3 / 256 ^ size ∧
    isSigned (encode value negative) = (negative && value.toNat * 256 ^ 3 / 256 ^ size != 0) := by
  generalize hbytes : (value.bits + 7) / 8 = bytes
  have hlength (count : Nat) : bytes ≤ count ↔ value.toNat < 256 ^ count :=
    hbytes ▸ byteLength_le_iff value count
  have hfits : value.toNat < 256 ^ bytes := (hlength bytes).mp (Nat.le_refl _)
  have hbound : bytes ≤ 32 := by
    have hbits := value.bits_le
    omega
  have hdigits := toNat_leadingDigits value hfits
  have hsign : (leadingDigits value bytes &&& signBit != 0) = true ↔ 256 ^ bytes ≤ 2 * value.toNat := by
    rw [and_signBit_bne_zero, hdigits, leading_bit_iff hfits]
  unfold encode
  rw [hbytes]
  by_cases hshifted : 256 ^ bytes ≤ 2 * value.toNat
  · -- there is no bit for the sign, which takes another byte
    have hwritten : IsWrittenSize value.toNat (bytes + 1) := .of_shifted hfits hshifted
    have hmantissa : (leadingDigits value bytes >>> 8).toNat = value.toNat * 256 ^ 3 / 256 ^ (bytes + 1) := by
      have hcount : (8 : UInt32).toNat % 32 = 8 := rfl
      have hpow : 256 ^ (bytes + 1) = 256 ^ bytes * 2 ^ 8 := Nat.pow_succ ..
      rw [UInt32.toNat_shiftRight, hcount, Nat.shiftRight_eq_div_pow, hdigits, Nat.div_div_eq_div_mul, hpow]
    refine ⟨bytes + 1, hwritten, ?_⟩
    rw [← hmantissa]
    simp only [hsign.mpr hshifted, if_true]
    exact fields_assemble negative (hmantissa ▸ hwritten.mantissa_lt) (by omega)
  · have hwritten : IsWrittenSize value.toNat bytes := .of_fits hlength (Nat.lt_of_not_le hshifted)
    refine ⟨bytes, hwritten, ?_⟩
    rw [← hdigits]
    simp only [Bool.eq_false_iff.mpr (mt hsign.mp hshifted), Bool.false_eq_true, if_false]
    exact fields_assemble negative (hdigits ▸ hwritten.mantissa_lt) (by omega)

/-! ## Writing and reading -/

/-- Reading what is written gives the nearest number below that has a compact form. -/
theorem decode_encode (value : Word256) (negative : Bool) :
    IsGreatest {x | IsCompact x ∧ x ≤ value.toNat} (decode (encode value negative)).target.toNat ∧
      (decode (encode value negative)).overflow = false ∧
      ((decode (encode value negative)).negative = true ↔
        (decode (encode value negative)).target.toNat ≠ 0 ∧ negative = true) := by
  obtain ⟨size, hwritten, hsize, hmantissa, hsigned⟩ := encode_fields value negative
  obtain ⟨htarget, hoverflow, hnegative⟩ := decode_spec (encode value negative)
  have hmagnitude : magnitude (encode value negative) =
      value.toNat / 256 ^ (size - 3) * 256 ^ (size - 3) := by
    rw [magnitude, hsize, hmantissa, shifted_mantissa_eq]
  have hgreatest := hwritten.isExponent.isGreatest
  rw [← hmagnitude] at hgreatest
  have hlt : magnitude (encode value negative) < 2 ^ 256 := by
    rw [← Word256.size_eq]
    exact Nat.lt_of_le_of_lt hgreatest.1.2 value.toNat_lt
  rw [Nat.mod_eq_of_lt hlt] at htarget
  rw [htarget]
  refine ⟨hgreatest, ?_, ?_⟩
  · exact Bool.eq_false_iff.mpr (mt hoverflow.mp (Nat.not_le_of_lt hlt))
  · have hmantissa_ne (hne : magnitude (encode value negative) ≠ 0) :
        value.toNat * 256 ^ 3 / 256 ^ size ≠ 0 := by
      rintro hzero
      apply hne
      rw [magnitude, hmantissa, hzero, Nat.zero_mul, Nat.zero_div]
    rw [hnegative, hsigned, Bool.and_eq_true, bne_iff_ne]
    constructor
    · exact fun ⟨hne, hsign, _⟩ ↦ ⟨hne, hsign⟩
    · exact fun ⟨hne, hsign⟩ ↦ ⟨hne, hsign, hmantissa_ne hne⟩

/-- A number that has a compact form is read as it was written, with its sign unless it is zero. -/
theorem decode_encode_of_isCompact {value : Word256} (negative : Bool) (h : IsCompact value.toNat)
    (hsign : negative = true → value.toNat ≠ 0) :
    decode (encode value negative) = ⟨value, negative, false⟩ := by
  obtain ⟨hgreatest, hoverflow, hnegative⟩ := decode_encode value negative
  have hitself : IsGreatest {x | IsCompact x ∧ x ≤ value.toNat} value.toNat :=
    ⟨⟨h, Nat.le_refl _⟩, fun _ hx ↦ hx.2⟩
  have htarget := hgreatest.unique hitself
  rw [htarget] at hnegative
  have hflag : (decode (encode value negative)).negative = negative := by
    rw [Bool.eq_iff_iff, hnegative]
    exact and_iff_right_of_imp hsign
  calc decode (encode value negative)
    _ = ⟨(decode (encode value negative)).target, (decode (encode value negative)).negative,
        (decode (encode value negative)).overflow⟩ := rfl
    _ = ⟨value, negative, false⟩ := by rw [Word256.toNat_inj.mp htarget, hflag, hoverflow]

/-- Thirty-two bits are read as the number that they stand for, with its sign unless it is zero, and are said
not to fit exactly if this number does not; writing the number again loses nothing. Any number is written so
that reading gives the largest number below it which the mantissa can hold. -/
theorem decode_exact_encode_largest :
    (∀ compact : UInt32,
      ((decode compact).overflow = true ↔ 2 ^ 256 ≤ magnitude compact) ∧
      (magnitude compact < 2 ^ 256 →
        (decode compact).target.toNat = magnitude compact ∧
        ((decode compact).negative = true ↔ magnitude compact ≠ 0 ∧ isSigned compact = true) ∧
        decode (encode (decode compact).target (decode compact).negative) =
          ⟨(decode compact).target, (decode compact).negative, false⟩)) ∧
    ∀ value : Word256,
      (decode (encode value false)).negative = false ∧
      (decode (encode value false)).overflow = false ∧
      IsGreatest {x | (∃ m k, m < 2 ^ 23 ∧ x = m * 256 ^ k) ∧ x ≤ value.toNat}
        (decode (encode value false)).target.toNat := by
  constructor
  · intro compact
    obtain ⟨htarget, hoverflow, hnegative⟩ := decode_spec compact
    refine ⟨hoverflow, fun hlt ↦ ?_⟩
    rw [Nat.mod_eq_of_lt hlt] at htarget
    refine ⟨htarget, hnegative, decode_encode_of_isCompact _ ?_ ?_⟩
    · rw [htarget]
      exact isCompact_magnitude compact
    · rw [htarget]
      exact fun hsign ↦ (hnegative.mp hsign).1
  · intro value
    obtain ⟨hgreatest, hoverflow, hnegative⟩ := decode_encode value false
    refine ⟨?_, hoverflow, hgreatest⟩
    exact Bool.eq_false_iff.mpr fun hsign ↦ Bool.false_ne_true (hnegative.mp hsign).2

/-- A negative number: three digits, a zero behind them, and the sign. -/
theorem decode_exact_encode_largest_negative : magnitude 0x04923456 < 2 ^ 256 ∧
    (decode 0x04923456).target.toNat = 0x12345600 ∧ (decode 0x04923456).negative = true ∧
    decode (encode (decode 0x04923456).target true) = ⟨(decode 0x04923456).target, true, false⟩ := by
  have hmagnitude : magnitude 0x04923456 = 0x12345600 := by decide
  have hlt : magnitude 0x04923456 < 2 ^ 256 := by
    rw [hmagnitude]
    decide
  obtain ⟨htarget, hnegative, hround⟩ := (decode_exact_encode_largest.1 0x04923456).2 hlt
  have hsign : (decode 0x04923456).negative = true := by
    refine hnegative.mpr ⟨?_, by decide⟩
    rw [hmagnitude]
    decide
  rw [hsign] at hround
  exact ⟨hlt, htarget.trans hmagnitude, hsign, hround⟩

end UtxoConsensus.CompactTarget
