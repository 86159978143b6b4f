import Mathlib.Tactic.Ring
import UtxoConsensus.Proofs.Word256.Addition
import UtxoConsensus.Proofs.Word256.Digits
import UtxoConsensus.Word256.Division

/-!
# Long division of 256-bit words

When the bits from some place on have been taken in, quotient and remainder are those of the number that
these bits make. Taking in one more bit doubles the number, and the remainder with it. A bit that left the
word then would not be lost: it says that the divisor fits, and the difference is again what is left of the
remainder, as it is taken modulo the number of words. The remainder of a word is too small for that to happen.
-/

namespace UtxoConsensus.Word256

variable {a d : Word256} {s : Division} {i : Nat}

/-! ## One bit -/

/-- A number is divided by dividing its half and then twice what is left, with its last bit behind it. -/
theorem div_mod_of_half {n d : Nat} (hd : 0 < d) :
    if d ≤ 2 * (n / 2 % d) + n % 2 then
      n / d = 2 * (n / 2 / d) + 1 ∧ n % d = 2 * (n / 2 % d) + n % 2 - d
    else n / d = 2 * (n / 2 / d) ∧ n % d = 2 * (n / 2 % d) + n % 2 := by
  have hhalf : d * (n / 2 / d) + n / 2 % d = n / 2 := Nat.div_add_mod _ _
  have hless : n / 2 % d < d := Nat.mod_lt _ hd
  split
  · next hfits =>
    rw [Nat.div_mod_unique hd, Nat.mul_succ, Nat.mul_left_comm]
    omega
  · next hless =>
    rw [Nat.div_mod_unique hd, Nat.mul_left_comm]
    omega

/-- The difference of a number that has left the word is found in the word if it fits there. -/
theorem sub_mod_of_carry {low carry n d m : Nat} (hn : low + m * carry = n) (hcarry : carry ≤ 1)
    (hle : d ≤ n) (hfits : n - d < m) : (low + m - d) % m = n - d := by
  rcases Nat.le_one_iff_eq_zero_or_eq_one.mp hcarry with rfl | rfl
  · have hwrap : low + m - d = n - d + m := by omega
    rw [hwrap, Nat.add_mod_right, Nat.mod_eq_of_lt hfits]
  · have hsame : low + m - d = n - d := by omega
    rw [hsame, Nat.mod_eq_of_lt hfits]

/-- The bits from place `i` on have been divided. -/
structure Division.IsAt (a d : Word256) (i : Nat) (s : Division) : Prop where
  quotient_eq : s.quotient.toNat = a.toNat / 2 ^ i / d.toNat * 2 ^ i
  remainder_eq : s.remainder.toNat = a.toNat / 2 ^ i % d.toNat

/-- The remainder with one more bit behind it, as far as it fits into the word. -/
def Division.extended (a : Word256) (i : Nat) (s : Division) : Word256 :=
  if a.bit i then (s.remainder.shiftLeft 1).or one else s.remainder.shiftLeft 1

/-- One bit is appended to the remainder, and the divisor is subtracted if it fits. -/
theorem Division.step_eq (a d : Word256) (i : Nat) (s : Division) : Division.step a d i s =
    if s.remainder.bit 255 || decide (d ≤ s.extended a i) then
      ⟨s.quotient.or (one.shiftLeft i), s.extended a i - d⟩
    else ⟨s.quotient, s.extended a i⟩ := rfl

/-- What leaves the word when the remainder is doubled is its highest bit. -/
theorem Division.toNat_extended (a : Word256) (i : Nat) (s : Division) :
    (s.extended a i).toNat + size * (s.remainder.bit 255).toNat =
      2 * s.remainder.toNat + a.toNat / 2 ^ i % 2 := by
  have hlt := s.remainder.toNat_lt
  have hdoubled : (s.remainder.shiftLeft 1).toNat = 2 ^ 1 * (s.remainder.toNat % 2 ^ 255) := by
    rw [toNat_shiftLeft, Nat.pow_one, Nat.mul_comm, ← Nat.mul_mod_mul_left]
    rfl
  have hhigh : (s.remainder.bit 255).toNat = s.remainder.toNat / 2 ^ 255 := by
    rw [bit_eq_testBit, Nat.toNat_testBit, Nat.mod_eq_of_lt]
    rw [size_eq] at hlt
    omega
  have hext : (s.extended a i).toNat = 2 ^ 1 * (s.remainder.toNat % 2 ^ 255) + a.toNat / 2 ^ i % 2 := by
    unfold extended
    rw [← Nat.toNat_testBit, ← bit_eq_testBit]
    cases a.bit i with
    | true =>
      rw [if_pos rfl, toNat_or, hdoubled, toNat_one, ← Nat.two_pow_add_eq_or_of_lt (by decide)]
      rfl
    | false =>
      rw [if_neg (by decide), hdoubled]
      rfl
  rw [hext, hhigh, size_eq]
  omega

/-- One step takes in one bit: the divisor is subtracted exactly if it fits into the remainder, whether or
not this has left the word. -/
theorem Division.IsAt.step (hd : 0 < d.toNat) (hi : i < 256) (h : Division.IsAt a d (i + 1) s) :
    Division.IsAt a d i (Division.step a d i s) := by
  have hext := s.toNat_extended a i
  have hcarry : (s.remainder.bit 255).toNat ≤ 1 := Bool.toNat_le _
  have hextlt := (s.extended a i).toNat_lt
  have hdlt := d.toNat_lt
  have hhalf : a.toNat / 2 ^ (i + 1) = a.toNat / 2 ^ i / 2 := by rw [Nat.pow_succ, Nat.div_div_eq_div_mul]
  have hquotient := h.quotient_eq
  have hremainder := h.remainder_eq
  rw [hhalf] at hquotient hremainder
  rw [hremainder] at hext
  have hdivided := div_mod_of_half (n := a.toNat / 2 ^ i) hd
  have hfits : (s.remainder.bit 255 || decide (d ≤ s.extended a i)) = true ↔
      d.toNat ≤ 2 * (a.toNat / 2 ^ i / 2 % d.toNat) + a.toNat / 2 ^ i % 2 := by
    rw [Bool.or_eq_true, decide_eq_true_eq, le_iff_toNat_le, ← hext]
    cases s.remainder.bit 255 with
    | true =>
      rw [Bool.toNat_true]
      exact iff_of_true (.inl rfl) (by omega)
    | false => simp
  have htwo : 2 ^ (i + 1) = 2 * 2 ^ i := Nat.pow_succ'
  rw [step_eq]
  split
  · next hsubtract =>
    have hle := hfits.mp hsubtract
    rw [if_pos hle] at hdivided
    obtain ⟨hdiv, hmod⟩ := hdivided
    constructor
    case quotient_eq =>
      have hbit : (one.shiftLeft i).toNat = 2 ^ i := by
        rw [toNat_shiftLeft, toNat_one, Nat.one_mul, size_eq]
        exact Nat.mod_eq_of_lt (Nat.pow_lt_pow_right (by decide) hi)
      rw [toNat_or, hbit, hquotient, hdiv, Nat.mul_comm _ (2 ^ (i + 1)),
        ← Nat.two_pow_add_eq_or_of_lt (Nat.pow_lt_pow_right (by decide) (Nat.lt_succ_self i)), htwo]
      ring
    case remainder_eq =>
      have hrest : a.toNat / 2 ^ i % d.toNat < size := Nat.lt_trans (Nat.mod_lt _ hd) hdlt
      rw [hmod] at hrest
      rw [toNat_sub, hmod]
      exact sub_mod_of_carry hext hcarry hle hrest
  · next hkeep =>
    have hless := mt hfits.mpr hkeep
    rw [if_neg hless] at hdivided
    obtain ⟨hdiv, hmod⟩ := hdivided
    constructor
    case quotient_eq =>
      rw [hquotient, hdiv, htwo]
      ring
    case remainder_eq =>
      rw [← hext] at hless hmod
      rw [hmod]
      rcases Nat.le_one_iff_eq_zero_or_eq_one.mp hcarry with hzero | hone
      · rw [hzero, Nat.mul_zero, Nat.add_zero]
      · rw [hone, Nat.mul_one] at hless
        omega

/-! ## All bits -/

/-- All bits down to the lowest one, by induction on their number. -/
theorem Division.IsAt.run (hd : 0 < d.toNat) (hi : i ≤ 256) (h : Division.IsAt a d i s) :
    Division.IsAt a d 0 (Division.run a d i s) := by
  induction i generalizing s with
  | zero => exact h
  | succ i ih => exact ih (Nat.le_of_succ_le hi) (h.step hd hi)

/-- Above its digits nothing is left of a number. -/
theorem Division.isAt_bits (a d : Word256) : Division.IsAt a d a.bits ⟨zero, zero⟩ := by
  have hzero : a.toNat / 2 ^ a.bits = 0 := Nat.div_eq_of_lt ((a.bits_le_iff _).mp (Nat.le_refl _))
  constructor
  · rw [hzero, Nat.zero_div, Nat.zero_mul, toNat_zero]
  · rw [hzero, Nat.zero_mod, toNat_zero]

/-- Quotient and remainder are those of the numbers. -/
theorem divRem?_eq_some (a : Word256) (hd : 0 < d.toNat) : ∃ s, a.divRem? d = some s ∧
    s.quotient.toNat = a.toNat / d.toNat ∧ s.remainder.toNat = a.toNat % d.toNat := by
  have hnonzero : ¬d.isZero = true := fun hzero ↦ Nat.ne_of_gt hd (d.isZero_iff.mp hzero)
  unfold divRem?
  rw [if_neg hnonzero]
  by_cases hless : a < d
  · rw [if_pos hless]
    rw [lt_iff_toNat_lt] at hless
    exact ⟨_, rfl, (Nat.div_eq_of_lt hless).symm, (Nat.mod_eq_of_lt hless).symm⟩
  · rw [if_neg hless]
    obtain ⟨hquotient, hremainder⟩ := (Division.isAt_bits a d).run hd a.bits_le
    rw [Nat.pow_zero, Nat.div_one] at hquotient hremainder
    rw [Nat.mul_one] at hquotient
    exact ⟨_, rfl, hquotient, hremainder⟩

/-- While a bit is left to be taken in, the others make a number of at most 255 bits, and the remainder is not
larger. So what is doubled never leaves the word, whatever the divisor: the highest bit is looked at as a
precaution only. -/
theorem Division.IsAt.bit_highest (h : Division.IsAt a d (i + 1) s) : s.remainder.bit 255 = false := by
  have ha := a.toNat_lt
  have hhalf : a.toNat / 2 ^ (i + 1) ≤ a.toNat / 2 :=
    Nat.div_le_div_left (Nat.le_self_pow (Nat.succ_ne_zero i) 2) Nat.two_pos
  have hless : s.remainder.toNat < 2 ^ 255 := by
    rw [size_eq] at ha
    calc s.remainder.toNat
      _ = a.toNat / 2 ^ (i + 1) % d.toNat := h.remainder_eq
      _ ≤ a.toNat / 2 ^ (i + 1) := Nat.mod_le _ _
      _ ≤ a.toNat / 2 := hhalf
      _ < 2 ^ 255 := by omega
  rw [bit_eq_testBit]
  exact Nat.testBit_lt_two_pow hless

theorem toNat_pos_iff : 0 < d.toNat ↔ d ≠ zero := by
  rw [Nat.pos_iff_ne_zero, ne_eq, ← toNat_zero, toNat_inj]

/-- There is no result exactly for the divisor zero. -/
theorem divRem?_eq_none_iff : a.divRem? d = none ↔ d = zero := by
  constructor
  · intro hnone
    by_contra hne
    obtain ⟨s, hsome, _⟩ := divRem?_eq_some a (toNat_pos_iff.mpr hne)
    rw [hnone] at hsome
    cases hsome
  · intro hzero
    exact if_pos (d.isZero_iff.mpr (congrArg toNat hzero))

/-- **Division is exact.** For every divisor but zero, those above 2^255 included, there are a quotient and a
remainder, and they are those of the unbounded numbers. -/
theorem divRem?_exact (a d : Word256) :
    (d ≠ zero → ∃ quotient remainder : Word256, a.divRem? d = some ⟨quotient, remainder⟩ ∧
      a.toNat = quotient.toNat * d.toNat + remainder.toNat ∧ remainder.toNat < d.toNat) ∧
    (a.divRem? d = none ↔ d = zero) := by
  refine ⟨?exact, divRem?_eq_none_iff⟩
  case exact =>
    intro hne
    have hpos := toNat_pos_iff.mpr hne
    obtain ⟨s, hsome, hquotient, hremainder⟩ := divRem?_eq_some a hpos
    refine ⟨s.quotient, s.remainder, hsome, ?_, ?_⟩
    · rw [hquotient, hremainder, Nat.mul_comm, Nat.div_add_mod]
    · rw [hremainder]
      exact Nat.mod_lt _ hpos

/-- A divisor above 2^255. -/
theorem divRem?_exact_largeDivisor : 2 ^ 255 < toNat ⟨1, 0, 0, 0x8000000000000000⟩ ∧
    (⟨1, 0, 0, 0x8000000000000000⟩ : Word256) ≠ zero ∧
    ∃ quotient remainder : Word256, max.divRem? ⟨1, 0, 0, 0x8000000000000000⟩ = some ⟨quotient, remainder⟩ ∧
      max.toNat = quotient.toNat * toNat ⟨1, 0, 0, 0x8000000000000000⟩ + remainder.toNat ∧
      remainder.toNat < toNat ⟨1, 0, 0, 0x8000000000000000⟩ :=
  ⟨by decide, by decide, (divRem?_exact max ⟨1, 0, 0, 0x8000000000000000⟩).1 (by decide)⟩

example : max.divRem? ⟨1, 0, 0, 0x8000000000000000⟩ =
    some ⟨one, ⟨0xfffffffffffffffe, 0xffffffffffffffff, 0xffffffffffffffff, 0x7fffffffffffffff⟩⟩ := by
  decide +kernel

end UtxoConsensus.Word256
