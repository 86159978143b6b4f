import Mathlib.Data.List.Prime
import Mathlib.FieldTheory.Finite.Basic
import Mathlib.NumberTheory.LucasPrimality
import UtxoConsensus.Curve.Field

/-!
# The field prime is prime

A number is prime if some base has the order of the number less one. By Lucas's test it is enough to look at
as many powers as the number less one has prime factors. The factors are certified in the same way, down to
numbers that are small enough to try all divisors. With the field prime being prime, the power that serves as
a square root is one of the two roots wherever there is one.
-/

namespace UtxoConsensus.Curve

/-! ## Powers -/

theorem square_pow_mod (m base half : Nat) : (base * base % m) ^ half % m = base ^ (2 * half) % m := by
  rw [← Nat.pow_mod, pow_mul, sq]

/-- Squaring and multiplying gives the power. -/
theorem powMod_eq (m base exponent : Nat) : powMod m base exponent = base ^ exponent % m := by
  fun_induction powMod m base exponent with
  | case1 base => rw [pow_zero]
  | case2 base exponent hpos root hodd ih =>
    have hexponent : exponent = 2 * (exponent / 2) + 1 := by omega
    have hroot : root = base ^ (2 * (exponent / 2)) % m := ih.trans (square_pow_mod m base _)
    rw [hroot, Nat.mul_mod_mod, ← pow_succ', ← hexponent]
  | case3 base exponent hpos root heven ih =>
    have hexponent : exponent = 2 * (exponent / 2) := by omega
    have hroot : root = base ^ (2 * (exponent / 2)) % m := ih.trans (square_pow_mod m base _)
    rw [hroot, ← hexponent]

theorem powMod_lt {m : Nat} (hm : 0 < m) (base exponent : Nat) : powMod m base exponent < m := by
  rw [powMod_eq]
  exact Nat.mod_lt _ hm

theorem pow_eq_one_iff {m : Nat} (hm : 1 < m) (base exponent : Nat) :
    (base : ZMod m) ^ exponent = 1 ↔ powMod m base exponent = 1 := by
  rw [powMod_eq, ← Nat.cast_pow, ← Nat.cast_one, ZMod.natCast_eq_natCast_iff', Nat.mod_eq_of_lt hm]

/-! ## Certificates -/

/-- No number below 320 divides `n`, and larger divisors would have a smaller counterpart. -/
def isSmallPrime (n : Nat) : Bool :=
  decide (2 ≤ n) && decide (n < 320 * 320) && (List.range 320).all fun d ↦ d < 2 || n ≤ d || n % d != 0

theorem prime_of_isSmallPrime {n : Nat} (h : isSmallPrime n = true) : n.Prime := by
  simp only [isSmallPrime, Bool.and_eq_true, decide_eq_true_eq, List.all_eq_true, List.mem_range,
    Bool.or_eq_true, bne_iff_ne] at h
  obtain ⟨⟨htwo, hsmall⟩, htried⟩ := h
  rw [Nat.prime_def_le_sqrt]
  refine ⟨htwo, fun d hd hle hdvd ↦ ?_⟩
  have hlt : d < 320 := Nat.lt_of_le_of_lt hle (Nat.sqrt_lt.mpr hsmall)
  have hless : d < n := Nat.lt_of_le_of_lt hle (Nat.sqrt_lt_self htwo)
  rcases htried d hlt with (hbelow | habove) | hrest
  · omega
  · omega
  · exact hrest (Nat.mod_eq_zero_of_dvd hdvd)

/-- What Lucas's test needs to know of a number: a base, and the prime factors of the number less one. -/
structure PrimeEntry where
  number : Nat
  base : Nat
  factors : List Nat

/-- Does the number pass the test? The factors must be small or known to be prime. -/
def PrimeEntry.passes (known : List Nat) (entry : PrimeEntry) : Bool :=
  decide (1 < entry.number) && entry.factors.prod + 1 == entry.number &&
    powMod entry.number entry.base (entry.number - 1) == 1 &&
    entry.factors.all fun q ↦ (isSmallPrime q || known.contains q) &&
      powMod entry.number entry.base ((entry.number - 1) / q) != 1

/-- Do all numbers of a list pass the test, with those before them known to be prime? -/
def areCertified (known : List Nat) : List PrimeEntry → Bool
  | [] => true
  | entry :: entries => entry.passes known && areCertified (entry.number :: known) entries

/-- An entry that passes is prime by Lucas, if the primes it refers to are. -/
theorem PrimeEntry.prime_of_passes {known : List Nat} {entry : PrimeEntry}
    (hknown : ∀ q ∈ known, q.Prime) (h : entry.passes known = true) : entry.number.Prime := by
  simp only [passes, Bool.and_eq_true, decide_eq_true_eq, beq_iff_eq, List.all_eq_true,
    Bool.or_eq_true, List.contains_iff_mem, bne_iff_ne] at h
  obtain ⟨⟨⟨hlarge, hproduct⟩, hwhole⟩, hfactors⟩ := h
  have hproduct : entry.number - 1 = entry.factors.prod := by rw [← hproduct, Nat.add_sub_cancel]
  refine lucas_primality entry.number entry.base ((pow_eq_one_iff hlarge _ _).mpr hwhole) ?_
  intro q hq hdvd
  obtain ⟨p, hp, hdvdp⟩ := (Prime.dvd_prod_iff hq.prime).mp (hproduct ▸ hdvd)
  have hprime : p.Prime := (hfactors p hp).1.elim prime_of_isSmallPrime (hknown p)
  obtain rfl : q = p := (Nat.prime_dvd_prime_iff_eq hq hprime).mp hdvdp
  rw [ne_eq, pow_eq_one_iff hlarge]
  exact (hfactors q hp).2

/-- By induction on the list: each number that passes is known when the next ones are tested. -/
theorem prime_of_areCertified {known : List Nat} {entries : List PrimeEntry}
    (hknown : ∀ q ∈ known, q.Prime) (h : areCertified known entries = true) :
    ∀ entry ∈ entries, entry.number.Prime := by
  induction entries generalizing known with
  | nil => exact List.forall_mem_nil _
  | cons entry entries ih =>
    rw [areCertified, Bool.and_eq_true] at h
    have hprime := entry.prime_of_passes hknown h.1
    exact List.forall_mem_cons.mpr ⟨hprime, ih (List.forall_mem_cons.mpr ⟨hprime, hknown⟩) h.2⟩

/-! ## The field prime -/

/-- The field prime, after the prime factors that lead to it. -/
def fieldCertificate : List PrimeEntry :=
  [⟨13331831, 13, [2, 5, 971, 1373]⟩,
    ⟨173378833005251801, 6, [2, 2, 2, 5, 5, 2621, 24809, 13331831]⟩,
    ⟨22149492674086928081353, 5, [2, 2, 2, 3, 5323, 173378833005251801]⟩,
    ⟨132896956044521568488119, 6, [2, 3, 22149492674086928081353]⟩,
    ⟨1206781, 10, [2, 2, 3, 5, 20113]⟩,
    ⟨7240687, 3, [2, 3, 1206781]⟩,
    ⟨107590001, 3, [2, 2, 2, 2, 5, 5, 5, 5, 7, 29, 53]⟩,
    ⟨255515944373312847190720520512484175977, 3,
      [2, 2, 2, 7, 7, 11, 1627, 2657, 4423, 41201, 96557, 7240687, 107590001]⟩,
    ⟨205115282021455665897114700593932402728804164701536103180137503955397371, 10,
      [2, 3, 5, 29, 29, 31, 7723, 132896956044521568488119,
        255515944373312847190720520512484175977]⟩,
    ⟨fieldPrime, 3,
      [2, 3, 7, 13441, 205115282021455665897114700593932402728804164701536103180137503955397371]⟩]

theorem areCertified_fieldCertificate : areCertified [] fieldCertificate = true := by
  decide +kernel

theorem fieldPrime_prime : fieldPrime.Prime :=
  prime_of_areCertified (List.forall_mem_nil _) areCertified_fieldCertificate
    ⟨fieldPrime, 3, _⟩ (List.getLast_mem (List.cons_ne_nil _ _))

instance : Fact fieldPrime.Prime := ⟨fieldPrime_prime⟩

theorem fieldPrime_pos : 0 < fieldPrime := fieldPrime_prime.pos

/-! ## Square roots -/

theorem cast_negMod (m a : Nat) (ha : a ≤ m) : (negMod m a : ZMod m) = -a := by
  rw [negMod, ZMod.natCast_mod, Nat.cast_sub ha, ZMod.natCast_self, zero_sub]

/-- The exponent is a quarter of one more than the field prime, so a root is a square root by Fermat's little
theorem. -/
theorem pow_quarter_mul_self (y : ZMod fieldPrime) :
    (y * y) ^ ((fieldPrime + 1) / 4) * (y * y) ^ ((fieldPrime + 1) / 4) = y * y := by
  have hexponent : 2 * ((fieldPrime + 1) / 4 + (fieldPrime + 1) / 4) = fieldPrime + 1 := by
    decide +kernel
  rw [← pow_add, ← sq, ← pow_mul, hexponent, pow_succ, ZMod.pow_card, sq]

/-- What is found is a root: the result is squared again. -/
theorem square_of_sqrt? {a root : Nat} (h : sqrt? a = some root) :
    root < fieldPrime ∧ root * root % fieldPrime = a % fieldPrime := by
  simp only [sqrt?, Option.ite_none_right_eq_some, Option.some.injEq] at h
  obtain ⟨hsquare, rfl⟩ := h
  exact ⟨powMod_lt fieldPrime_pos _ _, hsquare⟩

/-- Of a square one of the two roots is found. -/
theorem sqrt?_mul_self {y : Nat} (hy : y < fieldPrime) :
    sqrt? (y * y % fieldPrime) = some y ∨
      sqrt? (y * y % fieldPrime) = some (negMod fieldPrime y) := by
  have hlt := powMod_lt fieldPrime_pos (y * y % fieldPrime) ((fieldPrime + 1) / 4)
  have hroot : (powMod fieldPrime (y * y % fieldPrime) ((fieldPrime + 1) / 4) : ZMod fieldPrime) =
      ((y : ZMod fieldPrime) * y) ^ ((fieldPrime + 1) / 4) := by
    rw [powMod_eq, ZMod.natCast_mod, Nat.cast_pow, ZMod.natCast_mod, Nat.cast_mul]
  unfold sqrt?
  generalize powMod fieldPrime (y * y % fieldPrime) ((fieldPrime + 1) / 4) = root at hlt hroot
  have hsquare : (root * root : ZMod fieldPrime) = y * y := by rw [hroot, pow_quarter_mul_self]
  have hmod : root * root % fieldPrime = y * y % fieldPrime % fieldPrime := by
    rw [Nat.mod_mod, ← ZMod.natCast_eq_natCast_iff', Nat.cast_mul, Nat.cast_mul, hsquare]
  simp only [if_pos hmod, Option.some.injEq]
  -- In a field there are no more than two square roots.
  rcases mul_self_eq_mul_self_iff.mp hsquare with hsame | hneg
  · left
    rwa [ZMod.natCast_eq_natCast_iff', Nat.mod_eq_of_lt hlt, Nat.mod_eq_of_lt hy] at hsame
  · right
    rw [← cast_negMod _ _ hy.le, ZMod.natCast_eq_natCast_iff', Nat.mod_eq_of_lt hlt] at hneg
    rw [hneg]
    exact Nat.mod_mod _ _

end UtxoConsensus.Curve
