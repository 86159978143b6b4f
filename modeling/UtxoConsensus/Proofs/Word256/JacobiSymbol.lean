import Mathlib.NumberTheory.LegendreSymbol.JacobiSymbol
import UtxoConsensus.Proofs.Word256.Arithmetic
import UtxoConsensus.Proofs.Word256.LongDivision
import UtxoConsensus.Word256.Jacobi

/-!
# The binary algorithm finds the Jacobi symbol

The symbol of a number over an odd modulus is the product of the Legendre symbols over the prime factors of
the modulus. Each step of the algorithm keeps the product of the sign and the symbol that is left to find:
halving by the supplementary law for 2, the exchange by quadratic reciprocity, and the subtraction because the
symbol depends on the number modulo the modulus only. The sum of both numbers falls with every step, although
each of them may grow when they are exchanged.

`Evaluates` tells the runs of the same algorithm with its two loops. A run ends, and no difference in it borrows;
there is exactly one for each value and each odd modulus.
-/

namespace UtxoConsensus.Word256

open NumberTheorySymbols

variable {a b n : Word256} {sign : Int}

/-! ## The lowest bits -/

/-- The lowest bits are a remainder. -/
theorem toNat_and_mask (a : Word256) (count : Nat) (hcount : count ≤ 64) :
    (a.limb0 &&& UInt64.ofNat (2 ^ count - 1)).toNat = a.toNat % 2 ^ count := by
  have hpow : 2 ^ count ≤ 2 ^ 64 := Nat.pow_le_pow_right Nat.two_pos hcount
  have hmask : (UInt64.ofNat (2 ^ count - 1)).toNat = 2 ^ count - 1 :=
    UInt64.toNat_ofNat_of_lt' (Nat.lt_of_lt_of_le (Nat.sub_one_lt (Nat.two_pow_pos count).ne') hpow)
  rw [UInt64.toNat_and, hmask, Nat.and_two_pow_sub_one_eq_mod, ← toNat_mod]
  exact Nat.mod_mod_of_dvd _ (Nat.pow_dvd_pow 2 hcount)

theorem isEven_iff : a.isEven = true ↔ a.toNat % 2 = 0 := by
  have hbit := toNat_and_mask a 1 (by decide)
  rw [isEven, beq_iff_eq, ← UInt64.toNat_inj]
  exact hbit ▸ Iff.rfl

/-- The residues modulo eight for which two is not a square. -/
theorem twoFlips_iff : n.twoFlips = true ↔ n.toNat % 8 = 3 ∨ n.toNat % 8 = 5 := by
  have hbits := toNat_and_mask n 3 (by decide)
  rw [twoFlips, Bool.or_eq_true, beq_iff_eq, beq_iff_eq, ← UInt64.toNat_inj, ← UInt64.toNat_inj]
  exact hbits ▸ Iff.rfl

/-- The residues modulo four for which the exchange changes the sign. -/
theorem exchangeFlips_iff : exchangeFlips a n = true ↔ a.toNat % 4 = 3 ∧ n.toNat % 4 = 3 := by
  have ha := toNat_and_mask a 2 (by decide)
  have hn := toNat_and_mask n 2 (by decide)
  rw [exchangeFlips, Bool.and_eq_true, beq_iff_eq, beq_iff_eq, ← UInt64.toNat_inj, ← UInt64.toNat_inj]
  exact ha ▸ hn ▸ Iff.rfl

/-! ## One step -/

/-- A factor of two is taken out by the supplementary law. -/
theorem sign_mul_halve (sign : Int) (heven : a.isEven = true) (hodd : n.toNat % 2 = 1) :
    (if n.twoFlips then -sign else sign) * J((a.shiftRight 1).toNat | n.toNat) =
      sign * J(a.toNat | n.toNat) := by
  have heven : (a.toNat : Int) % 2 = 0 := by exact_mod_cast isEven_iff.mp heven
  rw [← jacobiSym.even_odd heven hodd, toNat_shiftRight_one, Int.natCast_ediv, Nat.cast_ofNat]
  simp only [twoFlips_iff]
  split
  · exact neg_mul_comm _ _
  · rfl

/-- What is left of a number over the modulus is not changed by taking the modulus away. -/
theorem jacobiSym_sub {a n : ℕ} (hle : n ≤ a) : J((a - n : ℕ) | n) = J(a | n) := by
  apply jacobiSym.mod_left'
  rw [Nat.cast_sub hle, Int.sub_emod_right]

/-- Two odd numbers change places by quadratic reciprocity. -/
theorem sign_mul_exchange (sign : Int) (ha : a.toNat % 2 = 1) (hn : n.toNat % 2 = 1) :
    (if exchangeFlips a n then -sign else sign) * J(n.toNat | a.toNat) = sign * J(a.toNat | n.toNat) := by
  rw [← jacobiSym.quadratic_reciprocity_if ha hn]
  simp only [exchangeFlips_iff]
  split
  · exact neg_mul_comm _ _
  · rfl

theorem odd_of_not_isEven (h : ¬a.isEven = true) : a.toNat % 2 = 1 := by
  rw [isEven_iff] at h
  omega

/-- At the end the symbol is that of zero, which only the modulus 1 shares no factor with. -/
theorem sign_mul_zero (sign : Int) (ha : a.isZero = true) (hn : n.toNat % 2 = 1) :
    (if n = one then sign else 0) = sign * J(a.toNat | n.toNat) := by
  rw [a.isZero_iff.mp ha, Nat.cast_zero]
  split
  · next hone => rw [hone, toNat_one, jacobiSym.one_right, mul_one]
  · next hone =>
    have hlarge : 1 < n.toNat := by
      have hne : n.toNat ≠ 1 := fun h ↦ hone (toNat_inj.mp h)
      omega
    rw [jacobiSym.zero_left hlarge, mul_zero]

/-! ## All steps -/

/-- By induction on the run: every step keeps the sign times the symbol, and the modulus odd. -/
theorem signedJacobi_eq (hn : n.toNat % 2 = 1) : signedJacobi a n sign = sign * J(a.toNat | n.toNat) := by
  fun_induction signedJacobi a n sign with
  | case1 a sign ha =>
    rw [← sign_mul_zero sign ha hn, if_pos rfl]
  | case2 a n sign ha hmore =>
    rw [← sign_mul_zero sign ha hn, if_neg hmore]
  | case3 a n sign ha hzero =>
    rw [isZero_iff] at hzero
    omega
  | case4 a n sign ha hzero heven ih =>
    rw [dite_eq_ite] at ih
    rw [ih hn, sign_mul_halve sign heven hn]
  | case5 a n sign ha hzero heven hless ih =>
    have hodd := odd_of_not_isEven heven
    have hle := Nat.le_of_lt ((lt_iff_toNat_lt a n).mp hless)
    rw [dite_eq_ite] at ih
    rw [ih hodd, toNat_sub_of_le hle, jacobiSym_sub hle, sign_mul_exchange sign hodd hn]
  | case6 a n sign ha hzero heven hless ih =>
    have hle : n.toNat ≤ a.toNat := Nat.le_of_not_lt (mt (lt_iff_toNat_lt a n).mpr hless)
    rw [ih hn, toNat_sub_of_le hle, jacobiSym_sub hle]

/-- The value may be reduced first, as it counts modulo the modulus only. -/
theorem jacobi_eq (value modulus : Word256) (hodd : modulus.toNat % 2 = 1) :
    jacobi value modulus = J(value.toNat | modulus.toNat) := by
  have hpos : 0 < modulus.toNat := Nat.odd_iff.mpr hodd |>.pos
  obtain ⟨division, hdivision, -, hremainder⟩ := divRem?_eq_some value hpos
  rw [jacobi, hdivision]
  change signedJacobi division.remainder modulus 1 = _
  rw [signedJacobi_eq hodd, hremainder, one_mul, Int.natCast_mod, ← jacobiSym.mod_left]

/-! ## The two loops -/

/-- Runs of the inner loop, which takes out all factors of two. There is no run from zero, as it would not end. -/
inductive TakesTwos (n : Word256) : Word256 → Int → Word256 → Int → Prop
  | stop {a : Word256} {sign : Int} (hodd : ¬a.isEven = true) : TakesTwos n a sign a sign
  | halve {a odd : Word256} {sign sign' : Int} (heven : a.isEven = true)
      (hrest : TakesTwos n (a.shiftRight 1) (if n.twoFlips then -sign else sign) odd sign') :
      TakesTwos n a sign odd sign'

/-- Runs of the outer loop with their results. There is no run in which a difference borrows. -/
inductive Evaluates : Word256 → Word256 → Int → Int → Prop
  | stop {a n : Word256} {sign : Int} (ha : a.isZero = true) : Evaluates a n sign (if n = one then sign else 0)
  | exchange {a n odd : Word256} {sign sign' result : Int} (ha : ¬a.isZero = true)
      (htwos : TakesTwos n a sign odd sign') (hless : odd < n) (hexact : (overflowingSub n odd).2 = false)
      (hrest : Evaluates (n - odd) odd (if exchangeFlips odd n then -sign' else sign') result) :
      Evaluates a n sign result
  | subtract {a n odd : Word256} {sign sign' result : Int} (ha : ¬a.isZero = true)
      (htwos : TakesTwos n a sign odd sign') (hle : ¬odd < n) (hexact : (overflowingSub odd n).2 = false)
      (hrest : Evaluates (odd - n) n sign' result) : Evaluates a n sign result

theorem exact_of_le (h : b.toNat ≤ a.toNat) : (overflowingSub a b).2 = false :=
  Bool.eq_false_iff.mpr fun hborrow ↦ Nat.not_lt_of_le h ((borrow_iff a b).mp hborrow)

theorem not_isZero_of_odd (h : a.toNat % 2 = 1) : ¬a.isZero = true := by
  rw [isZero_iff]
  omega

theorem not_isZero_half (ha : ¬a.isZero = true) (heven : a.isEven = true) : ¬(a.shiftRight 1).isZero = true := by
  have htwo := isEven_iff.mp heven
  rw [isZero_iff] at ha ⊢
  rw [toNat_shiftRight_one]
  omega

/-- A number other than zero has an odd part, at which the inner loop arrives. -/
theorem exists_takesTwos (n : Word256) (sign : Int) (ha : ¬a.isZero = true) :
    ∃ odd sign', TakesTwos n a sign odd sign' := by
  induction hvalue : a.toNat using Nat.strong_induction_on generalizing a sign with
  | _ value ih =>
    subst hvalue
    by_cases heven : a.isEven = true
    · have hpos : a.toNat ≠ 0 := mt a.isZero_iff.mpr ha
      have hhalf := toNat_shiftRight_one a
      obtain ⟨odd, sign', hrest⟩ := ih (a.shiftRight 1).toNat (by omega)
        (if n.twoFlips then -sign else sign) (not_isZero_half ha heven) rfl
      exact ⟨odd, sign', .halve heven hrest⟩
    · exact ⟨a, sign, .stop heven⟩

section Steps

variable (hn : n.toNat % 2 = 1)
include hn

/-- A factor of two is taken out. -/
theorem signedJacobi_of_isEven (ha : ¬a.isZero = true) (heven : a.isEven = true) :
    signedJacobi a n sign = signedJacobi (a.shiftRight 1) n (if n.twoFlips then -sign else sign) := by
  rw [signedJacobi, dif_neg ha, dif_neg (not_isZero_of_odd hn), if_pos heven]

/-- Of two odd numbers the smaller one is taken away, and it is the modulus that is left then. -/
theorem signedJacobi_of_odd (ha : a.toNat % 2 = 1) : signedJacobi a n sign =
    if a < n then signedJacobi (n - a) a (if exchangeFlips a n then -sign else sign)
    else signedJacobi (a - n) n sign := by
  have hodd : ¬a.isEven = true := by
    rw [isEven_iff]
    omega
  rw [signedJacobi, dif_neg (not_isZero_of_odd ha), dif_neg (not_isZero_of_odd hn), if_neg hodd,
    dite_eq_ite]

/-- The inner loop leaves an odd number, which is not larger, and what is left to find stays the same. -/
theorem TakesTwos.keeps {odd : Word256} {sign' : Int} (h : TakesTwos n a sign odd sign')
    (ha : ¬a.isZero = true) : odd.toNat % 2 = 1 ∧ odd.toNat ≤ a.toNat ∧
      signedJacobi odd n sign' = signedJacobi a n sign := by
  induction h with
  | stop hodd => exact ⟨odd_of_not_isEven hodd, Nat.le_refl _, rfl⟩
  | @halve a odd sign sign' heven hrest ih =>
    obtain ⟨hodd, hle, hsame⟩ := ih (not_isZero_half ha heven)
    have hhalf := toNat_shiftRight_one a
    exact ⟨hodd, by omega, hsame.trans (signedJacobi_of_isEven hn ha heven).symm⟩

end Steps

/-- A run finds nothing else, because every turn keeps what is left to find. -/
theorem Evaluates.eq_signedJacobi {result : Int} (h : Evaluates a n sign result) (hn : n.toNat % 2 = 1) :
    result = signedJacobi a n sign := by
  induction h with
  | stop ha => rw [signedJacobi, dif_pos ha]
  | exchange ha htwos hless hexact hrest ih =>
    obtain ⟨hodd, -, hsame⟩ := htwos.keeps hn ha
    rw [ih hodd, ← hsame, signedJacobi_of_odd hn hodd, if_pos hless]
  | subtract ha htwos hle hexact hrest ih =>
    obtain ⟨hodd, -, hsame⟩ := htwos.keeps hn ha
    rw [ih hn, ← hsame, signedJacobi_of_odd hn hodd, if_neg hle]

/-- By induction on the sum of both numbers, which is smaller at the end of each turn of the outer loop. -/
theorem exists_evaluates (a n : Word256) (sign : Int) (hn : n.toNat % 2 = 1) :
    ∃ result, Evaluates a n sign result := by
  induction hsum : a.toNat + n.toNat using Nat.strong_induction_on generalizing a n sign with
  | _ sum ih =>
    subst hsum
    by_cases ha : a.isZero = true
    · exact ⟨_, .stop ha⟩
    · obtain ⟨odd, sign', htwos⟩ := exists_takesTwos n sign ha
      obtain ⟨hodd, hle, -⟩ := htwos.keeps hn ha
      by_cases hless : odd < n
      · have hfits := Nat.le_of_lt ((lt_iff_toNat_lt odd n).mp hless)
        have hrest := toNat_sub_of_le hfits
        obtain ⟨result, hrun⟩ := ih _ (by omega) (n - odd) odd
          (if exchangeFlips odd n then -sign' else sign') hodd rfl
        exact ⟨result, .exchange ha htwos hless (exact_of_le hfits) hrun⟩
      · have hfits : n.toNat ≤ odd.toNat := Nat.le_of_not_lt (mt (lt_iff_toNat_lt odd n).mpr hless)
        have hrest := toNat_sub_of_le hfits
        obtain ⟨result, hrun⟩ := ih _ (by omega) (odd - n) n sign' hn rfl
        exact ⟨result, .subtract ha htwos hless (exact_of_le hfits) hrun⟩

/-- There is exactly one run. -/
theorem evaluates_iff (hn : n.toNat % 2 = 1) (result : Int) :
    Evaluates a n sign result ↔ result = signedJacobi a n sign := by
  constructor
  · exact fun h ↦ h.eq_signedJacobi hn
  · rintro rfl
    obtain ⟨result, hrun⟩ := exists_evaluates a n sign hn
    exact hrun.eq_signedJacobi hn ▸ hrun

/-- **The binary algorithm finds the Jacobi symbol.** For every value and every odd modulus both loops end, no
difference borrows, and there is one result. It is the product of the Legendre symbols over the prime factors
of the modulus, and is zero exactly if the value and the modulus share a factor. -/
theorem jacobi_eq_symbol (value modulus : Word256) (hodd : modulus.toNat % 2 = 1) :
    (∃ division, value.divRem? modulus = some division ∧
      ∀ result, Evaluates division.remainder modulus 1 result ↔ result = jacobi value modulus) ∧
    jacobi value modulus = J(value.toNat | modulus.toNat) ∧
    (jacobi value modulus = 0 ↔ ¬Nat.Coprime value.toNat modulus.toNat) := by
  have hpos : 0 < modulus.toNat := (Nat.odd_iff.mpr hodd).pos
  refine ⟨?run, jacobi_eq value modulus hodd, ?shared⟩
  case run =>
    obtain ⟨division, hdivision, -⟩ := divRem?_eq_some value hpos
    refine ⟨division, hdivision, fun result ↦ ?_⟩
    rw [evaluates_iff hodd, jacobi, hdivision]
  case shared =>
    rw [jacobi_eq value modulus hodd, jacobiSym.eq_zero_iff, Int.gcd_natCast_natCast]
    exact and_iff_right hpos.ne'

/-- The largest modulus, which is a product of Fermat numbers. -/
theorem jacobi_eq_symbol_max : max.toNat % 2 = 1 ∧
    (∃ division, (ofUInt64 7).divRem? max = some division ∧
      ∀ result, Evaluates division.remainder max 1 result ↔ result = jacobi (ofUInt64 7) max) ∧
    jacobi (ofUInt64 7) max = J((ofUInt64 7).toNat | max.toNat) ∧
    (jacobi (ofUInt64 7) max = 0 ↔ ¬Nat.Coprime (ofUInt64 7).toNat max.toNat) :=
  ⟨by decide, jacobi_eq_symbol (ofUInt64 7) max (by decide)⟩

example : jacobi (ofUInt64 7) max = -1 := by decide +kernel

end UtxoConsensus.Word256
