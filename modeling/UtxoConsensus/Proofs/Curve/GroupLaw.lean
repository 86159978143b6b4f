import Mathlib.AlgebraicGeometry.EllipticCurve.Affine.Point
import UtxoConsensus.Proofs.Curve.WrittenKeys

/-!
# The points form a group

The points of the curve, with one at infinity, are a commutative group by the law of chords and tangents. Every
operation on Jacobian coordinates is an operation of this group: `(x, y, z)` stands for `(x / z², y / z³)`, and a
sum that is computed without division stands for the sum of what its terms stand for. Repeated doubling gives
the multiples of a point, and those of the generator come back to infinity after `order` steps.
-/

namespace UtxoConsensus.Curve

open WeierstrassCurve.Affine

/-! ## Residues as elements of the field -/

theorem natCast_inj {a b : Nat} (ha : a < fieldPrime) (hb : b < fieldPrime) :
    (a : ZMod fieldPrime) = b ↔ a = b := by
  rw [ZMod.natCast_eq_natCast_iff', Nat.mod_eq_of_lt ha, Nat.mod_eq_of_lt hb]

theorem natCast_ne_zero {a : Nat} (hpos : 0 < a) (ha : a < fieldPrime) : (a : ZMod fieldPrime) ≠ 0 := by
  rw [← Nat.cast_zero, ne_eq, natCast_inj ha fieldPrime_pos]
  exact hpos.ne'

theorem two_ne_zero_of_field : (2 : ZMod fieldPrime) ≠ 0 :=
  natCast_ne_zero Nat.two_pos (by decide +kernel)

theorem mod_eq_val {n : Nat} {x : ZMod fieldPrime} (h : (n : ZMod fieldPrime) = x) :
    n % fieldPrime = x.val := by
  rw [← h, ZMod.val_natCast]

theorem cast_mul_mod (a b : Nat) : ((a * b % fieldPrime : Nat) : ZMod fieldPrime) = a * b := by
  rw [ZMod.natCast_mod, Nat.cast_mul]

theorem mod_le (a : Nat) : a % fieldPrime ≤ fieldPrime :=
  (Nat.mod_lt a fieldPrime_pos).le

theorem subMod_lt (a b : Nat) : subMod fieldPrime a b < fieldPrime :=
  Nat.mod_lt _ fieldPrime_pos

/-- Subtraction modulo the prime is that of the field. -/
theorem cast_subMod (a : Nat) {b : Nat} (hb : b ≤ fieldPrime) :
    (subMod fieldPrime a b : ZMod fieldPrime) = a - b := by
  rw [subMod, ZMod.natCast_mod, Nat.cast_add, Nat.cast_sub hb, ZMod.natCast_self, zero_sub,
    ← sub_eq_add_neg]

/-- By Fermat's little theorem. -/
theorem cast_inverse {a : Nat} (ha : (a : ZMod fieldPrime) ≠ 0) :
    (inverse fieldPrime a : ZMod fieldPrime) = (a : ZMod fieldPrime)⁻¹ := by
  have htwo : 2 ≤ fieldPrime := fieldPrime_prime.two_le
  have hexponent : fieldPrime - 2 + 1 = fieldPrime - 1 := by omega
  refine eq_inv_of_mul_eq_one_left ?_
  rw [inverse, powMod_eq, ZMod.natCast_mod, Nat.cast_pow, ← pow_succ, hexponent,
    ZMod.pow_card_sub_one_eq_one ha]

/-! ## The curve -/

/-- The curve `y² = x³ + 7`. -/
def curve : WeierstrassCurve.Affine (ZMod fieldPrime) :=
  ⟨0, 0, 0, 0, 7⟩

variable {x x₁ x₂ y y₁ y₂ : ZMod fieldPrime}

/-- The curve is `y² = x³ + 7`. -/
theorem equation_iff_cubic : curve.Equation x y ↔ y * y = x * x * x + 7 := by
  rw [equation_iff]
  simp only [curve]
  ring_nf

/-- The curve has no singular point, because its discriminant `-27 · 28²` is not zero. -/
theorem nonsingular_iff_cubic : curve.Nonsingular x y ↔ y * y = x * x * x + 7 := by
  have hdiscriminant : curve.Δ = -(21168 : Nat) := by
    simp only [WeierstrassCurve.Δ, WeierstrassCurve.b₂, WeierstrassCurve.b₄, WeierstrassCurve.b₆,
      WeierstrassCurve.b₈, curve]
    push_cast
    ring
  have hne : curve.Δ ≠ 0 := by
    rw [hdiscriminant, neg_ne_zero]
    exact natCast_ne_zero (by decide) (by decide +kernel)
  rw [← equation_iff_nonsingular_of_Δ_ne_zero hne, equation_iff_cubic]

theorem negY_eq : curve.negY x y = -y := by
  simp only [negY, curve]
  ring

theorem addX_eq (slope : ZMod fieldPrime) : curve.addX x₁ x₂ slope = slope ^ 2 - x₁ - x₂ := by
  simp only [addX, curve]
  ring

theorem addY_eq (slope : ZMod fieldPrime) :
    curve.addY x₁ x₂ y₁ slope = slope * (x₁ - (slope ^ 2 - x₁ - x₂)) - y₁ := by
  rw [addY, negY_eq, negAddY, addX_eq]
  ring

/-! ## Keys

Keys are the points with two coordinates. -/

section Keys

variable {a b : Point} {p q : curve.Point}

/-- The key that stands for an element of the group, which must not be zero. -/
def keyOf? : curve.Point → Option Point
  | .zero => none
  | .some x y _ => some ⟨x.val, y.val⟩

/-- Only the point at infinity is no key. -/
theorem keyOf?_eq_none_iff : keyOf? p = none ↔ p = 0 := by
  cases p with
  | zero => exact iff_of_true rfl rfl
  | some x y h => exact iff_of_false (Option.some_ne_none _) (Point.some_ne_zero h)

theorem keyOf?_injective : Function.Injective keyOf? := by
  intro p q h
  cases p with
  | zero => exact (keyOf?_eq_none_iff.mp h.symm).symm
  | some x₁ y₁ h₁ =>
    cases q with
    | zero => cases h
    | some x₂ y₂ h₂ =>
      obtain ⟨hx, hy⟩ := Point.mk.inj (Option.some.inj h)
      obtain rfl := ZMod.val_injective fieldPrime hx
      obtain rfl := ZMod.val_injective fieldPrime hy
      rfl

/-- The test for keys is that of the curve, and coordinates are reduced. -/
theorem isOnCurve_iff_nonsingular :
    a.isOnCurve = true ↔ a.x < fieldPrime ∧ a.y < fieldPrime ∧ curve.Nonsingular a.x a.y := by
  rw [Point.isOnCurve_iff, cubic, ← ZMod.natCast_eq_natCast_iff', nonsingular_iff_cubic]
  simp only [Nat.cast_add, Nat.cast_mul, ZMod.natCast_mod, Nat.cast_ofNat]

theorem isOnCurve_of_keyOf? (h : keyOf? p = some a) : a.isOnCurve = true := by
  cases p with
  | zero => cases h
  | some x y hregular =>
    obtain rfl := Option.some.inj h
    refine isOnCurve_iff_nonsingular.mpr ⟨x.val_lt, y.val_lt, ?_⟩
    rwa [ZMod.natCast_zmod_val, ZMod.natCast_zmod_val]

/-- Every key that passes the test is the key of a point. -/
theorem exists_keyOf? (h : a.isOnCurve = true) : ∃ p, keyOf? p = some a := by
  obtain ⟨hx, hy, hregular⟩ := isOnCurve_iff_nonsingular.mp h
  refine ⟨.some _ _ hregular, ?_⟩
  rw [keyOf?, ZMod.val_natCast_of_lt hx, ZMod.val_natCast_of_lt hy]

/-- The point with the same x coordinate is the negated one. -/
theorem keyOf?_neg (h : keyOf? p = some a) : keyOf? (-p) = some a.negate := by
  cases p with
  | zero => cases h
  | some x y hregular =>
    obtain rfl := Option.some.inj h
    rw [Point.neg_some, keyOf?, Point.negate, negMod, negY_eq]
    have hneg : ((fieldPrime - y.val : Nat) : ZMod fieldPrime) = -y := by
      rw [Nat.cast_sub y.val_lt.le, ZMod.natCast_self, ZMod.natCast_zmod_val, zero_sub]
    rw [mod_eq_val hneg]

end Keys

/-! ## Jacobian coordinates -/

namespace Jacobian

variable {a b : Jacobian} {p q : curve.Point}

/-- The coordinates of a double in the field. -/
theorem cast_double (hz : a.z ≠ 0) (hy : a.y ≠ 0) :
    (a.double.x : ZMod fieldPrime) = (3 * a.x ^ 2) ^ 2 - 2 * (4 * a.x * a.y ^ 2) ∧
      (a.double.y : ZMod fieldPrime) =
        3 * a.x ^ 2 * (4 * a.x * a.y ^ 2 - a.double.x) - 8 * a.y ^ 4 ∧
      (a.double.z : ZMod fieldPrime) = 2 * a.y * a.z ∧ a.double.y < fieldPrime := by
  have hregular : ¬ (a.z = 0 || a.y = 0) = true := by simp [hz, hy]
  rw [Jacobian.double, if_neg hregular]
  refine ⟨?_, ?_, ?_, subMod_lt _ _⟩
  · simp only [cast_subMod _ (mod_le _), cast_mul_mod, Nat.cast_mul, Nat.cast_ofNat]
    ring
  · simp only [cast_subMod _ (mod_le _), cast_subMod _ (subMod_lt _ _).le, cast_mul_mod, Nat.cast_mul,
      Nat.cast_ofNat]
    ring
  · simp only [cast_mul_mod, Nat.cast_mul, Nat.cast_ofNat]

section Sums

variable {u₁ u₂ s₁ s₂ : ZMod fieldPrime}

/-- The x coordinates are compared over a common denominator. -/
theorem crossX_iff (hu₁ : a.x * b.z ^ 2 = u₁) (hu₂ : b.x * a.z ^ 2 = u₂) :
    a.x * (b.z * b.z % fieldPrime) % fieldPrime = b.x * (a.z * a.z % fieldPrime) % fieldPrime ↔
      u₁ = u₂ := by
  rw [← ZMod.natCast_eq_natCast_iff', Nat.cast_mul, Nat.cast_mul, cast_mul_mod, cast_mul_mod, ← sq, ← sq,
    hu₁, hu₂]

/-- And so are the y coordinates. -/
theorem crossY_iff (hs₁ : a.y * b.z ^ 3 = s₁) (hs₂ : b.y * a.z ^ 3 = s₂) :
    a.y * (b.z * (b.z * b.z % fieldPrime) % fieldPrime) % fieldPrime =
        b.y * (a.z * (a.z * a.z % fieldPrime) % fieldPrime) % fieldPrime ↔ s₁ = s₂ := by
  rw [← ZMod.natCast_eq_natCast_iff', Nat.cast_mul, Nat.cast_mul, cast_mul_mod, cast_mul_mod, cast_mul_mod,
    cast_mul_mod, ← sq, ← sq, ← pow_succ', ← pow_succ', hs₁, hs₂]

/-- With one x coordinate the points are equal or opposite. -/
theorem add_of_same_x (ha : a.z ≠ 0) (hb : b.z ≠ 0) (hu₁ : a.x * b.z ^ 2 = u₁)
    (hu₂ : b.x * a.z ^ 2 = u₂) (hs₁ : a.y * b.z ^ 3 = s₁) (hs₂ : b.y * a.z ^ 3 = s₂) (hsame : u₁ = u₂) :
    a.add b = if s₁ = s₂ then a.double else infinity := by
  rw [Jacobian.add, if_neg ha, if_neg hb, if_pos ((crossX_iff hu₁ hu₂).mpr hsame)]
  simp only [crossY_iff hs₁ hs₂]

/-- The coordinates of a sum in the field. -/
theorem cast_add (ha : a.z ≠ 0) (hb : b.z ≠ 0) (hu₁ : a.x * b.z ^ 2 = u₁) (hu₂ : b.x * a.z ^ 2 = u₂)
    (hs₁ : a.y * b.z ^ 3 = s₁) (hs₂ : b.y * a.z ^ 3 = s₂) (hne : u₁ ≠ u₂) :
    ((a.add b).x : ZMod fieldPrime) = (s₂ - s₁) ^ 2 - (u₂ - u₁) ^ 3 - 2 * (u₁ * (u₂ - u₁) ^ 2) ∧
      ((a.add b).y : ZMod fieldPrime) =
        (s₂ - s₁) * (u₁ * (u₂ - u₁) ^ 2 - (a.add b).x) - s₁ * (u₂ - u₁) ^ 3 ∧
      ((a.add b).z : ZMod fieldPrime) = (u₂ - u₁) * (a.z * b.z) ∧ (a.add b).y < fieldPrime := by
  rw [Jacobian.add, if_neg ha, if_neg hb, if_neg ((crossX_iff hu₁ hu₂).not.mpr hne)]
  refine ⟨?_, ?_, ?_, subMod_lt _ _⟩
  · simp only [cast_subMod _ (mod_le _), cast_mul_mod, Nat.cast_ofNat, ← hu₁, ← hu₂, ← hs₁, ← hs₂]
    ring
  · simp only [cast_subMod _ (mod_le _), cast_subMod _ (subMod_lt _ _).le, cast_mul_mod, Nat.cast_ofNat,
      ← hu₁, ← hu₂, ← hs₁, ← hs₂]
    ring
  · simp only [cast_subMod _ (mod_le _), cast_mul_mod, ← hu₁, ← hu₂]
    ring

end Sums

/-! ## What they stand for -/

/-- What Jacobian coordinates stand for. The last one is zero for the point at infinity only. -/
inductive StandsFor (a : Jacobian) : curve.Point → Prop
  | infinity (hz : a.z = 0) : StandsFor a 0
  | finite {x y : ZMod fieldPrime} {h : curve.Nonsingular x y} (hreduced : a.y < fieldPrime)
      (hz : (a.z : ZMod fieldPrime) ≠ 0) (hx : (a.x : ZMod fieldPrime) = x * a.z ^ 2)
      (hy : (a.y : ZMod fieldPrime) = y * a.z ^ 3) : StandsFor a (.some x y h)

theorem ne_zero_of_cast {n : Nat} (h : (n : ZMod fieldPrime) ≠ 0) : n ≠ 0 := by
  rintro rfl
  exact h Nat.cast_zero

/-- A last coordinate of zero stands for infinity. -/
theorem StandsFor.zero_iff (ha : a.StandsFor p) : a.z = 0 ↔ p = 0 := by
  cases ha with
  | infinity hz => exact iff_of_true hz rfl
  | finite hreduced hz hx hy => exact iff_of_false (ne_zero_of_cast hz) (Point.some_ne_zero _)

theorem StandsFor.z_ne_zero {h : curve.Nonsingular x y} (ha : a.StandsFor (.some x y h)) : a.z ≠ 0 :=
  ha.zero_iff.not.mpr (Point.some_ne_zero h)

theorem standsFor_infinity : infinity.StandsFor 0 :=
  .infinity rfl

/-- A point with `y = 0` is its own negation. -/
theorem StandsFor.double_of_flat {h : curve.Nonsingular x y} (ha : a.StandsFor (.some x y h)) (hflat : y = 0) :
    a.double.StandsFor (.some x y h + .some x y h) := by
  have hzero : a.y = 0 := by
    cases ha with
    | finite hreduced hz hx hy =>
      rw [hflat, zero_mul, ← Nat.cast_zero] at hy
      exact (natCast_inj hreduced fieldPrime_pos).mp hy
  rw [Jacobian.double, hzero, Point.add_self_of_Y_eq (by rw [negY_eq, hflat, neg_zero])]
  simp only [decide_true, Bool.or_true, if_true]
  exact standsFor_infinity

/-- The tangent at any other point meets the curve in the negated double. -/
theorem StandsFor.double_of_steep {h : curve.Nonsingular x y} (ha : a.StandsFor (.some x y h)) (hsteep : y ≠ 0) :
    a.double.StandsFor (.some x y h + .some x y h) := by
  cases ha with
  | finite hreduced hz hx hy =>
    have htwice : 2 * y ≠ 0 := mul_ne_zero two_ne_zero_of_field hsteep
    have hne : y ≠ curve.negY x y := by
      rwa [negY_eq, ne_eq, eq_neg_iff_add_eq_zero, ← two_mul]
    have hslope : curve.slope x x y y * (2 * y) = 3 * x ^ 2 := by
      rw [slope_of_Y_ne rfl hne, negY_eq, sub_neg_eq_add, ← two_mul, div_mul_cancel₀ _ htwice]
      simp only [curve]
      ring
    have hayne : (a.y : ZMod fieldPrime) ≠ 0 := hy ▸ mul_ne_zero hsteep (pow_ne_zero 3 hz)
    obtain ⟨hx₃, hy₃, hz₃, hlt⟩ := cast_double (ne_zero_of_cast hz) (ne_zero_of_cast hayne)
    rw [Point.add_self_of_Y_ne hne]
    set slope := curve.slope x x y y
    have htangent : 3 * (x * (a.z : ZMod fieldPrime) ^ 2) ^ 2 = slope * (2 * y) * a.z ^ 4 := by
      rw [hslope]
      ring
    rw [hx, hy, htangent] at hx₃ hy₃
    rw [hy] at hz₃
    refine .finite hlt ?_ ?_ ?_
    · rw [hz₃, ← hy]
      exact mul_ne_zero (mul_ne_zero two_ne_zero_of_field hayne) hz
    · rw [addX_eq, hx₃, hz₃]
      ring
    · rw [addY_eq, hy₃, hx₃, hz₃]
      ring

/-- Doubling, also of the point at infinity. -/
theorem StandsFor.double (ha : a.StandsFor p) : a.double.StandsFor (p + p) := by
  cases p with
  | zero =>
    rw [Jacobian.double, ha.zero_iff.mpr rfl, ← Point.zero_def, add_zero]
    exact standsFor_infinity
  | some x y h =>
    by_cases hflat : y = 0
    · exact ha.double_of_flat hflat
    · exact ha.double_of_steep hflat

section Pairs

variable {x₁ x₂ y₁ y₂ : ZMod fieldPrime} {h₁ : curve.Nonsingular x₁ y₁} {h₂ : curve.Nonsingular x₂ y₂}

/-- The coordinates of two points over a common denominator. -/
theorem StandsFor.cross (ha : a.StandsFor (.some x₁ y₁ h₁)) (hb : b.StandsFor (.some x₂ y₂ h₂)) :
    (a.z * b.z : ZMod fieldPrime) ≠ 0 ∧
      (a.x * b.z ^ 2 : ZMod fieldPrime) = x₁ * (a.z * b.z) ^ 2 ∧
      (b.x * a.z ^ 2 : ZMod fieldPrime) = x₂ * (a.z * b.z) ^ 2 ∧
      (a.y * b.z ^ 3 : ZMod fieldPrime) = y₁ * (a.z * b.z) ^ 3 ∧
      (b.y * a.z ^ 3 : ZMod fieldPrime) = y₂ * (a.z * b.z) ^ 3 := by
  cases ha with
  | finite hreduced₁ hz₁ hx₁ hy₁ =>
    cases hb with
    | finite hreduced₂ hz₂ hx₂ hy₂ =>
      refine ⟨mul_ne_zero hz₁ hz₂, ?_, ?_, ?_, ?_⟩
      · rw [hx₁]
        ring
      · rw [hx₂]
        ring
      · rw [hy₁]
        ring
      · rw [hy₂]
        ring

/-- Two points with one x coordinate are equal or opposite. -/
theorem StandsFor.add_of_same_x (ha : a.StandsFor (.some x₁ y₁ h₁)) (hb : b.StandsFor (.some x₂ y₂ h₂))
    (hsame : x₁ = x₂) : (a.add b).StandsFor (.some x₁ y₁ h₁ + .some x₂ y₂ h₂) := by
  obtain ⟨hzz, hu₁, hu₂, hs₁, hs₂⟩ := ha.cross hb
  subst hsame
  rw [Jacobian.add_of_same_x ha.z_ne_zero hb.z_ne_zero hu₁ hu₂ hs₁ hs₂ rfl]
  by_cases hsameY : y₁ = y₂
  · subst hsameY
    rw [if_pos rfl]
    exact ha.double
  · have hopposite : y₁ = curve.negY x₁ y₂ :=
      (Y_eq_of_X_eq h₁.left h₂.left rfl).resolve_left hsameY
    rw [if_neg ((mul_left_inj' (pow_ne_zero 3 hzz)).not.mpr hsameY), Point.add_of_Y_eq rfl hopposite]
    exact standsFor_infinity

/-- The chord through two points meets the curve in the negated sum. -/
theorem StandsFor.add_of_other_x (ha : a.StandsFor (.some x₁ y₁ h₁)) (hb : b.StandsFor (.some x₂ y₂ h₂))
    (hother : x₁ ≠ x₂) : (a.add b).StandsFor (.some x₁ y₁ h₁ + .some x₂ y₂ h₂) := by
  obtain ⟨hzz, hu₁, hu₂, hs₁, hs₂⟩ := ha.cross hb
  have hslope : curve.slope x₁ x₂ y₁ y₂ * (x₁ - x₂) = y₁ - y₂ := by
    rw [slope_of_X_ne hother, div_mul_cancel₀ _ (sub_ne_zero.mpr hother)]
  obtain ⟨hx₃, hy₃, hz₃, hlt⟩ := cast_add ha.z_ne_zero hb.z_ne_zero hu₁ hu₂ hs₁ hs₂
    ((mul_left_inj' (pow_ne_zero 2 hzz)).not.mpr hother)
  rw [Point.add_of_X_ne hother]
  -- Of the slope nothing but this equation is needed.
  set slope := curve.slope x₁ x₂ y₁ y₂
  have hrise : y₂ * (a.z * b.z : ZMod fieldPrime) ^ 3 - y₁ * (a.z * b.z) ^ 3 =
      slope * (x₂ - x₁) * (a.z * b.z) ^ 3 := by
    linear_combination (a.z * b.z : ZMod fieldPrime) ^ 3 * hslope
  rw [hrise] at hx₃ hy₃
  refine .finite hlt ?_ ?_ ?_
  · rw [hz₃, ← sub_mul]
    exact mul_ne_zero (mul_ne_zero (sub_ne_zero.mpr hother.symm) (pow_ne_zero 2 hzz)) hzz
  · rw [addX_eq, hx₃, hz₃]
    ring
  · rw [addY_eq, hy₃, hx₃, hz₃]
    ring

end Pairs

/-- Addition with all its cases: infinity, equal points and opposite ones. -/
theorem StandsFor.add (ha : a.StandsFor p) (hb : b.StandsFor q) : (a.add b).StandsFor (p + q) := by
  cases p with
  | zero =>
    rw [Jacobian.add, if_pos (ha.zero_iff.mpr rfl), ← Point.zero_def, zero_add]
    exact hb
  | some x₁ y₁ h₁ =>
    cases q with
    | zero =>
      rw [Jacobian.add, if_neg ha.z_ne_zero, if_pos (hb.zero_iff.mpr rfl), ← Point.zero_def, add_zero]
      exact ha
    | some x₂ y₂ h₂ =>
      by_cases hsame : x₁ = x₂
      · exact ha.add_of_same_x hb hsame
      · exact ha.add_of_other_x hb hsame

/-- By halving: with every step the point doubles and the scalar loses its lowest bit. -/
theorem StandsFor.multiply (ha : a.StandsFor p) (k : Nat) : (a.multiply k).StandsFor (k • p) := by
  induction a, k using Jacobian.multiply.induct generalizing p with
  | case1 a =>
    rw [Jacobian.multiply, dif_pos rfl, zero_nsmul]
    exact standsFor_infinity
  | case2 a k hpos hodd ih =>
    have hk : k = 2 * (k / 2) + 1 := by omega
    have hsum := ha.add (ih ha.double)
    rw [Jacobian.multiply, dif_neg hpos, if_pos hodd]
    rwa [← two_nsmul, ← mul_nsmul, ← succ_nsmul', ← hk] at hsum
  | case3 a k hpos heven ih =>
    have hk : k = 2 * (k / 2) := by omega
    have hhalf := ih ha.double
    rw [Jacobian.multiply, dif_neg hpos, if_neg heven]
    rwa [← two_nsmul, ← mul_nsmul, ← hk] at hhalf

/-- Without division there is nothing to do but at the end. -/
theorem StandsFor.toPoint?_eq (ha : a.StandsFor p) : a.toPoint? = keyOf? p := by
  cases ha with
  | infinity hz =>
    rw [toPoint?, if_pos hz]
    rfl
  | @finite x y h hreduced hz hx hy =>
    have hinverse := cast_inverse hz
    rw [toPoint?, if_neg (ne_zero_of_cast hz), keyOf?]
    simp only [Option.some.injEq, Point.mk.injEq]
    constructor
    · refine mod_eq_val ?_
      rw [Nat.cast_mul, cast_mul_mod, hinverse, hx]
      field_simp
    · refine mod_eq_val ?_
      rw [Nat.cast_mul, cast_mul_mod, cast_mul_mod, hinverse, hy]
      field_simp

end Jacobian

/-! ## Operations on keys -/

section Operations

variable {a b : Point} {p q : curve.Point}

theorem standsFor_ofPoint (h : keyOf? p = some a) : (Jacobian.ofPoint a).StandsFor p := by
  cases p with
  | zero => cases h
  | some x y hregular =>
    obtain rfl := Option.some.inj h
    have hone : ((Jacobian.ofPoint ⟨x.val, y.val⟩).z : ZMod fieldPrime) = 1 := Nat.cast_one
    refine .finite y.val_lt ?_ ?_ ?_
    · rw [hone]
      exact one_ne_zero
    · rw [hone, one_pow, mul_one]
      exact ZMod.natCast_zmod_val x
    · rw [hone, one_pow, mul_one]
      exact ZMod.natCast_zmod_val y

/-- Multiples of keys are those of the group, where the factor is a scalar. -/
theorem multiply?_eq (h : keyOf? p = some a) (k : Nat) :
    a.multiply? k = if isScalar k = true then keyOf? (k • p) else none := by
  rw [Point.multiply?, ((standsFor_ofPoint h).multiply k).toPoint?_eq]

/-- Sums of keys are those of the group. -/
theorem add?_eq (ha : keyOf? p = some a) (hb : keyOf? q = some b) : a.add? b = keyOf? (p + q) :=
  ((standsFor_ofPoint ha).add (standsFor_ofPoint hb)).toPoint?_eq

/-! ## The generator -/

theorem isOnCurve_generator : generator.isOnCurve = true := by
  decide +kernel

def basePoint : curve.Point :=
  .some _ _ (isOnCurve_iff_nonsingular.mp isOnCurve_generator).2.2

theorem keyOf?_basePoint : keyOf? basePoint = some generator := by
  obtain ⟨hx, hy, -⟩ := isOnCurve_iff_nonsingular.mp isOnCurve_generator
  rw [basePoint, keyOf?, ZMod.val_natCast_of_lt hx, ZMod.val_natCast_of_lt hy]

/-- The multiple is computed in Jacobian coordinates. -/
theorem order_nsmul_basePoint : order • basePoint = 0 := by
  have hmultiple := (standsFor_ofPoint keyOf?_basePoint).multiply order
  refine hmultiple.zero_iff.mp ?_
  decide +kernel

end Operations

end UtxoConsensus.Curve
