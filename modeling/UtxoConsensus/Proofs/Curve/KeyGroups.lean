import UtxoConsensus.Curve.Schnorr
import UtxoConsensus.Proofs.Curve.GroupLaw

/-!
# Keys that implement a group

Signing and verification use the operations of a `KeyGroup` only. What they need of them is that keys stand for
the elements of a commutative group other than zero, and that every operation is the one of the group: it has no
result where that would be zero, and scalars are those from 1 to the order less 1. Then the terms of a sum may
be computed with one rule, whether they are at infinity or not. The points of the curve are such keys.
-/

namespace UtxoConsensus.Curve

variable {Key P : Type} [AddCommGroup P] {group : KeyGroup Key} {key? : P → Option Key} {base p q : P}
  {a b : Key}

/-- The operations on keys are those of a group in which the multiples of `base` repeat after `order` steps.
Coordinates belong to one key only, of which the negated key has the second one negated, and keys are read from
either of their written forms. -/
structure KeyGroup.Implements (group : KeyGroup Key) (key? : P → Option Key) (base : P) : Prop where
  key?_injective : Function.Injective key?
  key?_eq_none_iff (p : P) : key? p = none ↔ p = 0
  order_nsmul_base : order • base = 0
  ofSecret?_eq (k : Nat) : group.ofSecret? k = if isScalar k = true then key? (k • base) else none
  multiply?_eq (p : P) (a : Key) (k : Nat) (ha : key? p = some a) :
    group.multiply? a k = if isScalar k = true then key? (k • p) else none
  add?_eq (p q : P) (a b : Key) (ha : key? p = some a) (hb : key? q = some b) :
    group.add? a b = key? (p + q)
  negate_eq (p : P) (a : Key) (ha : key? p = some a) : key? (-p) = some (group.negate a)
  x_negate (a : Key) : group.x (group.negate a) = group.x a
  y_negate (a : Key) : group.y (group.negate a) = negMod fieldPrime (group.y a)
  coordinates_lt (p : P) (a : Key) (ha : key? p = some a) : group.x a < fieldPrime ∧ group.y a < fieldPrime
  eq_of_coordinates (p q : P) (a b : Key) (ha : key? p = some a) (hb : key? q = some b)
    (hx : group.x a = group.x b) (hy : group.y a = group.y b) : a = b
  parse?_compressed (p : P) (a : Key) (ha : key? p = some a) : group.parse? (group.compressed a) = some a
  parse?_uncompressed (p : P) (a : Key) (ha : key? p = some a) :
    group.parse? (group.uncompressed a) = some a
  exists_of_parse? (written : Bytes) (a : Key) (ha : group.parse? written = some a) : ∃ p, key? p = some a

theorem isScalar_iff {k : Nat} : isScalar k = true ↔ 0 < k ∧ k < order := by
  rw [isScalar, Bool.and_eq_true, decide_eq_true_iff, decide_eq_true_iff]

namespace KeyGroup.Implements

/-! ## Multiples and sums -/

/-- The multiple by zero is the one that no key stands for. -/
theorem ite_isScalar (laws : group.Implements key? base) {k : Nat} (hk : k < order) (p : P) :
    (if isScalar k = true then key? (k • p) else none) = key? (k • p) := by
  rcases Nat.eq_zero_or_pos k with rfl | hpos
  · have hzero : key? (0 • p) = none := (laws.key?_eq_none_iff _).mpr (zero_nsmul p)
    rw [hzero, ite_self]
  · rw [if_pos (isScalar_iff.mpr ⟨hpos, hk⟩)]

/-- The key of a secret is a multiple of the generator. -/
theorem ofSecret?_of_lt (laws : group.Implements key? base) {k : Nat} (hk : k < order) :
    group.ofSecret? k = key? (k • base) :=
  (laws.ofSecret?_eq k).trans (laws.ite_isScalar hk base)

/-- Multiples by reduced numbers, of which zero gives no key. -/
theorem multiply?_of_lt (laws : group.Implements key? base) {k : Nat} (hk : k < order)
    (ha : key? p = some a) : group.multiply? a k = key? (k • p) :=
  (laws.multiply?_eq p a k ha).trans (laws.ite_isScalar hk p)

/-- A missing term is zero, and a missing sum too. -/
theorem addTerms?_eq (laws : group.Implements key? base) (p q : P) :
    addTerms? group (key? p) (key? q) = key? (p + q) := by
  cases hp : key? p with
  | none =>
    rw [(laws.key?_eq_none_iff p).mp hp, zero_add]
    cases hq : key? q <;> rfl
  | some a =>
    cases hq : key? q with
    | none => rw [(laws.key?_eq_none_iff q).mp hq, add_zero, hp, addTerms?]
    | some b => exact laws.add?_eq p q a b hp hq

/-- All multiples of the generator have its order. -/
theorem order_nsmul_multiple (laws : group.Implements key? base) (k : Nat) : order • k • base = 0 := by
  rw [nsmul_left_comm, laws.order_nsmul_base, nsmul_zero]

/-- A scalar may be reduced. -/
theorem mod_order_nsmul (laws : group.Implements key? base) (k : Nat) : (k % order) • base = k • base := by
  conv_rhs => rw [← Nat.mod_add_div k order, add_nsmul, mul_nsmul, laws.order_nsmul_base, nsmul_zero, add_zero]

theorem sub_nsmul_base (laws : group.Implements key? base) {k : Nat} (hk : k ≤ order) :
    (order - k) • base = -(k • base) := by
  rw [sub_nsmul base hk, laws.order_nsmul_base, zero_add]

/-! ## Coordinates -/

/-- A key with `y = 0` would be its own negation, but the order is odd. -/
theorem y_pos (laws : group.Implements key? base) {k : Nat} (ha : key? (k • base) = some a) :
    0 < group.y a := by
  refine Nat.pos_of_ne_zero fun hzero ↦ ?_
  have hneg := laws.negate_eq _ a ha
  have hsame : group.negate a = a := by
    refine laws.eq_of_coordinates _ _ _ _ hneg ha (laws.x_negate a) ?_
    rw [laws.y_negate, hzero]
    rfl
  have hself : -(k • base) = k • base := laws.key?_injective (by rw [hneg, ha, hsame])
  have htwice : 2 • k • base = 0 := by
    rw [two_nsmul]
    exact neg_eq_iff_add_eq_zero.mp hself
  have hodd : order = order / 2 * 2 + 1 := by decide +kernel
  have hvanishes : k • base = 0 := by
    rw [← laws.order_nsmul_multiple k, hodd, add_nsmul, mul_nsmul', htwice, nsmul_zero, zero_add, one_nsmul]
  have hnone := (laws.key?_eq_none_iff _).mpr hvanishes
  rw [ha] at hnone
  cases hnone

end KeyGroup.Implements

/-! ## The keys of the ledger -/

/-- The keys of the ledger obey the laws of a group of prime order. -/
theorem implements_secp256k1 : secp256k1.Implements keyOf? basePoint where
  key?_injective := keyOf?_injective
  key?_eq_none_iff _ := keyOf?_eq_none_iff
  order_nsmul_base := order_nsmul_basePoint
  ofSecret?_eq := multiply?_eq keyOf?_basePoint
  multiply?_eq _ _ k ha := multiply?_eq ha k
  add?_eq _ _ _ _ ha hb := add?_eq ha hb
  negate_eq _ _ ha := keyOf?_neg ha
  x_negate _ := rfl
  y_negate _ := rfl
  coordinates_lt _ _ ha :=
    have hcurve := Point.isOnCurve_iff.mp (isOnCurve_of_keyOf? ha)
    ⟨hcurve.1, hcurve.2.1⟩
  eq_of_coordinates _ _ _ _ _ _ hx hy := Point.ext hx hy
  parse?_compressed _ _ ha := Point.parse?_compressed (isOnCurve_of_keyOf? ha)
  parse?_uncompressed _ _ ha := Point.parse?_uncompressed (isOnCurve_of_keyOf? ha)
  exists_of_parse? _ _ ha := exists_keyOf? (Point.isOnCurve_of_parse? ha)

end UtxoConsensus.Curve
