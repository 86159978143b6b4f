import UtxoConsensus.Curve.PublicKey
import UtxoConsensus.Proofs.Bytes.TwosComplement
import UtxoConsensus.Proofs.Curve.PrimeField

/-!
# Keys are read from either of their forms

A point of the curve is found again from its x coordinate and the parity of its y coordinate: two points with
one x coordinate have opposite y coordinates, and the field prime is odd. So the short form of a key stands for
the same point as the long form.
-/

namespace UtxoConsensus.Curve

open Bytes

variable {a : Point} {y : Nat}

/-! ## Opposite coordinates -/

theorem negMod_of_pos (hpos : 0 < y) (hy : y < fieldPrime) : negMod fieldPrime y = fieldPrime - y :=
  Nat.mod_eq_of_lt (by omega)

/-- Of two opposite coordinates one is even and the other odd. -/
theorem parity_negMod (hpos : 0 < y) (hy : y < fieldPrime) : negMod fieldPrime y % 2 ≠ y % 2 := by
  have hodd : fieldPrime % 2 = 1 := by decide +kernel
  rw [negMod_of_pos hpos hy]
  omega

theorem negMod_negMod (hy : y < fieldPrime) : negMod fieldPrime (negMod fieldPrime y) = y := by
  rcases Nat.eq_zero_or_pos y with rfl | hpos
  · rfl
  · rw [negMod_of_pos hpos hy, negMod_of_pos (by omega) (by omega)]
    omega

/-! ## Points of the curve -/

namespace Point

theorem isOnCurve_iff :
    a.isOnCurve = true ↔ a.x < fieldPrime ∧ a.y < fieldPrime ∧ a.y * a.y % fieldPrime = cubic a.x := by
  simp only [isOnCurve, Bool.and_eq_true, decide_eq_true_eq, and_assoc]

/-- Of the two points with one x coordinate the parity of y tells which is meant. -/
theorem ofX?_of_isOnCurve (h : a.isOnCurve = true) : ofX? a.x (a.y % 2 == 1) = some a := by
  obtain ⟨hx, hy, hequation⟩ := isOnCurve_iff.mp h
  unfold ofX?
  rw [if_pos hx, ← hequation]
  rcases sqrt?_mul_self hy with hroot | hroot
  · rw [hroot, Option.map_some, if_pos (beq_self_eq_true _)]
  · rw [hroot, Option.map_some, negMod_negMod hy]
    rcases Nat.eq_zero_or_pos a.y with hzero | hpos
    · have hsame : negMod fieldPrime a.y = a.y := by
        rw [hzero]
        rfl
      rw [hsame, ite_self]
    · have hparity := parity_negMod hpos hy
      rw [if_neg]
      rw [beq_iff_eq, Bool.eq_iff_iff, beq_iff_eq, beq_iff_eq]
      omega

/-- Coordinates have 32 bytes. -/
theorem lt_of_lt_fieldPrime {n : Nat} (hn : n < fieldPrime) : n < 256 ^ 32 :=
  Nat.lt_trans hn (by decide +kernel)

/-- The short form loses nothing, as the parity tells the two coordinates apart. -/
theorem parse?_compressed (h : a.isOnCurve = true) : parse? a.compressed = some a := by
  have hx : toNatBig (ofNatBig 32 a.x) = a.x :=
    toNatBig_ofNatBig (lt_of_lt_fieldPrime (isOnCurve_iff.mp h).1)
  have hpoint := ofX?_of_isOnCurve h
  unfold compressed parityByte parse?
  simp only [length_ofNatBig, if_true, hx]
  by_cases hodd : a.y % 2 = 1
  · rw [hodd] at hpoint
    rw [if_pos hodd]
    exact hpoint
  · rw [beq_eq_false_iff_ne.mpr hodd] at hpoint
    rw [if_neg hodd]
    exact hpoint

theorem parse?_uncompressed (h : a.isOnCurve = true) : parse? a.uncompressed = some a := by
  obtain ⟨hx, hy, -⟩ := isOnCurve_iff.mp h
  have hlength : (ofNatBig 32 a.x).length = 32 := length_ofNatBig _ _
  have hbody : (ofNatBig 32 a.x ++ ofNatBig 32 a.y).length = 64 := by
    rw [List.length_append, hlength, length_ofNatBig]
  have hshort : ¬ (ofNatBig 32 a.x ++ ofNatBig 32 a.y).length = 32 := by omega
  simp only [uncompressed, parse?, if_neg hshort, if_pos hbody, decide_true, Bool.true_or, if_true, parseFull?,
    beq_self_eq_true, Bool.and_true, List.take_left' hlength, List.drop_left' hlength,
    toNatBig_ofNatBig (lt_of_lt_fieldPrime hx), toNatBig_ofNatBig (lt_of_lt_fieldPrime hy), h]

/-- The long form has no other spelling. -/
theorem eq_uncompressed_of_parse? {body : Bytes} (hlength : body.length = 64)
    (h : parse? (0x04 :: body) = some a) : a.isOnCurve = true ∧ 0x04 :: body = a.uncompressed := by
  have hshort : ¬ body.length = 32 := by omega
  simp only [parse?, if_neg hshort, if_pos hlength, decide_true, Bool.true_or, if_true,
    parseFull?, beq_self_eq_true, Bool.and_true, Option.ite_none_right_eq_some, Option.some.injEq] at h
  obtain ⟨hcurve, rfl⟩ := h
  have hx : (body.take 32).length = 32 := by simp [hlength]
  have hy : (body.drop 32).length = 32 := by simp [hlength]
  refine ⟨hcurve, ?_⟩
  simp only [uncompressed, ofNatBig_toNatBig hx, ofNatBig_toNatBig hy, List.take_append_drop]

/-! ## What is read lies on the curve -/

/-- Both roots of the right-hand side belong to points of the curve. -/
theorem isOnCurve_of_ofX? {x : Nat} {odd : Bool} (h : ofX? x odd = some a) : a.isOnCurve = true := by
  rw [ofX?, Option.ite_none_right_eq_some] at h
  obtain ⟨hx, h⟩ := h
  obtain ⟨root, hroot, rfl⟩ := Option.map_eq_some_iff.mp h
  obtain ⟨hlt, hsquare⟩ := square_of_sqrt? hroot
  have hreduced : cubic x % fieldPrime = cubic x := Nat.mod_mod _ _
  rw [hreduced] at hsquare
  refine isOnCurve_iff.mpr ⟨hx, ?_, ?_⟩
  · dsimp only
    split
    · exact hlt
    · exact Nat.mod_lt _ fieldPrime_pos
  · dsimp only
    split
    · exact hsquare
    · rw [← hsquare, ← ZMod.natCast_eq_natCast_iff', Nat.cast_mul, Nat.cast_mul, cast_negMod _ _ hlt.le,
        neg_mul_neg]

/-- Whatever is read is a key. -/
theorem isOnCurve_of_parse? {key : Bytes} (h : parse? key = some a) : a.isOnCurve = true := by
  cases key with
  | nil => cases h
  | cons first body =>
    rw [parse?] at h
    split at h
    · rw [Option.ite_none_right_eq_some] at h
      exact isOnCurve_of_ofX? h.2
    · rw [Option.ite_none_right_eq_some, Option.ite_none_right_eq_some] at h
      obtain ⟨-, -, hfull⟩ := h
      simp only [parseFull?, Option.ite_none_right_eq_some, Bool.and_eq_true, Option.some.injEq] at hfull
      obtain ⟨⟨hcurve, -⟩, rfl⟩ := hfull
      exact hcurve

end Point

end UtxoConsensus.Curve
