import UtxoConsensus.Word256.Division

/-!
# The Jacobi symbol

The binary algorithm: factors of two are taken out by the supplementary law, the two numbers change
places by quadratic reciprocity, and the smaller is subtracted from the larger. It needs no
factorisation of the modulus.
-/

namespace UtxoConsensus.Word256

/-- The symbol of 2 changes the sign exactly for moduli that are 3 or 5 modulo 8. -/
def twoFlips (modulus : Word256) : Bool :=
  modulus.limb0 &&& 7 == 3 || modulus.limb0 &&& 7 == 5

/-- Exchanging two odd numbers changes the sign exactly if both are 3 modulo 4. -/
def exchangeFlips (a modulus : Word256) : Bool :=
  a.limb0 &&& 3 == 3 && modulus.limb0 &&& 3 == 3

def isEven (a : Word256) : Bool :=
  a.limb0 &&& 1 == 0

/-- `sign` times the symbol of `a` over `n`, for an odd `n`. -/
def signedJacobi (a n : Word256) (sign : Int) : Int :=
  if _ha : a.isZero then
    if n = one then sign else 0
  else if _hn : n.isZero then 0
  else if a.isEven then
    signedJacobi (a.shiftRight 1) n (if n.twoFlips then -sign else sign)
  else if _hlt : a < n then
    signedJacobi (n - a) a (if exchangeFlips a n then -sign else sign)
  else signedJacobi (a - n) n sign
termination_by a.toNat + n.toNat
decreasing_by
  · have hpos : a.toNat ≠ 0 := fun h ↦ _ha ((isZero_iff a).2 h)
    rw [toNat_shiftRight_one]
    omega
  · have hpos : a.toNat ≠ 0 := fun h ↦ _ha ((isZero_iff a).2 h)
    rw [lt_iff_toNat_lt] at _hlt
    rw [toNat_sub_of_le (Nat.le_of_lt _hlt)]
    omega
  · have hpos : n.toNat ≠ 0 := fun h ↦ _hn ((isZero_iff n).2 h)
    rw [lt_iff_toNat_lt] at _hlt
    rw [toNat_sub_of_le (Nat.le_of_not_lt _hlt)]
    omega

/-- The Jacobi symbol of `value` over an odd `modulus`: 1, -1, or 0 if they share a factor. -/
def jacobi (value modulus : Word256) : Int :=
  match value.divRem? modulus with
  | none => 0
  | some division => signedJacobi division.remainder modulus 1

end UtxoConsensus.Word256
