/-!
# The numbers behind the curve

Coordinates are counted modulo the field prime, scalars modulo the order of the group. Residues are
natural numbers below their modulus. Both moduli are prime, so that powers give inverses, and the
field prime is 3 modulo 4, so that a power gives square roots too.
-/

namespace UtxoConsensus.Curve

/-- The modulus of the coordinates. -/
def fieldPrime : Nat :=
  0xfffffffffffffffffffffffffffffffffffffffffffffffffffffffefffffc2f

/-- The number of points, the one at infinity included. -/
def order : Nat :=
  0xfffffffffffffffffffffffffffffffebaaedce6af48a03bbfd25e8cd0364141

/-- A power modulo `m`, by repeated squaring. -/
def powMod (m base exponent : Nat) : Nat :=
  if _h : exponent = 0 then 1 % m
  else
    let root := powMod m (base * base % m) (exponent / 2)
    if exponent % 2 = 1 then base * root % m else root
termination_by exponent
decreasing_by exact Nat.div_lt_self (Nat.pos_of_ne_zero _h) (by omega)

/-- The inverse of a residue modulo a prime; zero for zero. -/
def inverse (m a : Nat) : Nat :=
  powMod m a (m - 2)

def subMod (m a b : Nat) : Nat :=
  (a + (m - b)) % m

def negMod (m a : Nat) : Nat :=
  (m - a) % m

def sqrt? (a : Nat) : Option Nat :=
  let root := powMod fieldPrime a ((fieldPrime + 1) / 4)
  if root * root % fieldPrime = a % fieldPrime then some root else none

end UtxoConsensus.Curve
