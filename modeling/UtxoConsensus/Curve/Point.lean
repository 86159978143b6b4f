import UtxoConsensus.Curve.Field

/-!
# Points of the curve

The curve has the equation `y² = x³ + 7`. Sums are computed in Jacobian coordinates, where
`(x, y, z)` stands for the point `(x / z², y / z³)` and `z = 0` for the point at infinity: no
division is needed before the end of a computation.
-/

namespace UtxoConsensus.Curve

@[ext]
structure Point where
  x : Nat
  y : Nat
deriving DecidableEq, Inhabited

/-- The right-hand side of the equation of the curve. -/
def cubic (x : Nat) : Nat :=
  (x * x % fieldPrime * x + 7) % fieldPrime

/-- Does a point satisfy the equation, with both coordinates reduced? -/
def Point.isOnCurve (a : Point) : Bool :=
  decide (a.x < fieldPrime) && decide (a.y < fieldPrime) &&
    decide (a.y * a.y % fieldPrime = cubic a.x)

/-- The other point with the same x coordinate, and with y negated. -/
def Point.negate (a : Point) : Point :=
  ⟨a.x, negMod fieldPrime a.y⟩

/-- The point whose multiples are the public keys. -/
def generator : Point :=
  ⟨0x79be667ef9dcbbac55a06295ce870b07029bfcdb2dce28d959f2815b16f81798,
   0x483ada7726a3c4655da4fbfc0e1108a8fd17b448a68554199c47d08ffb10d4b8⟩

/-! ## Jacobian coordinates -/

structure Jacobian where
  x : Nat
  y : Nat
  z : Nat
deriving DecidableEq, Inhabited

namespace Jacobian

def infinity : Jacobian := ⟨1, 1, 0⟩

def ofPoint (a : Point) : Jacobian := ⟨a.x, a.y, 1⟩

/-- The point with two coordinates, unless it is the one at infinity. -/
def toPoint? (a : Jacobian) : Option Point :=
  if a.z = 0 then none
  else
    let w := inverse fieldPrime a.z
    let w2 := w * w % fieldPrime
    some ⟨a.x * w2 % fieldPrime, a.y * (w2 * w % fieldPrime) % fieldPrime⟩

def double (a : Jacobian) : Jacobian :=
  if a.z = 0 || a.y = 0 then infinity
  else
    let yy := a.y * a.y % fieldPrime
    let s := 4 * a.x * yy % fieldPrime
    let m := 3 * a.x * a.x % fieldPrime
    let x := subMod fieldPrime (m * m % fieldPrime) (2 * s % fieldPrime)
    let y := subMod fieldPrime (m * subMod fieldPrime s x % fieldPrime)
      (8 * (yy * yy % fieldPrime) % fieldPrime)
    ⟨x, y, 2 * a.y * a.z % fieldPrime⟩

def add (a b : Jacobian) : Jacobian :=
  if a.z = 0 then b
  else if b.z = 0 then a
  else
    let aa := a.z * a.z % fieldPrime
    let bb := b.z * b.z % fieldPrime
    let u1 := a.x * bb % fieldPrime
    let u2 := b.x * aa % fieldPrime
    let s1 := a.y * (b.z * bb % fieldPrime) % fieldPrime
    let s2 := b.y * (a.z * aa % fieldPrime) % fieldPrime
    if u1 = u2 then if s1 = s2 then a.double else infinity
    else
      let h := subMod fieldPrime u2 u1
      let r := subMod fieldPrime s2 s1
      let hh := h * h % fieldPrime
      let hhh := h * hh % fieldPrime
      let v := u1 * hh % fieldPrime
      let x := subMod fieldPrime (subMod fieldPrime (r * r % fieldPrime) hhh) (2 * v % fieldPrime)
      let y := subMod fieldPrime (r * subMod fieldPrime v x % fieldPrime) (s1 * hhh % fieldPrime)
      ⟨x, y, h * (a.z * b.z % fieldPrime) % fieldPrime⟩

/-- The sum of `k` copies of a point, by repeated doubling. -/
def multiply (a : Jacobian) (k : Nat) : Jacobian :=
  if _h : k = 0 then infinity
  else
    let half := multiply a.double (k / 2)
    if k % 2 = 1 then a.add half else half
termination_by k
decreasing_by exact Nat.div_lt_self (Nat.pos_of_ne_zero _h) (by omega)

end Jacobian

end UtxoConsensus.Curve
