import UtxoConsensus.Word256.Basic

/-!
# Division of 256-bit words

Long division in base two: the bits of the dividend enter a remainder from the top, and the divisor
is subtracted wherever it fits. If the remainder outgrows 256 bits when it is doubled, the bit that
leaves it says that the divisor certainly fits.
-/

namespace UtxoConsensus.Word256

/-- What has been found of the quotient, and what is left of the bits taken in so far. -/
structure Division where
  quotient : Word256
  remainder : Word256
deriving DecidableEq

/-- Takes bit `i` of the dividend into the remainder and decides bit `i` of the quotient. -/
def Division.step (dividend divisor : Word256) (i : Nat) (s : Division) : Division :=
  let carry := s.remainder.bit 255
  let doubled := s.remainder.shiftLeft 1
  let extended := if dividend.bit i then doubled.or one else doubled
  if carry || decide (divisor ≤ extended) then
    ⟨s.quotient.or (one.shiftLeft i), extended - divisor⟩
  else ⟨s.quotient, extended⟩

/-- Takes in the bits below `count`, the highest first. -/
def Division.run (dividend divisor : Word256) : Nat → Division → Division
  | 0, s => s
  | count + 1, s => run dividend divisor count (step dividend divisor count s)

/-- Quotient and remainder; there are none for the divisor zero. -/
def divRem? (dividend divisor : Word256) : Option Division :=
  if divisor.isZero then none
  else if dividend < divisor then some ⟨zero, dividend⟩
  else some (Division.run dividend divisor dividend.bits ⟨zero, zero⟩)

end UtxoConsensus.Word256
