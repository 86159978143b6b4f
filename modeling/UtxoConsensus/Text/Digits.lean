/-!
# Decimal digits

The ten digits of ASCII, and the numbers that sequences of them denote.
-/

namespace UtxoConsensus.Text

def isDigit (c : Char) : Bool :=
  decide ('0' ≤ c) && decide (c ≤ '9')

def digitsValue (digits : List Char) : Nat :=
  digits.foldl (fun n c ↦ 10 * n + (c.toNat - 48)) 0

end UtxoConsensus.Text
