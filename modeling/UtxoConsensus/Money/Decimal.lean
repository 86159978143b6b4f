import UtxoConsensus.Money.Amount
import UtxoConsensus.Text.Blank
import UtxoConsensus.Text.Digits

/-!
# Amounts as decimal text

Amounts are written in coins: a whole part, a point, and at least two and at most eight decimal
places. Reading is more generous about the number of places and about surrounding blanks, and
knows no sign.
-/

namespace UtxoConsensus.Amount

/-! ## Writing -/

/-- Decimal digits with zeros in front, `width` of them at least. -/
def paddedDigits (width n : Nat) : List Char :=
  let digits := Nat.toDigits 10 n
  List.replicate (width - digits.length) '0' ++ digits

def dropFinalZeros (digits : List Char) : List Char :=
  (digits.reverse.dropWhile (· == '0')).reverse

/-- Eight places, less the zeros at the end, but never fewer than two. -/
def fractionDigits (n : Nat) : List Char :=
  let digits := paddedDigits 8 n
  digits.take 2 ++ dropFinalZeros (digits.drop 2)

def formatChars (a : Amount) : List Char :=
  let magnitude := a.toInt.natAbs
  let unsigned := Nat.toDigits 10 (magnitude / 100000000) ++
    '.' :: fractionDigits (magnitude % 100000000)
  if a.toInt < 0 then '-' :: unsigned else unsigned

/-- The amount in coins, such as `0.50` or `-12.345`. -/
def format (a : Amount) : String :=
  String.ofList a.formatChars

/-! ## Reading -/

/-- The text before the first point, and the text after it. -/
def splitPoint (cs : List Char) : List Char × List Char :=
  (cs.takeWhile (· != '.'), (cs.dropWhile (· != '.')).drop 1)

def parseChars? (text : List Char) : Option Amount :=
  let trimmed := Text.trim Text.isBlank text
  let (whole, fraction) := splitPoint trimmed
  if trimmed.isEmpty then none
  else if !(whole.all Text.isDigit && fraction.all Text.isDigit) then none
  else if whole.length > 10 || fraction.length > 8 then none
  else
    let rest := Text.digitsValue fraction * Nat.pow 10 (8 - fraction.length)
    ofInt? (Text.digitsValue whole * 100000000 + rest : Nat)

/-- Reads an amount in coins: at most ten digits, and at most eight more after a point. -/
def parse? (text : String) : Option Amount :=
  parseChars? text.toList

end UtxoConsensus.Amount
