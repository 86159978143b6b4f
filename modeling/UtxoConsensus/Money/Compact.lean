import UtxoConsensus.Money.Amount

/-!
# Compact amounts

Amounts in storage are mostly round numbers. A compact amount says how many zeros end the decimal
number, up to nine, and which digit comes before them, so that round amounts become small numbers.
Zero is 0; other codes are `1 + 10 * (9 * n + d - 1) + e` for the amount `(10 * n + d) * 10 ^ e`
with `1 ≤ d ≤ 9` and `e < 9`, and `1 + 10 * (n - 1) + 9` for `n * 10 ^ 9`.
-/

namespace UtxoConsensus.Amount

/-- A number without the zeros that end it, at most `limit` of them, and how many those were. -/
def stripZeros (n : UInt64) : (limit : Nat) → UInt64 × Nat
  | 0 => (n, 0)
  | limit + 1 =>
    if n % 10 = 0 then
      let r := stripZeros (n / 10) limit
      (r.1, r.2 + 1)
    else (n, 0)

/-- The code of an amount; negative amounts have none. -/
def compress (a : Amount) : Option UInt64 :=
  if a.satoshis < 0 then none
  else if a.satoshis = 0 then some 0
  else
    let (n, zeros) := stripZeros a.satoshis.toUInt64 9
    if zeros < 9 then some (1 + (n / 10 * 9 + (n % 10 - 1)) * 10 + UInt64.ofNat zeros)
    else some (1 + (n - 1) * 10 + 9)

/-- The amount with the given code; codes of amounts beyond 64 bits wrap around. -/
def decompress (code : UInt64) : Amount :=
  if code = 0 then zero
  else
    let x := code - 1
    let zeros := x % 10
    let rest := x / 10
    let n := if zeros < 9 then rest / 9 * 10 + (rest % 9 + 1) else rest + 1
    ⟨(n * UInt64.ofNat (Nat.pow 10 zeros.toNat)).toInt64⟩

end UtxoConsensus.Amount
