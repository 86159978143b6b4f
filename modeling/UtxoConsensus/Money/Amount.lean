/-!
# Amounts of money

An amount is a signed 64-bit count of the smallest unit, the satoshi. A sum that matters is formed
by the checked operations, which work in unbounded integers and then ask whether the result is an
amount; the plain operators wrap around.
-/

namespace UtxoConsensus

@[ext]
structure Amount where
  satoshis : Int64
deriving DecidableEq, Inhabited

namespace Amount

def toInt (a : Amount) : Int :=
  a.satoshis.toInt

def ofInt? (n : Int) : Option Amount :=
  if Int64.minValue.toInt ≤ n ∧ n ≤ Int64.maxValue.toInt then some ⟨Int64.ofInt n⟩ else none

def zero : Amount := ⟨0⟩

/-- The smallest positive amount. -/
def satoshi : Amount := ⟨1⟩

/-- One hundred satoshis. -/
def cash : Amount := ⟨100⟩

/-- The unit in which people count: 10^8 satoshis. -/
def coin : Amount := ⟨100000000⟩

/-- No amount above this one is valid. -/
def maxMoney : Amount := ⟨1000000000000000⟩

instance : LE Amount := ⟨fun a b ↦ a.satoshis ≤ b.satoshis⟩

instance (a b : Amount) : Decidable (a ≤ b) :=
  inferInstanceAs (Decidable (a.satoshis ≤ b.satoshis))

def inRange (a : Amount) : Bool :=
  decide (zero ≤ a) && decide (a ≤ maxMoney)

/-! ## Checked operations -/

def checkedAdd (a b : Amount) : Option Amount :=
  ofInt? (a.toInt + b.toInt)

def checkedSub (a b : Amount) : Option Amount :=
  ofInt? (a.toInt - b.toInt)

def checkedMul (a : Amount) (factor : Int64) : Option Amount :=
  ofInt? (a.toInt * factor.toInt)

/-! ## Wrapping operations -/

instance : Add Amount := ⟨fun a b ↦ ⟨a.satoshis + b.satoshis⟩⟩
instance : Sub Amount := ⟨fun a b ↦ ⟨a.satoshis - b.satoshis⟩⟩
instance : Neg Amount := ⟨fun a ↦ ⟨-a.satoshis⟩⟩
instance : HMul Int64 Amount Amount := ⟨fun n a ↦ ⟨n * a.satoshis⟩⟩

/-! ## Division

Quotients are rounded toward zero and remainders have the sign of the dividend. There is no result
for a zero divisor, nor where the quotient is not a 64-bit number.
-/

def divide? (a : Amount) (divisor : Int64) : Option Amount :=
  if divisor = 0 then none else ofInt? (a.toInt.tdiv divisor.toInt)

def remainder? (a : Amount) (divisor : Int64) : Option Amount :=
  if (a.divide? divisor).isNone then none else ofInt? (a.toInt.tmod divisor.toInt)

end Amount

end UtxoConsensus
