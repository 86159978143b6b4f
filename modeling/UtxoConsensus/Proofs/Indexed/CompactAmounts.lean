import UtxoConsensus.Proofs.Indexed.Basic
import UtxoConsensus.Proofs.Money.CompactAmounts

/-!
# Compact amounts by words

An amount and its code are computed on words of 64 bits, each sum, difference and product of which is taken
only if it is a word. There are all of them where the code in unbounded numbers is a word, and in the other
direction where the amount is one: what comes later is never smaller.
-/

namespace UtxoConsensus.Indexed

open Amount

variable {a b n zeros code : Nat}

/-! ## Words -/

/-- A sum that is a word. -/
def plus? (a b : Nat) : Option Nat :=
  if a + b < UInt64.size then some (a + b) else none

/-- A product that is a word. -/
def times? (a b : Nat) : Option Nat :=
  if a * b < UInt64.size then some (a * b) else none

theorem plus?_of_lt (h : a + b < UInt64.size) : plus? a b = some (a + b) := if_pos h

theorem times?_of_lt (h : a * b < UInt64.size) : times? a b = some (a * b) := if_pos h

/-! ## The code of an amount -/

/-- The code of a number with `zeros` zeros behind it. -/
def code? (n zeros : Nat) : Option Nat :=
  if zeros < 9 then do
    let digit ← minus? (n % 10) 1
    let digits ← plus? (← times? (n / 10) 9) digit
    let shifted ← times? digits 10
    plus? (← plus? 1 shifted) zeros
  else do
    let digits ← minus? n 1
    let shifted ← times? digits 10
    plus? (← plus? 1 shifted) 9

def compress? (a : Amount) : Option Nat :=
  if a.satoshis.toUInt64 = 0 then some 0
  else
    let r := stripZeros a.satoshis.toUInt64 9
    code? r.1.toNat r.2

/-- Nothing overflows on the way to a code that fits. -/
theorem code?_eq (h : IsStripped n zeros) (hfits : exactCode n zeros < UInt64.size) :
    code? n zeros = some (exactCode n zeros) := by
  unfold code?
  unfold exactCode at hfits ⊢
  by_cases hfew : zeros < 9
  · have hdigit := h.mod_ne_zero hfew
    rw [if_pos hfew] at hfits
    rw [if_pos hfew, if_pos hfew, minus?_of_le (Nat.one_le_iff_ne_zero.mpr hdigit), times?_of_lt (by omega)]
    simp only [Option.bind_eq_bind, Option.bind_some]
    rw [plus?_of_lt (by omega), Option.bind_some, times?_of_lt (by omega), Option.bind_some,
      plus?_of_lt (by omega), Option.bind_some, plus?_of_lt hfits]
  · rw [if_neg hfew] at hfits
    rw [if_neg hfew, if_neg hfew, minus?_of_le h.pos]
    simp only [Option.bind_eq_bind, Option.bind_some]
    rw [times?_of_lt (by omega), Option.bind_some, plus?_of_lt (by omega), Option.bind_some, plus?_of_lt hfits]

/-! ## The amount with a code -/

/-- What stands before the zeros of the amount whose code is one more than `x`. -/
def units? (x : Nat) : Option Nat :=
  if x % 10 < 9 then do
    let digits ← times? (x / 10 / 9) 10
    plus? digits (x / 10 % 9 + 1)
  else plus? (x / 10) 1

def appendZeros? (n : Nat) : (count : Nat) → Option Nat
  | 0 => some n
  | count + 1 => do appendZeros? (← times? n 10) count

/-- The amount with a code, as a number of 64 bits with its sign. -/
def decompress? (code : Nat) : Option Int :=
  if code = 0 then some 0
  else do
    let x ← minus? code 1
    let n ← units? x
    let product ← appendZeros? n (x % 10)
    fit? product

theorem exists_units? (hcode : code ≠ 0) : ∃ n, exactAmount code = n * 10 ^ ((code - 1) % 10) ∧
    (n < UInt64.size → units? (code - 1) = some n) := by
  unfold exactAmount units?
  rw [if_neg hcode]
  refine ⟨_, rfl, fun hword ↦ ?_⟩
  split at hword
  · next hfew =>
    rw [if_pos hfew, if_pos hfew, times?_of_lt (by omega), Option.bind_eq_bind, Option.bind_some,
      plus?_of_lt hword]
  · next hmany => rw [if_neg hmany, if_neg hmany, plus?_of_lt hword]

theorem appendZeros?_eq {count : Nat} (h : n * 10 ^ count < UInt64.size) :
    appendZeros? n count = some (n * 10 ^ count) := by
  induction count generalizing n with
  | zero => rw [appendZeros?, Nat.pow_zero, Nat.mul_one]
  | succ count ih =>
    have hten : n * 10 ^ (count + 1) = n * 10 * 10 ^ count := by rw [Nat.pow_succ', Nat.mul_assoc]
    rw [hten] at h ⊢
    have hnext : n * 10 < UInt64.size :=
      Nat.lt_of_le_of_lt (Nat.le_mul_of_pos_right _ (Nat.pow_pos (by decide))) h
    rw [appendZeros?, times?_of_lt hnext, Option.bind_eq_bind, Option.bind_some, ih h]

/-- Nothing overflows on the way to an amount that fits. -/
theorem decompress?_eq (hfits : exactAmount code < 2 ^ 63) : decompress? code = some (exactAmount code : Int) := by
  by_cases hzero : code = 0
  · rw [hzero]
    rfl
  · obtain ⟨n, hamount, hunits⟩ := exists_units? hzero
    rw [hamount] at hfits ⊢
    have hproduct : n * 10 ^ ((code - 1) % 10) < UInt64.size := Nat.lt_trans hfits (by decide)
    have hword : n < UInt64.size :=
      Nat.lt_of_le_of_lt (Nat.le_mul_of_pos_right n (Nat.pow_pos (by decide))) hproduct
    have hmax : Int64.maxValue.toInt = 9223372036854775807 := rfl
    unfold decompress?
    simp only [if_neg hzero, minus?_of_le (Nat.one_le_iff_ne_zero.mpr hzero), hunits hword,
      appendZeros?_eq hproduct, Option.bind_eq_bind, Option.bind_some]
    exact fit?_of_natAbs_le (by omega)

end UtxoConsensus.Indexed
