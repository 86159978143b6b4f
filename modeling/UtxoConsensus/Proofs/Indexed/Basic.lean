import Mathlib.Algebra.Group.Nat.Defs
import UtxoConsensus.Proofs.Bytes.FixedWidth

/-!
# Operations that need a guard

A machine that works with positions and with words of 64 bits can be asked for what is not there: a byte
beyond the end of a byte string, a difference that is negative, a word that is shifted by its own width.
The operations here have a result only within their bounds, and `none` is what a caller must not run into.
What is computed with them is right only if every one of them has been guarded.
-/

namespace UtxoConsensus.Indexed

/-! ## Positions -/

/-- A difference that is not negative. -/
def minus? (a b : Nat) : Option Nat :=
  if b ≤ a then some (a - b) else none

/-- The bytes, or the elements, from one position up to another. -/
def slice? {α : Type} (b : List α) (start stop : Nat) : Option (List α) :=
  if start ≤ stop ∧ stop ≤ b.length then some ((b.take stop).drop start) else none

def set? (b : Bytes) (position : Nat) (byte : UInt8) : Option Bytes :=
  if position < b.length then some (b.set position byte) else none

@[simp] theorem minus?_of_le {a b : Nat} (h : b ≤ a) : minus? a b = some (a - b) := if_pos h

theorem minus?_add (length count : Nat) : minus? (length + count) count = some length := by
  rw [minus?_of_le (Nat.le_add_left _ _), Nat.add_sub_cancel]

theorem slice?_of_le {α : Type} {b : List α} {start stop : Nat} (hstart : start ≤ stop) (hstop : stop ≤ b.length) :
    slice? b start stop = some ((b.take stop).drop start) := if_pos ⟨hstart, hstop⟩

theorem set?_of_lt {b : Bytes} {position : Nat} (h : position < b.length) (byte : UInt8) :
    set? b position byte = some (b.set position byte) := if_pos h

/-! ## Words -/

/-- A word shifted towards its high bits, of which some are lost, by less than its width. -/
def shiftLeft? (word count : Nat) : Option Nat :=
  if count < 64 then some (word <<< count % UInt64.size) else none

def shiftRight? (word count : Nat) : Option Nat :=
  if count < 64 then some (word >>> count) else none

/-- A word read as a number with a sign. -/
def signed (word : Nat) : Int :=
  (Int64.ofNat word).toInt

/-- A result that is a number of 64 bits. -/
def fit? (n : Int) : Option Int :=
  if Int64.minValue.toInt ≤ n ∧ n ≤ Int64.maxValue.toInt then some n else none

/-- A quotient, rounded toward zero. The least number has none by minus one. -/
def quotient? (a b : Int) : Option Int :=
  if b = 0 then none else fit? (a.tdiv b)

/-- A remainder, with the sign of the dividend. There is one where there is a quotient. -/
def remainder? (a b : Int) : Option Int :=
  (quotient? a b).map fun _ ↦ a.tmod b

theorem shiftLeft?_of_lt {word count : Nat} (hcount : count < 64) (hword : word * 2 ^ count < 2 ^ 64) :
    shiftLeft? word count = some (word * 2 ^ count) := by
  unfold shiftLeft?
  rw [if_pos hcount, Nat.shiftLeft_eq]
  exact congrArg some (Nat.mod_eq_of_lt hword)

theorem shiftRight?_of_lt {word count : Nat} (hcount : count < 64) :
    shiftRight? word count = some (word >>> count) := if_pos hcount

theorem signed_of_lt {word : Nat} (h : word < 2 ^ 63) : signed word = word :=
  Int64.toInt_ofNat_of_lt h

theorem fit?_of_natAbs_le {n : Int} (h : n.natAbs ≤ Int64.maxValue.toInt) : fit? n = some n := by
  have hmin : Int64.minValue.toInt = -9223372036854775808 := rfl
  have hmax : Int64.maxValue.toInt = 9223372036854775807 := rfl
  unfold fit?
  exact if_pos (by omega)

theorem quotient?_of_natAbs_le {a b : Int} (hb : b ≠ 0) (ha : a.natAbs ≤ Int64.maxValue.toInt) :
    quotient? a b = some (a.tdiv b) := by
  have hle : (a.tdiv b).natAbs ≤ a.natAbs := by
    rw [Int.natAbs_tdiv]
    exact Nat.div_le_self _ _
  unfold quotient?
  rw [if_neg hb]
  exact fit?_of_natAbs_le (Int.le_trans (Int.ofNat_le.mpr hle) ha)

theorem remainder?_of_natAbs_le {a b : Int} (hb : b ≠ 0) (ha : a.natAbs ≤ Int64.maxValue.toInt) :
    remainder? a b = some (a.tmod b) := by
  unfold remainder?
  rw [quotient?_of_natAbs_le hb ha, Option.map_some]

example : quotient? (-9223372036854775808) (-1) = none ∧ quotient? 7 0 = none := by decide

/-! ## Words from bytes -/

/-- Bytes gathered into a word, each shifted to its place above those before it. -/
def gather? : (place word : Nat) → Bytes → Option Nat
  | _, word, [] => some word
  | place, word, byte :: rest => do
    let shifted ← shiftLeft? byte.toNat (8 * place)
    gather? (place + 1) (word ||| shifted) rest

/-- Eight bytes have their place in a word. -/
theorem gather?_eq_add {place word : Nat} {b : Bytes} (hword : word < 256 ^ place)
    (hlength : place + b.length ≤ 8) :
    gather? place word b = some (word + 256 ^ place * Bytes.toNat b) := by
  induction b generalizing place word with
  | nil => rfl
  | cons byte rest ih =>
    rw [List.length_cons] at hlength
    have hbyte : byte.toNat < 256 := byte.toNat_lt
    have hshifted : 256 ^ place * byte.toNat + 256 ^ place ≤ 256 ^ (place + 1) := by
      rw [Nat.pow_succ, ← Nat.mul_succ]
      exact Nat.mul_le_mul_left _ hbyte
    have hfits : 256 ^ (place + 1) ≤ 2 ^ 64 := by
      calc
        256 ^ (place + 1) ≤ 256 ^ 8 := Nat.pow_le_pow_right (by decide) (by omega)
        _ = 2 ^ 64 := rfl
    have hshift : shiftLeft? byte.toNat (8 * place) = some (256 ^ place * byte.toNat) := by
      rw [shiftLeft?_of_lt (by omega), Bytes.two_pow_eight_mul, Nat.mul_comm]
      rw [Bytes.two_pow_eight_mul, Nat.mul_comm]
      omega
    have hor : word ||| 256 ^ place * byte.toNat = word + 256 ^ place * byte.toNat := by
      rw [← Bytes.two_pow_eight_mul] at hword ⊢
      rw [Nat.or_comm, ← Nat.two_pow_add_eq_or_of_lt hword, Nat.add_comm]
    unfold gather?
    rw [hshift]
    change gather? (place + 1) (word ||| 256 ^ place * byte.toNat) rest = _
    rw [hor, ih (by omega) (by omega)]
    change _ = some (word + 256 ^ place * (byte.toNat + 256 * Bytes.toNat rest))
    rw [Nat.pow_succ, Nat.mul_add, Nat.mul_assoc, Nat.add_assoc]

/-- Eight bytes fit into a word. -/
theorem gather?_eq {b : Bytes} (hlength : b.length ≤ 8) : gather? 0 0 b = some (Bytes.toNat b) := by
  rw [gather?_eq_add Nat.one_pos (by omega), Nat.zero_add, Nat.pow_zero, Nat.one_mul]

end UtxoConsensus.Indexed
