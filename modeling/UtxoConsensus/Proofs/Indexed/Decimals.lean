import UtxoConsensus.Proofs.Indexed.Basic

/-!
# Decimal amounts by words

The digits behind the point are added up, each as many times as its place says, and the digits before it are
gathered into a number of coins. All of that is done on words with a sign, and none of them leaves its
bounds if the amount does not: no number on the way to it is larger.
-/

namespace UtxoConsensus.Indexed

variable {digits : List Char} {n places : Nat}

def digit? (c : Char) : Option Nat :=
  minus? c.toNat '0'.toNat

/-- Adds the digits behind the point to what has been found, the first of them `unit` times. -/
def addPlaces? (found unit : Int) : (digits : List Char) → Option Int
  | [] => some found
  | c :: rest => do
    let digit ← digit? c
    let product ← fit? (digit * unit)
    let sum ← fit? (found + product)
    addPlaces? sum (← quotient? unit 10) rest

def appendDigits? (found : Int) : (digits : List Char) → Option Int
  | [] => some found
  | c :: rest => do
    let digit ← digit? c
    let tens ← fit? (found * 10)
    appendDigits? (← fit? (tens + digit)) rest

/-- The amount with these digits before and behind the point. -/
def decimal? (whole fraction : List Char) : Option Int := do
  let places ← addPlaces? 0 (← quotient? 100000000 10) fraction
  let coins ← appendDigits? 0 whole
  let product ← fit? (coins * 100000000)
  fit? (product + places)

theorem digit?_eq {c : Char} (h : c.isDigit = true) : digit? c = some (c.toNat - '0'.toNat) :=
  minus?_of_le (Char.isDigit_iff_toNat.mp h).1

theorem fit?_eq {z : Int} (hz : z = n) (h : n < 2 ^ 63) : fit? z = some (n : Int) := by
  have hmax : Int64.maxValue.toInt = 9223372036854775807 := rfl
  rw [hz]
  exact fit?_of_natAbs_le (by omega)

/-- Digits move the number before them up by as many places. -/
theorem mul_pow_le_ofDigitChars (n : Nat) (hplaces : digits.length ≤ places) :
    n * 10 ^ places ≤ Nat.ofDigitChars 10 digits n * 10 ^ (places - digits.length) := by
  calc n * 10 ^ places
    _ = 10 ^ digits.length * n * 10 ^ (places - digits.length) := by
      rw [Nat.mul_comm (10 ^ digits.length), Nat.mul_assoc, ← Nat.pow_add, Nat.add_sub_cancel' hplaces]
    _ ≤ Nat.ofDigitChars 10 digits n * 10 ^ (places - digits.length) := by
      rw [Nat.ofDigitChars_eq_ofDigitChars_zero]
      exact Nat.mul_le_mul_right _ (Nat.le_add_right _ _)

theorem le_ofDigitChars (digits : List Char) (n : Nat) : n ≤ Nat.ofDigitChars 10 digits n := by
  have hmoved := mul_pow_le_ofDigitChars n (Nat.le_refl digits.length)
  rw [Nat.sub_self, Nat.pow_zero, Nat.mul_one] at hmoved
  exact Nat.le_trans (Nat.le_mul_of_pos_right n (Nat.pow_pos (by decide))) hmoved

/-- No number on the way exceeds the last one, which fits. -/
theorem appendDigits?_eq (hdigits : ∀ c ∈ digits, c.isDigit = true)
    (hfits : Nat.ofDigitChars 10 digits n < 2 ^ 63) :
    appendDigits? n digits = some (Nat.ofDigitChars 10 digits n : Int) := by
  induction digits generalizing n with
  | nil => rfl
  | cons c rest ih =>
    rw [List.forall_mem_cons] at hdigits
    rw [Nat.ofDigitChars_cons] at hfits ⊢
    have hle := le_ofDigitChars rest (10 * n + (c.toNat - '0'.toNat))
    have htens : fit? (n * 10) = some ((10 * n : Nat) : Int) := fit?_eq (by omega) (by omega)
    have hsum : fit? ((10 * n : Nat) + (c.toNat - '0'.toNat : Nat)) =
        some ((10 * n + (c.toNat - '0'.toNat) : Nat) : Int) := fit?_eq (by omega) (by omega)
    simp only [appendDigits?, digit?_eq hdigits.1, htens, hsum, Option.bind_eq_bind, Option.bind_some,
      ih hdigits.2 hfits]

/-- While there are `places` places left, what has been found is a multiple of the unit in front of them. -/
theorem addPlaces?_eq (hdigits : ∀ c ∈ digits, c.isDigit = true) (hplaces : digits.length ≤ places)
    (hlimit : places ≤ 8) (hfits : Nat.ofDigitChars 10 digits n * 10 ^ (places - digits.length) < 2 ^ 63) :
    addPlaces? (n * 10 ^ places : Nat) (10 ^ places / 10 : Nat) digits =
      some ((Nat.ofDigitChars 10 digits n * 10 ^ (places - digits.length) : Nat) : Int) := by
  induction digits generalizing n places with
  | nil => rfl
  | cons c rest ih =>
    obtain ⟨places, rfl⟩ := Nat.exists_eq_add_of_le' (Nat.le_trans (Nat.succ_le_succ (Nat.zero_le _)) hplaces)
    rw [List.forall_mem_cons] at hdigits
    rw [List.length_cons, Nat.add_le_add_iff_right] at hplaces
    rw [Nat.ofDigitChars_cons, List.length_cons, Nat.add_sub_add_right] at hfits ⊢
    generalize hdigit : c.toNat - '0'.toNat = digit at hfits ⊢
    have hle := mul_pow_le_ofDigitChars (10 * n + digit) hplaces
    have hunit : 10 ^ (places + 1) / 10 = 10 ^ places := by
      rw [Nat.pow_succ, Nat.mul_div_cancel _ (by decide)]
    have hsplit : n * 10 ^ (places + 1) + digit * 10 ^ places = (10 * n + digit) * 10 ^ places := by
      rw [Nat.pow_succ', Nat.add_mul, ← Nat.mul_assoc, Nat.mul_comm n 10]
    have hproduct : fit? ((digit : Nat) * (10 ^ places : Nat)) = some ((digit * 10 ^ places : Nat) : Int) :=
      fit?_eq (Int.natCast_mul _ _).symm (by omega)
    have hsum : fit? ((n * 10 ^ (places + 1) : Nat) + (digit * 10 ^ places : Nat)) =
        some (((10 * n + digit) * 10 ^ places : Nat) : Int) := fit?_eq (by omega) (by omega)
    have hquotient : quotient? (10 ^ places : Nat) 10 = some ((10 ^ places / 10 : Nat) : Int) := by
      have hpow : 10 ^ places ≤ 10 ^ 8 := Nat.pow_le_pow_right (by decide) (Nat.le_of_succ_le hlimit)
      have hmax : Int64.maxValue.toInt = 9223372036854775807 := rfl
      exact quotient?_of_natAbs_le (by decide) (by rw [Int.natAbs_natCast]; omega)
    simp only [addPlaces?, digit?_eq hdigits.1, hdigit, hunit, hproduct, hsum, hquotient, Option.bind_eq_bind,
      Option.bind_some, ih hdigits.2 hplaces (Nat.le_of_succ_le hlimit) hfits]

/-- An amount below 2^63 is computed without leaving the bounds of a word. -/
theorem decimal?_eq {whole fraction : List Char} (hwhole : ∀ c ∈ whole, c.isDigit = true)
    (hfraction : ∀ c ∈ fraction, c.isDigit = true) (hplaces : fraction.length ≤ 8)
    (hfits : n < 2 ^ 63) (hn : n = Nat.ofDigitChars 10 whole 0 * 100000000 +
      Nat.ofDigitChars 10 fraction 0 * 10 ^ (8 - fraction.length)) :
    decimal? whole fraction = some (n : Int) := by
  have hunit : quotient? 100000000 10 = some ((10000000 : Nat) : Int) := rfl
  have hplacesWord : addPlaces? 0 (10000000 : Nat) fraction =
      some ((Nat.ofDigitChars 10 fraction 0 * 10 ^ (8 - fraction.length) : Nat) : Int) := by
    have hfirst : 10 ^ 8 / 10 = 10000000 := by decide
    have hadded := addPlaces?_eq (n := 0) hfraction hplaces (Nat.le_refl 8) (by omega)
    rw [Nat.zero_mul, hfirst] at hadded
    exact hadded
  have hcoins : appendDigits? 0 whole = some (Nat.ofDigitChars 10 whole 0 : Int) :=
    appendDigits?_eq (n := 0) hwhole (by omega)
  have hproduct : fit? ((Nat.ofDigitChars 10 whole 0 : Int) * 100000000) =
      some ((Nat.ofDigitChars 10 whole 0 * 100000000 : Nat) : Int) := fit?_eq (by omega) (by omega)
  unfold decimal?
  rw [hunit, Option.bind_eq_bind, Option.bind_some, hplacesWord, Option.bind_some, hcoins, Option.bind_some,
    hproduct, Option.bind_some]
  exact fit?_eq (by omega) hfits

end UtxoConsensus.Indexed
