import Mathlib.Data.List.TakeWhile
import Mathlib.Data.Nat.Digits.Lemmas
import UtxoConsensus.Proofs.Bytes.TwosComplement
import UtxoConsensus.Text.Base58

/-!
# Numerals

A number is moved from one base to another by one digit at a time: its digits in the new base are multiplied by
the old base, and the next digit is added to them. That makes the digits of the number that has this digit behind
it, without zeros in front. Digits that begin with none are those of their number.

In base 58 a digit is a letter of the alphabet, in base 256 it is a byte. What a text or a byte string has in
front of the first digit that is not zero is kept apart from the number.
-/

namespace UtxoConsensus.Text.Base58

variable {base factor n d : Nat} {digits : List Nat} {c : Char}

/-! ## The next digit -/

theorem lowDigits_eq (hbase : 1 < base) (n : Nat) : lowDigits base n = Nat.digits base n := by
  induction n using Nat.strongRecOn with
  | ind n ih =>
    rw [lowDigits]
    by_cases hzero : n = 0
    · rw [dif_pos (.inl hzero), hzero, Nat.digits_zero]
    · rw [dif_neg (by omega), ih _ (Nat.div_lt_self (Nat.pos_of_ne_zero hzero) hbase),
        Nat.digits_def' hbase (Nat.pos_of_ne_zero hzero)]

/-- The lowest digit of a number takes part in that of the product, the others are carried over. -/
theorem mul_add_eq (base factor n carry : Nat) :
    factor * n + carry = factor * (n % base) + carry + base * (factor * (n / base)) := by
  calc factor * n + carry
    _ = factor * (n % base + base * (n / base)) + carry := by rw [Nat.mod_add_div]
    _ = factor * (n % base) + carry + base * (factor * (n / base)) := by
      rw [Nat.mul_add, Nat.mul_left_comm]
      omega

/-- The lowest digit of the result depends on the lowest digit only. -/
theorem mul_add_mod (base factor n carry : Nat) :
    (factor * n + carry) % base = (factor * (n % base) + carry) % base := by
  rw [mul_add_eq base, Nat.add_mul_mod_self_left]

theorem mul_add_div (hbase : 0 < base) (factor n carry : Nat) :
    (factor * n + carry) / base = factor * (n / base) + (factor * (n % base) + carry) / base := by
  rw [mul_add_eq base, Nat.add_mul_div_left _ _ hbase, Nat.add_comm]

/-- The digits of a number become those of its product with a factor and a sum with what is carried in. -/
theorem mulAdd_digits (hbase : 1 < base) (hfactor : 0 < factor) (n carry : Nat) :
    mulAdd base factor (Nat.digits base n) carry = Nat.digits base (factor * n + carry) := by
  induction n using Nat.strongRecOn generalizing carry with
  | ind n ih =>
    by_cases hzero : n = 0
    · rw [hzero, Nat.digits_zero, mulAdd, lowDigits_eq hbase, Nat.mul_zero, Nat.zero_add]
    · have hpos := Nat.pos_of_ne_zero hzero
      have hproduct : 0 < factor * n + carry := Nat.add_pos_left (Nat.mul_pos hfactor hpos) carry
      rw [Nat.digits_def' hbase hpos, mulAdd, ih _ (Nat.div_lt_self hpos hbase), Nat.digits_def' hbase hproduct,
        mul_add_mod base factor n, mul_add_div (Nat.lt_of_succ_lt hbase) factor n]

/-- A number with more digits behind it. -/
def appendDigits (factor n : Nat) (digits : List Nat) : Nat :=
  digits.foldl (fun m d ↦ factor * m + d) n

theorem appendDigits_cons (factor n d : Nat) (digits : List Nat) :
    appendDigits factor n (d :: digits) = appendDigits factor (factor * n + d) digits := rfl

theorem appendDigits_zero (factor : Nat) (digits : List Nat) :
    appendDigits factor 0 digits = Nat.ofDigits factor digits.reverse := by
  rw [Nat.ofDigits_eq_foldr, List.foldr_reverse, appendDigits]
  simp only [Nat.cast_id, Nat.add_comm]

theorem le_appendDigits (hfactor : 0 < factor) (n : Nat) (digits : List Nat) : n ≤ appendDigits factor n digits := by
  induction digits generalizing n with
  | nil => exact Nat.le_refl n
  | cons d rest ih =>
    calc n
      _ ≤ factor * n := Nat.le_mul_of_pos_left n hfactor
      _ ≤ factor * n + d := Nat.le_add_right _ _
      _ ≤ appendDigits factor n (d :: rest) := ih _

/-- Digits of another base are appended one by one. -/
theorem foldl_mulAdd (hbase : 1 < base) (hfactor : 0 < factor) (n : Nat) (digits : List Nat) :
    digits.foldl (mulAdd base factor) (Nat.digits base n) = Nat.digits base (appendDigits factor n digits) := by
  induction digits generalizing n with
  | nil => rfl
  | cons d rest ih => rw [List.foldl_cons, mulAdd_digits hbase hfactor, ih, appendDigits_cons]

/-! ## No zeros in front -/

/-- The digits of a number, most significant first, do not begin with a zero. -/
theorem head?_reverse_digits (base n : Nat) : (Nat.digits base n).reverse.head? ≠ some 0 := by
  intro hzero
  rw [List.head?_reverse] at hzero
  have hne : n ≠ 0 := by
    intro hn
    rw [hn, Nat.digits_zero] at hzero
    cases hzero
  rw [List.getLast?_eq_getLast_of_ne_nil (Nat.digits_ne_nil_iff_ne_zero.mpr hne), Option.some.injEq] at hzero
  exact Nat.getLast_digit_ne_zero base hne hzero

/-- Digits that do not begin with a zero are those of the number that they denote. -/
theorem reverse_digits_appendDigits (hbase : 1 < base) (hdigits : ∀ d ∈ digits, d < base)
    (hfirst : digits.head? ≠ some 0) : (Nat.digits base (appendDigits base 0 digits)).reverse = digits := by
  rw [appendDigits_zero, Nat.digits_ofDigits base hbase, List.reverse_reverse]
  · intro d hd
    exact hdigits d (List.mem_reverse.mp hd)
  · intro hne hzero
    rw [List.getLast_reverse] at hzero
    exact hfirst (by rw [← hzero, List.head?_eq_some_head])

theorem appendDigits_reverse_digits (base n : Nat) : appendDigits base 0 (Nat.digits base n).reverse = n := by
  rw [appendDigits_zero, List.reverse_reverse, Nat.ofDigits_digits]

/-- The digits of a number, most significant first, each as what stands for it in a text. -/
def numeral {α : Type} (base : Nat) (symbol : Nat → α) (n : Nat) : List α :=
  (Nat.digits base n).reverse.map symbol

variable {α : Type} {symbol : Nat → α}

@[simp] theorem length_numeral (base : Nat) (symbol : Nat → α) (n : Nat) :
    (numeral base symbol n).length = (Nat.digits base n).length := by
  rw [numeral, List.length_map, List.length_reverse]

/-- No numeral starts with a zero. -/
theorem head?_numeral (hbase : 1 < base) (hsymbol : ∀ d < base, symbol d = symbol 0 → d = 0) (n : Nat) :
    (numeral base symbol n).head? ≠ some (symbol 0) := by
  intro hfirst
  rw [numeral, List.head?_map, Option.map_eq_some_iff] at hfirst
  obtain ⟨d, hd, heq⟩ := hfirst
  have hmem : d ∈ Nat.digits base n := List.mem_reverse.mp (List.mem_of_mem_head? hd)
  rw [hsymbol d (Nat.digits_lt_base hbase hmem) heq] at hd
  exact head?_reverse_digits base n hd

/-- A text of symbols that does not begin with that of zero is the numeral of what it denotes. -/
theorem numeral_appendDigits (hbase : 1 < base) (hdigits : ∀ d ∈ digits, d < base)
    (hfirst : (digits.map symbol).head? ≠ some (symbol 0)) :
    numeral base symbol (appendDigits base 0 digits) = digits.map symbol := by
  rw [numeral, reverse_digits_appendDigits hbase hdigits]
  intro hzero
  exact hfirst (by rw [List.head?_map, hzero, Option.map_some])

/-! ## Letters -/

theorem getElem?_alphabet (hd : d < 58) : alphabet[d]? = some (digitChar d) := by
  have hlength : d < alphabet.length := hd
  rw [digitChar, List.getD_eq_getElem?_getD, List.getElem?_eq_getElem hlength, Option.getD_some]

theorem digitValue?_digitChar (hd : d < 58) : digitValue? (digitChar d) = some d := by
  revert d
  decide +kernel

/-- Letters and digits correspond. -/
theorem digitValue?_eq_some_iff : digitValue? c = some d ↔ d < 58 ∧ c = digitChar d := by
  constructor
  · intro h
    obtain ⟨hd, hc, -⟩ := List.idxOf?_eq_some_iff.mp h
    have hletter := getElem?_alphabet hd
    rw [List.getElem?_eq_getElem hd, hc, Option.some.injEq] at hletter
    exact ⟨hd, hletter⟩
  · rintro ⟨hd, rfl⟩
    exact digitValue?_digitChar hd

theorem eq_zero_of_digitChar_eq (d : Nat) (hd : d < 58) (h : digitChar d = digitChar 0) : d = 0 := by
  have hvalue := digitValue?_digitChar hd
  rw [h, digitValue?_digitChar (Nat.zero_lt_succ 57)] at hvalue
  exact (Option.some.inj hvalue).symm

/-! ## Bytes -/

theorem eq_zero_of_ofNat_eq (d : Nat) (hd : d < 256) (h : UInt8.ofNat d = UInt8.ofNat 0) : d = 0 := by
  rw [← UInt8.toNat_ofNat_of_lt' hd, h]
  rfl

theorem map_ofNat_map_toNat (b : Bytes) : (b.map UInt8.toNat).map UInt8.ofNat = b := by
  rw [List.map_map]
  exact List.map_id'' (fun byte ↦ UInt8.ofNat_toNat) b

theorem toNatBig_eq_appendDigits (b : Bytes) : Bytes.toNatBig b = appendDigits 256 0 (b.map UInt8.toNat) := by
  rw [Bytes.toNatBig, appendDigits, List.foldl_map]

theorem lt_of_mem_map_toNat {b : Bytes} (hd : d ∈ b.map UInt8.toNat) : d < 256 := by
  obtain ⟨byte, -, rfl⟩ := List.mem_map.mp hd
  exact byte.toNat_lt

/-- Bytes that do not begin with a zero are the numeral of their number. -/
theorem numeral_toNatBig {b : Bytes} (hfirst : b.head? ≠ some 0) :
    numeral 256 UInt8.ofNat (Bytes.toNatBig b) = b := by
  have hdigits : ∀ d ∈ b.map UInt8.toNat, d < 256 := fun d hd ↦ lt_of_mem_map_toNat hd
  rw [toNatBig_eq_appendDigits, numeral_appendDigits (by decide) hdigits, map_ofNat_map_toNat]
  rw [map_ofNat_map_toNat]
  exact hfirst

theorem toNatBig_numeral (n : Nat) : Bytes.toNatBig (numeral 256 UInt8.ofNat n) = n := by
  have hdigits : (numeral 256 UInt8.ofNat n).map UInt8.toNat = (Nat.digits 256 n).reverse := by
    rw [numeral, List.map_map]
    calc (Nat.digits 256 n).reverse.map (UInt8.toNat ∘ UInt8.ofNat)
      _ = (Nat.digits 256 n).reverse.map id := by
        apply List.map_congr_left
        intro d hd
        exact UInt8.toNat_ofNat_of_lt' (Nat.digits_lt_base (by decide) (List.mem_reverse.mp hd))
      _ = (Nat.digits 256 n).reverse := List.map_id _
  rw [toNatBig_eq_appendDigits, hdigits, appendDigits_reverse_digits]

/-! ## What stands in front -/

section Leading

variable [BEq α] [LawfulBEq α] {x : α} {l : List α}

theorem dropWhile_eq_self (hfirst : l.head? ≠ some x) : l.dropWhile (· == x) = l := by
  cases l with
  | nil => rfl
  | cons y rest =>
    rw [List.head?_cons, Ne, Option.some.injEq] at hfirst
    rw [List.dropWhile_cons, if_neg (fun h ↦ hfirst (beq_iff_eq.mp h))]

theorem takeWhile_eq_nil (hfirst : l.head? ≠ some x) : l.takeWhile (· == x) = [] := by
  have hsplit := List.takeWhile_append_dropWhile (p := (· == x)) (l := l)
  rw [dropWhile_eq_self hfirst] at hsplit
  exact List.append_left_eq_self.mp hsplit

theorem takeWhile_replicate_append (hfirst : l.head? ≠ some x) (count : Nat) :
    (List.replicate count x ++ l).takeWhile (· == x) = List.replicate count x := by
  rw [List.takeWhile_append_of_pos, takeWhile_eq_nil hfirst, List.append_nil]
  intro y hy
  exact beq_iff_eq.mpr (List.eq_of_mem_replicate hy)

theorem dropWhile_replicate_append (hfirst : l.head? ≠ some x) (count : Nat) :
    (List.replicate count x ++ l).dropWhile (· == x) = l := by
  rw [List.dropWhile_append_of_pos, dropWhile_eq_self hfirst]
  intro y hy
  exact beq_iff_eq.mpr (List.eq_of_mem_replicate hy)

theorem takeWhile_eq_replicate (x : α) (l : List α) :
    l.takeWhile (· == x) = List.replicate (l.takeWhile (· == x)).length x := by
  apply List.eq_replicate_of_mem
  intro y hy
  exact eq_of_beq (List.mem_takeWhile_imp (p := (· == x)) hy)

theorem head?_dropWhile_ne (x : α) (l : List α) : (l.dropWhile (· == x)).head? ≠ some x := by
  intro hfirst
  have hnot := List.head?_dropWhile_not (· == x) l
  rw [hfirst] at hnot
  exact Bool.false_ne_true (hnot.symm.trans (beq_self_eq_true x))

end Leading

/-! ## Writing -/

/-- The bytes that begin with none are written as the digits of their number. -/
theorem encodeChars_eq (data : Bytes) :
    encodeChars data = List.replicate (data.takeWhile (· == 0)).length '1' ++
      numeral 58 digitChar (Bytes.toNatBig (data.dropWhile (· == 0))) := by
  have hdigits : (data.dropWhile (· == 0)).foldl (fun digits b ↦ mulAdd 58 256 digits b.toNat) [] =
      Nat.digits 58 (Bytes.toNatBig (data.dropWhile (· == 0))) := by
    rw [toNatBig_eq_appendDigits, ← foldl_mulAdd (by decide) (by decide), Nat.digits_zero, List.foldl_map]
  simp only [encodeChars, hdigits, List.map_const', numeral]

/-- Data are zeros and a number without zeros in front. -/
theorem exists_eq_zeros_append (data : Bytes) :
    ∃ zeros n, data = List.replicate zeros 0 ++ numeral 256 UInt8.ofNat n := by
  refine ⟨(data.takeWhile (· == 0)).length, Bytes.toNatBig (data.dropWhile (· == 0)), ?_⟩
  rw [← takeWhile_eq_replicate, numeral_toNatBig (head?_dropWhile_ne 0 data), List.takeWhile_append_dropWhile]

/-- Zeros are written as ones, and the rest as a number. -/
theorem encodeChars_zeros_append (zeros n : Nat) :
    encodeChars (List.replicate zeros 0 ++ numeral 256 UInt8.ofNat n) =
      List.replicate zeros '1' ++ numeral 58 digitChar n := by
  have hfirst : (numeral 256 UInt8.ofNat n).head? ≠ some 0 := head?_numeral (by decide) eq_zero_of_ofNat_eq n
  rw [encodeChars_eq, takeWhile_replicate_append hfirst, dropWhile_replicate_append hfirst, toNatBig_numeral,
    List.length_replicate]

/-! ## Reading -/

/-- A letter appends its digit, unless the number is too long then. -/
theorem decodeDigits_digitChar (hd : d < 58) (room n : Nat) (rest : List Char) :
    decodeDigits room (Nat.digits 256 n) (digitChar d :: rest) =
      if (Nat.digits 256 (58 * n + d)).length > room then .error .tooLong
      else decodeDigits room (Nat.digits 256 (58 * n + d)) rest := by
  rw [decodeDigits, digitValue?_digitChar hd]
  simp only
  rw [mulAdd_digits (by decide) (by decide)]

end UtxoConsensus.Text.Base58
