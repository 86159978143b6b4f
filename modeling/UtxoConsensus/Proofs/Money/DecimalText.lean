import Mathlib.Algebra.Order.Field.Rat
import Mathlib.Data.List.DropRight
import Mathlib.Tactic.FieldSimp
import Mathlib.Tactic.Ring
import UtxoConsensus.Money.Decimal
import UtxoConsensus.Proofs.Indexed.Decimals

/-!
# Amounts as decimal text

What is read as an amount is a decimal number with a few digits on both sides of its point, and the amount is
that number of coins exactly. An amount is written as such a number, with a sign in front if it is negative, so
that no two amounts look the same, and those that are not negative can be read again unless they have too
many digits.
-/

namespace UtxoConsensus.Amount

open Text

variable {a : Amount} {n width : Nat} {text whole fraction digits : List Char}

/-! ## Decimal numbers -/

/-- At most so many decimal digits. -/
structure IsDigits (limit : Nat) (digits : List Char) : Prop where
  isDigit : ∀ c ∈ digits, c.isDigit = true
  length_le : digits.length ≤ limit

/-- A text of at most ten digits, or of as many and at most eight more behind a point. There may be none on either
side of the point. -/
structure IsDecimal (text whole fraction : List Char) : Prop where
  ne_nil : text ≠ []
  text_eq : text = whole ∧ fraction = [] ∨ text = whole ++ '.' :: fraction
  whole_digits : IsDigits 10 whole
  fraction_digits : IsDigits 8 fraction

/-- The number that is written with these digits before and behind the point. -/
def decimalValue (whole fraction : List Char) : ℚ :=
  Nat.ofDigitChars 10 whole 0 + Nat.ofDigitChars 10 fraction 0 / 10 ^ fraction.length

/-- As many satoshis as that number has coins. -/
def unitsOf (whole fraction : List Char) : Nat :=
  Nat.ofDigitChars 10 whole 0 * 100000000 + Nat.ofDigitChars 10 fraction 0 * 10 ^ (8 - fraction.length)

/-- A decimal number with at most eight places is a number of units. -/
theorem decimalValue_mul (hplaces : fraction.length ≤ 8) :
    decimalValue whole fraction * 10 ^ 8 = (unitsOf whole fraction : ℚ) := by
  have hne : (10 : ℚ) ^ fraction.length ≠ 0 := pow_ne_zero _ (by decide)
  have hpow : (10 : ℚ) ^ 8 = 10 ^ fraction.length * 10 ^ (8 - fraction.length) := by
    rw [← pow_add, Nat.add_sub_cancel' hplaces]
  calc decimalValue whole fraction * 10 ^ 8
    _ = Nat.ofDigitChars 10 whole 0 * 10 ^ 8 +
        Nat.ofDigitChars 10 fraction 0 / 10 ^ fraction.length * 10 ^ 8 := add_mul _ _ _
    _ = Nat.ofDigitChars 10 whole 0 * 10 ^ 8 + Nat.ofDigitChars 10 fraction 0 * 10 ^ (8 - fraction.length) := by
      rw [hpow, ← mul_assoc (_ / _), div_mul_cancel₀ _ hne]
    _ = (unitsOf whole fraction : ℚ) := by
      rw [unitsOf]
      push_cast
      norm_num

theorem ofDigitChars_lt (hdigits : ∀ c ∈ digits, c.isDigit = true) (n : Nat) :
    Nat.ofDigitChars 10 digits n < (n + 1) * 10 ^ digits.length := by
  induction digits generalizing n with
  | nil => simp
  | cons c rest ih =>
    rw [List.forall_mem_cons] at hdigits
    have hdigit : c.toNat - '0'.toNat ≤ 9 := Nat.sub_le_sub_right (Char.isDigit_iff_toNat.mp hdigits.1).2 _
    rw [Nat.ofDigitChars_cons, List.length_cons]
    calc Nat.ofDigitChars 10 rest (10 * n + (c.toNat - '0'.toNat))
      _ < (10 * n + (c.toNat - '0'.toNat) + 1) * 10 ^ rest.length := ih hdigits.2 _
      _ ≤ (n + 1) * 10 * 10 ^ rest.length := Nat.mul_le_mul_right _ (by omega)
      _ = (n + 1) * 10 ^ (rest.length + 1) := by rw [Nat.pow_succ', Nat.mul_assoc]

theorem IsDigits.ofDigitChars_mul_lt {limit : Nat} (h : IsDigits limit digits) :
    Nat.ofDigitChars 10 digits 0 * 10 ^ (limit - digits.length) < 10 ^ limit := by
  have hlt := ofDigitChars_lt h.isDigit 0
  rw [Nat.zero_add, Nat.one_mul] at hlt
  calc Nat.ofDigitChars 10 digits 0 * 10 ^ (limit - digits.length)
    _ < 10 ^ digits.length * 10 ^ (limit - digits.length) :=
      Nat.mul_lt_mul_of_pos_right hlt (Nat.pow_pos (by decide))
    _ = 10 ^ limit := by rw [← Nat.pow_add, Nat.add_sub_cancel' h.length_le]

theorem IsDigits.ofDigitChars_lt_pow {limit : Nat} (h : IsDigits limit digits) :
    Nat.ofDigitChars 10 digits 0 < 10 ^ limit :=
  Nat.lt_of_le_of_lt (Nat.le_mul_of_pos_right _ (Nat.pow_pos (by decide))) h.ofDigitChars_mul_lt

/-- Eighteen digits fit into a word. -/
theorem unitsOf_lt (hwhole : IsDigits 10 whole) (hfraction : IsDigits 8 fraction) :
    unitsOf whole fraction < 10 ^ 18 := by
  have hcoins := hwhole.ofDigitChars_lt_pow
  have hplaces := hfraction.ofDigitChars_mul_lt
  unfold unitsOf
  omega

/-! ## Reading -/

theorem point_not_mem (hdigits : ∀ c ∈ digits, c.isDigit = true) : '.' ∉ digits :=
  fun hpoint ↦ absurd (hdigits '.' hpoint) (by decide)

theorem splitPoint_of_point (hwhole : '.' ∉ whole) :
    splitPoint (whole ++ '.' :: fraction) = (whole, fraction) := by
  have hbefore : ∀ c ∈ whole, (c != '.') = true := by
    intro c hc
    rw [bne_iff_ne]
    exact ne_of_mem_of_not_mem hc hwhole
  rw [splitPoint, List.takeWhile_append_of_pos hbefore, List.dropWhile_append_of_pos hbefore]
  simp

theorem splitPoint_of_no_point (htext : '.' ∉ text) : splitPoint text = (text, []) := by
  have hbefore : ∀ c ∈ text, (c != '.') = true := by
    intro c hc
    rw [bne_iff_ne]
    exact ne_of_mem_of_not_mem hc htext
  rw [splitPoint, List.takeWhile_eq_self_iff.mpr hbefore, List.dropWhile_eq_nil_iff.mpr hbefore]
  rfl

/-- The point is found where it stands. -/
theorem IsDecimal.splitPoint_eq (h : IsDecimal text whole fraction) : splitPoint text = (whole, fraction) := by
  rcases h.text_eq with ⟨rfl, rfl⟩ | rfl
  · exact splitPoint_of_no_point (point_not_mem h.whole_digits.isDigit)
  · exact splitPoint_of_point (point_not_mem h.whole_digits.isDigit)

theorem splitPoint_cases (text : List Char) : text = (splitPoint text).1 ∧ (splitPoint text).2 = [] ∨
    text = (splitPoint text).1 ++ '.' :: (splitPoint text).2 := by
  have hparts := List.takeWhile_append_dropWhile (p := (· != '.')) (l := text)
  cases hrest : text.dropWhile (· != '.') with
  | nil =>
    rw [hrest, List.append_nil] at hparts
    exact .inl ⟨hparts.symm, by rw [splitPoint, hrest]; rfl⟩
  | cons c rest =>
    have hstop : (c != '.') = false := by
      have hfirst := List.head?_dropWhile_not (· != '.') text
      rw [hrest] at hfirst
      exact hfirst
    rw [hrest, bne_eq_false_iff_eq.mp hstop] at hparts
    exact .inr (by rw [splitPoint, hrest]; exact hparts.symm)

/-- Every number of satoshis below 2^63 is an amount. -/
theorem exists_ofInt? (h : n < 2 ^ 63) : ∃ a, ofInt? n = some a ∧ a.toInt = n := by
  have hmin : Int64.minValue.toInt = -9223372036854775808 := rfl
  have hmax : Int64.maxValue.toInt = 9223372036854775807 := rfl
  refine ⟨⟨Int64.ofInt n⟩, if_pos (by omega), ?_⟩
  exact Int64.toInt_ofInt_of_le (by omega) (by omega)

theorem parseChars?_def (text : List Char) : parseChars? text =
    if (trim isBlank text).isEmpty then none
    else if !((splitPoint (trim isBlank text)).1.all Text.isDigit &&
      (splitPoint (trim isBlank text)).2.all Text.isDigit) then none
    else if (splitPoint (trim isBlank text)).1.length > 10 || (splitPoint (trim isBlank text)).2.length > 8 then none
    else ofInt? (unitsOf (splitPoint (trim isBlank text)).1 (splitPoint (trim isBlank text)).2 : Nat) := rfl

/-- A decimal number is read as its number of satoshis. -/
theorem parseChars?_of_isDecimal (h : IsDecimal (trim isBlank text) whole fraction) :
    parseChars? text = ofInt? (unitsOf whole fraction : Nat) := by
  have hdigits : (whole.all Text.isDigit && fraction.all Text.isDigit) = true := by
    rw [Bool.and_eq_true, List.all_eq_true, List.all_eq_true]
    exact ⟨h.whole_digits.isDigit, h.fraction_digits.isDigit⟩
  have hlengths : ¬(decide (whole.length > 10) || decide (fraction.length > 8)) = true := by
    rw [Bool.or_eq_true, decide_eq_true_eq, decide_eq_true_eq, not_or]
    exact ⟨Nat.not_lt.mpr h.whole_digits.length_le, Nat.not_lt.mpr h.fraction_digits.length_le⟩
  rw [parseChars?_def, h.splitPoint_eq, if_neg (mt List.isEmpty_iff.mp h.ne_nil), hdigits, if_neg (by decide),
    if_neg hlengths]

/-- Only decimal numbers are read. -/
theorem exists_isDecimal (h : parseChars? text = some a) :
    ∃ whole fraction, IsDecimal (trim isBlank text) whole fraction := by
  rw [parseChars?_def, Option.ite_none_left_eq_some, Option.ite_none_left_eq_some, Option.ite_none_left_eq_some,
    List.isEmpty_iff, Bool.not_eq_true', Bool.not_eq_false, Bool.and_eq_true, List.all_eq_true, List.all_eq_true,
    Bool.or_eq_true, decide_eq_true_eq, decide_eq_true_eq, not_or, Nat.not_lt, Nat.not_lt] at h
  obtain ⟨hne, ⟨hwhole, hfraction⟩, ⟨hten, height⟩, _⟩ := h
  exact ⟨_, _, hne, splitPoint_cases _, ⟨hwhole, hten⟩, ⟨hfraction, height⟩⟩

/-- What is read is the number of satoshis that is written, which leaves no word on the way. -/
theorem exists_parseChars? (h : IsDecimal (trim isBlank text) whole fraction) : ∃ a, parseChars? text = some a ∧
    (a.toInt : ℚ) = decimalValue whole fraction * 10 ^ 8 ∧ Indexed.decimal? whole fraction = some a.toInt := by
  have hfits : unitsOf whole fraction < 2 ^ 63 :=
    Nat.lt_trans (unitsOf_lt h.whole_digits h.fraction_digits) (by decide)
  obtain ⟨a, hread, hvalue⟩ := exists_ofInt? hfits
  refine ⟨a, (parseChars?_of_isDecimal h).trans hread, ?_, ?_⟩
  · rw [decimalValue_mul h.fraction_digits.length_le, hvalue, Int.cast_natCast]
  · rw [hvalue]
    exact Indexed.decimal?_eq h.whole_digits.isDigit h.fraction_digits.isDigit h.fraction_digits.length_le hfits rfl

/-! ## Writing -/

theorem isDigit_toDigits (n : Nat) : ∀ c ∈ Nat.toDigits 10 n, c.isDigit = true :=
  fun _ hc ↦ Nat.isDigit_of_mem_toDigits (by decide) (by decide) hc

theorem isDigits_toDigits {limit : Nat} (hlimit : 0 < limit) (hn : n < 10 ^ limit) :
    IsDigits limit (Nat.toDigits 10 n) :=
  ⟨isDigit_toDigits n, (Nat.length_toDigits_le_iff (by decide) hlimit).mpr hn⟩

theorem length_paddedDigits (hwidth : 0 < width) (hn : n < 10 ^ width) : (paddedDigits width n).length = width := by
  have hle := (isDigits_toDigits hwidth hn).length_le
  rw [paddedDigits, List.length_append, List.length_replicate, Nat.sub_add_cancel hle]

theorem isDigit_paddedDigits (width n : Nat) : ∀ c ∈ paddedDigits width n, c.isDigit = true := by
  intro c hc
  rcases List.mem_append.mp hc with hzero | hdigit
  · rw [List.eq_of_mem_replicate hzero]
    rfl
  · exact isDigit_toDigits n c hdigit

/-- Zeros in front do not change a number. -/
theorem ofDigitChars_paddedDigits (width n : Nat) : Nat.ofDigitChars 10 (paddedDigits width n) 0 = n := by
  rw [paddedDigits, Nat.ofDigitChars_append, Nat.ofDigitChars_replicate_zero, Nat.mul_zero,
    Nat.ofDigitChars_ten_toDigits]

/-- What is dropped are zeros, -/
theorem exists_eq_dropFinalZeros (digits : List Char) :
    ∃ count, digits = dropFinalZeros digits ++ List.replicate count '0' := by
  refine ⟨(digits.rtakeWhile (· == '0')).length, ?_⟩
  have hzeros : digits.rtakeWhile (· == '0') = List.replicate (digits.rtakeWhile (· == '0')).length '0' :=
    List.eq_replicate_of_mem fun _ hc ↦ eq_of_beq (List.mem_rtakeWhile_imp (p := (· == '0')) hc)
  rw [← hzeros]
  exact List.rdropWhile_append_rtakeWhile.symm

/-- and what is left does not end in one. -/
theorem getLast?_dropFinalZeros (digits : List Char) : (dropFinalZeros digits).getLast? ≠ some '0' := by
  intro hlast
  have hfirst := List.head?_dropWhile_not (· == '0') digits.reverse
  rw [dropFinalZeros, List.getLast?_reverse] at hlast
  rw [hlast] at hfirst
  exact absurd hfirst (by decide)

/-- Two places or more, up to eight, of which no other than the first two are zeros at the end. -/
structure IsFraction (n : Nat) (fraction : List Char) : Prop where
  digits : IsDigits 8 fraction
  two_le : 2 ≤ fraction.length
  getLast?_ne : 2 < fraction.length → fraction.getLast? ≠ some '0'
  value : Nat.ofDigitChars 10 fraction 0 * 10 ^ (8 - fraction.length) = n

theorem isFraction_fractionDigits (hn : n < 100000000) : IsFraction n (fractionDigits n) := by
  have hlength : (paddedDigits 8 n).length = 8 := length_paddedDigits (by decide) (by omega)
  obtain ⟨count, hcount⟩ := exists_eq_dropFinalZeros ((paddedDigits 8 n).drop 2)
  have hparts : paddedDigits 8 n = fractionDigits n ++ List.replicate count '0' := by
    rw [fractionDigits, List.append_assoc, ← hcount, List.take_append_drop]
  have hplaces : (fractionDigits n).length + count = 8 := by
    rw [← hlength, hparts, List.length_append, List.length_replicate]
  have htwo : ((paddedDigits 8 n).take 2).length = 2 := by rw [List.length_take, hlength]; rfl
  constructor
  case digits =>
    exact ⟨fun c hc ↦ isDigit_paddedDigits 8 n c (hparts ▸ List.mem_append_left _ hc), by omega⟩
  case two_le =>
    rw [fractionDigits, List.length_append, htwo]
    exact Nat.le_add_right _ _
  case getLast?_ne =>
    intro hmore
    have hrest : dropFinalZeros ((paddedDigits 8 n).drop 2) ≠ [] := by
      intro hnil
      rw [fractionDigits, hnil, List.append_nil, htwo] at hmore
      exact Nat.lt_irrefl 2 hmore
    rw [fractionDigits, List.getLast?_append_of_ne_nil _ hrest]
    exact getLast?_dropFinalZeros _
  case value =>
    have hvalue := ofDigitChars_paddedDigits 8 n
    rw [hparts, Nat.ofDigitChars_append, Nat.ofDigitChars_replicate_zero] at hvalue
    rw [← hplaces, Nat.add_sub_cancel_left, Nat.mul_comm, hvalue]

/-- The text that is written for an amount: a sign if it is negative, digits, a point and a fraction. -/
structure IsWrittenAs (a : Amount) (whole fraction : List Char) : Prop where
  text_eq : a.format.toList = (if a.toInt < 0 then ['-'] else []) ++ (whole ++ '.' :: fraction)
  whole_ne_nil : whole ≠ []
  whole_digits : ∀ c ∈ whole, c.isDigit = true
  fraction_digits : IsDigits 8 fraction
  two_le : 2 ≤ fraction.length
  getLast?_ne : 2 < fraction.length → fraction.getLast? ≠ some '0'
  value : (a.toInt.natAbs : ℚ) = decimalValue whole fraction * 10 ^ 8

/-- The sign, the whole coins, the point and the fraction. -/
theorem toList_format (a : Amount) : a.format.toList = (if a.toInt < 0 then ['-'] else []) ++
    (Nat.toDigits 10 (a.toInt.natAbs / 100000000) ++ '.' :: fractionDigits (a.toInt.natAbs % 100000000)) := by
  rw [format, String.toList_ofList, formatChars]
  split <;> rfl

theorem isWrittenAs_format (a : Amount) : IsWrittenAs a (Nat.toDigits 10 (a.toInt.natAbs / 100000000))
    (fractionDigits (a.toInt.natAbs % 100000000)) := by
  have hfraction := isFraction_fractionDigits (Nat.mod_lt a.toInt.natAbs (by decide : 0 < 100000000))
  refine ⟨toList_format a, Nat.toDigits_ne_nil, isDigit_toDigits _, hfraction.digits, hfraction.two_le,
    hfraction.getLast?_ne, ?_⟩
  rw [decimalValue_mul hfraction.digits.length_le, unitsOf, hfraction.value, Nat.ofDigitChars_ten_toDigits,
    Nat.div_add_mod']

/-- A sign can be told from what stands behind it if that does not begin like one. -/
theorem sign_append_inj {p q : Prop} [Decidable p] [Decidable q] {u v : List Char} (hu : u.head? ≠ some '-')
    (hv : v.head? ≠ some '-') (h : (if p then ['-'] else []) ++ u = (if q then ['-'] else []) ++ v) :
    (p ↔ q) ∧ u = v := by
  by_cases hp : p <;> by_cases hq : q
  · rw [if_pos hp, if_pos hq] at h
    exact ⟨iff_of_true hp hq, List.append_cancel_left h⟩
  · rw [if_pos hp, if_neg hq] at h
    exact absurd (congrArg List.head? h).symm hv
  · rw [if_neg hp, if_pos hq] at h
    exact absurd (congrArg List.head? h) hu
  · rw [if_neg hp, if_neg hq] at h
    exact ⟨iff_of_false hp hq, h⟩

theorem IsWrittenAs.head?_ne (h : IsWrittenAs a whole fraction) : (whole ++ '.' :: fraction).head? ≠ some '-' := by
  rw [List.head?_append_of_ne_nil _ h.whole_ne_nil]
  intro hsign
  exact absurd (h.whole_digits '-' (List.mem_of_head? hsign)) (by decide)

/-- The text says which amount it was written for. -/
theorem IsWrittenAs.eq_of_format_eq {b : Amount} {otherWhole otherFraction : List Char}
    (ha : IsWrittenAs a whole fraction) (hb : IsWrittenAs b otherWhole otherFraction)
    (hsame : a.format = b.format) : a = b := by
  have htexts := congrArg String.toList hsame
  rw [ha.text_eq, hb.text_eq] at htexts
  obtain ⟨hsign, hdigits⟩ := sign_append_inj ha.head?_ne hb.head?_ne htexts
  have hparts := congrArg splitPoint hdigits
  rw [splitPoint_of_point (point_not_mem ha.whole_digits), splitPoint_of_point (point_not_mem hb.whole_digits),
    Prod.mk.injEq] at hparts
  have hvalue : (a.toInt.natAbs : ℚ) = b.toInt.natAbs := by rw [ha.value, hb.value, hparts.1, hparts.2]
  have hnatAbs : a.toInt.natAbs = b.toInt.natAbs := Nat.cast_injective hvalue
  exact Amount.ext (Int64.toInt_inj.mp (by rw [← toInt, ← toInt]; omega))

/-- Amounts are told apart by their texts. -/
theorem format_injective : Function.Injective format :=
  fun a b hsame ↦ (isWrittenAs_format a).eq_of_format_eq (isWrittenAs_format b) hsame

/-! ## Reading what was written -/

theorem isBlank_of_isDigit {c : Char} (h : c.isDigit = true) : isBlank c = false := by
  have hrange := Char.isDigit_iff_toNat.mp h
  have hzero : '0'.toNat = 48 := rfl
  have hnine : '9'.toNat = 57 := rfl
  simp only [isBlank, blankRanges, List.any_cons, List.any_nil, Bool.or_false, Bool.or_eq_false_iff,
    Bool.and_eq_false_iff, decide_eq_false_iff_not]
  omega

theorem IsWrittenAs.isDecimal (h : IsWrittenAs a whole fraction) (hnonneg : 0 ≤ a.toInt)
    (hten : whole.length ≤ 10) : IsDecimal (trim isBlank a.format.toList) whole fraction := by
  have htext : a.format.toList = whole ++ '.' :: fraction := by
    rw [h.text_eq, if_neg (Int.not_lt.mpr hnonneg), List.nil_append]
  have hblank : ∀ c ∈ whole ++ '.' :: fraction, isBlank c = false := by
    intro c hc
    rcases List.mem_append.mp hc with hwhole | hrest
    · exact isBlank_of_isDigit (h.whole_digits c hwhole)
    · rcases List.mem_cons.mp hrest with rfl | hfraction
      · rfl
      · exact isBlank_of_isDigit (h.fraction_digits.isDigit c hfraction)
  rw [htext, trim_of_not_blank hblank]
  exact ⟨by simp, .inr rfl, ⟨h.whole_digits, hten⟩, h.fraction_digits⟩

/-- An amount that is not negative and has at most ten digits before the point is read again. -/
theorem parse?_format (hnonneg : 0 ≤ a.toInt) (hlt : a.toInt < 10 ^ 18) : parse? a.format = some a := by
  have hwritten := isWrittenAs_format a
  have hten : (Nat.toDigits 10 (a.toInt.natAbs / 100000000)).length ≤ 10 :=
    (isDigits_toDigits (by decide) (by omega)).length_le
  obtain ⟨found, hread, hvalue, _⟩ := exists_parseChars? (hwritten.isDecimal hnonneg hten)
  rw [← hwritten.value] at hvalue
  have hsame : found.toInt = a.toInt.natAbs := Int.cast_injective (α := ℚ) (by rw [hvalue, Int.cast_natCast])
  have hfound : found = a := Amount.ext (Int64.toInt_inj.mp (by rw [← toInt, ← toInt]; omega))
  rw [parse?, hread, hfound]

/-- **Amounts and their texts.** A text, without the blanks around it, is read as an amount if and only if it is a
decimal number with at most ten digits before and eight behind its point, and then the amount is that many coins
exactly; no word wraps while it is computed. Every amount is written with a fraction of two places or more, without
zeros at the end beyond these two. Amounts from zero to 10^18 are read again from what is written, and no two
amounts of all are written alike. -/
theorem decimalText_exact :
    (∀ (text : String) (whole fraction : List Char), IsDecimal (trim isBlank text.toList) whole fraction →
      ∃ a, parse? text = some a ∧ (a.toInt : ℚ) = decimalValue whole fraction * 10 ^ 8 ∧
        Indexed.decimal? whole fraction = some a.toInt) ∧
    (∀ (text : String) (a : Amount), parse? text = some a →
      ∃ whole fraction, IsDecimal (trim isBlank text.toList) whole fraction) ∧
    (∀ a : Amount, 0 ≤ a.toInt → a.toInt < 10 ^ 18 → parse? a.format = some a) ∧
    Function.Injective format ∧
    ∀ a : Amount, ∃ whole fraction, IsWrittenAs a whole fraction := by
  refine ⟨?read, ?decimal, ?again, format_injective, ?written⟩
  case read =>
    intro text whole fraction h
    exact exists_parseChars? h
  case decimal =>
    intro text a h
    exact exists_isDecimal h
  case again =>
    intro a hnonneg hlt
    exact parse?_format hnonneg hlt
  case written =>
    intro a
    exact ⟨_, _, isWrittenAs_format a⟩

/-- The largest amount that can be read, with a blank behind it that is not one of ASCII. -/
theorem decimalText_exact_largest :
    IsDecimal (trim isBlank "9999999999.99999999\u3000".toList) "9999999999".toList "99999999".toList ∧
    (∃ a, parse? "9999999999.99999999\u3000" = some a ∧
      (a.toInt : ℚ) = decimalValue "9999999999".toList "99999999".toList * 10 ^ 8 ∧
      Indexed.decimal? "9999999999".toList "99999999".toList = some a.toInt) ∧
    parse? (⟨999999999999999999⟩ : Amount).format = some ⟨999999999999999999⟩ := by
  have hdecimal : IsDecimal (trim isBlank "9999999999.99999999\u3000".toList) "9999999999".toList
      "99999999".toList :=
    ⟨by decide +kernel, .inr (by decide +kernel), ⟨List.all_eq_true.mp (by decide +kernel), by decide⟩,
      ⟨List.all_eq_true.mp (by decide +kernel), by decide⟩⟩
  exact ⟨hdecimal, decimalText_exact.1 _ _ _ hdecimal, decimalText_exact.2.2.1 _ (by decide) (by decide)⟩

example : (⟨Int64.minValue⟩ : Amount).format = "-92233720368.54775808" := by decide +kernel

end UtxoConsensus.Amount
