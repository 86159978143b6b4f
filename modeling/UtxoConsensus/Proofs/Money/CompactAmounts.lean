import Mathlib.Data.Nat.ModEq
import UtxoConsensus.Money.Compact

/-!
# Which amounts are found again from their codes

Codes are words of 64 bits. Where the code of an amount has no more than these, the amount is found again. It may
have up to 67, and then what is left of it is the code of another amount.
-/

namespace UtxoConsensus.Amount

variable {a : Amount} {n zeros code : Nat}

/-! ## Codes of any size -/

def exactCode (n zeros : Nat) : Nat :=
  if zeros < 9 then 1 + (n / 10 * 9 + (n % 10 - 1)) * 10 + zeros else 1 + (n - 1) * 10 + 9

def exactAmount (code : Nat) : Nat :=
  if code = 0 then 0
  else
    let zeros := (code - 1) % 10
    let rest := (code - 1) / 10
    (if zeros < 9 then rest / 9 * 10 + (rest % 9 + 1) else rest + 1) * 10 ^ zeros

/-- A positive number from which as many zeros have been taken as there were, or nine. -/
structure IsStripped (n zeros : Nat) : Prop where
  pos : 0 < n
  zeros_le : zeros ≤ 9
  mod_ne_zero : zeros < 9 → n % 10 ≠ 0

/-- The code of a number whose last digit but the zeros is one more than `digit`. -/
theorem exactAmount_digit {digit : Nat} (hdigit : digit < 9) (hzeros : zeros < 9) :
    exactAmount (1 + (n * 9 + digit) * 10 + zeros) = (n * 10 + (digit + 1)) * 10 ^ zeros := by
  have hcode : 1 + (n * 9 + digit) * 10 + zeros - 1 = (n * 9 + digit) * 10 + zeros := by omega
  have hmod : ((n * 9 + digit) * 10 + zeros) % 10 = zeros := by omega
  have hdiv : ((n * 9 + digit) * 10 + zeros) / 10 = n * 9 + digit := by omega
  have hrestDiv : (n * 9 + digit) / 9 = n := by omega
  have hrestMod : (n * 9 + digit) % 9 = digit := by omega
  unfold exactAmount
  rw [if_neg (by omega)]
  simp only [hcode, hmod, hdiv, hrestDiv, hrestMod, if_pos hzeros]

theorem exactAmount_nineZeros : exactAmount (1 + n * 10 + 9) = (n + 1) * 10 ^ 9 := by
  have hcode : 1 + n * 10 + 9 - 1 = n * 10 + 9 := by omega
  have hmod : (n * 10 + 9) % 10 = 9 := by omega
  have hdiv : (n * 10 + 9) / 10 = n := by omega
  unfold exactAmount
  rw [if_neg (by omega)]
  simp only [hcode, hmod, hdiv]
  rfl

/-- Codes of any size are read back. -/
theorem IsStripped.exactAmount_exactCode (h : IsStripped n zeros) :
    exactAmount (exactCode n zeros) = n * 10 ^ zeros := by
  unfold exactCode
  split
  · next hfew =>
    have hdigit := h.mod_ne_zero hfew
    have hnumber : n / 10 * 10 + (n % 10 - 1 + 1) = n := by omega
    rw [exactAmount_digit (by omega) hfew, hnumber]
  · next hmany =>
    obtain rfl : zeros = 9 := Nat.le_antisymm h.zeros_le (Nat.le_of_not_lt hmany)
    rw [exactAmount_nineZeros, Nat.sub_add_cancel h.pos]

/-! ## Words -/

/-- Zeros are stripped up to the limit, and the number times the power of ten stays. -/
theorem stripZeros_spec (word : UInt64) (limit : Nat) :
    word.toNat = (stripZeros word limit).1.toNat * 10 ^ (stripZeros word limit).2 ∧
      (stripZeros word limit).2 ≤ limit ∧
      ((stripZeros word limit).2 < limit → (stripZeros word limit).1.toNat % 10 ≠ 0) := by
  induction limit generalizing word with
  | zero => exact ⟨(Nat.mul_one _).symm, Nat.le_refl 0, fun h ↦ absurd h (Nat.lt_irrefl 0)⟩
  | succ limit ih =>
    have hmod : word % 10 = 0 ↔ word.toNat % 10 = 0 := by
      rw [← UInt64.toNat_inj, UInt64.toNat_mod]
      rfl
    unfold stripZeros
    split
    · next hzero =>
      obtain ⟨hproduct, hle, hlast⟩ := ih (word / 10)
      have hdiv : (word / 10).toNat = word.toNat / 10 := UInt64.toNat_div ..
      rw [hdiv] at hproduct
      refine ⟨?_, Nat.succ_le_succ hle, fun h ↦ hlast (Nat.lt_of_succ_lt_succ h)⟩
      dsimp only
      rw [Nat.pow_succ, ← Nat.mul_assoc, ← hproduct]
      have := hmod.mp hzero
      omega
    · next hdigit =>
      exact ⟨(Nat.mul_one _).symm, Nat.zero_le _, fun _ hzero ↦ hdigit (hmod.mpr hzero)⟩

/-- Nine zeros at most are stripped. -/
theorem isStripped_stripZeros (word : UInt64) (hpos : 0 < word.toNat) :
    IsStripped (stripZeros word 9).1.toNat (stripZeros word 9).2 := by
  obtain ⟨hproduct, hle, hlast⟩ := stripZeros_spec word 9
  refine ⟨Nat.pos_of_ne_zero fun hzero ↦ ?_, hle, hlast⟩
  rw [hzero, Nat.zero_mul] at hproduct
  omega

/-- What the words count is the exact code, modulo their size. -/
theorem toNat_code {word : UInt64} {zeros : Nat} (h : IsStripped word.toNat zeros) :
    (if zeros < 9 then 1 + (word / 10 * 9 + (word % 10 - 1)) * 10 + UInt64.ofNat zeros
      else 1 + (word - 1) * 10 + 9).toNat = exactCode word.toNat zeros % UInt64.size := by
  have hword := word.toNat_lt
  have hpos := h.pos
  unfold exactCode
  split
  · next hfew =>
    have hdigit := h.mod_ne_zero hfew
    have hzeros : (UInt64.ofNat zeros).toNat = zeros :=
      UInt64.toNat_ofNat_of_lt' (Nat.lt_trans hfew (by decide))
    simp only [UInt64.toNat_add, UInt64.toNat_mul, UInt64.toNat_sub, UInt64.toNat_div, UInt64.toNat_mod,
      UInt64.reduceToNat, hzeros, UInt64.size]
    omega
  · simp only [UInt64.toNat_add, UInt64.toNat_mul, UInt64.toNat_sub, UInt64.reduceToNat, UInt64.size]
    omega

/-- The number of units in an amount with a code of 64 bits. -/
theorem toNat_mantissa (code : UInt64) :
    (if code % 10 < 9 then code / 10 / 9 * 10 + (code / 10 % 9 + 1) else code / 10 + 1).toNat =
      if code.toNat % 10 < 9 then code.toNat / 10 / 9 * 10 + (code.toNat / 10 % 9 + 1)
      else code.toNat / 10 + 1 := by
  have hcode := code.toNat_lt
  have hfew : code % 10 < 9 ↔ code.toNat % 10 < 9 := UInt64.lt_iff_toNat_lt
  by_cases hzeros : code.toNat % 10 < 9
  · rw [if_pos hzeros, if_pos (hfew.mpr hzeros)]
    simp only [UInt64.toNat_add, UInt64.toNat_mul, UInt64.toNat_div, UInt64.toNat_mod, UInt64.reduceToNat]
    omega
  · rw [if_neg hzeros, if_neg (mt hfew.mp hzeros)]
    simp only [UInt64.toNat_add, UInt64.toNat_div, UInt64.reduceToNat]
    omega

/-- The amount with a code of 64 bits is the exact one, modulo the size of words. -/
theorem toNat_decompress (code : UInt64) :
    (decompress code).satoshis.toUInt64.toNat = exactAmount code.toNat % UInt64.size := by
  unfold decompress exactAmount
  by_cases hzero : code = 0
  · rw [hzero]
    rfl
  · have hpos : code.toNat ≠ 0 := fun h ↦ hzero (UInt64.toNat_inj.mp h)
    have hcode : (code - 1).toNat = code.toNat - 1 :=
      UInt64.toNat_sub_of_le _ _ (UInt64.le_iff_toNat_le.mpr (Nat.pos_of_ne_zero hpos))
    have hpower : (UInt64.ofNat (Nat.pow 10 ((code - 1) % 10).toNat)).toNat =
        10 ^ ((code.toNat - 1) % 10) := by
      have hzeros : ((code - 1) % 10).toNat = (code.toNat - 1) % 10 := by
        rw [UInt64.toNat_mod, hcode]
        rfl
      have hle : 10 ^ ((code.toNat - 1) % 10) ≤ 10 ^ 9 := Nat.pow_le_pow_right (by decide) (by omega)
      rw [hzeros]
      exact UInt64.toNat_ofNat_of_lt' (Nat.lt_of_le_of_lt hle (by decide))
    rw [if_neg hzero, if_neg hpos]
    change (_ * UInt64.ofNat _ : UInt64).toNat = _
    rw [UInt64.toNat_mul, toNat_mantissa, hpower, hcode]

/-! ## Signs -/

theorem satoshis_neg_iff : a.satoshis < 0 ↔ a.toInt < 0 :=
  Int64.lt_iff_toInt_lt

theorem toNat_toUInt64 (h : 0 ≤ a.toInt) : a.satoshis.toUInt64.toNat = a.toInt.toNat :=
  Int64.toNat_toUInt64_of_le (Int64.le_iff_toInt_le.mpr h)

/-- Negative amounts have no code. -/
theorem compress_of_neg (h : a.toInt < 0) : a.compress = none :=
  if_pos (satoshis_neg_iff.mpr h)

/-- The code of a positive amount. -/
theorem exists_compress (h : 0 < a.toInt) : ∃ n zeros code, IsStripped n zeros ∧
    a.toInt = (n * 10 ^ zeros : Nat) ∧ a.compress = some code ∧ code.toNat = exactCode n zeros % UInt64.size := by
  have hword := toNat_toUInt64 (Int.le_of_lt h)
  have hne : a.satoshis ≠ 0 := by
    intro hzero
    rw [toInt, hzero] at h
    exact absurd h (by decide)
  have hstripped := isStripped_stripZeros a.satoshis.toUInt64 (by omega)
  have hproduct := (stripZeros_spec a.satoshis.toUInt64 9).1
  refine ⟨_, _, _, hstripped, ?_, ?_, toNat_code hstripped⟩
  · omega
  · unfold compress
    rw [if_neg (by rw [satoshis_neg_iff]; omega), if_neg hne]
    dsimp only
    split <;> rfl

/-! ## Codes of more than 64 bits -/

/-- The largest amount that ends in no zeros and has a code of 64 bits. -/
def maxCoded : Nat := 2049638230412172402

theorem mul_pow_succ_mod_ten (n zeros : Nat) : n * 10 ^ (zeros + 1) % 10 = 0 := by
  rw [Nat.pow_succ, ← Nat.mul_assoc, Nat.mul_mod_left]

/-- Only an amount that ends in no zeros can have a code of more than 64 bits. -/
theorem exactCode_lt_iff (h : IsStripped n zeros) (hbound : n * 10 ^ zeros < 2 ^ 63) :
    exactCode n zeros < UInt64.size ↔ n * 10 ^ zeros % 10 = 0 ∨ n * 10 ^ zeros ≤ maxCoded := by
  unfold exactCode maxCoded
  simp only [UInt64.size]
  cases zeros with
  | zero =>
    have hdigit := h.mod_ne_zero (by decide)
    rw [Nat.pow_zero, Nat.mul_one] at hbound ⊢
    rw [if_pos (by decide)]
    omega
  | succ zeros =>
    have hle : n * 10 ^ 1 ≤ n * 10 ^ (zeros + 1) :=
      Nat.mul_le_mul_left n (Nat.pow_le_pow_right (by decide) (Nat.le_add_left 1 zeros))
    refine iff_of_true ?_ (.inl (mul_pow_succ_mod_ten n zeros))
    split <;> omega

/-- A number is found again from its product with a power of ten less one, since that is odd. So there is at most
one number of 64 bits whose product with the power of ten is larger by `d`, up to bits that are lost. -/
theorem mul_pow_mod_ne {w d inverse : Nat} (hinverse : (10 ^ zeros - 1) * inverse % UInt64.size = 1)
    (hlarge : 2 ^ 63 ≤ d * inverse % UInt64.size + d) (hbound : w + d < 2 ^ 63) :
    w * 10 ^ zeros % UInt64.size ≠ w + d := by
  intro h
  have hpower : 10 ^ zeros - 1 + 1 = 10 ^ zeros := Nat.sub_add_cancel (Nat.pow_pos (by decide))
  have hsum : w * (10 ^ zeros - 1) + w ≡ d + w [MOD UInt64.size] := by
    rw [← Nat.mul_succ, Nat.succ_eq_add_one, hpower, Nat.add_comm d w]
    exact (Nat.mod_modEq _ _).symm.trans (by rw [h])
  have hfound : w ≡ d * inverse [MOD UInt64.size] :=
    calc
      w = w * 1 := (Nat.mul_one w).symm
      _ ≡ w * ((10 ^ zeros - 1) * inverse) [MOD UInt64.size] :=
        (Nat.ModEq.mul_left w (hinverse.trans (Nat.mod_eq_of_lt (by decide)).symm)).symm
      _ = w * (10 ^ zeros - 1) * inverse := (Nat.mul_assoc _ _ _).symm
      _ ≡ d * inverse [MOD UInt64.size] := (hsum.add_right_cancel' w).mul_right inverse
  have hless : w < UInt64.size := Nat.lt_trans (Nat.lt_of_le_of_lt (Nat.le_add_right w d) hbound) (by decide)
  have hw : w = d * inverse % UInt64.size := (Nat.mod_eq_of_lt hless).symm.trans hfound
  omega

/-- The bits that are lost from a code tell how many zeros the amount has of which the rest is the code. Its
other digits differ from those of the amount by the tenth part of what was lost, and a ninth of that. -/
theorem exactAmount_ne_of_lost {digit left lost : Nat} (zeros shift inverse : Nat) (hdigit : digit < 9)
    (hbound : n * 10 + (digit + 1) < 2 ^ 63) (hcode : 1 + (n * 9 + digit) * 10 = left + lost * UInt64.size)
    (hzeros : zeros < 9) (hshift : lost * UInt64.size + zeros = 10 * shift)
    (hinverse : (10 ^ zeros - 1) * inverse % UInt64.size = 1)
    (hlow : 2 ^ 63 ≤ (shift + shift / 9) * inverse % UInt64.size + (shift + shift / 9))
    (hhigh : 2 ^ 63 ≤ (shift + shift / 9 + 1) * inverse % UInt64.size + (shift + shift / 9 + 1)) :
    exactAmount left % UInt64.size ≠ n * 10 + (digit + 1) := by
  obtain ⟨rest, hrest⟩ : ∃ rest, n * 9 + digit = rest + shift := ⟨n * 9 + digit - shift, by omega⟩
  have hleft : left = 1 + (rest / 9 * 9 + rest % 9) * 10 + zeros := by omega
  -- The last digits differ by less than nine, so the other digits differ by a ninth of the shift, rounded either way.
  have hdifference : n * 10 + (digit + 1) = rest / 9 * 10 + (rest % 9 + 1) + (shift + shift / 9) ∨
      n * 10 + (digit + 1) = rest / 9 * 10 + (rest % 9 + 1) + (shift + shift / 9 + 1) := by omega
  rw [hleft, exactAmount_digit (Nat.mod_lt _ (by decide)) hzeros]
  rcases hdifference with heq | heq
  · rw [heq] at hbound ⊢
    exact mul_pow_mod_ne hinverse hlow hbound
  · rw [heq] at hbound ⊢
    exact mul_pow_mod_ne hinverse hhigh hbound

/-- What is left of a code with more than 64 bits is the code of another amount. At most three bits are lost, and
each of the four cases is settled by the inverse of a power of ten less one. -/
theorem exactAmount_mod_ne {digit : Nat} (hdigit : digit < 9) (hbound : n * 10 + (digit + 1) < 2 ^ 63)
    (hlarge : UInt64.size ≤ 1 + (n * 9 + digit) * 10) :
    exactAmount ((1 + (n * 9 + digit) * 10) % UInt64.size) % UInt64.size ≠ n * 10 + (digit + 1) := by
  have hcode := (Nat.mod_add_div' (1 + (n * 9 + digit) * 10) UInt64.size).symm
  have hlost : (1 + (n * 9 + digit) * 10) / UInt64.size ∈ [1, 2, 3, 4] := by
    simp only [UInt64.size] at hlarge ⊢
    simp only [List.mem_cons, List.not_mem_nil, or_false]
    omega
  generalize (1 + (n * 9 + digit) * 10) / UInt64.size = lost at hcode hlost
  simp only [List.mem_cons, List.not_mem_nil, or_false] at hlost
  rcases hlost with rfl | rfl | rfl | rfl
  · exact exactAmount_ne_of_lost 4 1844674407370955162 13458245626333751279 hdigit hbound hcode (by decide)
      (by decide) (by decide) (by decide) (by decide)
  · exact exactAmount_ne_of_lost 8 3689348814741910324 300153063250403071 hdigit hbound hcode (by decide)
      (by decide) (by decide) (by decide) (by decide)
  · exact exactAmount_ne_of_lost 2 5534023222112865485 12670490878911611211 hdigit hbound hcode (by decide)
      (by decide) (by decide) (by decide) (by decide)
  · exact exactAmount_ne_of_lost 6 7378697629483820647 1672254362768354751 hdigit hbound hcode (by decide)
      (by decide) (by decide) (by decide) (by decide)

/-! ## Amounts and their codes -/

/-- A code of 64 bits is that of one amount, and a larger one is cut off. -/
theorem exactAmount_exactCode_mod_iff (h : IsStripped n zeros) (hbound : n * 10 ^ zeros < 2 ^ 63) :
    exactAmount (exactCode n zeros % UInt64.size) % UInt64.size = n * 10 ^ zeros ↔
      n * 10 ^ zeros % 10 = 0 ∨ n * 10 ^ zeros ≤ maxCoded := by
  rw [← exactCode_lt_iff h hbound]
  constructor
  · intro hsame
    by_contra hlarge
    cases zeros with
    | zero =>
      have hdigit := h.mod_ne_zero (by decide)
      have hnumber : n / 10 * 10 + (n % 10 - 1 + 1) = n := by omega
      have hcode : exactCode n 0 = 1 + (n / 10 * 9 + (n % 10 - 1)) * 10 := if_pos (by decide)
      rw [Nat.pow_zero, Nat.mul_one] at hbound hsame
      rw [hcode] at hlarge hsame
      rw [← hnumber] at hbound
      exact exactAmount_mod_ne (by omega) hbound (Nat.le_of_not_lt hlarge) (hsame.trans hnumber.symm)
    | succ zeros => exact hlarge ((exactCode_lt_iff h hbound).mpr (.inl (mul_pow_succ_mod_ten n zeros)))
  · intro hfits
    rw [Nat.mod_eq_of_lt hfits, h.exactAmount_exactCode]
    exact Nat.mod_eq_of_lt (Nat.lt_trans hbound (by decide))

theorem eq_iff_toNat {a b : Amount} : a = b ↔ a.satoshis.toUInt64.toNat = b.satoshis.toUInt64.toNat := by
  refine ⟨fun h ↦ by rw [h], fun h ↦ Amount.ext ?_⟩
  exact congrArg UInt64.toInt64 (UInt64.toNat_inj.mp h)

theorem toInt_lt (a : Amount) : a.toInt < 2 ^ 63 :=
  Int64.toInt_lt a.satoshis

/-- Every amount that is not negative has a code, and this is which of them are found again. -/
theorem exists_compress_decompress_iff (h : 0 ≤ a.toInt) : ∃ code, a.compress = some code ∧
    (decompress code = a ↔ a.toInt % 10 = 0 ∨ a.toInt ≤ maxCoded) := by
  rcases Int.lt_or_eq_of_le h with hpos | hzero
  · obtain ⟨n, zeros, code, hstripped, hvalue, hcompress, hcode⟩ := exists_compress hpos
    have hlt := a.toInt_lt
    refine ⟨code, hcompress, ?_⟩
    rw [eq_iff_toNat, toNat_decompress, toNat_toUInt64 h, hcode, hvalue, Int.toNat_natCast,
      exactAmount_exactCode_mod_iff hstripped (by omega)]
    omega
  · obtain rfl : a = zero := Amount.ext (Int64.toInt_inj.mp hzero.symm)
    exact ⟨0, rfl, iff_of_true rfl (.inl rfl)⟩

end UtxoConsensus.Amount
