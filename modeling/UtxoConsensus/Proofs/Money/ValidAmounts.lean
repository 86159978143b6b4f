import Mathlib.Data.Set.Function
import UtxoConsensus.Proofs.Indexed.CompactAmounts

/-!
# Valid amounts and their codes

An amount tells how many zeros end it, up to nine, and what stands before them, so that no other code stands
for it than its own. Among the valid amounts and the codes that stand for valid amounts, both computations
stay within their words and undo each other.
-/

namespace UtxoConsensus.Amount

variable {a : Amount} {n zeros m more : Nat} {code : UInt64}

/-! ## Numbers and the zeros that end them -/

/-- Of two numbers with zeros behind them that are the same, the one with fewer zeros ends in none before them. -/
theorem IsStripped.zeros_le_of_eq (h : IsStripped n zeros) (hmore : more ≤ 9)
    (hsame : n * 10 ^ zeros = m * 10 ^ more) : more ≤ zeros := by
  by_contra hfewer
  obtain ⟨extra, rfl⟩ : ∃ extra, more = zeros + (extra + 1) := ⟨more - zeros - 1, by omega⟩
  have hn : n = m * 10 ^ (extra + 1) := by
    apply Nat.eq_of_mul_eq_mul_right (Nat.pow_pos (n := zeros) (by decide : 0 < 10))
    rw [hsame, Nat.pow_add, Nat.mul_right_comm, ← Nat.mul_assoc, Nat.mul_right_comm]
  exact h.mod_ne_zero (by omega) (hn ▸ mul_pow_succ_mod_ten m extra)

/-- A number determines how many zeros end it and what stands before them. -/
theorem IsStripped.unique (h : IsStripped n zeros) (hother : IsStripped m more)
    (hsame : n * 10 ^ zeros = m * 10 ^ more) : n = m ∧ zeros = more := by
  have hzeros : zeros = more :=
    Nat.le_antisymm (hother.zeros_le_of_eq h.zeros_le hsame.symm) (h.zeros_le_of_eq hother.zeros_le hsame)
  subst hzeros
  exact ⟨Nat.eq_of_mul_eq_mul_right (Nat.pow_pos (by decide)) hsame, rfl⟩

/-- Every code but zero is that of a number and the zeros behind it. -/
theorem exists_exactCode_eq (code : Nat) : ∃ n zeros, IsStripped n zeros ∧ exactCode n zeros = code + 1 := by
  by_cases hfew : code % 10 < 9
  · refine ⟨code / 10 / 9 * 10 + (code / 10 % 9 + 1), code % 10, ⟨by omega, by omega, fun _ ↦ by omega⟩, ?_⟩
    rw [exactCode, if_pos hfew]
    omega
  · refine ⟨code / 10 + 1, code % 10, ⟨Nat.succ_pos _, by omega, fun h ↦ absurd h hfew⟩, ?_⟩
    rw [exactCode, if_neg hfew]
    omega

/-! ## Codes of valid amounts -/

theorem inRange_iff : a.inRange = true ↔ 0 ≤ a.toInt ∧ a.toInt ≤ maxMoney.toInt := by
  rw [inRange, Bool.and_eq_true, decide_eq_true_eq, decide_eq_true_eq]
  exact and_congr Int64.le_iff_toInt_le Int64.le_iff_toInt_le

theorem toInt_maxMoney : maxMoney.toInt = 1000000000000000 := rfl

/-- The code of a valid amount, which is a word. -/
theorem exactCode_lt (h : IsStripped n zeros) (hvalid : (n * 10 ^ zeros : Nat) ≤ maxMoney.toInt) :
    exactCode n zeros < UInt64.size := by
  rw [toInt_maxMoney] at hvalid
  rw [exactCode_lt_iff h (by omega)]
  exact .inr (Nat.le_trans (by omega : n * 10 ^ zeros ≤ 1000000000000000) (by decide))

/-- A positive amount is stripped of its zeros before its code is computed. -/
theorem compress_of_isStripped (h : IsStripped n zeros) (hvalue : a.toInt = (n * 10 ^ zeros : Nat))
    (hvalid : a.toInt ≤ maxMoney.toInt) : ∃ code, a.compress = some code ∧ code.toNat = exactCode n zeros ∧
      Indexed.compress? a = some code.toNat := by
  have hpos : 0 < n * 10 ^ zeros := Nat.mul_pos h.pos (Nat.pow_pos (by decide))
  have hfits := exactCode_lt h (hvalue ▸ hvalid)
  have hword : a.satoshis.toUInt64.toNat = n * 10 ^ zeros := by
    rw [toNat_toUInt64 (by omega), hvalue, Int.toNat_natCast]
  have hne : a.satoshis.toUInt64 ≠ 0 := fun hzero ↦ by
    rw [hzero, UInt64.toNat_zero] at hword
    omega
  have hstripped := isStripped_stripZeros a.satoshis.toUInt64 (by omega)
  obtain ⟨hn, hzeros⟩ := h.unique hstripped (hword.symm.trans (stripZeros_spec a.satoshis.toUInt64 9).1)
  obtain ⟨m, more, code, hother, hproduct, hcompress, hcode⟩ := exists_compress (a := a) (by omega)
  obtain ⟨rfl, rfl⟩ := h.unique hother (Int.ofNat_inj.mp (hvalue.symm.trans hproduct))
  rw [Nat.mod_eq_of_lt hfits] at hcode
  refine ⟨code, hcompress, hcode, ?_⟩
  unfold Indexed.compress?
  rw [if_neg hne]
  dsimp only
  rw [hcode, ← hn, ← hzeros]
  exact Indexed.code?_eq h hfits

/-- The amount with a code is the exact one if that is valid. -/
theorem toInt_decompress (h : exactAmount code.toNat ≤ maxMoney.toInt) :
    (decompress code).toInt = exactAmount code.toNat := by
  rw [toInt_maxMoney] at h
  have hexact : (⟨Int64.ofNat (exactAmount code.toNat)⟩ : Amount).toInt = exactAmount code.toNat :=
    Int64.toInt_ofNat_of_lt (by omega)
  have hsame : decompress code = ⟨Int64.ofNat (exactAmount code.toNat)⟩ := by
    rw [eq_iff_toNat, toNat_decompress, toNat_toUInt64 (by omega), hexact, Int.toNat_natCast]
    exact Nat.mod_eq_of_lt (by simp only [UInt64.size]; omega)
  rw [hsame, hexact]

/-- Every valid amount has a code, no word wraps on the way to it, and it stands for that amount. -/
theorem exists_compress_of_inRange (h : a.inRange = true) : ∃ code : UInt64, a.compress = some code ∧
    Indexed.compress? a = some code.toNat ∧ exactAmount code.toNat = a.toInt := by
  obtain ⟨hnonneg, hle⟩ := inRange_iff.mp h
  rcases Int.lt_or_eq_of_le hnonneg with hpos | hzero
  · obtain ⟨n, zeros, _, hstripped, hvalue, _⟩ := exists_compress hpos
    obtain ⟨code, hcompress, hcode, hwords⟩ := compress_of_isStripped hstripped hvalue hle
    refine ⟨code, hcompress, hwords, ?_⟩
    rw [hcode, hstripped.exactAmount_exactCode, hvalue]
  · obtain rfl : a = zero := Amount.ext (Int64.toInt_inj.mp hzero.symm)
    exact ⟨0, rfl, rfl, rfl⟩

/-- The code of a valid amount is read back without overflow. -/
theorem decompress_of_exactAmount_eq (h : exactAmount code.toNat = a.toInt) (hvalid : a.inRange = true) :
    decompress code = a ∧ Indexed.decompress? code.toNat = some a.toInt := by
  have hle : exactAmount code.toNat ≤ maxMoney.toInt := h ▸ (inRange_iff.mp hvalid).2
  have hfits : exactAmount code.toNat < 2 ^ 63 := by
    rw [toInt_maxMoney] at hle
    omega
  exact ⟨Amount.ext (Int64.toInt_inj.mp ((toInt_decompress hle).trans h)), h ▸ Indexed.decompress?_eq hfits⟩

/-- The code that a valid amount was read from is found again. -/
theorem compress_decompress (h : exactAmount code.toNat ≤ maxMoney.toInt) :
    (decompress code).compress = some code := by
  have hvalue := toInt_decompress h
  cases hcode : code.toNat with
  | zero =>
    obtain rfl : code = 0 := UInt64.toNat_inj.mp hcode
    rfl
  | succ before =>
    obtain ⟨n, zeros, hstripped, hexact⟩ := exists_exactCode_eq before
    have hamount : exactAmount code.toNat = n * 10 ^ zeros := by
      rw [hcode, ← hexact, hstripped.exactAmount_exactCode]
    rw [hamount] at h hvalue
    obtain ⟨found, hcompress, hfound, _⟩ := compress_of_isStripped hstripped hvalue (hvalue ▸ h)
    have hsame : found = code := UInt64.toNat_inj.mp (by rw [hfound, hexact, hcode])
    rw [hcompress, hsame]

/-- Valid amounts and the codes of valid amounts belong together one to one. -/
theorem bijOn_compress :
    Set.BijOn compress {a | a.inRange = true} (some '' {code | exactAmount code.toNat ≤ maxMoney.toInt}) := by
  refine ⟨?mapsTo, ?injOn, ?surjOn⟩
  case mapsTo =>
    intro a ha
    obtain ⟨code, hcompress, _, hexact⟩ := exists_compress_of_inRange ha
    exact ⟨code, hexact.trans_le (inRange_iff.mp ha).2, hcompress.symm⟩
  case injOn =>
    intro a ha b hb hsame
    obtain ⟨code, hcompress, _, hexact⟩ := exists_compress_of_inRange ha
    obtain ⟨other, hother, _, hotherExact⟩ := exists_compress_of_inRange hb
    have hcodes : code = other := Option.some.inj (hcompress.symm.trans (hsame.trans hother))
    rw [← (decompress_of_exactAmount_eq hexact ha).1, ← (decompress_of_exactAmount_eq hotherExact hb).1, hcodes]
  case surjOn =>
    intro result h
    obtain ⟨code, hvalid, rfl⟩ := h
    have hvalue := toInt_decompress hvalid
    have hrange : (decompress code).inRange = true :=
      inRange_iff.mpr ⟨hvalue ▸ Int.natCast_nonneg _, hvalue.trans_le hvalid⟩
    exact ⟨decompress code, hrange, compress_decompress hvalid⟩

/-- **Compression loses no valid amount.** Every valid amount has a code, no word wraps while that is computed or
read, and it is read as the amount. A code whose amount in unbounded numbers is valid is read as that amount, and
is the code of it. So valid amounts and such codes are in bijection. -/
theorem compress_bijective :
    (∀ a : Amount, a.inRange = true → ∃ code : UInt64,
      a.compress = some code ∧ Indexed.compress? a = some code.toNat ∧
      decompress code = a ∧ Indexed.decompress? code.toNat = some a.toInt) ∧
    (∀ code : UInt64, exactAmount code.toNat ≤ maxMoney.toInt →
      (decompress code).toInt = exactAmount code.toNat ∧ (decompress code).compress = some code) ∧
    Set.BijOn compress {a | a.inRange = true} (some '' {code | exactAmount code.toNat ≤ maxMoney.toInt}) := by
  refine ⟨?amounts, ?codes, bijOn_compress⟩
  case amounts =>
    intro a ha
    obtain ⟨code, hcompress, hwords, hexact⟩ := exists_compress_of_inRange ha
    obtain ⟨hread, hreadWords⟩ := decompress_of_exactAmount_eq hexact ha
    exact ⟨code, hcompress, hwords, hread, hreadWords⟩
  case codes =>
    intro code hvalid
    exact ⟨toInt_decompress hvalid, compress_decompress hvalid⟩

/-- The largest valid amount, which ends in fifteen zeros, and the one before it, which ends in none. -/
theorem compress_bijective_largest :
    maxMoney.inRange = true ∧ (∃ code : UInt64, maxMoney.compress = some code ∧
      Indexed.compress? maxMoney = some code.toNat ∧ decompress code = maxMoney ∧
      Indexed.decompress? code.toNat = some maxMoney.toInt) ∧
    exactAmount (8999999999999991 : UInt64).toNat ≤ maxMoney.toInt ∧
    (decompress 8999999999999991).toInt = exactAmount (8999999999999991 : UInt64).toNat ∧
    (decompress 8999999999999991).compress = some 8999999999999991 := by
  have hmax : maxMoney.inRange = true := by decide
  have hvalid : exactAmount (8999999999999991 : UInt64).toNat ≤ maxMoney.toInt := by decide
  exact ⟨hmax, compress_bijective.1 maxMoney hmax, hvalid, compress_bijective.2.1 8999999999999991 hvalid⟩

end UtxoConsensus.Amount
