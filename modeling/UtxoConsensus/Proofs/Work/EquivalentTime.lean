import UtxoConsensus.Proofs.Word256.LongDivision
import UtxoConsensus.Proofs.Word256.Multiplication
import UtxoConsensus.Work.Proof

/-!
# Work as time in numbers

The time that work takes is the work times the spacing of blocks, divided by the work of one block. The
quotient is rounded down and cut off at the largest result, and it has the sign of the difference. The product
is formed first, as a word. Where it is no word the result is the largest one, although the quotient may be
small: the result is then right only if the quotient is cut off in any case.
-/

namespace UtxoConsensus

/-- The work by which a total is ahead of another one. -/
def workAhead (toWork fromWork : Word256) : Int :=
  toWork.toNat - fromWork.toNat

/-- The seconds that work takes, cut off at the largest result, with no bound on the numbers on the way. -/
def exactSeconds (work spacing proof : Nat) : Nat :=
  min (work * spacing / proof) (2 ^ 63 - 1)

/-- The seconds that are found in place of `exactSeconds`. -/
def foundSeconds (work spacing proof : Nat) : Nat :=
  if work * spacing < 2 ^ 256 then exactSeconds work spacing proof else 2 ^ 63 - 1

theorem foundSeconds_zero (spacing proof : Nat) : foundSeconds 0 spacing proof = 0 := by
  simp [foundSeconds, exactSeconds]

/-- The seconds are exact if the product fits, or if the result is saturated anyway. -/
theorem foundSeconds_eq_iff {work spacing proof : Nat} :
    foundSeconds work spacing proof = exactSeconds work spacing proof ↔
      work * spacing < 2 ^ 256 ∨ 2 ^ 63 - 1 ≤ work * spacing / proof := by
  unfold foundSeconds exactSeconds
  split
  · next hword => exact iff_of_true rfl (.inl hword)
  · next hlarge => rw [or_iff_right hlarge, eq_comm, min_eq_right_iff]

/-! ## Saturation -/

theorem toInt_toInt64 {x : UInt64} (h : x.toNat < 2 ^ 63) : x.toInt64.toInt = x.toNat := by
  have hword : x.toInt64 = Int64.ofNat x.toNat := by
    rw [← UInt64.toInt64_ofNat', UInt64.ofNat_toNat]
  rw [hword]
  exact Int64.toInt_ofNat_of_lt h

/-- A quotient that is too large gives the largest number. -/
theorem toInt_saturate_some (quotient : Word256) :
    (saturate (some quotient)).toInt = (min quotient.toNat (2 ^ 63 - 1) : Nat) := by
  unfold saturate
  dsimp only
  split
  · next hbits =>
    have hlt := (quotient.bits_le_iff 63).mp hbits
    have hlow : quotient.limb0.toNat = quotient.toNat := by
      rw [← Word256.toNat_mod]
      exact Nat.mod_eq_of_lt (Nat.lt_trans hlt (by decide))
    rw [toInt_toInt64 (hlow ▸ hlt), hlow, Nat.min_eq_left (Nat.le_sub_one_of_lt hlt)]
  · next hbits =>
    have hle : 2 ^ 63 ≤ quotient.toNat := Nat.le_of_not_lt (mt (quotient.bits_le_iff 63).mpr hbits)
    rw [Nat.min_eq_right (Nat.le_trans (Nat.sub_le _ 1) hle)]
    rfl

/-- A result that is not negative has a negative, whose value is the negative one. -/
theorem toInt_neg {seconds : Int64} (h : 0 ≤ seconds.toInt) : (-seconds).toInt = -seconds.toInt := by
  have hlt : seconds.toInt < 2 ^ 63 := seconds.toInt_lt
  rw [Int64.toInt_neg]
  exact Int.bmod_eq_of_le (by omega) (by omega)

/-! ## The time between two totals -/

section Time

variable {toWork fromWork tipProof : Word256} {params : WorkParams}

/-- The seconds without their sign. -/
def Word256.secondsBy (distance tipProof : Word256) (params : WorkParams) : Int64 :=
  saturate do
    let product ← distance.checkedMul (UInt64.ofNat params.spacing.toInt.natAbs)
    let division ← product.divRem? tipProof
    return division.quotient

theorem toInt_secondsBy (distance : Word256) (hproof : 0 < tipProof.toNat) :
    (distance.secondsBy tipProof params).toInt =
      foundSeconds distance.toNat params.spacing.toInt.natAbs tipProof.toNat := by
  have hfactor : (UInt64.ofNat params.spacing.toInt.natAbs).toNat = params.spacing.toInt.natAbs := by
    have hmin := params.spacing.le_toInt
    have hmax := params.spacing.toInt_lt
    exact UInt64.toNat_ofNat_of_lt' (by simp only [UInt64.size]; omega)
  unfold Word256.secondsBy foundSeconds
  cases hproduct : distance.checkedMul (UInt64.ofNat params.spacing.toInt.natAbs) with
  | none =>
    rw [Word256.checkedMul_eq_none_iff, hfactor] at hproduct
    rw [if_neg (Nat.not_lt_of_le (Word256.size_eq ▸ hproduct))]
    rfl
  | some product =>
    rw [Word256.checkedMul_eq_some_iff, hfactor] at hproduct
    obtain ⟨division, hdivision, hquotient, -⟩ := Word256.divRem?_eq_some product hproof
    have hseconds := toInt_saturate_some division.quotient
    rw [if_pos (hproduct ▸ Word256.size_eq ▸ product.toNat_lt)]
    rw [hquotient, hproduct] at hseconds
    simpa only [Option.bind_eq_bind, Option.bind_some, hdivision, Option.pure_def, exactSeconds] using
      hseconds

/-- The sign says which total is ahead. -/
theorem equivalentTime_eq : equivalentTime toWork fromWork tipProof params =
    if fromWork < toWork then (toWork - fromWork).secondsBy tipProof params
    else -(fromWork - toWork).secondsBy tipProof params := by
  unfold equivalentTime
  by_cases hforward : fromWork < toWork
  · simp only [hforward, decide_true, if_true]
    rfl
  · simp only [hforward, decide_false, if_false]
    rfl

/-- The result as a number: the seconds of the work ahead, with its sign. -/
theorem toInt_equivalentTime (toWork fromWork : Word256) (params : WorkParams)
    (hproof : 0 < tipProof.toNat) :
    (equivalentTime toWork fromWork tipProof params).toInt =
      (workAhead toWork fromWork).sign *
        foundSeconds (workAhead toWork fromWork).natAbs params.spacing.toInt.natAbs tipProof.toNat := by
  rw [equivalentTime_eq]
  split
  · next hforward =>
    rw [Word256.lt_iff_toNat_lt] at hforward
    have hahead : workAhead toWork fromWork = (toWork - fromWork).toNat := by
      rw [workAhead, Word256.toNat_sub_of_le (Nat.le_of_lt hforward)]
      omega
    have hsign : (workAhead toWork fromWork).sign = 1 := Int.sign_eq_one_of_pos (by unfold workAhead; omega)
    rw [toInt_secondsBy _ hproof, hsign, hahead, Int.one_mul, Int.natAbs_natCast]
  · next hbackward =>
    rw [Word256.lt_iff_toNat_lt, Nat.not_lt] at hbackward
    have hbehind : workAhead toWork fromWork = -((fromWork - toWork).toNat : Int) := by
      rw [workAhead, Word256.toNat_sub_of_le hbackward]
      omega
    rw [toInt_neg (by rw [toInt_secondsBy _ hproof]; exact Int.natCast_nonneg _), toInt_secondsBy _ hproof,
      hbehind, Int.natAbs_neg, Int.natAbs_natCast, Int.sign_neg]
    rcases Nat.eq_zero_or_pos (fromWork - toWork).toNat with hzero | hpos
    · rw [hzero, foundSeconds_zero]
      rfl
    · rw [Int.sign_eq_one_of_pos (Int.natCast_pos.mpr hpos), Int.neg_one_mul]

end Time

/-- Work is turned into time in exact numbers as long as the product of work and spacing is a word. The seconds
have the sign of the difference of the totals. They are the rounded quotient, cut off at the largest result;
but where the product is no word they are the largest result. This is the exact number of seconds if and only
if the product is a word or the quotient is cut off in any case. -/
theorem equivalentTime_exact_iff (toWork fromWork tipProof : Word256) (params : WorkParams)
    (hproof : tipProof ≠ .zero) :
    (equivalentTime toWork fromWork tipProof params).toInt =
      (workAhead toWork fromWork).sign *
        (if (workAhead toWork fromWork).natAbs * params.spacing.toInt.natAbs < 2 ^ 256 then
          exactSeconds (workAhead toWork fromWork).natAbs params.spacing.toInt.natAbs tipProof.toNat
        else 2 ^ 63 - 1 : Nat) ∧
    ((equivalentTime toWork fromWork tipProof params).toInt =
        (workAhead toWork fromWork).sign *
          exactSeconds (workAhead toWork fromWork).natAbs params.spacing.toInt.natAbs tipProof.toNat ↔
      (workAhead toWork fromWork).natAbs * params.spacing.toInt.natAbs < 2 ^ 256 ∨
        2 ^ 63 - 1 ≤
          (workAhead toWork fromWork).natAbs * params.spacing.toInt.natAbs / tipProof.toNat) := by
  have hpos : 0 < tipProof.toNat := Nat.pos_of_ne_zero fun hzero ↦ hproof (Word256.toNat_inj.mp hzero)
  have htime := toInt_equivalentTime toWork fromWork params hpos
  refine ⟨htime, ?_⟩
  rw [htime, ← foundSeconds_eq_iff]
  generalize workAhead toWork fromWork = ahead
  rcases eq_or_ne ahead 0 with rfl | hne
  · rw [Int.natAbs_zero, foundSeconds_zero]
    simp [exactSeconds]
  · rw [mul_right_inj' (mt Int.sign_eq_zero_iff_zero.mp hne), Int.ofNat_inj]

/-- At the easiest difficulty ten blocks take a hundred minutes. -/
theorem equivalentTime_exact_iff_tenBlocks : Word256.ofUInt64 4295032833 ≠ .zero ∧
    (equivalentTime (.ofUInt64 42950328330) .zero (.ofUInt64 4295032833) .mainnet).toInt = 6000 := by
  have hproof : Word256.ofUInt64 4295032833 ≠ .zero := by decide
  refine ⟨hproof, ?_⟩
  calc (equivalentTime (.ofUInt64 42950328330) .zero (.ofUInt64 4295032833) .mainnet).toInt
    _ = _ := (equivalentTime_exact_iff (.ofUInt64 42950328330) .zero _ .mainnet hproof).1
    _ = 6000 := by decide

/-- The work of a block whose target is met by two hashes. -/
def largeWork : Word256 :=
  ⟨0, 0, 0, 0x8000000000000000⟩

/-- One block of this work takes ten minutes, but the largest number of seconds is found. -/
theorem not_forall_equivalentTime_exact :
    ¬ ∀ (toWork fromWork tipProof : Word256) (params : WorkParams), tipProof ≠ .zero →
      0 ≤ params.spacing.toInt → (equivalentTime toWork fromWork tipProof params).toInt =
        (workAhead toWork fromWork).sign *
          exactSeconds (workAhead toWork fromWork).natAbs params.spacing.toInt.natAbs tipProof.toNat := by
  intro hexact
  have hfound : (equivalentTime largeWork .zero largeWork .mainnet).toInt = 2 ^ 63 - 1 := by
    rw [toInt_equivalentTime _ _ _ (by decide)]
    decide
  have hten : (equivalentTime largeWork .zero largeWork .mainnet).toInt = 600 := by
    rw [hexact _ _ _ _ (by decide) (by decide)]
    decide
  rw [hfound] at hten
  exact absurd hten (by decide)

end UtxoConsensus
