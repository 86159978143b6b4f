import Mathlib.Data.Nat.Size
import Mathlib.Tactic.IntervalCases
import UtxoConsensus.Proofs.BlockTree.Acceptance
import UtxoConsensus.Proofs.BlockTree.SkipHeights

/-!
# The lengths of walks

How many steps a walk takes is told by the two heights alone. The walk keeps the bits that its height has in
common with the target, so that the bound is in the number of bits in which they may differ. While it is at
odd heights it clears two of these bits a step. At last that leads past the target, and the walk gives up one
bit: it steps down to where all lower bits are set, and begins again with one bit less. The rounds get
shorter one by one, which makes the whole walk quadratic in the number of bits.
-/

namespace UtxoConsensus.BlockTree

/-! ## The bound for odd heights -/

/-- The most steps from an odd height to a target that differs from it in the given number of bits, the
lowest ones but the one that makes it odd. -/
def oddBound : (bits : Nat) → Nat
  | 0 => 1
  | 1 => 2
  | 2 => 4
  | bits + 3 => oddBound (bits + 2) + (bits + 3) / 2 + 2

theorem oddBound_succ {i : Nat} (hi : 2 ≤ i) : oddBound (i + 1) = oddBound i + (i + 1) / 2 + 2 := by
  obtain ⟨j, rfl⟩ := Nat.exists_eq_add_of_le' hi
  rfl

theorem oddBound_add_le_succ {i : Nat} (hi : 1 ≤ i) : oddBound i + i / 2 + 2 ≤ oddBound (i + 1) := by
  rcases Nat.lt_or_eq_of_le hi with htwo | rfl
  · rw [oddBound_succ htwo]
    omega
  · decide

theorem oddBound_mono {i j : Nat} (hij : i ≤ j) : oddBound i ≤ oddBound j := by
  refine monotone_nat_of_le_succ (fun n ↦ ?_) hij
  rcases Nat.eq_zero_or_pos n with rfl | hn
  · decide
  · exact (Nat.le_add_right _ _).trans ((Nat.le_add_right _ 2).trans (oddBound_add_le_succ hn))

theorem two_add_le_oddBound {i : Nat} (hi : 1 ≤ i) : 2 + (i - 1) / 2 ≤ oddBound i := by
  induction i, hi using Nat.le_induction with
  | base => decide
  | succ i hi ih =>
    have hsucc := oddBound_add_le_succ hi
    omega

/-- The bound is a quarter of the square, and a bit more. -/
theorem oddBound_add_one {i : Nat} (hi : 2 ≤ i) : oddBound i + 1 = i * i / 4 + 2 * i := by
  induction i, hi using Nat.le_induction with
  | base => rfl
  | succ i hi ih =>
    have hsquare : (i + 1) * (i + 1) / 4 = i * i / 4 + (i + 1) / 2 := by
      rcases Nat.even_or_odd' i with ⟨j, rfl | rfl⟩
      · rw [show (2 * j + 1) * (2 * j + 1) = 4 * (j * j + j) + 1 by ring,
          show 2 * j * (2 * j) = 4 * (j * j) by ring]
        omega
      · rw [show (2 * j + 1 + 1) * (2 * j + 1 + 1) = 4 * (j * j + 2 * j + 1) by ring,
          show (2 * j + 1) * (2 * j + 1) = 4 * (j * j + j) + 1 by ring]
        omega
    rw [oddBound_succ hi, hsquare]
    omega

/-! ## Bits in common -/

section Bits

variable {m n u i q : Nat}

/-- A number between two others has the bits that they have in common. -/
theorem div_eq_of_between (hagree : m / 2 ^ i = u / 2 ^ i) (hle : u ≤ n) (hge : n ≤ m) :
    n / 2 ^ i = u / 2 ^ i :=
  Nat.le_antisymm (hagree ▸ Nat.div_le_div_right hge) (Nat.div_le_div_right hle)

/-- Above the highest bit all numbers agree. -/
theorem div_eq_of_lt_two_pow (hlt : m < 2 ^ i) (hle : u ≤ m) : m / 2 ^ i = u / 2 ^ i := by
  rw [Nat.div_eq_of_lt hlt, Nat.div_eq_of_lt (Nat.lt_of_le_of_lt hle hlt)]

/-- A bit in which two numbers differ is not among those that they have in common. -/
theorem lt_of_dvd_of_div_eq (hagree : m / 2 ^ i = u / 2 ^ i) (hlt : u < m) (hdvd : 2 ^ q ∣ m) : q < i := by
  apply Nat.lt_of_not_le
  intro hle
  have hmul : 2 ^ i * (m / 2 ^ i) = m := Nat.mul_div_cancel' ((Nat.pow_dvd_pow 2 hle).trans hdvd)
  have hless : 2 ^ i * (u / 2 ^ i) ≤ u := Nat.mul_div_le u (2 ^ i)
  rw [← hagree, hmul] at hless
  exact absurd hless (Nat.not_le_of_lt hlt)

/-- Below a number that clears a bit past the target, all bits above this one are those of the target. -/
theorem pred_div_eq (hdvd : 2 ^ q ∣ m) (hsum : clearLowest m + 2 ^ q = m) (hle : clearLowest m ≤ u)
    (hlt : u < m) : (m - 1) / 2 ^ q = u / 2 ^ q := by
  have hclear : 2 ^ q ∣ clearLowest m := (Nat.pow_dvd_pow 2 q.le_succ).trans (two_pow_dvd_clearLowest hdvd)
  obtain ⟨k, hk⟩ := hclear
  have hquot : ∀ n, clearLowest m ≤ n → n < m → n / 2 ^ q = k := by
    intro n hge hless
    apply Nat.div_eq_of_lt_le
    · rw [Nat.mul_comm, ← hk]
      exact hge
    · rw [Nat.succ_mul, Nat.mul_comm, ← hk, hsum]
      exact hless
  have hpos : 0 < 2 ^ q := Nat.two_pow_pos q
  rw [hquot (m - 1) (by omega) (by omega), hquot u hle hlt]

end Bits

/-! ## Odd heights -/

section Steps

variable {m i p target : Nat}

/-- One bit more than the target has: one step. -/
theorem hops_le_one : hops (2 * (target / 2) + 1) target ≤ 1 := by
  by_cases habove : target < 2 * (target / 2) + 1
  · have hle := le_nextHeight habove
    have hlt := nextHeight_lt habove
    rw [hops_of_lt habove, hops_of_le (by omega)]
  · rw [hops_of_le (Nat.le_of_not_lt habove)]
    exact Nat.zero_le 1

/-- An even height where clearing a bit leads past the target is left for the odd height below. -/
theorem hops_two_mul_of_past (hm : 2 * m < UInt32.size) (habove : target < 2 * m)
    (hpast : clearLowest m < (target + 1) / 2) :
    hops (2 * m) target = hops (2 * (m - 1) + 1) target + 1 := by
  rw [hops_of_lt habove, nextHeight_two_mul (by omega) hm, if_neg]
  exact fun hhelps ↦ Nat.not_le_of_lt hpast hhelps.1

/-- An even height from which a bit is cleared. -/
theorem hops_two_mul_of_clears (hm : 2 * m < UInt32.size) (habove : target < 2 * m)
    (hreach : (target + 1) / 2 ≤ clearLowest m) (hbelow : ¬BelowHelps target m) :
    hops (2 * m) target = hops (2 * clearLowest m) target + 1 := by
  rw [hops_of_lt habove, nextHeight_two_mul (by omega) hm, if_pos ⟨hreach, hbelow⟩]

/-- The bound for an odd height, whatever bits it has in common with the target. -/
def OddWithin (target m : Nat) : Prop :=
  ∀ i, m / 2 ^ i = target / 2 / 2 ^ i → hops (2 * m + 1) target ≤ oddBound i

theorem oddWithin_of_lt (hle : target / 2 ≤ m) (h : target / 2 < m → OddWithin target m) :
    OddWithin target m := by
  rcases Nat.lt_or_eq_of_le hle with hlt | rfl
  · exact h hlt
  · exact fun i _ ↦ hops_le_one.trans (oddBound_mono (Nat.zero_le i))

/-- Where a walk leaves an even height for the odd one below it gives up a bit, and all bits above this one
are those of the target. -/
theorem exists_hops_two_mul_le (hm : 2 * m < UInt32.size) (habove : target < 2 * m)
    (hpast : clearLowest m < (target + 1) / 2) (hdvd : 2 ^ p ∣ m)
    (hagree : m / 2 ^ i = target / 2 / 2 ^ i) (hodd : OddWithin target (m - 1)) :
    ∃ q, p ≤ q ∧ q < i ∧ hops (2 * m) target ≤ oddBound q + 1 ∧
      (q = 0 → hops (2 * m) target ≤ 1) ∧
      (q = 1 → clearLowest m < target / 2 → hops (2 * m) target ≤ 2) := by
  obtain ⟨q, hpq, hq, hsum⟩ := exists_le_clearLowest_add (by omega) hdvd
  have hqi : q < i := lt_of_dvd_of_div_eq hagree (by omega) hq
  have hrest := hodd q (pred_div_eq hq hsum (by omega) (by omega))
  rw [hops_two_mul_of_past hm habove hpast]
  refine ⟨q, hpq, hqi, by omega, ?_, ?_⟩
  · rintro rfl
    rw [hops_of_le (by omega)]
  · rintro rfl hless
    have heq : m - 1 = target / 2 := by omega
    rw [heq]
    exact Nat.succ_le_succ hops_le_one

/-- The steps from an odd height. If the lowest bits are clear already then there is less to do. -/
theorem hops_odd_add_le (hm : 2 * m + 1 < UInt32.size) (hlt : target / 2 < m) (hdvd : 2 ^ p ∣ m)
    (hagree : m / 2 ^ i = target / 2 / 2 ^ i) : hops (2 * m + 1) target + p / 2 ≤ oddBound i := by
  -- By induction on the height: a step that clears two bits keeps the bound for the same bits in common, and
  -- where that leads past the target the walk gets to an odd height with more bits in common.
  induction m using Nat.strongRecOn generalizing i p with
  | ind m ih =>
    have hpos : 0 < m := Nat.zero_lt_of_lt hlt
    have hp : p < i := lt_of_dvd_of_div_eq hagree hlt hdvd
    have hleast := two_add_le_oddBound (Nat.zero_lt_of_lt hp)
    have hodd : ∀ n, n < m → target / 2 ≤ n → OddWithin target n := by
      intro n hn hle
      refine oddWithin_of_lt hle fun hless q hsame ↦ ?_
      exact ih n hn (by omega) hless (p := 0) (Nat.one_dvd n) hsame
    have hfirst : clearLowest m < m := clearLowest_lt hpos
    have hsecond : clearLowest (clearLowest m) ≤ clearLowest m := clearLowest_le _
    have hfirstDvd : 2 ^ (p + 1) ∣ clearLowest m := two_pow_dvd_clearLowest hdvd
    rw [hops_of_lt (by omega), nextHeight_two_mul_add_one hpos hm]
    by_cases hreach : target / 2 ≤ clearLowest (clearLowest m)
    · rw [if_pos hreach]
      rcases Nat.lt_or_eq_of_le hreach with hless | heq
      · have hsteps := ih _ (by omega) (by omega) hless (two_pow_dvd_clearLowest hfirstDvd)
          (div_eq_of_between hagree hreach (by omega))
        omega
      · have hone : hops (2 * clearLowest (clearLowest m) + 1) target ≤ 1 := heq ▸ hops_le_one
        omega
    · rw [if_neg hreach]
      by_cases hclears : (target + 1) / 2 ≤ clearLowest m
      · have hbelow : ¬BelowHelps target m := not_belowHelps_of_past hpos (Nat.lt_of_not_le hreach)
        rw [hops_two_mul_of_clears (by omega) (by omega) hclears hbelow]
        by_cases hdone : 2 * clearLowest m ≤ target
        · rw [hops_of_le hdone]
          omega
        · -- The bit that is given up is above the one that was cleared.
          obtain ⟨q, hpq, hqi, hsteps, -, hone⟩ := exists_hops_two_mul_le (by omega) (by omega) (by omega)
            hfirstDvd (div_eq_of_between hagree (by omega) (Nat.le_of_lt hfirst))
            (hodd (clearLowest m - 1) (by omega) (by omega))
          have hmono := oddBound_mono (show q + 1 ≤ i from hqi)
          rcases Nat.lt_or_eq_of_le (show 1 ≤ q by omega) with htwo | rfl
          · have hsucc := oddBound_succ htwo
            omega
          · have hfour : 4 ≤ oddBound i := hmono
            have hsmall := hone rfl (by omega)
            omega
      · obtain ⟨q, hpq, hqi, hsteps, hzero, -⟩ := exists_hops_two_mul_le (by omega) (by omega) (by omega)
          hdvd hagree (hodd (m - 1) (by omega) (by omega))
        have hmono := oddBound_mono (show q + 1 ≤ i from hqi)
        rcases Nat.eq_zero_or_pos q with rfl | hqpos
        · have hsmall := hzero rfl
          omega
        · have hsucc := oddBound_add_le_succ hqpos
          omega

/-- The bound holds at every odd height. -/
theorem oddWithin (hm : 2 * m + 1 < UInt32.size) (hle : target / 2 ≤ m) : OddWithin target m := by
  refine oddWithin_of_lt hle fun hlt i hagree ↦ ?_
  exact hops_odd_add_le hm hlt (p := 0) (Nat.one_dvd m) hagree

/-! ## Even heights -/

/-- From an even height a walk goes to the odd height below, or it clears a bit. -/
theorem hops_two_mul_cases (hm : 2 * m < UInt32.size) (habove : target < 2 * m)
    (hagree : m / 2 ^ i = target / 2 / 2 ^ i) :
    hops (2 * m) target ≤ oddBound i + 1 ∨
      (target + 1) / 2 ≤ clearLowest m ∧ ¬BelowHelps target m ∧
        hops (2 * m) target = hops (2 * clearLowest m) target + 1 := by
  rw [hops_of_lt habove, nextHeight_two_mul (by omega) hm]
  split
  · next hhelps => exact .inr ⟨hhelps.1, hhelps.2, rfl⟩
  · exact .inl (Nat.succ_le_succ (oddWithin (by omega) (by omega) i
      (div_eq_of_between hagree (by omega) (Nat.sub_le m 1))))

/-- Above multiples of four the walk clears one bit after the other, and then gives up one. -/
theorem hops_two_mul_add_le_of_four_dvd (hm : 2 * m < UInt32.size) (habove : target < 2 * m) (hp : 2 ≤ p)
    (hdvd : 2 ^ p ∣ m) (hagree : m / 2 ^ (i + 1) = target / 2 / 2 ^ (i + 1)) :
    hops (2 * m) target + p ≤ oddBound i + i + 1 := by
  induction m using Nat.strongRecOn generalizing p with
  | ind m ih =>
    have hpi : p < i + 1 := lt_of_dvd_of_div_eq hagree (by omega) hdvd
    have hfirst : clearLowest m < m := clearLowest_lt (by omega)
    by_cases hclears : (target + 1) / 2 ≤ clearLowest m
    · have hfour : 4 ∣ m := (Nat.pow_dvd_pow 2 hp).trans hdvd
      rw [hops_two_mul_of_clears hm habove hclears (not_belowHelps_of_four_dvd (by omega) hfour)]
      by_cases hdone : 2 * clearLowest m ≤ target
      · rw [hops_of_le hdone]
        omega
      · have hsteps := ih _ hfirst (by omega) (by omega) (Nat.le_succ_of_le hp)
          (two_pow_dvd_clearLowest hdvd) (div_eq_of_between hagree (by omega) (Nat.le_of_lt hfirst))
        omega
    · obtain ⟨q, hpq, hqi, hsteps, -⟩ := exists_hops_two_mul_le hm habove (by omega) hdvd hagree
        (oddWithin (by omega) (by omega))
      have hmono := oddBound_mono (Nat.le_of_lt_succ hqi)
      omega

/-- Elsewhere it clears at most two bits, as then the odd height below does better. -/
theorem hops_two_mul_le_of_not_four_dvd (hm : 2 * m < UInt32.size) (habove : target < 2 * m)
    (hfour : ¬4 ∣ m) (hagree : m / 2 ^ i = target / 2 / 2 ^ i) :
    hops (2 * m) target ≤ oddBound i + 3 := by
  have hfirst : clearLowest m < m := clearLowest_lt (by omega)
  have hsecond : clearLowest (clearLowest m) ≤ clearLowest m := clearLowest_le _
  rcases hops_two_mul_cases hm habove hagree with hsteps | ⟨hreach, hbelow, hclear⟩
  · omega
  · by_cases hdone : 2 * clearLowest m ≤ target
    · rw [hclear, hops_of_le hdone]
      omega
    · have hagreeFirst := div_eq_of_between hagree (by omega) (Nat.le_of_lt hfirst)
      rcases hops_two_mul_cases (by omega) (by omega) hagreeFirst with hsteps | ⟨hreach', -, hclear'⟩
      · omega
      · by_cases hdone' : 2 * clearLowest (clearLowest m) ≤ target
        · rw [hclear, hclear', hops_of_le hdone']
          omega
        · have hagreeSecond := div_eq_of_between hagreeFirst (by omega) hsecond
          rcases hops_two_mul_cases (by omega) (by omega) hagreeSecond with hsteps | ⟨hreach'', -, -⟩
          · omega
          · exact absurd (belowHelps_of_not_four_dvd hfour (by omega) (by omega)) hbelow

end Steps

/-! ## All heights -/

/-- The most steps from a height of the given number of bits. -/
def walkBound (bits : Nat) : Nat :=
  max (oddBound (bits - 1) + 3) (oddBound (bits - 2) + (bits - 3))

/-- The bound for all heights with so many bits. -/
theorem hops_le_walkBound {height target bits : Nat} (hword : height < UInt32.size)
    (hbits : height < 2 ^ bits) : hops height target ≤ walkBound bits := by
  unfold walkBound
  by_cases habove : target < height
  case neg =>
    rw [hops_of_le (Nat.le_of_not_lt habove)]
    exact Nat.zero_le _
  case pos =>
    obtain ⟨i, rfl⟩ : ∃ i, bits = i + 1 := by
      refine Nat.exists_eq_succ_of_ne_zero fun hzero ↦ ?_
      rw [hzero, Nat.pow_zero] at hbits
      omega
    rw [Nat.pow_succ'] at hbits
    rw [Nat.add_sub_cancel]
    rcases Nat.even_or_odd' height with ⟨m, rfl | rfl⟩
    case inr =>
      have hagree : m / 2 ^ i = target / 2 / 2 ^ i := div_eq_of_lt_two_pow (by omega) (by omega)
      have hsteps := oddWithin hword (by omega) i hagree
      omega
    case inl =>
      have hagree : m / 2 ^ i = target / 2 / 2 ^ i := div_eq_of_lt_two_pow (by omega) (by omega)
      by_cases hfour : 4 ∣ m
      · obtain ⟨j, rfl⟩ : ∃ j, i = j + 1 := by
          refine Nat.exists_eq_succ_of_ne_zero fun hzero ↦ ?_
          rw [hzero, Nat.pow_zero] at hbits
          omega
        have hsteps := hops_two_mul_add_le_of_four_dvd hword habove (Nat.le_refl 2) hfour hagree
        rw [show j + 1 + 1 - 2 = j by omega]
        omega
      · have hsteps := hops_two_mul_le_of_not_four_dvd hword habove hfour hagree
        omega

/-- Up to 21 bits the bound is linear. -/
theorem walkBound_le_seven_mul {bits : Nat} (hpos : 1 ≤ bits) (hle : bits ≤ 21) :
    walkBound bits ≤ 7 * bits := by
  interval_cases bits <;> decide

/-- From 22 bits on it is quadratic. -/
theorem walkBound_le {bits : Nat} (hbits : 22 ≤ bits) :
    walkBound bits ≤ bits ^ 2 / 4 + 2 * bits - 7 := by
  obtain ⟨i, rfl⟩ := Nat.exists_eq_add_of_le' (show 2 ≤ bits by omega)
  have hclosed := oddBound_add_one (show 2 ≤ i by omega)
  have hsucc := oddBound_succ (show 2 ≤ i by omega)
  have hsquare : (i + 2) ^ 2 / 4 = i * i / 4 + i + 1 := by
    rw [show (i + 2) ^ 2 = i * i + 4 * (i + 1) by ring]
    omega
  unfold walkBound
  rw [show i + 2 - 1 = i + 1 by omega, Nat.add_sub_cancel, hsquare, hsucc]
  omega

/-! ## Counting -/

/-- The number of steps of a walk, as long as it stays below a limit. -/
def hopsWithin : (limit height target : Nat) → Nat
  | 0, _, _ => 0
  | limit + 1, height, target =>
    if height ≤ target then 0 else hopsWithin limit (nextHeight height target) target + 1

/-- A count that stops early enough is the number of steps. -/
theorem hops_eq_of_within {limit height target steps : Nat} (h : hopsWithin limit height target = steps)
    (hlt : steps < limit) : hops height target = steps := by
  induction limit generalizing height steps with
  | zero => exact absurd hlt (Nat.not_lt_zero _)
  | succ limit ih =>
    rw [hopsWithin] at h
    split at h
    · next hdone => rw [hops_of_le hdone, h]
    · next habove =>
      subst h
      rw [hops_of_lt (Nat.lt_of_not_le habove), ih rfl (Nat.lt_of_succ_lt_succ hlt)]

/-- Heights of 22 bits and more from which a walk is as long as it can be. -/
theorem hops_two_pow_sub_eight {bits : Nat} (hbits : 22 ≤ bits) (hword : bits ≤ 32) :
    hops (2 ^ bits - 8) 2 = bits ^ 2 / 4 + 2 * bits - 7 := by
  refine hops_eq_of_within (?_ : hopsWithin 320 _ _ = _) ?_
  · interval_cases bits <;> decide +kernel
  · interval_cases bits <;> decide

/-! ## Lines of blocks -/

/-- An entry of a line of blocks. Their headers do not matter here. -/
def lineEntry : (height : Nat) → BlockEntry
  | 0 => ⟨.zero, ⟨0, .zero, .zero, 0, 0, 0⟩, 0, none, none, blockProof 0, 0⟩
  | height + 1 => ⟨.zero, ⟨0, .zero, .zero, 0, 0, 0⟩, UInt32.ofNat (height + 1), some height,
      some (skipHeight (UInt32.ofNat (height + 1))).toNat, blockProof 0, 0⟩

/-- A tree that does not branch. -/
def line (length : Nat) : BlockTree where
  best := none
  ids := ∅
  entries := Array.ofFn fun i : Fin length ↦ lineEntry i
  params := none

section Lines

variable {length : Nat}

theorem get?_line {id : BlockId} (hid : id < length) :
    (line length).get? id = some (lineEntry id) := by
  unfold line get?
  rw [Array.getElem?_ofFn, dif_pos hid]

theorem lt_of_get?_line {id : BlockId} {entry : BlockEntry} (h : (line length).get? id = some entry) :
    id < length ∧ entry = lineEntry id := by
  unfold line get? at h
  rw [Array.getElem?_ofFn] at h
  split at h
  · next hid => exact ⟨hid, (Option.some.inj h).symm⟩
  · cases h

theorem height_lineEntry (height : Nat) : (lineEntry height).height = UInt32.ofNat height := by
  cases height <;> rfl

theorem isAncestor_line {low high : Nat} (hle : low ≤ high) (hhigh : high < length) :
    (line length).IsAncestor low high := by
  induction high, hle using Nat.le_induction with
  | base => exact .refl low
  | succ high _ ih => exact .step (get?_line hhigh) rfl (ih (Nat.lt_of_succ_lt hhigh))

theorem isSkipList_line (hlength : length ≤ UInt32.size) : (line length).IsSkipList where
  height_eq_zero := by
    intro id entry hentry hnone
    obtain ⟨-, rfl⟩ := lt_of_get?_line hentry
    cases id with
    | zero => rfl
    | succ id => cases hnone
  below := by
    intro id entry p hentry hp
    obtain ⟨hid, rfl⟩ := lt_of_get?_line hentry
    cases id with
    | zero => cases hp
    | succ q =>
      cases hp
      have hsucc : UInt32.ofNat (p + 1) = UInt32.ofNat p + 1 := UInt32.ofNat_add p 1
      have hskip : (skipHeight (UInt32.ofNat (p + 1))).toNat < p + 1 := by
        have hle := skipHeight_add_one_le (UInt32.ofNat p)
        rw [← hsucc, UInt32.toNat_ofNat_of_lt' ((Nat.lt_of_succ_lt hid).trans_le hlength)] at hle
        exact Nat.lt_succ_of_le hle
      refine ⟨_, _, _, get?_line (Nat.lt_of_succ_lt hid), ?_, rfl,
        isAncestor_line (Nat.le_of_lt hskip) hid, get?_line (hskip.trans hid), ?_⟩
      · rw [height_lineEntry, height_lineEntry]
        exact hsucc
      · rw [height_lineEntry, height_lineEntry, UInt32.ofNat_toNat]

/-- The walk from the end of a line. -/
theorem ancestorWithSteps?_line {height target : Nat}
    (hheight : height < UInt32.size) (htarget : target ≤ height) :
    ∃ a, (line (height + 1)).ancestorWithSteps? height target = some (a, hops height target) := by
  have hend : (line (height + 1)).get? height = some (lineEntry height) :=
    get?_line (Nat.lt_succ_self height)
  have hat : (lineEntry height).height.toNat = height := by
    rw [height_lineEntry]
    exact UInt32.toNat_ofNat_of_lt' hheight
  obtain ⟨a, -, hwalk, -⟩ :=
    (isSkipList_line hheight).ancestorWithSteps?_eq_some hend (htarget.trans_eq hat.symm)
  rw [hat] at hwalk
  exact ⟨a, hwalk⟩

end Lines

/-! ## The lengths of walks -/

/-- In every tree of headers. -/
theorem ancestorWithSteps?_submitAll_le (params : Option WorkParams) (headers : List BlockHeader)
    {id : BlockId} {entry : BlockEntry} {target : Nat}
    (hentry : ((empty params).submitAll headers).get? id = some entry)
    (htarget : target ≤ entry.height.toNat) :
    ∃ a steps, ((empty params).submitAll headers).ancestorWithSteps? id target = some (a, steps) ∧
      steps ≤ walkBound entry.height.toNat.size := by
  have h : ((empty params).submitAll headers).IsLinked :=
    ((isSound_empty params).submitAll headers).toIsLinked
  obtain ⟨a, -, hwalk, -⟩ := h.isSkipList.ancestorWithSteps?_eq_some hentry htarget
  exact ⟨a, _, hwalk, hops_le_walkBound entry.height.toNat_lt (Nat.lt_size_self _)⟩

/-- **Walks take few steps.** In every tree whose entries are one block above their parents and know the
ancestor at the skip height, a walk ends at the ancestor that has the height it was sent to. From a height of
at most 21 bits it takes at most seven steps for each bit. From a greater height, of `n` bits, it takes at
most `n ^ 2 / 4 + 2 * n - 7` steps. -/
theorem IsSkipList.walk_length_le {t : BlockTree} (h : t.IsSkipList) {id : BlockId} {entry : BlockEntry}
    (hentry : t.get? id = some entry) (hpos : 1 ≤ entry.height) {target : UInt32}
    (htarget : target ≤ entry.height) :
    ∃ a steps, t.ancestorWithSteps? id target.toNat = some (a, steps) ∧
      t.IsAncestor a id ∧ (∃ found, t.get? a = some found ∧ found.height = target) ∧
      (entry.height.toNat.size ≤ 21 → steps ≤ 7 * entry.height.toNat.size) ∧
      (22 ≤ entry.height.toNat.size →
        steps ≤ entry.height.toNat.size ^ 2 / 4 + 2 * entry.height.toNat.size - 7) := by
  obtain ⟨a, found, hwalk, hancestor, hfound, hat⟩ :=
    h.ancestorWithSteps?_eq_some hentry (UInt32.le_iff_toNat_le.mp htarget)
  have hle : hops entry.height.toNat target.toNat ≤ walkBound entry.height.toNat.size :=
    hops_le_walkBound entry.height.toNat_lt (Nat.lt_size_self _)
  refine ⟨a, _, hwalk, hancestor, ⟨found, hfound, UInt32.toNat_inj.mp hat⟩, fun hsmall ↦ ?_,
    fun hlarge ↦ ?_⟩
  · have hsize : 1 ≤ entry.height.toNat.size := Nat.size_pos.mpr (UInt32.le_iff_toNat_le.mp hpos)
    exact hle.trans (walkBound_le_seven_mul hsize hsmall)
  · exact hle.trans (walkBound_le hlarge)

def longLine : BlockTree := line 2359289

theorem isSkipList_longLine : longLine.IsSkipList := isSkipList_line (by decide)

theorem get?_longLine : ∃ entry, longLine.get? 2359288 = some entry ∧ 1 ≤ entry.height ∧
    (2 : UInt32) ≤ entry.height ∧ entry.height.toNat.size = 22 := by
  have hheight : (lineEntry 2359288).height = 2359288 := height_lineEntry 2359288
  refine ⟨_, get?_line (by decide), ?_⟩
  rw [hheight]
  exact ⟨by decide, by decide, Nat.le_antisymm (Nat.size_le.mpr (by decide)) (Nat.lt_size.mpr (by decide))⟩

/-- The walk from a height of 22 bits to height 2, with the bound for 22 bits. -/
theorem IsSkipList.walk_length_le_longLine : longLine.IsSkipList ∧
    ∃ entry, longLine.get? 2359288 = some entry ∧ 1 ≤ entry.height ∧ (2 : UInt32) ≤ entry.height ∧
      entry.height.toNat.size = 22 ∧
        ∃ a steps, longLine.ancestorWithSteps? 2359288 2 = some (a, steps) ∧
          longLine.IsAncestor a 2359288 ∧
          (∃ found, longLine.get? a = some found ∧ found.height = 2) ∧ steps ≤ 158 := by
  obtain ⟨entry, hentry, hpos, htarget, hbits⟩ := get?_longLine
  obtain ⟨a, steps, hwalk, hancestor, hfound, -, hsteps⟩ :=
    isSkipList_longLine.walk_length_le hentry hpos htarget
  rw [hbits] at hsteps
  exact ⟨isSkipList_longLine, entry, hentry, hpos, htarget, hbits, a, steps, hwalk, hancestor, hfound,
    hsteps (Nat.le_refl 22)⟩

/-- Seven steps for each bit are not always enough: this walk takes 155 steps from a height of 22 bits. -/
theorem not_forall_walk_length_le : ¬∀ (t : BlockTree), t.IsSkipList → ∀ id entry,
    t.get? id = some entry → 1 ≤ entry.height → ∀ target : UInt32, target ≤ entry.height →
      ∀ a steps, t.ancestorWithSteps? id target.toNat = some (a, steps) →
        steps ≤ 7 * entry.height.toNat.size := by
  intro hall
  obtain ⟨entry, hentry, hpos, htarget, hbits⟩ := get?_longLine
  have hcount : hops 2359288 2 = 155 :=
    hops_eq_of_within (by decide +kernel : hopsWithin 156 2359288 2 = 155) (by decide)
  obtain ⟨a, hwalk⟩ := ancestorWithSteps?_line (by decide : 2359288 < UInt32.size)
    (by decide : 2 ≤ 2359288)
  rw [hcount] at hwalk
  have hsteps := hall longLine isSkipList_longLine 2359288 entry hentry hpos 2 htarget a 155 hwalk
  rw [hbits] at hsteps
  exact absurd hsteps (by decide)

/-- The bound is exact: from 22 bits on, up to the size of a word, there is a walk as long as it allows. -/
theorem exists_walk_length_eq {bits : Nat} (hbits : 22 ≤ bits) (hword : bits ≤ 32) :
    ∃ (t : BlockTree) (id : BlockId) (entry : BlockEntry) (a : BlockId), t.IsSkipList ∧
      t.get? id = some entry ∧ entry.height.toNat.size = bits ∧
        t.ancestorWithSteps? id 2 = some (a, bits ^ 2 / 4 + 2 * bits - 7) := by
  obtain ⟨b, rfl⟩ := Nat.exists_eq_add_of_le' (show 1 ≤ bits by omega)
  have hsize : 2 ^ (b + 1) ≤ UInt32.size := Nat.pow_le_pow_right Nat.two_pos hword
  have hhalf : 2 ^ 3 ≤ 2 ^ b := Nat.pow_le_pow_right Nat.two_pos (by omega)
  have htwice : 2 ^ (b + 1) = 2 * 2 ^ b := Nat.pow_succ'
  have hheight : (lineEntry (2 ^ (b + 1) - 8)).height.toNat = 2 ^ (b + 1) - 8 := by
    rw [height_lineEntry]
    exact UInt32.toNat_ofNat_of_lt' (by omega)
  obtain ⟨a, hwalk⟩ := ancestorWithSteps?_line (by omega : 2 ^ (b + 1) - 8 < UInt32.size)
    (by omega : 2 ≤ 2 ^ (b + 1) - 8)
  rw [hops_two_pow_sub_eight hbits hword] at hwalk
  refine ⟨line (2 ^ (b + 1) - 8 + 1), 2 ^ (b + 1) - 8, _, a, isSkipList_line (by omega),
    get?_line (Nat.lt_succ_self _), ?_, hwalk⟩
  rw [hheight]
  exact Nat.le_antisymm (Nat.size_le.mpr (by omega)) (Nat.lt_size.mpr (by omega))

end UtxoConsensus.BlockTree
