import UtxoConsensus.Proofs.Bytes.FixedWidth
import UtxoConsensus.Script.Number

/-!
# Sizes of numbers

How many bytes the numbers of scripts have. A number that is written in few enough bytes for one limit
is so for all larger ones, and no result of arithmetic needs more than nine bytes.
-/

namespace UtxoConsensus.ScriptNumber

/-! ## Lengths -/

/-- A number that fits needs no more bytes. -/
theorem length_magnitudeBytes_le {n width : Nat} (h : n < 256 ^ width) :
    (magnitudeBytes n).length ≤ width := by
  induction width generalizing n with
  | zero =>
    obtain rfl : n = 0 := Nat.lt_one_iff.mp h
    unfold magnitudeBytes
    exact Nat.le_refl 0
  | succ width ih =>
    unfold magnitudeBytes
    split
    · exact Nat.zero_le _
    · rw [List.length_cons]
      apply Nat.succ_le_succ
      apply ih
      rw [Nat.pow_succ] at h
      exact Nat.div_lt_of_lt_mul (Nat.mul_comm _ _ ▸ h)

/-- A sign costs one byte at most. -/
theorem length_addSign_le (negative : Bool) (b : Bytes) : (addSign negative b).length ≤ b.length + 1 := by
  fun_induction addSign negative b with
  | case1 => exact Nat.zero_le _
  | case2 => exact Nat.le_refl _
  | case3 => exact Nat.le_succ _
  | case4 _ _ _ ih => exact Nat.succ_le_succ ih

/-- A 64-bit number has at most eight bytes, and one more for the sign. -/
theorem length_encode_le {n : Int}
    (hn : Int64.minValue.toInt ≤ n ∧ n ≤ Int64.maxValue.toInt) : (encode n).length ≤ 9 := by
  have hword : n.natAbs < 256 ^ 8 := by
    have hmin : Int64.minValue.toInt = -9223372036854775808 := rfl
    have hmax : Int64.maxValue.toInt = 9223372036854775807 := rfl
    omega
  calc
    (encode n).length ≤ (magnitudeBytes n.natAbs).length + 1 := length_addSign_le _ _
    _ ≤ 9 := Nat.succ_le_succ (length_magnitudeBytes_le hword)

/-- Of the numbers of 64 bits all but the least one have magnitudes of 63 bits. -/
theorem inRange?_eq (n : Int) :
    inRange? n = if n.natAbs ≤ Int64.maxValue.toInt then some n else none := by
  have hmin : Int64.minValue.toInt = -9223372036854775808 := rfl
  have hmax : Int64.maxValue.toInt = 9223372036854775807 := rfl
  unfold inRange? inWord?
  by_cases hword : Int64.minValue.toInt ≤ n ∧ n ≤ Int64.maxValue.toInt
  · rw [if_pos hword, Option.filter_some]
    have hleast : (n != Int64.minValue.toInt) = true ↔ n.natAbs ≤ Int64.maxValue.toInt := by
      rw [bne_iff_ne]
      omega
    simp only [hleast]
  · rw [if_neg hword, if_neg (by omega)]
    rfl

theorem length_splitSign (b : Bytes) : (splitSign b).1.length = b.length := by
  fun_induction splitSign b with
  | case1 => rfl
  | case2 => rfl
  | case3 b rest _ _ ih => exact congrArg (· + 1) ih

theorem length_le_of_isMinimal {b : Bytes} {size : Nat} (h : isMinimal b size = true) :
    b.length ≤ size := by
  unfold isMinimal at h
  rw [Bool.and_eq_true, decide_eq_true_eq] at h
  exact h.1

/-! ## Larger limits -/

/-- A larger limit rejects no encoding. -/
theorem isMinimal_mono {b : Bytes} {size size' : Nat} (hsize : size ≤ size')
    (h : isMinimal b size = true) : isMinimal b size' = true := by
  unfold isMinimal at h ⊢
  rw [Bool.and_eq_true, decide_eq_true_eq] at h ⊢
  exact ⟨Nat.le_trans h.1 hsize, h.2⟩

/-- A larger limit changes no number. -/
theorem decode_mono {b : Bytes} {size size' : Nat} (hsize : size ≤ size') {minimal wide wide' : Bool}
    {n : Int} (h : decode b minimal size wide = .ok n) : decode b minimal size' wide' = .ok n := by
  unfold decode at h ⊢
  split at h
  · cases h
  · next hlength =>
    split at h
    · cases h
    · next hminimal =>
      have hlength' : ¬ b.length > size' := fun hlong ↦ hlength (Nat.lt_of_le_of_lt hsize hlong)
      have hminimal' : ¬ (minimal && !isMinimal b size') = true := by
        rw [Bool.and_eq_true, Bool.not_eq_true', not_and] at hminimal ⊢
        intro hset hnot
        rw [Bool.not_eq_false] at hminimal
        rw [isMinimal_mono hsize (hminimal hset)] at hnot
        cases hnot
      rw [if_neg hlength', if_neg hminimal']
      exact h

/-! ## Values -/

theorem toNat_splitSign_lt (last : UInt8) (rest : Bytes) :
    Bytes.toNat (splitSign (last :: rest)).1 < 128 * 256 ^ rest.length := by
  induction rest generalizing last with
  | nil =>
    change (last &&& 0x7f).toNat + 256 * 0 < 128 * 256 ^ 0
    have hle : (last &&& 0x7f).toNat ≤ 127 := Nat.and_le_right
    omega
  | cons next rest ih =>
    have hnext := ih next
    have hbyte : last.toNat < 256 := last.toNat_lt
    change last.toNat + 256 * Bytes.toNat (splitSign (next :: rest)).1 < 128 * 256 ^ (rest.length + 1)
    rw [Nat.pow_succ]
    omega

/-- The magnitude is what is left without the sign. -/
theorem natAbs_value (b : Bytes) : (value b).natAbs = Bytes.toNat (splitSign b).1 := by
  unfold value
  dsimp only
  split
  · rw [Int.natAbs_neg, Int.natAbs_natCast]
  · rw [Int.natAbs_natCast]

/-- An operand of at most eight bytes is a 64-bit number, and so is its negative. -/
theorem natAbs_le_of_decode {b : Bytes} {size : Nat} (hsize : size ≤ maxSize64) {minimal wide : Bool}
    {n : Int} (h : decode b minimal size wide = .ok n) : n.natAbs ≤ Int64.maxValue.toInt := by
  have hmax : Int64.maxValue.toInt = 9223372036854775807 := rfl
  have hsize64 : maxSize64 = 8 := rfl
  unfold decode at h
  split at h
  · cases h
  · next hlength =>
    split at h
    · cases h
    · cases h
      cases b with
      | nil => exact Int.le_of_lt (by decide)
      | cons last rest =>
        have hlt := toNat_splitSign_lt last rest
        have hpow : 256 ^ rest.length ≤ 256 ^ 7 :=
          Nat.pow_le_pow_right (by decide) (by rw [List.length_cons] at hlength; omega)
        rw [natAbs_value]
        omega

theorem value_of_decode_eq_ok {b : Bytes} {size : Nat} {minimal wide : Bool} {n : Int}
    (h : decode b minimal size wide = .ok n) : n = value b := by
  unfold decode at h
  split at h
  · cases h
  · split at h
    · cases h
    · exact (Except.ok.inj h).symm

/-! ## Small numbers -/

theorem magnitudeBytes_byte {n : Nat} (hpos : n ≠ 0) (hbyte : n < 256) :
    magnitudeBytes n = [UInt8.ofNat n] := by
  have hzero : magnitudeBytes 0 = [] := by
    unfold magnitudeBytes
    rfl
  unfold magnitudeBytes
  rw [dif_neg hpos, Nat.mod_eq_of_lt hbyte, Nat.div_eq_of_lt hbyte, hzero]

/-- The numbers that have an opcode of their own are one byte each. -/
theorem encode_small {b : UInt8} (hpos : 1 ≤ b) (hle : b ≤ 16) : encode b.toNat = [b] := by
  have hsign : ∀ byte : UInt8, byte ≤ 16 → addSign false [byte] = [byte] := by
    apply Bytes.forall_byte
    decide +kernel
  have hone : 1 ≤ b.toNat := hpos
  unfold encode
  rw [decide_eq_false (Int.not_lt.mpr (Int.natCast_nonneg _)), Int.natAbs_natCast,
    magnitudeBytes_byte (Nat.ne_of_gt hone) b.toNat_lt, UInt8.ofNat_toNat]
  exact hsign b hle

theorem encode_negativeOne : encode (-1) = [0x81] := by
  unfold encode
  rw [show (-1 : Int).natAbs = 1 from rfl, magnitudeBytes_byte Nat.one_ne_zero (by decide)]
  rfl

theorem value_small {b : UInt8} (hle : b ≤ 16) : value [b] = b.toNat := by
  revert b
  apply Bytes.forall_byte
  decide +kernel

/-! ## The last byte -/

theorem addSign_concat (negative : Bool) (init : Bytes) (last : UInt8) :
    addSign negative (init ++ [last]) = init ++ addSign negative [last] := by
  induction init with
  | nil => rfl
  | cons byte rest ih =>
    rw [List.cons_append, List.cons_append, ← ih]
    cases rest <;> rfl

/-- The sign is the highest bit of the last byte. -/
theorem splitSign_concat (init : Bytes) (last : UInt8) :
    splitSign (init ++ [last]) = (init ++ [last &&& 0x7f], last &&& 0x80 != 0) := by
  induction init with
  | nil => rfl
  | cons byte rest ih =>
    have hcons : splitSign (byte :: (rest ++ [last])) =
        (byte :: (splitSign (rest ++ [last])).1, (splitSign (rest ++ [last])).2) := by
      cases rest <;> rfl
    rw [List.cons_append, hcons, ih]
    rfl

/-- Zeros are dropped, and the sign takes a byte of its own where its bit is occupied. -/
theorem replaceSign_concat (sign byte : UInt8) (before : Bytes) :
    replaceSign sign (before ++ [byte]).reverse =
      if byte = 0 then replaceSign sign before.reverse
      else if byte &&& 0x80 != 0 then before ++ [byte, sign]
      else before ++ [byte ||| sign] := by
  have hreverse : (before ++ [byte]).reverse = byte :: before.reverse := by simp
  unfold replaceSign
  rw [hreverse, List.dropWhile_cons]
  by_cases hzero : byte = 0
  · rw [if_pos hzero, if_pos (beq_iff_eq.mpr hzero)]
  · rw [if_neg hzero, if_neg (fun heq ↦ hzero (beq_iff_eq.mp heq))]
    by_cases hhigh : (byte &&& 0x80 != 0) = true
    · simp only [if_pos hhigh, List.reverse_cons, List.reverse_reverse, List.append_assoc,
        List.singleton_append]
    · simp only [if_neg hhigh, List.reverse_cons, List.reverse_reverse]

/-- The sign bit and the rest of a byte. -/
theorem toNat_eq_add_signBit (byte : UInt8) :
    byte.toNat = (byte &&& 0x7f).toNat + if byte &&& 0x80 != 0 then 0x80 else 0 := by
  revert byte
  apply Bytes.forall_byte
  decide +kernel

/-- The word of an element in two parts, which share the last byte. -/
theorem toNat_concat (init : Bytes) (last : UInt8) :
    Bytes.toNat (init ++ [last]) = Bytes.toNat (init ++ [last &&& 0x7f]) +
      if last &&& 0x80 != 0 then 2 ^ (8 * init.length + 7) else 0 := by
  have hsign : 2 ^ (8 * init.length + 7) = 256 ^ init.length * 0x80 := by
    rw [Nat.pow_add, Bytes.two_pow_eight_mul]
  rw [Bytes.toNat_append, Bytes.toNat_append, hsign]
  change _ + _ * (last.toNat + 256 * 0) = _ + _ * ((last &&& 0x7f).toNat + 256 * 0) + _
  rw [toNat_eq_add_signBit last]
  split
  · rw [Nat.add_right_comm, Nat.mul_add, Nat.add_assoc]
  · rfl

/-- Without the sign the last byte has seven bits. -/
theorem toNat_concat_lt (init : Bytes) (last : UInt8) :
    Bytes.toNat (init ++ [last &&& 0x7f]) < 2 ^ (8 * init.length + 7) := by
  have hinit := Bytes.toNat_lt init
  have hlast : (last &&& 0x7f).toNat ≤ 0x7f := Nat.and_le_right
  have hle := Nat.mul_le_mul_left (256 ^ init.length) hlast
  rw [Nat.pow_add, Bytes.two_pow_eight_mul, Bytes.toNat_append]
  change _ + _ * ((last &&& 0x7f).toNat + 256 * 0) < 256 ^ init.length * 128
  rw [Nat.mul_zero, Nat.add_zero]
  omega

theorem length_magnitudeBytes_pos {n : Nat} (h : n ≠ 0) : 0 < (magnitudeBytes n).length := by
  unfold magnitudeBytes
  rw [dif_neg h]
  exact Nat.succ_pos _

end UtxoConsensus.ScriptNumber
