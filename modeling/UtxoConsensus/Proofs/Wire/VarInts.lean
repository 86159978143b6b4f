import UtxoConsensus.Proofs.Wire.Readers
import UtxoConsensus.Wire.VarInt

/-!
# Variable-length integers are read as they are written

The reader stands at a number after each byte, and the writer takes the numbers apart in the other direction:
the bytes after which the reader stands at `n` are the ones written before the last group of a number with
the quotient `n`. Both guards of the reader ask one thing, whether the next number has 64 bits. So every number
of 64 bits is read back, nothing else is read as one, and what denotes a larger number is refused.
-/

namespace UtxoConsensus.VarInt

open Decoder

variable {n low : Nat} {groups unread rest : Bytes}

/-! ## Groups -/

/-- The bytes after which the reader stands at `n`. -/
def groupsBefore (n : Nat) : Bytes :=
  if n = 0 then [] else leadingGroups (n - 1)

/-- The bytes for `n`, of which the last one has a mark. -/
def markedGroups (mark n : Nat) : Bytes :=
  groupsBefore (n / 0x80) ++ [UInt8.ofNat (n % 0x80 + mark)]

theorem groupsBefore_succ (n : Nat) : groupsBefore (n + 1) = markedGroups 0x80 n := by
  unfold groupsBefore markedGroups groupsBefore
  rw [if_neg (Nat.succ_ne_zero n), Nat.add_sub_cancel, leadingGroups]
  split
  · next hsmall =>
    rw [if_pos (Nat.div_eq_of_lt (Nat.lt_succ_of_le hsmall)), Nat.mod_eq_of_lt (Nat.lt_succ_of_le hsmall)]
    rfl
  · next hlarge => rw [if_neg (by omega)]

theorem encode_eq (n : Nat) : encode n = markedGroups 0 n := by
  unfold encode markedGroups groupsBefore
  split
  · next hsmall =>
    rw [if_pos (Nat.div_eq_of_lt (Nat.lt_succ_of_le hsmall)), Nat.mod_eq_of_lt (Nat.lt_succ_of_le hsmall)]
    rfl
  · next hlarge => rw [if_neg (by omega), Nat.add_zero]

/-- A byte is a last group or one that is followed by another. -/
theorem byte_cases (b : UInt8) :
    ∃ low < 0x80, b = UInt8.ofNat low ∨ b = UInt8.ofNat (low + 0x80) := by
  have hbyte : b.toNat < 256 := b.toNat_lt
  refine ⟨b.toNat % 0x80, Nat.mod_lt _ (by decide), ?_⟩
  rcases Nat.lt_or_ge b.toNat 0x80 with hsmall | hlarge
  · left
    rw [Nat.mod_eq_of_lt hsmall, UInt8.ofNat_toNat]
  · right
    have hvalue : b.toNat % 0x80 + 0x80 = b.toNat := by omega
    rw [hvalue, UInt8.ofNat_toNat]

theorem toNat_lastGroup (hlow : low < 0x80) : (UInt8.ofNat low).toNat = low :=
  UInt8.toNat_ofNat_of_lt (Nat.lt_trans hlow (by decide))

theorem toNat_leadingGroup (hlow : low < 0x80) : (UInt8.ofNat (low + 0x80)).toNat = low + 0x80 :=
  UInt8.toNat_ofNat_of_lt (by simp only [UInt8.size]; omega)

theorem lastGroup_lt (hlow : low < 0x80) : UInt8.ofNat low < 0x80 := by
  rw [UInt8.lt_iff_toNat_lt, toNat_lastGroup hlow]
  exact hlow

theorem le_leadingGroup (hlow : low < 0x80) : 0x80 ≤ UInt8.ofNat (low + 0x80) := by
  rw [UInt8.le_iff_toNat_le, toNat_leadingGroup hlow]
  exact Nat.le_add_left _ _

/-! ## One byte -/

/-- The last group is accepted exactly if the number has 64 bits. -/
theorem decodeFrom_lastGroup (n : Nat) (hlow : low < 0x80) (rest : Bytes) :
    decodeFrom n (UInt8.ofNat low :: rest) =
      if n * 0x80 + low < UInt64.size then .ok (n * 0x80 + low) rest else .error .varIntTooLarge rest := by
  rw [decodeFrom]
  simp only [toNat_lastGroup hlow, Nat.mod_eq_of_lt hlow, if_pos (lastGroup_lt hlow)]
  by_cases hfits : n * 0x80 + low < UInt64.size
  · rw [if_neg (by simp only [UInt64.size] at hfits; omega), if_pos hfits]
  · rw [if_pos (by simp only [UInt64.size] at hfits; omega), if_neg hfits]

/-- The reader goes on exactly if the number at which it stands next has 64 bits. -/
theorem decodeFrom_leadingGroup (n : Nat) (hlow : low < 0x80) (rest : Bytes) :
    decodeFrom n (UInt8.ofNat (low + 0x80) :: rest) =
      if n * 0x80 + low + 1 < UInt64.size then decodeFrom (n * 0x80 + low + 1) rest
      else .error .varIntTooLarge rest := by
  rw [decodeFrom]
  simp only [toNat_leadingGroup hlow, Nat.add_mod_right, Nat.mod_eq_of_lt hlow,
    if_neg (UInt8.not_lt.mpr (le_leadingGroup hlow))]
  by_cases hfits : n * 0x80 + low + 1 < UInt64.size
  · simp only [UInt64.size] at hfits
    rw [if_neg (by omega), if_neg (by omega), if_pos (by simp only [UInt64.size]; omega)]
  · rw [if_neg hfits]
    simp only [UInt64.size] at hfits
    split
    · rfl
    · next hguard => rw [if_pos (by omega)]

/-! ## Reading what was written -/

/-- By induction on the number of groups, each of which is a seventh of a word further down. -/
theorem decodeFrom_groupsBefore (hn : n < UInt64.size) (rest : Bytes) :
    decodeFrom 0 (groupsBefore n ++ rest) = decodeFrom n rest := by
  induction n using Nat.strongRecOn generalizing rest with
  | ind n ih =>
    cases n with
    | zero => rfl
    | succ m =>
      have hlow : m % 0x80 < 0x80 := Nat.mod_lt _ (by decide)
      have hsum : m / 0x80 * 0x80 + m % 0x80 = m := Nat.div_add_mod' m 0x80
      have hless : m / 0x80 < m + 1 := Nat.lt_succ_of_le (Nat.div_le_self _ _)
      calc decodeFrom 0 (groupsBefore (m + 1) ++ rest)
        _ = decodeFrom 0 (groupsBefore (m / 0x80) ++ UInt8.ofNat (m % 0x80 + 0x80) :: rest) := by
          rw [groupsBefore_succ, markedGroups, List.append_assoc]
          rfl
        _ = decodeFrom (m / 0x80) (UInt8.ofNat (m % 0x80 + 0x80) :: rest) :=
          ih _ hless (Nat.lt_trans hless hn) _
        _ = decodeFrom (m + 1) rest := by
          rw [decodeFrom_leadingGroup _ hlow, hsum, if_pos hn]

/-- Numbers that fit into a word are read back. -/
theorem decodeFrom_encode (hn : n < UInt64.size) (rest : Bytes) :
    decodeFrom 0 (encode n ++ rest) = .ok n rest := by
  have hless : n / 0x80 < UInt64.size := Nat.lt_of_le_of_lt (Nat.div_le_self _ _) hn
  rw [encode_eq, markedGroups, List.append_assoc, decodeFrom_groupsBefore hless]
  change decodeFrom (n / 0x80) (UInt8.ofNat (n % 0x80) :: rest) = _
  rw [decodeFrom_lastGroup _ (Nat.mod_lt _ (by decide)), Nat.div_add_mod', if_pos hn]

/-- The bytes that are read follow those after which the reader started. -/
theorem encode_of_decodeFrom {v : Nat} (h : decodeFrom n unread = .ok v rest) :
    v < UInt64.size ∧ groupsBefore n ++ unread = encode v ++ rest := by
  induction unread generalizing n with
  | nil => cases h
  | cons b unread ih =>
    obtain ⟨low, hlow, rfl | rfl⟩ := byte_cases b
    · rw [decodeFrom_lastGroup _ hlow] at h
      split at h
      · next hfits =>
        cases h
        have hquotient : (n * 0x80 + low) / 0x80 = n := by omega
        have hremainder : (n * 0x80 + low) % 0x80 = low := by omega
        refine ⟨hfits, ?_⟩
        rw [encode_eq, markedGroups, hquotient, hremainder, List.append_assoc]
        rfl
      · cases h
    · rw [decodeFrom_leadingGroup _ hlow] at h
      split at h
      · obtain ⟨hv, hbytes⟩ := ih h
        have hquotient : (n * 0x80 + low) / 0x80 = n := by omega
        have hremainder : (n * 0x80 + low) % 0x80 = low := by omega
        refine ⟨hv, ?_⟩
        rw [← hbytes, groupsBefore_succ, markedGroups, hquotient, hremainder, List.append_assoc]
        rfl
      · cases h

/-- The code is read exactly as it is written. -/
theorem inverts_decode : decode.Inverts encode fun n ↦ n < UInt64.size := by
  intro unread n rest
  constructor
  · intro h
    exact encode_of_decodeFrom h
  · rintro ⟨hn, rfl⟩
    exact decodeFrom_encode hn rest

/-- One byte is enough for a small number. -/
theorem encode_of_lt (hn : n < 0x80) : encode n = [UInt8.ofNat n] :=
  if_pos (Nat.le_of_lt_succ hn)

/-! ## What bytes denote -/

/-- The number denoted by bytes before a byte and by that byte, which counts one more if it is not the last. -/
def denotedWith (n : Nat) (b : UInt8) : Nat :=
  n * 0x80 + b.toNat % 0x80 + if b < 0x80 then 0 else 1

/-- The number that bytes denote, of any size. -/
def denoted (b : Bytes) : Nat :=
  b.foldl denotedWith 0

/-- Of these bytes the last one ends a number, and none of the others does. -/
def IsTerminated (b : Bytes) : Prop :=
  ∃ (leading : Bytes) (last : UInt8), b = leading ++ [last] ∧ (∀ byte ∈ leading, 0x80 ≤ byte) ∧ last < 0x80

/-- The last group is added as it is. -/
theorem denotedWith_lastGroup (n : Nat) (hlow : low < 0x80) :
    denotedWith n (UInt8.ofNat low) = n * 0x80 + low := by
  rw [denotedWith, toNat_lastGroup hlow, Nat.mod_eq_of_lt hlow, if_pos (lastGroup_lt hlow), Nat.add_zero]

/-- A marked group counts one more, so that no number has two codes. -/
theorem denotedWith_leadingGroup (n : Nat) (hlow : low < 0x80) :
    denotedWith n (UInt8.ofNat (low + 0x80)) = n * 0x80 + low + 1 := by
  rw [denotedWith, toNat_leadingGroup hlow, Nat.add_mod_right, Nat.mod_eq_of_lt hlow,
    if_neg (UInt8.not_lt.mpr (le_leadingGroup hlow))]

theorem le_foldl_denotedWith (n : Nat) (b : Bytes) : n ≤ b.foldl denotedWith n := by
  induction b generalizing n with
  | nil => exact Nat.le_refl n
  | cons byte b ih =>
    have hstep : n ≤ denotedWith n byte := by
      unfold denotedWith
      omega
    exact Nat.le_trans hstep (ih _)

/-- From a number on, what denotes a number of 64 bits is read as that number, and all else is refused. -/
theorem decodeFrom_terminated {leading : Bytes} {last : UInt8} (hleading : ∀ b ∈ leading, 0x80 ≤ b)
    (hlast : last < 0x80) (n : Nat) (rest : Bytes) :
    ∃ left, decodeFrom n (leading ++ last :: rest) =
      if (leading ++ [last]).foldl denotedWith n < UInt64.size then
        .ok ((leading ++ [last]).foldl denotedWith n) rest
      else .error .varIntTooLarge left := by
  induction leading generalizing n with
  | nil =>
    obtain ⟨low, hlow, rfl | rfl⟩ := byte_cases last
    · refine ⟨rest, ?_⟩
      rw [List.nil_append, List.nil_append, decodeFrom_lastGroup _ hlow, List.foldl_cons, List.foldl_nil,
        denotedWith_lastGroup _ hlow]
    · exact absurd hlast (UInt8.not_lt.mpr (le_leadingGroup hlow))
  | cons b leading ih =>
    rw [List.forall_mem_cons] at hleading
    obtain ⟨low, hlow, rfl | rfl⟩ := byte_cases b
    · exact absurd (lastGroup_lt hlow) (UInt8.not_lt.mpr hleading.1)
    · rw [List.cons_append, List.cons_append, decodeFrom_leadingGroup _ hlow, List.foldl_cons,
        denotedWith_leadingGroup _ hlow]
      by_cases hfits : n * 0x80 + low + 1 < UInt64.size
      · rw [if_pos hfits]
        exact ih hleading.2 _
      · have hlarge := le_foldl_denotedWith (n * 0x80 + low + 1) (leading ++ [last])
        refine ⟨leading ++ last :: rest, ?_⟩
        rw [if_neg hfits, if_neg (by omega)]

/-- Any groups up to the first one without a mark are read, or the number is too large. -/
theorem IsTerminated.run_decode (h : IsTerminated groups) (rest : Bytes) :
    ∃ left, decode.run (groups ++ rest) =
      if denoted groups < UInt64.size then .ok (denoted groups) rest else .error .varIntTooLarge left := by
  obtain ⟨leading, last, rfl, hleading, hlast⟩ := h
  rw [List.append_assoc]
  exact decodeFrom_terminated hleading hlast 0 rest

/-! ## Lengths -/

theorem length_groupsBefore_le {count : Nat} (hn : n < 0x80 ^ count) :
    (groupsBefore n).length ≤ count := by
  induction count generalizing n with
  | zero =>
    rw [Nat.pow_zero, Nat.lt_one_iff] at hn
    rw [hn]
    exact Nat.le_refl 0
  | succ count ih =>
    cases n with
    | zero => exact Nat.zero_le _
    | succ m =>
      have hless : m / 0x80 < 0x80 ^ count := by
        rw [Nat.pow_succ] at hn
        omega
      rw [groupsBefore_succ, markedGroups, List.length_append]
      exact Nat.succ_le_succ (ih hless)

/-- No number of 64 bits needs more than ten bytes. -/
theorem length_encode_le (hn : n < UInt64.size) : (encode n).length ≤ 10 := by
  have hless : n / 0x80 < 0x80 ^ 9 := by
    simp only [UInt64.size] at hn
    omega
  rw [encode_eq, markedGroups, List.length_append]
  exact Nat.succ_le_succ (length_groupsBefore_le hless)

end UtxoConsensus.VarInt
