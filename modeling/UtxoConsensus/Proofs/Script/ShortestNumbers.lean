import Mathlib.Data.List.Induction
import UtxoConsensus.Proofs.Indexed.Numbers
import UtxoConsensus.Proofs.Script.Numbers

/-!
# The shortest encoding of a number

What number bytes denote is said by arithmetic on the byte string as a whole: its highest bit is a sign,
and the bits below it are a magnitude. Every number has one encoding that is shorter than all its others.
It is the one that is written, the only one that passes as minimal, and what any other one is shortened to.
-/

namespace UtxoConsensus.ScriptNumber

/-! ## What bytes denote -/

/-- The number that bytes denote: the highest of their bits is a sign, and those below it are a magnitude,
with its least significant byte first. -/
def signMagnitude (b : Bytes) : Int :=
  if Bytes.toNat b < 2 ^ (8 * b.length - 1) then Bytes.toNat b
  else -(Bytes.toNat b - (2 ^ (8 * b.length - 1) : Nat))

variable {b : Bytes} {n : Int}

theorem value_concat (init : Bytes) (last : UInt8) :
    value (init ++ [last]) =
      if last &&& 0x80 != 0 then -(Bytes.toNat (init ++ [last &&& 0x7f]) : Int)
      else Bytes.toNat (init ++ [last &&& 0x7f]) := by
  unfold value
  rw [splitSign_concat]

/-- Encodings are read as sign and magnitude. -/
theorem value_eq_signMagnitude (b : Bytes) : value b = signMagnitude b := by
  obtain rfl | ⟨init, last, rfl⟩ := List.eq_nil_or_concat' b
  · rfl
  · have hwidth : 8 * (init ++ [last]).length - 1 = 8 * init.length + 7 := by
      rw [List.length_append, List.length_singleton]
      omega
    have hmagnitude := toNat_concat_lt init last
    unfold signMagnitude
    rw [value_concat, hwidth, toNat_concat init last]
    by_cases hnegative : (last &&& 0x80 != 0) = true
    · rw [if_pos hnegative, if_pos hnegative, if_neg (Nat.not_lt.mpr (Nat.le_add_left _ _))]
      push_cast
      rw [Int.add_sub_cancel]
    · rw [if_neg hnegative, if_neg hnegative, Nat.add_zero, if_pos hmagnitude]

theorem natAbs_value_concat (init : Bytes) (last : UInt8) :
    (value (init ++ [last])).natAbs =
      Bytes.toNat init + 256 ^ init.length * (last &&& 0x7f).toNat := by
  rw [natAbs_value, splitSign_concat, Bytes.toNat_append]
  rfl

/-- One bit of the encoding is the sign. -/
theorem two_mul_natAbs_value_lt (b : Bytes) : 2 * (value b).natAbs < 256 ^ b.length := by
  obtain rfl | ⟨init, last, rfl⟩ := List.eq_nil_or_concat' b
  · exact Nat.one_pos
  · have hmagnitude := toNat_concat_lt init last
    have hpow : 2 ^ (8 * (init.length + 1)) = 2 * 2 ^ (8 * init.length + 7) := by
      rw [← Nat.pow_succ']
      congr 1
    rw [natAbs_value, splitSign_concat, List.length_append, ← Bytes.two_pow_eight_mul]
    change 2 * Bytes.toNat (init ++ [last &&& 0x7f]) < 2 ^ (8 * (init.length + 1))
    omega

/-- Two encodings of the same length denote different numbers, unless they denote zero. -/
theorem eq_of_signMagnitude_eq {b c : Bytes} (h : signMagnitude b = signMagnitude c)
    (hlength : b.length = c.length) (hzero : signMagnitude b ≠ 0) : b = c := by
  have htoNat : Bytes.toNat b = Bytes.toNat c := by
    unfold signMagnitude at h hzero
    rw [hlength] at h hzero
    generalize 2 ^ (8 * c.length - 1) = half at h hzero
    omega
  rw [← Bytes.ofNat_toNat b, ← Bytes.ofNat_toNat c, hlength, htoNat]

/-! ## Encodings whose last byte is needed -/

/-- An encoding of a number that is shorter than all its other encodings. -/
structure IsShortest (b : Bytes) (n : Int) : Prop where
  denotes : signMagnitude b = n
  shorter : ∀ other, signMagnitude other = n → other ≠ b → b.length < other.length

/-- A number has one shortest encoding. -/
theorem IsShortest.unique {b c : Bytes} (hb : IsShortest b n) (hc : IsShortest c n) : b = c := by
  by_contra hne
  exact Nat.lt_asymm (hb.shorter c hc.denotes (Ne.symm hne)) (hc.shorter b hb.denotes hne)

/-- The last byte is needed for its own bits, or because the bit of the sign is occupied. -/
theorem lastByteNeeded_concat (front : Bytes) (before last : UInt8) :
    lastByteNeeded (front ++ [before, last]).reverse = (last &&& 0x7f != 0 || before &&& 0x80 != 0) := by
  rw [List.reverse_append]
  rfl

theorem lastByteNeeded_of_ne_zero (init : Bytes) {last : UInt8} (h : last &&& 0x7f ≠ 0) :
    lastByteNeeded (init ++ [last]).reverse = true := by
  rw [List.reverse_append, List.reverse_singleton, List.singleton_append]
  cases init.reverse <;> simp [lastByteNeeded, h]

/-- A last byte that is needed tells how large the magnitude is. -/
theorem pow_le_of_lastByteNeeded {init : Bytes} {last : UInt8}
    (h : lastByteNeeded (init ++ [last]).reverse = true) :
    256 ^ init.length ≤ 2 * (value (init ++ [last])).natAbs := by
  rw [natAbs_value_concat]
  by_cases hlast : (last &&& 0x7f).toNat = 0
  · have hzero : last &&& 0x7f = 0 := UInt8.toNat_inj.mp hlast
    obtain rfl | ⟨front, before, rfl⟩ := List.eq_nil_or_concat' init
    · rw [List.nil_append, List.reverse_singleton, lastByteNeeded, hzero] at h
      cases h
    · rw [List.append_assoc, List.singleton_append, lastByteNeeded_concat, hzero, bne_self_eq_false,
        Bool.false_or] at h
      have hhigh := toNat_eq_add_signBit before
      rw [if_pos h] at hhigh
      have hmul : 256 ^ front.length * 128 ≤ 256 ^ front.length * before.toNat :=
        Nat.mul_le_mul_left _ (by omega)
      rw [hlast, Bytes.toNat_append, List.length_append, List.length_singleton, Nat.pow_succ]
      change _ ≤ 2 * (Bytes.toNat front + 256 ^ front.length * before.toNat + _)
      omega
  · have hmul := Nat.le_mul_of_pos_right (256 ^ init.length) (Nat.pos_of_ne_zero hlast)
    omega

/-- No encoding is as short as one whose last byte is needed. -/
theorem isShortest_of_lastByteNeeded (h : lastByteNeeded b.reverse = true) : IsShortest b (value b) where
  denotes := (value_eq_signMagnitude b).symm
  shorter := by
    intro other hother hne
    by_contra hlong
    obtain rfl | ⟨init, last, rfl⟩ := List.eq_nil_or_concat' b
    · exact hne (List.length_eq_zero_iff.mp (Nat.le_zero.mp (Nat.le_of_not_lt hlong)))
    · have hlower := pow_le_of_lastByteNeeded h
      have hupper := two_mul_natAbs_value_lt other
      rw [value_eq_signMagnitude other, hother] at hupper
      have hlength : init.length < other.length := by
        exact (Nat.pow_lt_pow_iff_right (by decide)).mp (Nat.lt_of_le_of_lt hlower hupper)
      have hsame : other.length = (init ++ [last]).length := by
        rw [List.length_append, List.length_singleton] at hlong ⊢
        omega
      have hzero : signMagnitude other ≠ 0 := by
        have hpos := Nat.pow_pos (n := init.length) (show 0 < 256 by decide)
        rw [hother]
        omega
      exact hne (eq_of_signMagnitude_eq (hother.trans (value_eq_signMagnitude _)) hsame hzero)

/-! ## A sign behind a magnitude -/

/-- A byte that holds nothing but a sign. -/
def signByte (negative : Bool) : UInt8 :=
  if negative then 0x80 else 0

theorem eq_signByte {byte : UInt8} (h : byte &&& 0x7f = 0) : byte = signByte (byte &&& 0x80 != 0) := by
  revert byte
  apply Bytes.forall_byte
  decide +kernel

/-- A byte with room for a sign. -/
theorem or_signByte {byte : UInt8} (h : (byte &&& 0x80 != 0) = false) (negative : Bool) :
    (byte ||| signByte negative) &&& 0x7f = byte ∧ ((byte ||| signByte negative) &&& 0x80 != 0) = negative := by
  revert negative byte
  apply Bytes.forall_byte
  decide +kernel

/-- A byte that holds only the sign. -/
theorem value_concat_signByte (magnitude : Bytes) (negative : Bool) :
    value (magnitude ++ [signByte negative]) =
      if negative then -(Bytes.toNat magnitude : Int) else Bytes.toNat magnitude := by
  have hsign : signByte negative &&& 0x7f = 0 ∧ (signByte negative &&& 0x80 != 0) = negative := by
    revert negative
    decide
  rw [value_concat, hsign.1, hsign.2, Bytes.toNat_concat_zero]

/-- The sign goes into the last byte or behind it, and zeros before it are dropped. -/
theorem value_replaceSign (magnitude : Bytes) (negative : Bool) :
    value (replaceSign (signByte negative) magnitude.reverse) =
      if negative then -(Bytes.toNat magnitude : Int) else Bytes.toNat magnitude := by
  induction magnitude using List.reverseRecOn with
  | nil => cases negative <;> rfl
  | append_singleton before byte ih =>
    rw [replaceSign_concat]
    by_cases hzero : byte = 0
    · rw [if_pos hzero, ih, hzero, Bytes.toNat_concat_zero]
    · rw [if_neg hzero]
      by_cases hhigh : (byte &&& 0x80 != 0) = true
      · rw [if_pos hhigh, List.append_cons, value_concat_signByte]
      · have hsign := or_signByte (Bool.eq_false_iff.mpr hhigh) negative
        rw [if_neg hhigh, value_concat, hsign.1, hsign.2]

/-- After the zeros are dropped, the last byte is needed. -/
theorem lastByteNeeded_replaceSign (magnitude : Bytes) (negative : Bool) :
    lastByteNeeded (replaceSign (signByte negative) magnitude.reverse).reverse = true := by
  induction magnitude using List.reverseRecOn with
  | nil => cases negative <;> rfl
  | append_singleton before byte ih =>
    rw [replaceSign_concat]
    by_cases hzero : byte = 0
    · rw [if_pos hzero, ih]
    · rw [if_neg hzero]
      by_cases hhigh : (byte &&& 0x80 != 0) = true
      · rw [if_pos hhigh, lastByteNeeded_concat, hhigh, Bool.or_true]
      · have hsign := or_signByte (Bool.eq_false_iff.mpr hhigh) negative
        rw [if_neg hhigh]
        exact lastByteNeeded_of_ne_zero before (hsign.1.symm ▸ hzero)

/-! ## The encoding that is written -/

theorem toNat_magnitudeBytes (n : Nat) : Bytes.toNat (magnitudeBytes n) = n := by
  fun_induction magnitudeBytes n with
  | case1 => rfl
  | case2 n _ ih =>
    rw [Bytes.toNat, ih, UInt8.toNat_ofNat_of_lt' (Nat.mod_lt n (by decide)), Nat.mod_add_div]

/-- A magnitude does not end in a zero. -/
theorem getLast?_magnitudeBytes (n : Nat) : (magnitudeBytes n).getLast? ≠ some 0 := by
  fun_induction magnitudeBytes n with
  | case1 => nofun
  | case2 n hn ih =>
    by_cases hzero : n / 256 = 0
    · have hsmall : n < 256 := (Nat.div_eq_zero_iff_lt (by decide)).mp hzero
      rw [hzero, magnitudeBytes, dif_pos rfl, List.getLast?_singleton, Nat.mod_eq_of_lt hsmall]
      intro hbyte
      have hsame := congrArg UInt8.toNat (Option.some.inj hbyte)
      rw [UInt8.toNat_ofNat_of_lt' hsmall] at hsame
      exact hn hsame
    · have hne : magnitudeBytes (n / 256) ≠ [] := List.ne_nil_of_length_pos (length_magnitudeBytes_pos hzero)
      rwa [List.getLast?_cons_of_ne_nil hne]

/-- The sign of a magnitude that does not end in a zero. -/
theorem addSign_eq_replaceSign {magnitude : Bytes} (h : magnitude.getLast? ≠ some 0) (negative : Bool) :
    addSign negative magnitude = replaceSign (signByte negative) magnitude.reverse := by
  obtain rfl | ⟨init, last, rfl⟩ := List.eq_nil_or_concat' magnitude
  · rfl
  · have hlast : last ≠ 0 := fun hzero ↦ h (by rw [List.getLast?_concat, hzero])
    rw [addSign_concat, replaceSign_concat, if_neg hlast]
    unfold addSign signByte
    cases negative <;> by_cases hhigh : (last &&& 0x80 != 0) = true <;> simp [hhigh]

/-- Writing a number is putting a sign behind its magnitude. -/
theorem encode_eq_replaceSign (n : Int) :
    encode n = replaceSign (signByte (decide (n < 0))) (magnitudeBytes n.natAbs).reverse :=
  addSign_eq_replaceSign (getLast?_magnitudeBytes _) _

theorem value_encode (n : Int) : value (encode n) = n := by
  rw [encode_eq_replaceSign, value_replaceSign, toNat_magnitudeBytes]
  by_cases hnegative : n < 0
  · rw [decide_eq_true hnegative, if_pos rfl, Int.ofNat_natAbs_of_nonpos (Int.le_of_lt hnegative), Int.neg_neg]
  · rw [decide_eq_false hnegative, if_neg Bool.false_ne_true, Int.natAbs_of_nonneg (Int.not_lt.mp hnegative)]

theorem lastByteNeeded_encode (n : Int) : lastByteNeeded (encode n).reverse = true := by
  rw [encode_eq_replaceSign]
  exact lastByteNeeded_replaceSign _ _

/-- No encoding is shorter than the one that is written. -/
theorem isShortest_encode (n : Int) : IsShortest (encode n) n := by
  have hshortest := isShortest_of_lastByteNeeded (lastByteNeeded_encode n)
  rwa [value_encode] at hshortest

theorem isShortest_iff : IsShortest b n ↔ b = encode n :=
  ⟨fun h ↦ h.unique (isShortest_encode n), fun h ↦ h ▸ isShortest_encode n⟩

/-- The last byte is needed exactly in encodings that are written. -/
theorem lastByteNeeded_iff : lastByteNeeded b.reverse = true ↔ encode (value b) = b := by
  constructor
  · exact fun h ↦ (isShortest_iff.mp (isShortest_of_lastByteNeeded h)).symm
  · intro h
    rw [← h]
    exact lastByteNeeded_encode _

/-- Minimal are the encodings that are written, up to the limit. -/
theorem isMinimal_iff {maxSize : Nat} :
    isMinimal b maxSize = true ↔ b.length ≤ maxSize ∧ encode (value b) = b := by
  unfold isMinimal
  rw [Bool.and_eq_true, decide_eq_true_eq, lastByteNeeded_iff]

/-- How many bytes a number needs, with one bit for the sign. -/
theorem length_encode_le_iff {width : Nat} : (encode n).length ≤ width ↔ 2 * n.natAbs < 256 ^ width := by
  constructor
  · intro h
    have hbound := two_mul_natAbs_value_lt (encode n)
    rw [value_encode] at hbound
    exact Nat.lt_of_lt_of_le hbound (Nat.pow_le_pow_right (by decide) h)
  · intro h
    have hneeded := lastByteNeeded_encode n
    have hvalue := value_encode n
    generalize encode n = b at hneeded hvalue ⊢
    obtain rfl | ⟨init, last, rfl⟩ := List.eq_nil_or_concat' b
    · exact Nat.zero_le width
    · have hlower := pow_le_of_lastByteNeeded hneeded
      rw [hvalue] at hlower
      rw [List.length_append]
      exact (Nat.pow_lt_pow_iff_right (by decide)).mp (Nat.lt_of_le_of_lt hlower h)

/-! ## Shortening -/

/-- Shortening gives the encoding that is written. -/
theorem minimize_eq_encode (b : Bytes) : minimize b = encode (value b) := by
  unfold minimize shorten?
  by_cases hneeded : lastByteNeeded b.reverse = true
  · rw [if_pos hneeded]
    exact (lastByteNeeded_iff.mp hneeded).symm
  · rw [if_neg hneeded]
    obtain rfl | ⟨init, last, rfl⟩ := List.eq_nil_or_concat' b
    · exact absurd rfl hneeded
    · have hlast : last &&& 0x7f = 0 := by
        by_contra hne
        exact hneeded (lastByteNeeded_of_ne_zero init hne)
      have hshort := lastByteNeeded_iff.mp (lastByteNeeded_replaceSign init (last &&& 0x80 != 0))
      rw [eq_signByte hlast, List.reverse_append, List.reverse_singleton, List.singleton_append,
        value_concat_signByte, ← value_replaceSign]
      exact hshort.symm

/-- Shortening leads to the shortest encoding. -/
theorem isShortest_minimize (b : Bytes) : IsShortest (minimize b) (signMagnitude b) := by
  rw [minimize_eq_encode, value_eq_signMagnitude]
  exact isShortest_encode _

/-- Shortening keeps the number. -/
theorem value_minimize (b : Bytes) : value (minimize b) = value b := by
  rw [minimize_eq_encode, value_encode]

theorem minimize_minimize (b : Bytes) : minimize (minimize b) = minimize b := by
  rw [minimize_eq_encode (minimize b), value_minimize, ← minimize_eq_encode]

/-- A minimal encoding passes as such wherever it fits. -/
theorem isMinimal_minimize (b : Bytes) (maxSize : Nat) :
    isMinimal (minimize b) maxSize = decide ((minimize b).length ≤ maxSize) := by
  have hshort : encode (value (minimize b)) = minimize b := by rw [value_minimize, ← minimize_eq_encode]
  rw [Bool.eq_iff_iff, isMinimal_iff, decide_eq_true_eq, and_iff_left hshort]

/-- Only minimal encodings are left alone. -/
theorem minimize_eq_self_iff : minimize b = b ↔ lastByteNeeded b.reverse = true := by
  rw [minimize_eq_encode, lastByteNeeded_iff]

/-- Shortening tells whether it has changed anything. -/
theorem isSome_shorten?_iff : (shorten? b).isSome = true ↔ minimize b ≠ b := by
  rw [Ne, minimize_eq_self_iff]
  unfold shorten?
  by_cases hneeded : lastByteNeeded b.reverse = true
  · rw [if_pos hneeded]
    exact iff_of_false Bool.false_ne_true fun hnot ↦ hnot hneeded
  · rw [if_neg hneeded]
    cases hreversed : b.reverse with
    | nil =>
      rw [hreversed] at hneeded
      exact absurd rfl hneeded
    | cons last before => exact iff_of_true rfl (hreversed ▸ hneeded)

/-! ## Truth values -/

/-- An element is true if it denotes a number other than zero. -/
theorem toBool_iff : toBool b = true ↔ value b ≠ 0 := by
  rw [Ne, ← Int.natAbs_eq_zero, natAbs_value]
  fun_induction splitSign b with
  | case1 => exact iff_of_false Bool.false_ne_true fun hnot ↦ hnot rfl
  | case2 byte =>
    revert byte
    apply Bytes.forall_byte
    decide +kernel
  | case3 byte rest hrest r ih =>
    obtain ⟨next, more, rfl⟩ := List.exists_cons_of_ne_nil hrest
    have hbyte : byte = 0 ↔ byte.toNat = 0 := UInt8.toNat_inj.symm
    change (byte != 0 || toBool (next :: more)) = true ↔
      ¬ byte.toNat + 256 * Bytes.toNat (splitSign (next :: more)).1 = 0
    rw [Bool.or_eq_true, ih, bne_iff_ne, Ne, hbyte]
    omega

/-! ## Numbers that can be read -/

/-- What it takes to read a number. -/
theorem decode_eq_ok_iff {minimal wide : Bool} {maxSize : Nat} :
    decode b minimal maxSize wide = .ok n ↔
      b.length ≤ maxSize ∧ (minimal = true → encode (value b) = b) ∧ value b = n := by
  unfold decode
  by_cases hlong : b.length > maxSize
  · rw [if_pos hlong]
    exact iff_of_false nofun fun h ↦ Nat.not_le.mpr hlong h.1
  · have hlength : b.length ≤ maxSize := Nat.le_of_not_lt hlong
    rw [if_neg hlong, and_iff_right hlength]
    by_cases hrule : (minimal && !isMinimal b maxSize) = true
    · rw [if_pos hrule]
      rw [Bool.and_eq_true, Bool.not_eq_true', Bool.eq_false_iff, Ne, isMinimal_iff] at hrule
      exact iff_of_false nofun fun h ↦ hrule.2 ⟨hlength, h.1 hrule.1⟩
    · rw [if_neg hrule, Except.ok.injEq]
      rw [Bool.and_eq_true, not_and, Bool.not_eq_true', Bool.not_eq_false, isMinimal_iff] at hrule
      exact (and_iff_right fun hminimal ↦ (hrule hminimal).2).symm

/-- Under the rule of minimal data, only what was written is read. -/
theorem decode_minimal_eq_ok_iff {wide : Bool} {maxSize : Nat} :
    decode b true maxSize wide = .ok n ↔ b = encode n ∧ b.length ≤ maxSize := by
  rw [decode_eq_ok_iff, imp_iff_right rfl]
  constructor
  · rintro ⟨hlength, hshort, rfl⟩
    exact ⟨hshort.symm, hlength⟩
  · rintro ⟨rfl, hlength⟩
    rw [value_encode]
    exact ⟨hlength, rfl, rfl⟩

/-- Numbers that are not too long are read back. -/
theorem decode_encode {minimal wide : Bool} {maxSize : Nat} (h : (encode n).length ≤ maxSize) :
    decode (encode n) minimal maxSize wide = .ok n := by
  rw [decode_eq_ok_iff, value_encode]
  exact ⟨h, fun _ ↦ rfl, rfl⟩

/-- The numbers of 64 bits that have a negative are those of eight bytes. -/
theorem length_encode_le_maxSize64_iff : (encode n).length ≤ maxSize64 ↔ n.natAbs ≤ Int64.maxValue.toInt := by
  have hmax : Int64.maxValue.toInt = 9223372036854775807 := rfl
  have hpow : 256 ^ maxSize64 = 18446744073709551616 := rfl
  rw [length_encode_le_iff, hmax, hpow]
  omega

/-- Numbers are written in the shortest way, and can be read back from there. An encoding is minimal if it is
the one that is written, so that each number is read from one byte string only, where encodings must be
minimal. An element is true if the number that it denotes is not zero. -/
theorem encode_uniqueMinimal :
    (∀ n : Int64, n ≠ Int64.minValue → ∀ minimal wide,
      decode (encode n.toInt) minimal maxSize64 wide = .ok n.toInt) ∧
    (∀ b : Bytes, b.length ≤ maxSize64 → Indexed.value? b = some (signMagnitude b)) ∧
    (∀ (b : Bytes) (maxSize : Nat),
      isMinimal b maxSize = true ↔ b.length ≤ maxSize ∧ encode (signMagnitude b) = b) ∧
    (∀ (b : Bytes) (n : Int) (maxSize : Nat) (wide : Bool),
      decode b true maxSize wide = .ok n ↔ b = encode n ∧ b.length ≤ maxSize) ∧
    ∀ b : Bytes, toBool b = true ↔ signMagnitude b ≠ 0 := by
  refine ⟨fun n hn minimal wide ↦ decode_encode ?_, fun b hlength ↦ ?_, fun b maxSize ↦ ?_,
    fun _ _ _ _ ↦ decode_minimal_eq_ok_iff, fun b ↦ ?_⟩
  · have hmin : Int64.minValue.toInt = -9223372036854775808 := rfl
    have hmax : Int64.maxValue.toInt = 9223372036854775807 := rfl
    have hne : n.toInt ≠ Int64.minValue.toInt := fun hsame ↦ hn (Int64.toInt_inj.mp hsame)
    have hlower := Int64.minValue_le_toInt n
    have hupper := Int64.toInt_le n
    rw [length_encode_le_maxSize64_iff]
    rw [hmin] at hne hlower
    omega
  · rw [Indexed.value?_eq hlength, value_eq_signMagnitude]
  · rw [isMinimal_iff, value_eq_signMagnitude]
  · rw [toBool_iff, value_eq_signMagnitude]

/-- A magnitude that leaves no room for its sign. -/
theorem encode_uniqueMinimal_extraByte :
    let b : Bytes := [0xff, 0x80]
    let n : Int64 := -255
    n ≠ Int64.minValue ∧ b.length ≤ maxSize64 ∧ signMagnitude b = n.toInt ∧ Indexed.value? b = some n.toInt ∧
      encode n.toInt = b ∧ decode b true maxSize64 true = .ok n.toInt ∧ toBool b = true := by
  intro b n
  have hn : n ≠ Int64.minValue := by decide
  have hdenotes : signMagnitude b = n.toInt := by decide
  obtain ⟨hdecode, hvalue, hminimal, -, htrue⟩ := encode_uniqueMinimal
  have hencode : encode n.toInt = b := hdenotes ▸ ((hminimal b maxSize64).mp (by decide)).2
  refine ⟨hn, by decide, hdenotes, hdenotes ▸ hvalue b (by decide), hencode, ?_, (htrue b).mpr (by decide)⟩
  have hread := hdecode n hn true true
  rwa [hencode] at hread

end UtxoConsensus.ScriptNumber
