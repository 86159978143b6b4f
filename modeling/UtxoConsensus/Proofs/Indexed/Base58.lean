import UtxoConsensus.Proofs.Indexed.Basic
import UtxoConsensus.Proofs.Text.Numerals

/-!
# Base58 in fixed buffers

The digits of the number are held in a buffer whose size is found from the length of the text or the bytes
before the first of them is read: it is that length times 1.38 or 0.733, and one more. A place of the buffer is a
byte. Only the places in use are gone through, and as many more as the carry needs. A carry that is left at the
end of the buffer would be lost, which `none` stands for.

The size is enough for every length because 256^8 < 58^11 and 58^71 < 256^52, where 11/8 is below 1.38 and 52/71
below 0.733.
-/

namespace UtxoConsensus.Indexed

open Text Text.Base58

variable {base factor size n carry : Nat} {digits : List Nat}

/-! ## The buffer -/

/-- A buffer with the low digits of a number, least significant first. -/
def places (base : Nat) : (size n : Nat) → Bytes
  | 0, _ => []
  | size + 1, n => UInt8.ofNat (n % base) :: places base size (n / base)

/-- A sum that is a word of 32 bits. -/
def word32? (n : Nat) : Option Nat :=
  if n < UInt32.size then some n else none

/-- Multiplies the number in a buffer, of which `length` places are in use, and adds what is carried in. Results
in the buffer and the places that are in use then. -/
def mulAddIn? (base factor : Nat) : (buffer : Bytes) → (length carry : Nat) → Option (Bytes × Nat)
  | [], _, carry => if carry = 0 then some ([], 0) else none
  | place :: rest, length, carry =>
    if carry = 0 ∧ length = 0 then some (place :: rest, 0)
    else do
      let v ← word32? (factor * place.toNat + carry)
      let (rest, used) ← mulAddIn? base factor rest (length - 1) (v / base)
      return (UInt8.ofNat (v % base) :: rest, used + 1)

theorem word32?_of_lt (h : n < UInt32.size) : word32? n = some n := if_pos h

theorem places_zero_eq (base size : Nat) : places base size 0 = List.replicate size 0 := by
  induction size with
  | zero => rfl
  | succ size ih =>
    rw [places, Nat.zero_mod, Nat.zero_div, ih]
    rfl

@[simp] theorem length_places (base size n : Nat) : (places base size n).length = size := by
  induction size generalizing n with
  | zero => rfl
  | succ size ih => rw [places, List.length_cons, ih]

/-- The places in use hold the digits of the number. -/
theorem take_places (hbase : 1 < base) (hn : n < base ^ size) :
    (places base size n).take (Nat.digits base n).length = (Nat.digits base n).map UInt8.ofNat := by
  induction size generalizing n with
  | zero =>
    rw [Nat.pow_zero, Nat.lt_one_iff] at hn
    rw [hn, Nat.digits_zero]
    rfl
  | succ size ih =>
    by_cases hzero : n = 0
    · rw [hzero, Nat.digits_zero]
      rfl
    · have hrest : n / base < base ^ size := Nat.div_lt_of_lt_mul (Nat.pow_succ' ▸ hn)
      rw [Nat.digits_def' hbase (Nat.pos_of_ne_zero hzero), List.length_cons, List.map_cons, places,
        List.take_succ_cons, ih hrest]

/-- One place less is in use for what is above the lowest. -/
theorem length_digits_div (hbase : 1 < base) (n : Nat) :
    (Nat.digits base n).length - 1 = (Nat.digits base (n / base)).length := by
  by_cases hzero : n = 0
  · rw [hzero, Nat.zero_div, Nat.digits_zero]
    rfl
  · rw [Nat.digits_def' hbase (Nat.pos_of_ne_zero hzero), List.length_cons, Nat.add_sub_cancel]

/-- What is carried out of a place is again less than the factor. -/
theorem mul_add_lt {d : Nat} (hd : d < base) (hcarry : carry < factor) : factor * d + carry < base * factor := by
  calc factor * d + carry
    _ < factor * d + factor := Nat.add_lt_add_left hcarry _
    _ = factor * (d + 1) := (Nat.mul_succ _ _).symm
    _ ≤ factor * base := Nat.mul_le_mul_left _ hd
    _ = base * factor := Nat.mul_comm _ _

/-- The buffer holds the product, and no carry is lost, if that is a number of so many digits. -/
theorem mulAddIn?_eq (hbase : 1 < base) (hbyte : base ≤ 256) (hfactor : 0 < factor) (hword : factor * base ≤ 2 ^ 32)
    (hcarry : carry < factor) (hfits : factor * n + carry < base ^ size) :
    mulAddIn? base factor (places base size n) (Nat.digits base n).length carry =
      some (places base size (factor * n + carry), (Nat.digits base (factor * n + carry)).length) := by
  induction size generalizing n carry with
  | zero =>
    rw [Nat.pow_zero, Nat.lt_one_iff, Nat.add_eq_zero_iff] at hfits
    rw [hfits.1, hfits.2, Nat.add_zero, Nat.digits_zero]
    rfl
  | succ size ih =>
    -- The places above the lowest hold `n / base`, into which the quotient of the lowest product is carried.
    by_cases hstop : carry = 0 ∧ n = 0
    · rw [hstop.1, hstop.2, Nat.mul_zero, Nat.add_zero, Nat.digits_zero]
      rfl
    · have hmore : ¬(carry = 0 ∧ (Nat.digits base n).length = 0) := by
        rw [List.length_eq_zero_iff, Nat.digits_eq_nil_iff_eq_zero]
        exact hstop
      have hproduct : 0 < factor * n + carry := by
        apply Nat.pos_of_ne_zero
        intro hzero
        rw [Nat.add_eq_zero_iff, Nat.mul_eq_zero, or_iff_right (Nat.ne_of_gt hfactor)] at hzero
        exact hstop hzero.symm
      have hdigit : n % base < base := Nat.mod_lt n (Nat.lt_of_succ_lt hbase)
      have hplace : (UInt8.ofNat (n % base)).toNat = n % base :=
        UInt8.toNat_ofNat_of_lt' (Nat.lt_of_lt_of_le hdigit hbyte)
      have hv : factor * (n % base) + carry < base * factor := mul_add_lt hdigit hcarry
      have hproductWord : word32? (factor * (n % base) + carry) = some (factor * (n % base) + carry) :=
        word32?_of_lt (Nat.lt_of_lt_of_le hv (Nat.mul_comm base factor ▸ hword))
      have hrest : factor * (n / base) + (factor * (n % base) + carry) / base < base ^ size := by
        rw [← mul_add_div (Nat.lt_of_succ_lt hbase)]
        exact Nat.div_lt_of_lt_mul (Nat.pow_succ' ▸ hfits)
      rw [places, mulAddIn?, if_neg hmore, hplace, hproductWord, Option.bind_eq_bind, Option.bind_some,
        length_digits_div hbase, ih (Nat.div_lt_of_lt_mul hv) hrest, Option.bind_eq_bind, Option.bind_some,
        places, mul_add_mod base factor n, Nat.digits_def' hbase hproduct,
        mul_add_div (Nat.lt_of_succ_lt hbase) factor n, List.length_cons]
      rfl

/-- The places in use, most significant first. -/
def significant? (buffer : Bytes) (length : Nat) : Option Bytes := do
  slice? buffer.reverse (← minus? buffer.length length) buffer.length

/-- The significant places are the digits, the highest one first. -/
theorem significant?_places (hbase : 1 < base) (hn : n < base ^ size) :
    significant? (places base size n) (Nat.digits base n).length = some (numeral base UInt8.ofNat n) := by
  have hlength : (Nat.digits base n).length ≤ size := (Nat.digits_length_le_iff hbase n).mpr hn
  unfold significant?
  rw [length_places, minus?_of_le hlength, Option.bind_eq_bind, Option.bind_some,
    slice?_of_le (Nat.sub_le _ _) (Nat.le_of_eq (by rw [List.length_reverse, length_places])),
    List.take_of_length_le (Nat.le_of_eq (by rw [List.length_reverse, length_places])), List.drop_reverse,
    length_places, Nat.sub_sub_self hlength, take_places hbase hn, ← List.map_reverse, numeral]

/-! ## The size of the buffer -/

/-- A buffer of this size holds the number with `count` more digits behind it. -/
def HasRoom (base factor size n count : Nat) : Prop :=
  (n + 1) * factor ^ count ≤ base ^ size

/-- Digits that are together worth `numerator` digits of the buffer for every `denominator` of them have room. -/
theorem hasRoom_zero {count numerator denominator : Nat} (hpos : denominator ≠ 0)
    (hratio : factor ^ denominator ≤ base ^ numerator) (hsize : numerator * count ≤ denominator * size)
    (hbase : 0 < base) : HasRoom base factor size 0 count := by
  have hpower : (factor ^ count) ^ denominator ≤ (base ^ size) ^ denominator := by
    calc (factor ^ count) ^ denominator
      _ = (factor ^ denominator) ^ count := by rw [← Nat.pow_mul, ← Nat.pow_mul, Nat.mul_comm]
      _ ≤ (base ^ numerator) ^ count := Nat.pow_le_pow_left hratio count
      _ = base ^ (numerator * count) := (Nat.pow_mul _ _ _).symm
      _ ≤ base ^ (denominator * size) := Nat.pow_le_pow_right hbase hsize
      _ = (base ^ size) ^ denominator := by rw [← Nat.pow_mul, Nat.mul_comm]
  unfold HasRoom
  rw [Nat.zero_add, Nat.one_mul]
  exact (Nat.pow_le_pow_iff_left hpos).mp hpower

/-- One more digit takes the room that was left for it. -/
theorem HasRoom.append {count : Nat} (h : HasRoom base factor size n (count + 1)) (hcarry : carry < factor) :
    HasRoom base factor size (factor * n + carry) count := by
  calc (factor * n + carry + 1) * factor ^ count
    _ ≤ (factor * n + factor) * factor ^ count := Nat.mul_le_mul_right _ (Nat.add_lt_add_left hcarry _)
    _ = (n + 1) * factor ^ (count + 1) := by
      rw [← Nat.mul_succ, Nat.mul_comm factor, Nat.mul_assoc, ← Nat.pow_succ']
    _ ≤ base ^ size := h

theorem HasRoom.lt {count : Nat} (h : HasRoom base factor size n count) (hfactor : 0 < factor) : n < base ^ size :=
  Nat.le_trans (Nat.le_mul_of_pos_right (n + 1) (Nat.pow_pos hfactor)) h

/-! ## Writing -/

/-- Appends digits, the most significant first, to the number in a buffer. -/
def appendIn? (base factor : Nat) : (buffer : Bytes) → (length : Nat) → (digits : List Nat) → Option (Bytes × Nat)
  | buffer, length, [] => some (buffer, length)
  | buffer, length, d :: rest => do
    let (buffer, length) ← mulAddIn? base factor buffer length d
    appendIn? base factor buffer length rest

def letter? (digit : UInt8) : Option Char :=
  alphabet[digit.toNat]?

def encodeBase58? (data : Bytes) : Option String := do
  let zeros := data.takeWhile (· == 0)
  let rest := data.dropWhile (· == 0)
  let size := rest.length * 138 / 100 + 1
  let (buffer, length) ← appendIn? 58 256 (List.replicate size 0) 0 (rest.map UInt8.toNat)
  let digits ← significant? buffer length
  let letters ← (digits.dropWhile (· == 0)).mapM letter?
  return String.ofList (zeros.map (fun _ ↦ '1') ++ letters)

/-- A digit is appended in place, without a carry that is left over. -/
theorem appendIn?_eq (hbase : 1 < base) (hbyte : base ≤ 256) (hword : factor * base ≤ 2 ^ 32)
    (hdigits : ∀ d ∈ digits, d < factor) (hfactor : 0 < factor) (hroom : HasRoom base factor size n digits.length) :
    appendIn? base factor (places base size n) (Nat.digits base n).length digits =
      some (places base size (appendDigits factor n digits), (Nat.digits base (appendDigits factor n digits)).length) ∧
      appendDigits factor n digits < base ^ size := by
  induction digits generalizing n with
  | nil => exact ⟨rfl, hroom.lt hfactor⟩
  | cons d rest ih =>
    rw [List.forall_mem_cons] at hdigits
    have hnext := hroom.append hdigits.1
    rw [appendIn?, mulAddIn?_eq hbase hbyte hfactor hword hdigits.1 (hnext.lt hfactor), Option.bind_eq_bind,
      Option.bind_some, appendDigits_cons]
    exact ih hdigits.2 hnext

theorem mapM_letter?_eq (hdigits : ∀ d ∈ digits, d < 58) :
    (digits.map UInt8.ofNat).mapM letter? = some (digits.map digitChar) := by
  induction digits with
  | nil => rfl
  | cons d rest ih =>
    rw [List.forall_mem_cons] at hdigits
    have hletter : letter? (UInt8.ofNat d) = some (digitChar d) := by
      rw [letter?, UInt8.toNat_ofNat_of_lt' (Nat.lt_trans hdigits.1 (by decide)), getElem?_alphabet hdigits.1]
    rw [List.map_cons, List.mapM_cons, hletter, ih hdigits.2]
    rfl

/-- Whatever the number of bytes, no carry is lost. -/
theorem encodeBase58?_eq (data : Bytes) : encodeBase58? data = some (encode data) := by
  simp only [encodeBase58?, encode, encodeChars_eq, List.map_const']
  generalize data.dropWhile (· == 0) = rest
  have hdigits : ∀ d ∈ rest.map UInt8.toNat, d < 256 := fun d hd ↦ lt_of_mem_map_toNat hd
  have hsize : 11 * (rest.map UInt8.toNat).length ≤ 8 * (rest.length * 138 / 100 + 1) := by
    rw [List.length_map]
    omega
  have hratio : 256 ^ 8 ≤ 58 ^ 11 := by decide
  obtain ⟨happend, hlt⟩ := appendIn?_eq (by decide) (by decide) (by decide) hdigits (by decide)
    (hasRoom_zero (by decide) hratio hsize (by decide))
  rw [places_zero_eq, Nat.digits_zero, List.length_nil, ← toNatBig_eq_appendDigits] at happend
  rw [← toNatBig_eq_appendDigits] at hlt
  have hfirst : (numeral 58 UInt8.ofNat (Bytes.toNatBig rest)).head? ≠ some 0 :=
    head?_numeral (by decide) (fun d hd ↦ eq_zero_of_ofNat_eq d (Nat.lt_trans hd (by decide))) _
  have hletters : (numeral 58 UInt8.ofNat (Bytes.toNatBig rest)).mapM letter? =
      some (numeral 58 digitChar (Bytes.toNatBig rest)) := by
    apply mapM_letter?_eq
    intro d hd
    exact Nat.digits_lt_base (by decide) (List.mem_reverse.mp hd)
  rw [happend, Option.bind_eq_bind, Option.bind_some, significant?_places (by decide) hlt,
    Option.bind_eq_bind, Option.bind_some, dropWhile_eq_self hfirst, hletters, Option.bind_eq_bind, Option.bind_some]
  rfl

example : encodeBase58? [0x00, 0x61] = some "12g" := by decide +kernel

/-! ## Reading -/

def decodeIn? (zeros maxLength : Nat) : (buffer : Bytes) → (length : Nat) → List Char →
    Option (Except Base58Error (Bytes × Nat))
  | buffer, length, [] => some (.ok (buffer, length))
  | buffer, length, c :: rest =>
    match digitValue? c with
    | none => some (.error .invalidCharacter)
    | some v => do
      let (buffer, length) ← mulAddIn? 256 58 buffer length v
      if length + zeros > maxLength then return .error .tooLong
      decodeIn? zeros maxLength buffer length rest

/-- The bytes that a text stands for, at most `maxLength` of them. -/
def decodeBase58? (text : String) (maxLength : Nat) : Option (Except Base58Error Bytes) := do
  let trimmed := trim isAsciiBlank text.toList
  let zeros := (trimmed.takeWhile (· == '1')).length
  let rest := trimmed.dropWhile (· == '1')
  if zeros > maxLength then return .error .tooLong
  let size := (rest.map Char.utf8Size).sum * 733 / 1000 + 1
  match ← decodeIn? zeros maxLength (List.replicate size 0) 0 rest with
  | .error e => return .error e
  | .ok (buffer, length) => return .ok (List.replicate zeros 0 ++ (← significant? buffer length))

/-- What is read into digits of any number, and the same with a buffer that loses none of them. -/
inductive IsRead (size : Nat) : Except Base58Error (List Nat) → Option (Except Base58Error (Bytes × Nat)) → Prop
  | error (e : Base58Error) : IsRead size (.error e) (some (.error e))
  | ok {n : Nat} (hn : n < 256 ^ size) : IsRead size (.ok (Nat.digits 256 n))
      (some (.ok (places 256 size n, (Nat.digits 256 n).length)))

/-- Reading in a buffer agrees with reading digits, by induction on the text. -/
theorem decodeIn?_isRead {zeros maxLength : Nat} (hzeros : zeros ≤ maxLength) {text : List Char}
    (hroom : HasRoom 256 58 size n text.length) :
    IsRead size (decodeDigits (maxLength - zeros) (Nat.digits 256 n) text)
      (decodeIn? zeros maxLength (places 256 size n) (Nat.digits 256 n).length text) := by
  induction text generalizing n with
  | nil => exact .ok (hroom.lt (by decide))
  | cons c rest ih =>
    cases hvalue : digitValue? c with
    | none =>
      rw [decodeDigits, decodeIn?, hvalue]
      exact .error _
    | some v =>
      obtain ⟨hv, rfl⟩ := digitValue?_eq_some_iff.mp hvalue
      have hnext := hroom.append hv
      have hlong : (Nat.digits 256 (58 * n + v)).length + zeros > maxLength ↔
          (Nat.digits 256 (58 * n + v)).length > maxLength - zeros := by omega
      rw [decodeDigits_digitChar hv, decodeIn?, hvalue]
      simp only
      rw [mulAddIn?_eq (by decide) (by decide) (by decide) (by decide) hv (hnext.lt (by decide)), Option.bind_eq_bind,
        Option.bind_some]
      by_cases hroom : (Nat.digits 256 (58 * n + v)).length > maxLength - zeros
      · rw [if_pos hroom, if_pos (hlong.mpr hroom)]
        exact .error _
      · rw [if_neg hroom, if_neg (fun h ↦ hroom (hlong.mp h))]
        exact ih hnext

/-- Nor is one lost in the other direction. A letter that is not in the alphabet may count for more than one byte,
which makes the buffer no smaller. -/
theorem decodeBase58?_eq (text : String) (maxLength : Nat) :
    decodeBase58? text maxLength = some (decode text maxLength) := by
  simp only [decodeBase58?, decode, decodeChars, List.map_const']
  generalize (trim isAsciiBlank text.toList).takeWhile (· == '1') = zeros
  generalize (trim isAsciiBlank text.toList).dropWhile (· == '1') = rest
  by_cases hmany : zeros.length > maxLength
  · rw [if_pos hmany, if_pos hmany]
    rfl
  · have hsize : 52 * rest.length ≤ 71 * ((rest.map Char.utf8Size).sum * 733 / 1000 + 1) := by
      have hbytes : (rest.map Char.utf8Size).length ≤ (rest.map Char.utf8Size).sum := by
        apply List.length_le_sum_of_one_le
        intro count hcount
        obtain ⟨c, -, rfl⟩ := List.mem_map.mp hcount
        exact c.utf8Size_pos
      rw [List.length_map] at hbytes
      omega
    have hratio : 58 ^ 71 ≤ 256 ^ 52 := by decide
    have hread := decodeIn?_isRead (Nat.le_of_not_gt hmany) (hasRoom_zero (by decide) hratio hsize (by decide))
    rw [places_zero_eq, Nat.digits_zero, List.length_nil] at hread
    rw [if_neg hmany, if_neg hmany]
    generalize decodeDigits (maxLength - zeros.length) [] rest = digits at hread ⊢
    generalize decodeIn? zeros.length maxLength _ 0 rest = buffer at hread ⊢
    cases hread with
    | error e => rfl
    | ok hn =>
      simp only [Option.bind_eq_bind, Option.bind_some, significant?_places (by decide) hn]
      rfl

end UtxoConsensus.Indexed
