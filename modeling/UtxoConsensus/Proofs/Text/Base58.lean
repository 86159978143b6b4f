import Mathlib.Data.Set.Function
import UtxoConsensus.Proofs.Indexed.Base58

/-!
# Base58 texts and the bytes that they stand for

A text of letters is read as the bytes whose text it is, and as nothing else. What is read so far only grows, so
that a reader who stops as soon as it is too long refuses no text whose bytes are few enough in the end.
-/

namespace UtxoConsensus.Text.Base58

variable {room maxLength n : Nat} {digits out : List Nat} {text : List Char} {data payload : Bytes}

/-! ## Digits -/

/-- A number that has room at the end has room all the time. -/
theorem decodeDigits_map_digitChar (hdigits : ∀ d ∈ digits, d < 58)
    (hroom : (Nat.digits 256 (appendDigits 58 n digits)).length ≤ room) :
    decodeDigits room (Nat.digits 256 n) (digits.map digitChar) = .ok (Nat.digits 256 (appendDigits 58 n digits)) := by
  induction digits generalizing n with
  | nil => rfl
  | cons d rest ih =>
    rw [List.forall_mem_cons] at hdigits
    rw [appendDigits_cons] at hroom ⊢
    have hsofar : (Nat.digits 256 (58 * n + d)).length ≤ room := by
      apply Nat.le_trans (Nat.le_length_digits_le 256 _ _ _) hroom
      exact le_appendDigits (by decide) _ rest
    rw [List.map_cons, decodeDigits_digitChar hdigits.1, if_neg (Nat.not_lt.mpr hsofar), ih hdigits.2 hroom]

/-- A text that is read consists of letters. -/
theorem exists_digits_of_decodeDigits (h : decodeDigits room (Nat.digits 256 n) text = .ok out)
    (hroom : (Nat.digits 256 n).length ≤ room) :
    ∃ digits, (∀ d ∈ digits, d < 58) ∧ text = digits.map digitChar ∧
      out = Nat.digits 256 (appendDigits 58 n digits) ∧ out.length ≤ room := by
  induction text generalizing n with
  | nil =>
    obtain rfl : Nat.digits 256 n = out := Except.ok.inj h
    exact ⟨[], nofun, rfl, rfl, hroom⟩
  | cons c rest ih =>
    cases hvalue : digitValue? c with
    | none =>
      rw [decodeDigits, hvalue] at h
      cases h
    | some v =>
      obtain ⟨hv, rfl⟩ := digitValue?_eq_some_iff.mp hvalue
      rw [decodeDigits_digitChar hv] at h
      by_cases hlong : (Nat.digits 256 (58 * n + v)).length > room
      · rw [if_pos hlong] at h
        cases h
      · rw [if_neg hlong] at h
        obtain ⟨digits, hdigits, rfl, hout⟩ := ih h (Nat.le_of_not_gt hlong)
        exact ⟨v :: digits, List.forall_mem_cons.mpr ⟨hv, hdigits⟩, rfl, hout⟩

/-- A text that does not begin with the letter of zero is read as the number whose numeral it is. -/
theorem decodeDigits_eq_ok_iff (hfirst : text.head? ≠ some '1') : decodeDigits room [] text = .ok out ↔
    ∃ n, text = numeral 58 digitChar n ∧ out = Nat.digits 256 n ∧ out.length ≤ room := by
  constructor
  · intro h
    rw [← Nat.digits_zero 256] at h
    obtain ⟨digits, hdigits, rfl, hout⟩ := exists_digits_of_decodeDigits h (Nat.zero_le room)
    exact ⟨appendDigits 58 0 digits, (numeral_appendDigits (by decide) hdigits hfirst).symm, hout⟩
  · rintro ⟨n, rfl, rfl, hroom⟩
    have hdigits : ∀ d ∈ (Nat.digits 58 n).reverse, d < 58 :=
      fun d hd ↦ Nat.digits_lt_base (by decide) (List.mem_reverse.mp hd)
    have hvalue := appendDigits_reverse_digits 58 n
    rw [← hvalue] at hroom
    rw [← Nat.digits_zero 256, numeral, decodeDigits_map_digitChar hdigits hroom, hvalue]

/-! ## Texts -/

/-- Leading ones are read as zeros, and the rest as a number. -/
theorem decodeChars_eq (maxLength : Nat) (text : List Char) :
    decodeChars maxLength text =
      if ((trim isAsciiBlank text).takeWhile (· == '1')).length > maxLength then .error .tooLong
      else (decodeDigits (maxLength - ((trim isAsciiBlank text).takeWhile (· == '1')).length) []
        ((trim isAsciiBlank text).dropWhile (· == '1'))).map fun digits ↦
          List.replicate ((trim isAsciiBlank text).takeWhile (· == '1')).length 0 ++
            digits.reverse.map UInt8.ofNat := by
  simp only [decodeChars, List.map_const']
  split <;> rfl

/-- Without the blanks around it, what is read is the text of the bytes. -/
theorem decodeChars_eq_ok_iff : decodeChars maxLength text = .ok data ↔
    trim isAsciiBlank text = encodeChars data ∧ data.length ≤ maxLength := by
  rw [decodeChars_eq]
  generalize trim isAsciiBlank text = trimmed
  constructor
  · intro h
    by_cases hmany : (trimmed.takeWhile (· == '1')).length > maxLength
    · rw [if_pos hmany] at h
      cases h
    · rw [if_neg hmany] at h
      cases hread : decodeDigits (maxLength - (trimmed.takeWhile (· == '1')).length) []
          (trimmed.dropWhile (· == '1')) with
      | error e =>
        rw [hread] at h
        cases h
      | ok digits =>
        rw [hread] at h
        obtain ⟨n, hrest, rfl, hlength⟩ := (decodeDigits_eq_ok_iff (head?_dropWhile_ne '1' trimmed)).mp hread
        have hdata : List.replicate (trimmed.takeWhile (· == '1')).length 0 ++ numeral 256 UInt8.ofNat n = data :=
          Except.ok.inj h
        constructor
        · rw [← hdata, encodeChars_zeros_append, ← hrest, ← takeWhile_eq_replicate, List.takeWhile_append_dropWhile]
        · rw [← hdata, List.length_append, List.length_replicate, length_numeral]
          omega
  · rintro ⟨rfl, hlength⟩
    obtain ⟨zeros, n, rfl⟩ := exists_eq_zeros_append data
    have hfirst : (numeral 58 digitChar n).head? ≠ some '1' := head?_numeral (by decide) eq_zero_of_digitChar_eq n
    rw [List.length_append, List.length_replicate, length_numeral] at hlength
    rw [encodeChars_zeros_append, takeWhile_replicate_append hfirst, dropWhile_replicate_append hfirst,
      List.length_replicate, if_neg (by omega), (decodeDigits_eq_ok_iff hfirst).mpr ⟨n, rfl, rfl, by omega⟩]
    rfl

/-- A text is read if it is what is written of some data, but for the blanks around it. -/
theorem decode_eq_ok_iff {text : String} : decode text maxLength = .ok data ↔
    String.ofList (trim isAsciiBlank text.toList) = encode data ∧ data.length ≤ maxLength := by
  rw [decode, decodeChars_eq_ok_iff, encode, String.ofList_inj]

/-! ## Checked texts -/

theorem length_checksum (payload : Bytes) : (checksum payload).length = 4 := by
  rw [checksum, List.length_take, (Digest.doubleSha256 payload).length_bytes]
  rfl

/-- The last four bytes are compared with the checksum of the others. -/
theorem decodeChecked_of_decode {text : String} (h : decode text (maxLength + 4) = .ok data) :
    decodeChecked text maxLength =
      if data.length < 4 then .error .missingChecksum
      else if checksum (data.take (data.length - 4)) != data.drop (data.length - 4) then .error .checksumMismatch
      else .ok (data.take (data.length - 4)) := by
  rw [decodeChecked, h]
  rfl

/-- Four bytes more than the payload leave room for its checksum, and nothing else can be read as one. -/
theorem decodeChecked_eq_ok_iff {text : String} : decodeChecked text maxLength = .ok payload ↔
    String.ofList (trim isAsciiBlank text.toList) = encodeChecked payload ∧ payload.length ≤ maxLength := by
  have hlength : (payload ++ checksum payload).length = payload.length + 4 := by
    rw [List.length_append, length_checksum]
  constructor
  · intro h
    cases hdata : decode text (maxLength + 4) with
    | error e =>
      rw [decodeChecked, hdata] at h
      cases h
    | ok data =>
      rw [decodeChecked_of_decode hdata] at h
      by_cases hshort : data.length < 4
      · rw [if_pos hshort] at h
        cases h
      by_cases hsum : checksum (data.take (data.length - 4)) = data.drop (data.length - 4)
      · rw [if_neg hshort, if_neg (by rw [bne_iff_ne, not_not]; exact hsum)] at h
        obtain rfl := Except.ok.inj h
        rw [hsum, List.take_append_drop] at hlength
        have htext := decode_eq_ok_iff.mp hdata
        rw [encodeChecked, hsum, List.take_append_drop]
        exact ⟨htext.1, by omega⟩
      · rw [if_neg hshort, if_pos (bne_iff_ne.mpr hsum)] at h
        cases h
  · rintro ⟨htext, hroom⟩
    have hdata : decode text (maxLength + 4) = .ok (payload ++ checksum payload) :=
      decode_eq_ok_iff.mpr ⟨htext, by omega⟩
    rw [decodeChecked_of_decode hdata, if_neg (by omega), hlength, Nat.add_sub_cancel,
      List.take_left' rfl, List.drop_left' rfl, if_neg (by rw [bne_iff_ne, not_not])]

/-! ## All texts of letters -/

theorem mem_alphabet_iff {c : Char} : c ∈ alphabet ↔ ∃ d < 58, c = digitChar d := by
  constructor
  · intro hc
    cases hvalue : digitValue? c with
    | none => exact absurd hc (List.idxOf?_eq_none_iff.mp hvalue)
    | some d => exact ⟨d, digitValue?_eq_some_iff.mp hvalue⟩
  · rintro ⟨d, hd, rfl⟩
    exact List.mem_of_getElem? (getElem?_alphabet hd)

theorem isAsciiBlank_of_mem_alphabet {c : Char} (hc : c ∈ alphabet) : isAsciiBlank c = false := by
  have hletters : ∀ d < 58, isAsciiBlank (digitChar d) = false := by decide +kernel
  obtain ⟨d, hd, rfl⟩ := mem_alphabet_iff.mp hc
  exact hletters d hd

theorem mem_alphabet_of_mem_encodeChars {c : Char} (hc : c ∈ encodeChars data) : c ∈ alphabet := by
  rw [encodeChars_eq, List.mem_append] at hc
  rw [mem_alphabet_iff]
  cases hc with
  | inl hzero => exact ⟨0, by decide, List.eq_of_mem_replicate hzero⟩
  | inr hletter =>
    obtain ⟨d, hd, rfl⟩ := List.mem_map.mp hletter
    exact ⟨d, Nat.digits_lt_base (by decide) (List.mem_reverse.mp hd), rfl⟩

/-- Nothing is removed from the text of bytes. -/
theorem trim_encodeChars (data : Bytes) : trim isAsciiBlank (encodeChars data) = encodeChars data :=
  trim_of_not_blank fun _ hc ↦ isAsciiBlank_of_mem_alphabet (mem_alphabet_of_mem_encodeChars hc)

theorem decode_encode (hlength : data.length ≤ maxLength) : decode (encode data) maxLength = .ok data := by
  rw [decode_eq_ok_iff, encode, String.toList_ofList, trim_encodeChars]
  exact ⟨rfl, hlength⟩

theorem encode_injective : Function.Injective encode := by
  intro a b hsame
  have ha : decode (encode a) (max a.length b.length) = .ok a := decode_encode (Nat.le_max_left _ _)
  have hb : decode (encode b) (max a.length b.length) = .ok b := decode_encode (Nat.le_max_right _ _)
  rw [hsame, hb] at ha
  exact (Except.ok.inj ha).symm

theorem encodeChecked_injective : Function.Injective encodeChecked := by
  intro a b hsame
  apply List.append_inj_left' (encode_injective hsame)
  rw [length_checksum, length_checksum]

theorem exists_digits_of_mem_alphabet (htext : ∀ c ∈ text, c ∈ alphabet) :
    ∃ digits : List Nat, (∀ d ∈ digits, d < 58) ∧ text = digits.map digitChar := by
  induction text with
  | nil => exact ⟨[], nofun, rfl⟩
  | cons c rest ih =>
    rw [List.forall_mem_cons] at htext
    obtain ⟨d, hd, rfl⟩ := mem_alphabet_iff.mp htext.1
    obtain ⟨digits, hdigits, rfl⟩ := ih htext.2
    exact ⟨d :: digits, List.forall_mem_cons.mpr ⟨hd, hdigits⟩, rfl⟩

/-- Letters of zero in front stand for as many zero bytes, and what follows them is a numeral. -/
theorem exists_encode_eq {text : String} (htext : ∀ c ∈ text.toList, c ∈ alphabet) : ∃ data, encode data = text := by
  have hletters : ∀ c ∈ text.toList.dropWhile (· == '1'), c ∈ alphabet :=
    fun c hc ↦ htext c ((List.dropWhile_sublist _).mem hc)
  obtain ⟨digits, hdigits, hrest⟩ := exists_digits_of_mem_alphabet hletters
  have hnumeral : numeral 58 digitChar (appendDigits 58 0 digits) = text.toList.dropWhile (· == '1') := by
    rw [hrest]
    exact numeral_appendDigits (by decide) hdigits (hrest ▸ head?_dropWhile_ne '1' text.toList)
  refine ⟨List.replicate (text.toList.takeWhile (· == '1')).length 0 ++
    numeral 256 UInt8.ofNat (appendDigits 58 0 digits), ?_⟩
  rw [encode, encodeChars_zeros_append, hnumeral, ← takeWhile_eq_replicate, List.takeWhile_append_dropWhile,
    String.ofList_toList]

/-- Every text of letters is the text of some data. -/
theorem bijOn_encode : Set.BijOn encode Set.univ {text | ∀ c ∈ text.toList, c ∈ alphabet} := by
  refine ⟨?letters, encode_injective.injOn, ?onto⟩
  case letters =>
    intro data _ c hc
    rw [encode, String.toList_ofList] at hc
    exact mem_alphabet_of_mem_encodeChars hc
  case onto =>
    intro text htext
    obtain ⟨data, hdata⟩ := exists_encode_eq htext
    exact ⟨data, Set.mem_univ data, hdata⟩

/-- **Base58 as a pair of bijective codecs.** Bytes are written as one letter of zero for each zero byte in front,
and then the digits in base 58 of the big-endian number that follows, the first of which is not zero. A text is read
as bytes, or as a checked payload, if and only if without the blanks around it it is the text of these bytes or of
this payload, and they are not too many. In neither direction a carry is lost at the end of the buffer, whatever the
length. Each text of letters is the text of exactly one byte string, and no two payloads share a checked text. -/
theorem codecs_bijective :
    (∀ data : Bytes, encode data = String.ofList (List.replicate (data.takeWhile (· == 0)).length '1' ++
        (Nat.digits 58 (Bytes.toNatBig (data.dropWhile (· == 0)))).reverse.map digitChar) ∧
      (Nat.digits 58 (Bytes.toNatBig (data.dropWhile (· == 0)))).reverse.head? ≠ some 0 ∧
      Indexed.encodeBase58? data = some (encode data)) ∧
    (∀ (text : String) (maxLength : Nat), Indexed.decodeBase58? text maxLength = some (decode text maxLength) ∧
      ∀ data, decode text maxLength = .ok data ↔
        String.ofList (trim isAsciiBlank text.toList) = encode data ∧ data.length ≤ maxLength) ∧
    (∀ (text : String) (maxLength : Nat) (payload : Bytes), decodeChecked text maxLength = .ok payload ↔
      String.ofList (trim isAsciiBlank text.toList) = encodeChecked payload ∧ payload.length ≤ maxLength) ∧
    Set.BijOn encode Set.univ {text | ∀ c ∈ text.toList, c ∈ alphabet} ∧
    Function.Injective encodeChecked := by
  refine ⟨?writing, ?reading, ?checked, bijOn_encode, encodeChecked_injective⟩
  case writing =>
    intro data
    refine ⟨?_, head?_reverse_digits 58 _, Indexed.encodeBase58?_eq data⟩
    rw [encode, encodeChars_eq, numeral]
  case reading =>
    intro text maxLength
    exact ⟨Indexed.decodeBase58?_eq text maxLength, fun data ↦ decode_eq_ok_iff⟩
  case checked =>
    intro text maxLength payload
    exact decodeChecked_eq_ok_iff

end UtxoConsensus.Text.Base58
