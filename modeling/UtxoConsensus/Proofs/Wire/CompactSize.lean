import UtxoConsensus.Proofs.Wire.Readers
import UtxoConsensus.Wire.CompactSize

/-!
# Compact sizes are read as they are written

Each number has one written form, the shortest. The three marked forms are one argument about a number
of a given width that must not be too small. Byte strings and lists follow: their length in front says
where they end.
-/

namespace UtxoConsensus.CompactSize

open Decoder

/-! ## Numbers -/

/-- Wide numbers are read only where a shorter form has no room for them. -/
theorem inverts_decodeWide (width smallest : Nat) (tooSmall : DecodeError) :
    (decodeWide width smallest tooSmall).Inverts (Bytes.ofNat width)
      fun n ↦ smallest ≤ n ∧ n < 256 ^ width := by
  intro unread n rest
  unfold decodeWide
  simp only [(inverts_number width).run_bind_eq_ok, run_unless_eq_ok, run_pure_eq_ok]
  constructor
  · rintro ⟨n, _, hn, rfl, hsmallest, rfl, rfl⟩
    exact ⟨⟨Nat.le_of_not_lt hsmallest, hn⟩, rfl⟩
  · rintro ⟨⟨hsmallest, hn⟩, rfl⟩
    exact ⟨n, rest, hn, rfl, Nat.not_lt_of_le hsmallest, rfl, rfl⟩

theorem encode_of_lt {n : Nat} (hn : n < 0xfd) : encode n = [UInt8.ofNat n] :=
  if_pos hn

theorem encode_two {n : Nat} (hmin : 0xfd ≤ n) (hmax : n < 256 ^ 2) :
    encode n = 0xfd :: Bytes.ofNat 2 n := by
  unfold encode
  rw [if_neg (by omega), if_pos (by omega)]

theorem encode_four {n : Nat} (hmin : 0x10000 ≤ n) (hmax : n < 256 ^ 4) :
    encode n = 0xfe :: Bytes.ofNat 4 n := by
  unfold encode
  rw [if_neg (by omega), if_neg (by omega), if_pos (by omega)]

theorem encode_eight {n : Nat} (hmin : 0x100000000 ≤ n) : encode n = 0xff :: Bytes.ofNat 8 n := by
  unfold encode
  rw [if_neg (by omega), if_neg (by omega), if_neg (by omega)]

/-- A number is read exactly in its shortest form. -/
theorem inverts_decodeShortest (longForm : DecodeError) :
    (decodeShortest longForm).Inverts encode fun n ↦ n < UInt64.size := by
  intro unread n rest
  have htwo := inverts_decodeWide 2 0xfd longForm
  have hfour := inverts_decodeWide 4 0x10000 longForm
  have height := inverts_decodeWide 8 0x100000000 longForm
  unfold decodeShortest
  rw [inverts_uint8.run_bind_eq_ok]
  constructor
  · rintro ⟨first, middle, -, rfl, hrest⟩
    split at hrest
    · next hmarker =>
      obtain ⟨⟨hmin, hmax⟩, rfl⟩ := htwo.run_eq_ok.mp hrest
      rw [encode_two hmin hmax, hmarker]
      exact ⟨Nat.lt_trans hmax (by decide), rfl⟩
    · split at hrest
      · next hmarker =>
        obtain ⟨⟨hmin, hmax⟩, rfl⟩ := hfour.run_eq_ok.mp hrest
        rw [encode_four hmin hmax, hmarker]
        exact ⟨Nat.lt_trans hmax (by decide), rfl⟩
      · split at hrest
        · next hmarker =>
          obtain ⟨⟨hmin, hmax⟩, rfl⟩ := height.run_eq_ok.mp hrest
          rw [encode_eight hmin, hmarker]
          exact ⟨Nat.lt_of_lt_of_eq hmax (by decide), rfl⟩
        · next htwo hfour height =>
          obtain ⟨rfl, rfl⟩ := run_pure_eq_ok.mp hrest
          rw [← UInt8.toNat_inj] at htwo hfour height
          have hsmall : first.toNat < 0xfd := by
            have hbyte : first.toNat < 256 := first.toNat_lt
            simp only [UInt8.reduceToNat] at htwo hfour height
            omega
          rw [encode_of_lt hsmall, UInt8.ofNat_toNat]
          exact ⟨Nat.lt_trans hsmall (by decide), rfl⟩
  · rintro ⟨hn, rfl⟩
    rcases Nat.lt_or_ge n 0xfd with hsmall | hmin
    · have hbyte : (UInt8.ofNat n).toNat = n :=
        UInt8.toNat_ofNat_of_lt (Nat.lt_trans hsmall (by decide))
      have hplain (marker : UInt8) (hmarker : 0xfd ≤ marker.toNat) : UInt8.ofNat n ≠ marker := by
        intro heq
        rw [← heq, hbyte] at hmarker
        omega
      refine ⟨UInt8.ofNat n, rest, trivial, ?_, ?_⟩
      · rw [encode_of_lt hsmall]
      · rw [if_neg (hplain _ (by decide)), if_neg (hplain _ (by decide)),
          if_neg (hplain _ (by decide)), run_pure_eq_ok]
        exact ⟨hbyte.symm, rfl⟩
    · rcases Nat.lt_or_ge n 0x10000 with hmax | hmin
      · rw [encode_two hmin hmax]
        exact ⟨0xfd, _, trivial, rfl, htwo.run_encode ⟨hmin, hmax⟩ rest⟩
      · rcases Nat.lt_or_ge n 0x100000000 with hmax | hmin
        · rw [encode_four hmin hmax]
          exact ⟨0xfe, _, trivial, rfl, hfour.run_encode ⟨hmin, hmax⟩ rest⟩
        · rw [encode_eight hmin]
          exact ⟨0xff, _, trivial, rfl, height.run_encode ⟨hmin, hn⟩ rest⟩

theorem inverts_decode : decode.Inverts encode fun n ↦ n ≤ maxSerializedSize := by
  intro unread n rest
  unfold decode
  simp only [(inverts_decodeShortest _).run_bind_eq_ok, run_unless_eq_ok, run_pure_eq_ok]
  constructor
  · rintro ⟨n, _, -, rfl, hmax, rfl, rfl⟩
    exact ⟨Nat.le_of_not_lt hmax, rfl⟩
  · rintro ⟨hmax, rfl⟩
    have hn : n < UInt64.size := Nat.lt_of_le_of_lt hmax (by decide)
    exact ⟨n, rest, hn, rfl, Nat.not_lt_of_le hmax, rfl, rfl⟩

/-! ## Byte strings and lists -/

/-- Byte strings up to the limit. -/
theorem inverts_decodeBytes :
    decodeBytes.Inverts encodeBytes fun b ↦ b.length ≤ maxSerializedSize := by
  intro unread b rest
  unfold decodeBytes encodeBytes
  simp only [inverts_decode.run_bind_eq_ok, (inverts_bytes _).run_eq_ok]
  constructor
  · rintro ⟨_, _, hlength, rfl, rfl, rfl⟩
    exact ⟨hlength, (List.append_assoc ..).symm⟩
  · rintro ⟨hlength, rfl⟩
    exact ⟨b.length, b ++ rest, hlength, List.append_assoc .., rfl, rfl⟩

/-- Lists up to the limit, item by item. -/
theorem inverts_decodeList {item : Decoder α} {encodeItem : α → Bytes} {good : α → Prop}
    (hitem : item.Inverts encodeItem good) :
    (decodeList item).Inverts (encodeList encodeItem)
      fun l ↦ l.length ≤ maxSerializedSize ∧ ∀ a ∈ l, good a := by
  intro unread l rest
  unfold decodeList encodeList
  simp only [inverts_decode.run_bind_eq_ok, (hitem.times _).run_eq_ok, List.flatMap_def]
  constructor
  · rintro ⟨_, _, hlength, rfl, ⟨rfl, hall⟩, rfl⟩
    exact ⟨⟨hlength, hall⟩, (List.append_assoc ..).symm⟩
  · rintro ⟨⟨hlength, hall⟩, rfl⟩
    exact ⟨l.length, _, hlength, List.append_assoc .., ⟨rfl, hall⟩, rfl⟩

/-- The length in front of a byte string says where it ends, also above the bound for reading. -/
theorem encodeBytes_append_inj {a b rest rest' : Bytes} (ha : a.length < UInt64.size)
    (hb : b.length < UInt64.size) (h : encodeBytes a ++ rest = encodeBytes b ++ rest') :
    a = b ∧ rest = rest' := by
  unfold encodeBytes at h
  rw [List.append_assoc, List.append_assoc] at h
  obtain ⟨hlength, htail⟩ := (inverts_decodeShortest .nonCanonicalSize).append_inj ha hb h
  exact List.append_inj htail hlength

end UtxoConsensus.CompactSize
