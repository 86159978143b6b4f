import UtxoConsensus.Proofs.Curve.WrittenKeys
import UtxoConsensus.Proofs.Script.Parsing
import UtxoConsensus.Proofs.Wire.VarInts
import UtxoConsensus.Script.Compressed

/-!
# Scripts are read from storage as they were stored

A script of a template is stored as the number of the template, which is below six, and the bytes that vary.
All others are stored after their length, to which six is added. The reader tells the two apart by the first
number. It makes the script of a template anew from the bytes that vary, of which a public key leaves out one
coordinate. Where another script comes close to a template, the bytes are kept.
-/

namespace UtxoConsensus.Script

open Curve

variable {script short payload : Bytes}

/-! ## Templates -/

theorem decompress?_keyHash (h : payload.length = 20) :
    decompress? 0 payload =
      some ([Opcode.dup, Opcode.hash160, 20] ++ payload ++ [Opcode.equalVerify, Opcode.checkSig]) := by
  rw [decompress?, if_neg (by simp [h, specialSize])]

theorem decompress?_scriptHash (h : payload.length = 20) :
    decompress? 1 payload = some ([Opcode.hash160, 20] ++ payload ++ [Opcode.equal]) := by
  rw [decompress?, if_neg (by simp [h, specialSize])]

theorem decompress?_shortKey {parity : UInt8} (hparity : parity = 0x02 ∨ parity = 0x03)
    (h : payload.length = 32) :
    decompress? parity.toNat payload = some ([33, parity] ++ payload ++ [Opcode.checkSig]) := by
  have hsize : ¬ (specialSize parity.toNat = 0 ∨ payload.length ≠ specialSize parity.toNat) := by
    rcases hparity with rfl | rfl <;> simp [h, specialSize]
  unfold decompress?
  rw [if_neg hsize]
  rcases hparity with rfl | rfl <;> rfl

/-- The y coordinate is found again from its parity, which the number of the template tells. -/
theorem decompress?_fullKey {a : Point} (h : a.isOnCurve = true) :
    decompress? (Point.parityByte 0x04 0x05 a.y).toNat (Bytes.ofNatBig 32 a.x) =
      some (65 :: a.uncompressed ++ [Opcode.checkSig]) := by
  have hkey := Point.parse?_compressed h
  unfold Point.compressed Point.parityByte at hkey
  unfold Point.parityByte decompress?
  split at hkey
  · next hodd =>
    rw [if_pos hodd, if_neg (by simp [specialSize])]
    exact Option.bind_eq_some_iff.mpr ⟨a, hkey, rfl⟩
  · next heven =>
    rw [if_neg heven, if_neg (by simp [specialSize])]
    exact Option.bind_eq_some_iff.mpr ⟨a, hkey, rfl⟩

/-! ## Short forms -/

/-- The number of a template, and the bytes from which its script is made anew. -/
def IsShortForm (script : Bytes) : Bytes → Prop
  | [] => False
  | id :: payload => id.toNat < specialScripts ∧ payload.length = specialSize id.toNat ∧
      decompress? id.toNat payload = some script

/-- Between what comes before and what comes after stand the bytes that vary. -/
theorem eq_of_surrounded {front back : Bytes} (start size : Nat) (htake : script.take start = front)
    (hdrop : script.drop (start + size) = back) :
    script = front ++ (script.drop start).take size ++ back := by
  rw [← htake, ← hdrop, List.append_assoc, ← List.drop_drop, List.take_append_drop, List.take_append_drop]

/-- A payment to the hash of a key is stored as this hash. -/
theorem isShortForm_of_isPayToKeyHash (h : isPayToKeyHash script = true) :
    IsShortForm script (0x00 :: (script.drop 3).take 20) := by
  simp only [isPayToKeyHash, Bool.and_eq_true, beq_iff_eq] at h
  obtain ⟨⟨hlength, htake⟩, hdrop⟩ := h
  have hsize : ((script.drop 3).take 20).length = 20 := by simp [hlength]
  refine ⟨by decide, hsize, (decompress?_keyHash hsize).trans ?_⟩
  rw [← eq_of_surrounded 3 20 htake hdrop]

/-- A payment to the hash of a script is stored as this hash. -/
theorem isShortForm_of_isPayToScriptHash (h : isPayToScriptHash script .none = true) :
    IsShortForm script (0x01 :: (script.drop 2).take 20) := by
  unfold isPayToScriptHash scriptHashKind? at h
  split at h
  · next hshort =>
    simp only [Bool.and_eq_true, beq_iff_eq] at hshort
    obtain ⟨⟨hlength, htake⟩, hdrop⟩ := hshort
    have hsize : ((script.drop 2).take 20).length = 20 := by simp [hlength]
    refine ⟨by decide, hsize, (decompress?_scriptHash hsize).trans ?_⟩
    rw [← eq_of_surrounded 2 20 htake hdrop]
  · cases h

/-- A short key is stored as it is. -/
theorem isShortForm_of_shortKey {parity : UInt8} {body : Bytes} (hlength : body.length = 33)
    (hdrop : body.drop 32 = [Opcode.checkSig]) (hparity : parity = 0x02 ∨ parity = 0x03) :
    IsShortForm (33 :: parity :: body) (parity :: body.take 32) := by
  have hsize : (body.take 32).length = 32 := by simp [hlength]
  refine ⟨?_, ?_, (decompress?_shortKey hparity hsize).trans ?_⟩
  · rcases hparity with rfl | rfl <;> decide
  · rcases hparity with rfl | rfl <;> exact hsize
  · rw [← hdrop, List.append_assoc, List.take_append_drop]
    rfl

/-! ### Full keys -/

theorem parity_of_lastByte (b : UInt8) : 0x04 ||| (b &&& 1) = if b.toNat % 2 = 1 then 0x05 else 0x04 := by
  revert b
  apply Bytes.forall_byte
  decide +kernel

/-- The last byte of a full key tells the parity of the y coordinate. -/
theorem parityByte_of_lastByte (a : Point) (after : Bytes) :
    0x04 ||| (((Bytes.ofNatBig 32 a.x ++ Bytes.ofNatBig 32 a.y ++ after).drop 63).headD 0 &&& 1) =
      Point.parityByte 0x04 0x05 a.y := by
  have hbefore : (Bytes.ofNatBig 32 a.x ++ Bytes.ofNatBig 31 (a.y / 256)).length = 63 := by simp
  have hlast : (Bytes.ofNatBig 32 a.x ++ Bytes.ofNatBig 32 a.y ++ after).drop 63 =
      UInt8.ofNat (a.y % 256) :: after := by
    rw [Bytes.ofNatBig_succ 31 a.y, ← List.append_assoc, List.append_assoc, List.drop_left' hbefore]
    rfl
  have hparity : (UInt8.ofNat (a.y % 256)).toNat % 2 = a.y % 2 := by
    simp
  rw [hlast, List.headD_cons, parity_of_lastByte, hparity]
  rfl

/-- A full key is stored by its first coordinate and a parity, as it lies on the curve. -/
theorem isShortForm_of_fullKey {body : Bytes} (hlength : body.length = 65)
    (hdrop : body.drop 64 = [Opcode.checkSig]) (hvalid : isValidKey (0x04 :: body.take 64) = true) :
    IsShortForm (65 :: 0x04 :: body)
      ((0x04 ||| ((body.drop 63).headD 0 &&& 1)) :: body.take 32) := by
  have hsize : (body.take 64).length = 64 := by simp [hlength]
  obtain ⟨a, ha⟩ := Option.isSome_iff_exists.mp hvalid
  obtain ⟨hcurve, hkey⟩ := Point.eq_uncompressed_of_parse? hsize ha
  -- The body is now written in the coordinates of the point, of which x and a parity are stored.
  have hbody : body = Bytes.ofNatBig 32 a.x ++ Bytes.ofNatBig 32 a.y ++ [Opcode.checkSig] := by
    rw [← (List.cons.inj hkey).2, ← hdrop, List.take_append_drop]
  have hx : body.take 32 = Bytes.ofNatBig 32 a.x := by
    rw [hbody, List.append_assoc, List.take_left' (Bytes.length_ofNatBig 32 a.x)]
  have hparity := parityByte_of_lastByte a [Opcode.checkSig]
  rw [← hbody] at hparity
  rw [hparity, hx, hbody]
  refine ⟨?_, ?_, decompress?_fullKey hcurve⟩
  · unfold Point.parityByte
    split <;> decide
  · unfold Point.parityByte
    split <;> exact Bytes.length_ofNatBig 32 a.x

/-- All templates. -/
theorem isShortForm_of_compress? (h : compress? script = some short) : IsShortForm script short := by
  unfold compress? at h
  split at h
  · next hkeyHash =>
    cases h
    exact isShortForm_of_isPayToKeyHash hkeyHash
  · split at h
    · next hscriptHash =>
      cases h
      exact isShortForm_of_isPayToScriptHash hscriptHash
    · split at h
      · split at h
        · next hkey =>
          cases h
          exact isShortForm_of_shortKey hkey.1 hkey.2.1 hkey.2.2
        · cases h
      · dsimp only at h
        split at h
        · next hkey =>
          cases h
          exact isShortForm_of_fullKey hkey.1 hkey.2.1 hkey.2.2
        · cases h
      · cases h

/-! ## Reading -/

/-- A short form is read back. -/
theorem IsShortForm.run_decodeCompressed (h : IsShortForm script short) (rest : Bytes) :
    decodeCompressed.run (short ++ rest) = .ok script rest := by
  cases short with
  | nil => exact h.elim
  | cons id payload =>
    obtain ⟨hid, hsize, hscript⟩ := h
    have hfits : id.toNat < UInt64.size := Nat.lt_trans id.toNat_lt (by decide)
    have hencode : VarInt.encode id.toNat = [id] := by
      rw [VarInt.encode_of_lt (Nat.lt_trans hid (by decide)), UInt8.ofNat_toNat]
    unfold decodeCompressed
    rw [VarInt.inverts_decode.run_bind_eq_ok]
    refine ⟨id.toNat, payload ++ rest, hfits, by rw [hencode]; rfl, ?_⟩
    rw [if_pos hid, (Decoder.inverts_bytes _).run_bind_eq_ok]
    refine ⟨payload, rest, hsize, rfl, ?_⟩
    rw [hscript]
    rfl

/-- A script that follows its length. -/
theorem run_decodeCompressed_plain (hfits : script.length + specialScripts < UInt64.size) (rest : Bytes) :
    decodeCompressed.run (VarInt.encode (script.length + specialScripts) ++ script ++ rest) =
      .ok (if script.length > maxSize then [Opcode.ret] else script) rest := by
  unfold decodeCompressed
  rw [List.append_assoc, VarInt.inverts_decode.run_bind_eq_ok]
  refine ⟨script.length + specialScripts, script ++ rest, hfits, rfl, ?_⟩
  rw [if_neg (Nat.not_lt.mpr (Nat.le_add_left _ _)), Nat.add_sub_cancel,
    (Decoder.inverts_bytes _).run_bind_eq_ok]
  exact ⟨script, rest, rfl, rfl, rfl⟩

/-! ## Writing -/

theorem length_le_of_decompress? {id : Nat} (hsize : payload.length = specialSize id)
    (h : decompress? id payload = some script) : script.length ≤ 67 := by
  have hle : payload.length ≤ 32 := by
    rw [hsize]
    unfold specialSize
    split
    · decide
    · split <;> decide
  unfold decompress? at h
  split at h
  · cases h
  · split at h
    case h_5 =>
      obtain ⟨a, -, ha⟩ := Option.bind_eq_some_iff.mp h
      cases ha
      simp [Point.uncompressed]
    all_goals
      cases h
      simp only [List.length_append, List.length_cons, List.length_nil]
      omega

/-- No template has a long script. -/
theorem compress?_of_maxSize_lt (h : maxSize < script.length) : compress? script = none := by
  cases hshort : compress? script with
  | none => rfl
  | some short =>
    have hform := isShortForm_of_compress? hshort
    cases short with
    | nil => exact hform.elim
    | cons id payload =>
      have hle := length_le_of_decompress? hform.2.1 hform.2.2
      unfold maxSize at h
      omega

/-- Scripts that are not too long are read back, in their short form or in full. -/
theorem run_encodeCompressed (hlength : script.length ≤ maxSize) (rest : Bytes) :
    decodeCompressed.run (encodeCompressed script ++ rest) = .ok script rest := by
  unfold encodeCompressed
  cases hshort : compress? script with
  | some short => exact (isShortForm_of_compress? hshort).run_decodeCompressed rest
  | none =>
    have hfits : script.length + specialScripts < UInt64.size :=
      Nat.lt_of_le_of_lt (Nat.add_le_add_right hlength _) (by decide)
    exact (run_decodeCompressed_plain hfits rest).trans (by rw [if_neg (Nat.not_lt.mpr hlength)])

/-- Longer scripts are read back as a script that cannot be spent. -/
theorem run_encodeCompressed_of_maxSize_lt (hlength : maxSize < script.length)
    (hfits : script.length + specialScripts < UInt64.size) (rest : Bytes) :
    decodeCompressed.run (encodeCompressed script ++ rest) = .ok [Opcode.ret] rest := by
  unfold encodeCompressed
  rw [compress?_of_maxSize_lt hlength]
  exact (run_decodeCompressed_plain hfits rest).trans (by rw [if_pos hlength])

/-- **Scripts are read from storage as they were stored.** A script that can be run is read back, whether it is
of a template or not, and what follows it is left. So its stored form tells where it ends, and no other script
has the same one. A longer script, of any length that a word can hold, is read as one that always fails, and
what follows it is left as well. -/
theorem storedScripts_readBack :
    (∀ script : Bytes, script.length ≤ maxSize → ∀ rest : Bytes,
      decodeCompressed.run (encodeCompressed script ++ rest) = .ok script rest) ∧
    (∀ script other : Bytes, script.length ≤ maxSize → other.length ≤ maxSize → ∀ rest rest' : Bytes,
      encodeCompressed script ++ rest = encodeCompressed other ++ rest' ↔ script = other ∧ rest = rest') ∧
    ∀ script : Bytes, maxSize < script.length → script.length + specialScripts < UInt64.size →
      ∀ rest : Bytes,
        decodeCompressed.run (encodeCompressed script ++ rest) = .ok [Opcode.ret] rest := by
  refine ⟨fun _ hlength rest ↦ run_encodeCompressed hlength rest, ?_,
    fun _ hlength hfits rest ↦ run_encodeCompressed_of_maxSize_lt hlength hfits rest⟩
  intro script other hscript hother rest rest'
  constructor
  · intro h
    have hread := run_encodeCompressed hscript rest
    rw [h, run_encodeCompressed hother rest', EStateM.Result.ok.injEq] at hread
    exact ⟨hread.1.symm, hread.2.symm⟩
  · rintro ⟨rfl, rfl⟩
    rfl

/-- Payment to the full key of a point, except for the last byte of the key. -/
def keyScript (last : UInt8) : Bytes :=
  65 :: generator.uncompressed.dropLast ++ [last, Opcode.checkSig]

/-- One byte more than can be run. -/
def oversizedScript : Bytes :=
  List.replicate (maxSize + 1) 0x61

/-- With one last byte there is a point and with another there is none, so the one script is stored in 33 bytes
and the other whole. Neither can be taken for the other. -/
theorem storedScripts_readBack_keyScript :
    ((keyScript 0xb8).length ≤ maxSize ∧ (encodeCompressed (keyScript 0xb8)).length = 33 ∧
      decodeCompressed.run (encodeCompressed (keyScript 0xb8) ++ [1, 2]) = .ok (keyScript 0xb8) [1, 2]) ∧
    ((keyScript 0xb9).length ≤ maxSize ∧ (encodeCompressed (keyScript 0xb9)).length = 68 ∧
      decodeCompressed.run (encodeCompressed (keyScript 0xb9) ++ [1, 2]) = .ok (keyScript 0xb9) [1, 2]) ∧
    encodeCompressed (keyScript 0xb8) ++ [1, 2] ≠ encodeCompressed (keyScript 0xb9) ++ [1, 2] ∧
    maxSize < oversizedScript.length ∧ oversizedScript.length + specialScripts < UInt64.size ∧
      decodeCompressed.run (encodeCompressed oversizedScript ++ [1, 2]) = .ok [Opcode.ret] [1, 2] := by
  have hpoint : (keyScript 0xb8).length ≤ maxSize := by decide
  have hnone : (keyScript 0xb9).length ≤ maxSize := by decide
  have hne : keyScript 0xb8 ≠ keyScript 0xb9 := by decide
  have hlength : oversizedScript.length = maxSize + 1 := List.length_replicate
  have hlarge : maxSize < oversizedScript.length := by rw [hlength]; decide
  have hfits : oversizedScript.length + specialScripts < UInt64.size := by rw [hlength]; decide
  refine ⟨⟨hpoint, by decide +kernel, storedScripts_readBack.1 _ hpoint _⟩,
    ⟨hnone, by decide +kernel, storedScripts_readBack.1 _ hnone _⟩, ?_, hlarge, hfits,
    storedScripts_readBack.2.2 _ hlarge hfits _⟩
  intro h
  exact hne ((storedScripts_readBack.2.1 _ _ hpoint hnone _ _).mp h).1

end UtxoConsensus.Script
