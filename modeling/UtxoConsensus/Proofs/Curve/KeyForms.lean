import UtxoConsensus.Curve.Verification
import UtxoConsensus.Signature.Encoding

/-!
# The first byte of a key

The written forms of public keys have two lengths, and the first byte of a key tells which. So where a
key is followed by other bytes it is clear where it ends. This holds of all keys under which a
signature has been verified, and of all keys that pass the rules for strict encoding.
-/

namespace UtxoConsensus.Curve

/-- The length of a key with the given first byte. -/
def keySize? (first : UInt8) : Option Nat :=
  if first = 0x02 ∨ first = 0x03 then some compressedKeySize
  else if first = 0x04 ∨ first = 0x06 ∨ first = 0x07 then some uncompressedKeySize
  else none

/-- A byte string whose length is the one that its first byte announces. -/
def HasKeyForm : Bytes → Prop
  | [] => False
  | first :: body => keySize? first = some (body.length + 1)

/-- Keys end where their first byte says. -/
theorem HasKeyForm.append_inj {key key' rest rest' : Bytes} (hkey : HasKeyForm key)
    (hkey' : HasKeyForm key') (h : key ++ rest = key' ++ rest') : key = key' ∧ rest = rest' := by
  cases key with
  | nil => exact hkey.elim
  | cons first body =>
    cases key' with
    | nil => exact hkey'.elim
    | cons first' body' =>
      rw [List.cons_append, List.cons_append] at h
      obtain ⟨rfl, -⟩ := List.cons.inj h
      have hsize : body.length + 1 = body'.length + 1 := Option.some.inj (hkey.symm.trans hkey')
      exact List.append_inj h hsize

/-- All that can be read as a key has the form of one. -/
theorem hasKeyForm_of_isValidKey {key : Bytes} (hvalid : isValidKey key = true) :
    HasKeyForm key := by
  cases key with
  | nil => cases hvalid
  | cons first body =>
    change (Point.parse? (first :: body)).isSome = true at hvalid
    change keySize? first = some (body.length + 1)
    by_cases hshort : body.length = 32
    · rw [Point.parse?, if_pos hshort] at hvalid
      split at hvalid
      · next hfirst =>
        rw [Bool.or_eq_true, decide_eq_true_iff, decide_eq_true_iff] at hfirst
        unfold keySize?
        rw [if_pos hfirst, hshort]
        rfl
      · cases hvalid
    · by_cases hlong : body.length = 64
      · rw [Point.parse?, if_neg hshort, if_pos hlong] at hvalid
        split at hvalid
        · next hfirst =>
          simp only [Bool.or_eq_true, decide_eq_true_eq] at hfirst
          rw [hlong]
          rcases hfirst with (rfl | rfl) | rfl <;> rfl
        · cases hvalid
      · rw [Point.parse?, if_neg hshort, if_neg hlong] at hvalid
        cases hvalid

/-- A signature is verified only under a key that can be read. -/
theorem isValidKey_of_verifySignature {sig key : Bytes} {message : Hash256}
    (hgood : verifySignature sig key message = true) : isValidKey key = true := by
  unfold isValidKey
  cases hparse : Point.parse? key with
  | some point => rfl
  | none =>
    unfold verifySignature verifySchnorr verifyEcdsa secp256k1 at hgood
    simp only [hparse] at hgood
    split at hgood
    · split at hgood <;> cases hgood
    · cases hgood

/-- A key for which a signature is good has one of the two forms. -/
theorem hasKeyForm_of_verifySignature {sig key : Bytes} {message : Hash256}
    (hgood : verifySignature sig key message = true) : HasKeyForm key :=
  hasKeyForm_of_isValidKey (isValidKey_of_verifySignature hgood)

theorem hasKeyForm_of_hasPlainKeyForm {key : Bytes} (hplain : Encoding.hasPlainKeyForm key = true) :
    HasKeyForm key := by
  unfold Encoding.hasPlainKeyForm at hplain
  cases key with
  | nil => cases hplain
  | cons first body =>
    change keySize? first = some (first :: body).length
    rw [List.headD_cons] at hplain
    split at hplain
    · next hlength =>
      rw [Bool.or_eq_true, beq_iff_eq, beq_iff_eq] at hplain
      unfold keySize?
      rw [if_pos hplain, hlength]
    · rw [Bool.and_eq_true, beq_iff_eq, beq_iff_eq] at hplain
      obtain ⟨hlength, rfl⟩ := hplain
      rw [hlength]
      rfl

end UtxoConsensus.Curve
