import UtxoConsensus.Curve.SecretKey
import UtxoConsensus.Proofs.Curve.KeyGroups
import UtxoConsensus.Proofs.Word256.JacobiSymbol

/-!
# Schnorr signatures verify

A signature `(r, s)` is accepted exactly if the point `s·G - e·P` has the x coordinate `r` and a y coordinate that
is a square other than zero. One that is made with a secret key is accepted under its public key. Of the two
points with one x coordinate exactly one has a square for y, because -1 is no square, and the nonce is negated
where the other one was drawn; the terms with the challenge cancel.
-/

namespace UtxoConsensus.Curve

open Bytes

variable {Key P : Type} [AddCommGroup P] {group : KeyGroup Key} {key? : P → Option Key} {base p : P} {a : Key}
  {sig : Bytes} {message : Hash256} {y : Nat}

/-! ## Squares -/

/-- Euler's criterion is what the test computes. -/
theorem isSquare_iff_legendreSym (hy : y < fieldPrime) : isSquare y = true ↔ legendreSym fieldPrime y = 1 := by
  have hfits : fieldPrime < Word256.size := by decide +kernel
  have hodd : (Word256.ofNat fieldPrime).toNat % 2 = 1 := by
    rw [Word256.toNat_ofNat hfits]
    decide +kernel
  rw [isSquare, beq_iff_eq, Word256.jacobi_eq _ _ hodd, Word256.toNat_ofNat hfits,
    Word256.toNat_ofNat (hy.trans hfits), jacobiSym.legendreSym.to_jacobiSym]

theorem isSquare_iff (hy : y < fieldPrime) :
    isSquare y = true ↔ IsSquare (y : ZMod fieldPrime) ∧ (y : ZMod fieldPrime) ≠ 0 := by
  rw [isSquare_iff_legendreSym hy]
  by_cases hzero : (y : ZMod fieldPrime) = 0
  · have hsymbol : legendreSym fieldPrime y = 0 :=
      (legendreSym.eq_zero_iff fieldPrime y).mpr (by rw [Int.cast_natCast, hzero])
    rw [hsymbol]
    exact iff_of_false (by decide) fun h ↦ h.2 hzero
  · rw [legendreSym.eq_one_iff' fieldPrime hzero]
    exact (and_iff_left hzero).symm

/-- The field prime is 3 modulo 4, so that -1 is no square. -/
theorem isSquare_negMod (hpos : 0 < y) (hy : y < fieldPrime) (h : ¬ isSquare y = true) :
    isSquare (negMod fieldPrime y) = true := by
  have hne : (y : ZMod fieldPrime) ≠ 0 := natCast_ne_zero hpos hy
  have hminus : legendreSym fieldPrime (-1) = -1 := by
    rw [legendreSym.at_neg_one (by decide +kernel)]
    exact ZMod.χ₄_nat_three_mod_four (by decide +kernel)
  have hsymbol : legendreSym fieldPrime y = -1 := by
    rw [isSquare_iff_legendreSym hy] at h
    exact (legendreSym.eq_one_or_neg_one fieldPrime (by rwa [Int.cast_natCast])).resolve_left h
  have hcast : ((negMod fieldPrime y : ℤ) : ZMod fieldPrime) = ((-1 * y : ℤ) : ZMod fieldPrime) := by
    rw [Int.cast_natCast, cast_negMod _ _ hy.le, Int.cast_mul, Int.cast_natCast, Int.cast_neg, Int.cast_one,
      neg_one_mul]
  have hlt : negMod fieldPrime y < fieldPrime := Nat.mod_lt _ fieldPrime_pos
  rw [isSquare_iff_legendreSym hlt, legendreSym, hcast, ← legendreSym, legendreSym.mul, hminus, hsymbol,
    neg_one_mul, neg_neg]

/-! ## Challenges -/

/-- The challenge of a signature: the hash of its first half, the short form of the key and the message, modulo
the order. -/
def challengeOf (group : KeyGroup Key) (sig : Bytes) (key : Key) (message : Hash256) : Nat :=
  toNatBig (Digest.sha256 (sig.take 32 ++ group.compressed key ++ message.bytes)).bytes % order

theorem challengeOf_lt : challengeOf group sig a message < order :=
  Nat.mod_lt _ (by decide +kernel)

/-- All hashes lie below twice the order. -/
theorem reduce_hash (h : Hash256) :
    (if toNatBig h.bytes ≥ order then toNatBig h.bytes - order else toNatBig h.bytes) =
      toNatBig h.bytes % order := by
  have hlt : toNatBig h.bytes < 256 ^ 32 := h.length_bytes ▸ toNatBig_lt h.bytes
  have htwice : 256 ^ 32 ≤ 2 * order := by decide +kernel
  split
  · next hge => rw [Nat.mod_eq_sub_mod hge, Nat.mod_eq_of_lt (by omega)]
  · next hlow => rw [Nat.mod_eq_of_lt (by omega)]

/-- The challenge hashes what stands in the signature. -/
theorem challenge_eq {r : Nat} (hr : ofNatBig 32 r = sig.take 32) :
    challenge group r a message = challengeOf group sig a message := by
  simp only [challenge, hr, reduce_hash, challengeOf]

/-! ## Verification -/

/-- What verification tells: for the key of `p` and the challenge `e` the point `s·G - e·P` has the x coordinate
`r`, and its y coordinate is a square other than zero. -/
structure IsSchnorrSignature (group : KeyGroup Key) (key? : P → Option Key) (base : P) (sig written : Bytes)
    (message : Hash256) : Prop where
  length : sig.length = 64
  r_lt : toNatBig (sig.take 32) < fieldPrime
  s_lt : toNatBig (sig.drop 32) < order
  equation : ∃ key p point, group.parse? written = some key ∧ key? p = some key ∧
    key? (toNatBig (sig.drop 32) • base - challengeOf group sig key message • p) = some point ∧
    group.x point = toNatBig (sig.take 32) ∧
    IsSquare (group.y point : ZMod fieldPrime) ∧ (group.y point : ZMod fieldPrime) ≠ 0

/-- The two terms of the verifier sum up to the point of the equation, also where one of them is at infinity. -/
theorem addTerms?_of_key (laws : group.Implements key? base) {s e : Nat} (hs : s < order) (he : e < order)
    (ha : key? p = some a) :
    addTerms? group (group.ofSecret? s) (group.multiply? (group.negate a) e) = key? (s • base - e • p) := by
  rw [laws.ofSecret?_of_lt hs, laws.multiply?_of_lt he (laws.negate_eq p a ha), laws.addTerms?_eq, smul_neg,
    ← sub_eq_add_neg]

/-- The key that is read stands for one element of the group only. -/
theorem isSchnorrSignature_iff (laws : group.Implements key? base) {written : Bytes}
    (hlength : sig.length = 64) (hr : toNatBig (sig.take 32) < fieldPrime) (hs : toNatBig (sig.drop 32) < order)
    (hparse : group.parse? written = some a) (ha : key? p = some a) :
    IsSchnorrSignature group key? base sig written message ↔
      ∃ point, key? (toNatBig (sig.drop 32) • base - challengeOf group sig a message • p) = some point ∧
        group.x point = toNatBig (sig.take 32) ∧ isSquare (group.y point) = true := by
  constructor
  · intro hsigned
    obtain ⟨key, q, point, hkey, hq, hpoint, hx, hsquare⟩ := hsigned.equation
    obtain rfl : a = key := Option.some.inj (hparse.symm.trans hkey)
    obtain rfl : p = q := laws.key?_injective (ha.trans hq.symm)
    exact ⟨point, hpoint, hx, (isSquare_iff (laws.coordinates_lt _ _ hpoint).2).mpr hsquare⟩
  · rintro ⟨point, hpoint, hx, hsquare⟩
    exact ⟨hlength, hr, hs, a, p, point, hparse, ha, hpoint, hx,
      (isSquare_iff (laws.coordinates_lt _ _ hpoint).2).mp hsquare⟩

/-- A signature is good exactly if it meets the equation in the group. -/
theorem verifySchnorr_iff (laws : group.Implements key? base) (sig written : Bytes) (message : Hash256) :
    verifySchnorr group sig written message = true ↔
      IsSchnorrSignature group key? base sig written message := by
  rw [verifySchnorr]
  by_cases hform : sig.length = schnorrSignatureSize ∧ toNatBig (sig.take 32) < fieldPrime ∧
      toNatBig (sig.drop 32) < order
  · rw [if_pos hform]
    obtain ⟨hlength, hr, hs⟩ := hform
    have hhalf : ofNatBig 32 (toNatBig (sig.take 32)) = sig.take 32 :=
      ofNatBig_toNatBig (List.length_take_of_le (hlength ▸ by decide))
    cases hparse : group.parse? written with
    | none =>
      refine iff_of_false Bool.false_ne_true fun hsigned ↦ ?_
      obtain ⟨key, -, -, hkey, -⟩ := hsigned.equation
      rw [hparse] at hkey
      cases hkey
    | some a =>
      obtain ⟨p, ha⟩ := laws.exists_of_parse? written a hparse
      rw [isSchnorrSignature_iff laws hlength hr hs hparse ha]
      simp only [challenge_eq hhalf, addTerms?_of_key laws hs challengeOf_lt ha]
      cases key? (toNatBig (sig.drop 32) • base - challengeOf group sig a message • p) with
      | none =>
        exact iff_of_false Bool.false_ne_true fun ⟨point, hnone, _⟩ ↦ Option.some_ne_none point hnone.symm
      | some point =>
        rw [Bool.and_eq_true, beq_iff_eq]
        exact ⟨fun haccepted ↦ ⟨point, rfl, haccepted⟩, fun ⟨_, hsame, haccepted⟩ ↦
          Option.some.inj hsame ▸ haccepted⟩
  · rw [if_neg hform]
    exact iff_of_false Bool.false_ne_true fun hsigned ↦ hform ⟨hsigned.length, hsigned.r_lt, hsigned.s_lt⟩

/-! ## Signing -/

/-- Nonces are found among scalars only. -/
theorem isScalar_of_findNonce? {secret nonce : Nat} (h : findNonce? secret message = some nonce) :
    isScalar nonce = true := by
  obtain ⟨attempt, -, hattempt⟩ := List.exists_of_findSome?_eq_some h
  rw [Option.ite_none_right_eq_some] at hattempt
  obtain ⟨hscalar, hnonce⟩ := hattempt
  exact Option.some.inj hnonce ▸ hscalar

/-- Of a nonce and its negation one belongs to a point whose y coordinate is a square; both have the same x
coordinate. -/
theorem exists_square_multiple (laws : group.Implements key? base) {nonce : Nat} (hnonce : isScalar nonce = true)
    (ha : group.ofSecret? nonce = some a) :
    ∃ point, key? ((if isSquare (group.y a) then nonce else order - nonce) • base) = some point ∧
      group.x point = group.x a ∧ isSquare (group.y point) = true := by
  obtain ⟨-, hlt⟩ := isScalar_iff.mp hnonce
  rw [laws.ofSecret?_of_lt hlt] at ha
  by_cases hsquare : isSquare (group.y a) = true
  · rw [if_pos hsquare]
    exact ⟨a, ha, rfl, hsquare⟩
  · rw [if_neg hsquare, laws.sub_nsmul_base hlt.le]
    refine ⟨group.negate a, laws.negate_eq _ a ha, laws.x_negate a, ?_⟩
    rw [laws.y_negate]
    exact isSquare_negMod (laws.y_pos ha) (laws.coordinates_lt _ _ ha).2 hsquare

/-- With `s = k + e·x` the terms with the challenge cancel. -/
theorem cancel_challenge (laws : group.Implements key? base) (k e secret : Nat) :
    ((k + e * secret) % order) • base - e • secret • base = k • base := by
  rw [laws.mod_order_nsmul, add_nsmul, mul_nsmul', add_sub_cancel_right]

/-- Both numbers are written in 32 bytes each, so that they are read back. -/
theorem written_halves {r s : Nat} (hr : r < fieldPrime) (hs : s < order)
    (hsig : ofNatBig 32 r ++ ofNatBig 32 s = sig) : sig.length = 64 ∧
      ofNatBig 32 r = sig.take 32 ∧ toNatBig (sig.take 32) = r ∧ toNatBig (sig.drop 32) = s := by
  have hfits : s < 256 ^ 32 := Nat.lt_trans hs (by decide +kernel)
  have htake : sig.take 32 = ofNatBig 32 r := hsig ▸ List.take_left' (length_ofNatBig _ _)
  have hdrop : sig.drop 32 = ofNatBig 32 s := hsig ▸ List.drop_left' (length_ofNatBig _ _)
  rw [htake, hdrop, toNatBig_ofNatBig (Point.lt_of_lt_fieldPrime hr), toNatBig_ofNatBig hfits]
  refine ⟨?_, rfl, rfl, rfl⟩
  rw [← hsig, List.length_append, length_ofNatBig, length_ofNatBig]

/-- What was signed verifies, under the written key of the secret. -/
theorem verifySchnorr_of_signSchnorr? (laws : group.Implements key? base) {secret : Nat}
    (hsecret : isScalar secret = true) (hsig : signSchnorr? group secret message = some sig) :
    ∃ key, group.ofSecret? secret = some key ∧ key? (secret • base) = some key ∧
      ∀ written, group.parse? written = some key → verifySchnorr group sig written message = true := by
  rw [signSchnorr?] at hsig
  obtain ⟨key, hkey, hsig⟩ := Option.bind_eq_some_iff.mp hsig
  obtain ⟨nonce, hnonce, hsig⟩ := Option.bind_eq_some_iff.mp hsig
  obtain ⟨drawn, hdrawn, hsig⟩ := Option.bind_eq_some_iff.mp hsig
  obtain ⟨point, hpoint, hx, hsquare⟩ := exists_square_multiple laws (isScalar_of_findNonce? hnonce) hdrawn
  generalize (if isSquare (group.y drawn) then nonce else order - nonce) = k at hsig hpoint
  rw [Option.ite_none_left_eq_some, Option.some.injEq] at hsig
  have hsecretKey : key? (secret • base) = some key := by
    rw [← laws.ofSecret?_of_lt (isScalar_iff.mp hsecret).2, hkey]
  have hlt : group.x drawn < fieldPrime := hx ▸ (laws.coordinates_lt _ _ hpoint).1
  have hslt : (k + challenge group (group.x drawn) key message * secret) % order < order :=
    Nat.mod_lt _ (by decide +kernel)
  obtain ⟨hlength, hhalf, hr, hs⟩ := written_halves hlt hslt hsig.2
  refine ⟨key, hkey, hsecretKey, fun written hparse ↦ (verifySchnorr_iff laws sig written message).mpr ?_⟩
  rw [isSchnorrSignature_iff laws hlength (hr.trans_lt hlt) (hs.trans_lt hslt) hparse hsecretKey, hr, hs,
    challenge_eq hhalf, cancel_challenge laws]
  exact ⟨point, hpoint, hx, hsquare⟩

/-! ## Both together -/

/-- What is signed is accepted, whichever form the public key has, and the equation alone tells what is accepted,
also for `s = 0` and for a challenge of zero. -/
theorem schnorr_signatures_verify (laws : group.Implements key? base) :
    (∀ (key : SecretKey) (message : Hash256) (sig : Bytes), key.signSchnorr group message = .ok sig →
      ∃ written, key.publicKey group = some written ∧ verifySchnorr group sig written message = true) ∧
    ∀ (sig written : Bytes) (message : Hash256), verifySchnorr group sig written message = true ↔
      IsSchnorrSignature group key? base sig written message := by
  refine ⟨fun secretKey message sig hsig ↦ ?_, verifySchnorr_iff laws⟩
  rw [SecretKey.signSchnorr] at hsig
  cases hfound : signSchnorr? group secretKey.scalar message with
  | none =>
    rw [hfound] at hsig
    cases hsig
  | some found =>
    rw [hfound] at hsig
    cases hsig
    obtain ⟨key, hkey, hpublic, hverified⟩ :=
      verifySchnorr_of_signSchnorr? laws secretKey.isScalar_scalar hfound
    rw [SecretKey.publicKey, hkey]
    refine ⟨_, rfl, hverified _ ?_⟩
    split
    · exact laws.parse?_compressed _ key hpublic
    · exact laws.parse?_uncompressed _ key hpublic

/-- The third multiple of the generator, written in 65 bytes. -/
def thirdKey : SecretKey :=
  ⟨3, false, by decide +kernel⟩

def zeroMessage : Hash256 :=
  ⟨List.replicate 32 0, List.length_replicate⟩

def zeroSignature : Bytes :=
  ofNatBig 32 0xc26d89d7858985699d56dd5d9309d9cb36152e83450fd079836db322245d6365 ++
    ofNatBig 32 0x3f8739d585cc0666abd78adf5ea7dfc5913cfb21d8ffcb52a5ae94686008017c

/-- The secret three signs the message of zeros. -/
theorem schnorr_signatures_verify_secp256k1 : secp256k1.Implements keyOf? basePoint ∧
    thirdKey.signSchnorr secp256k1 zeroMessage = .ok zeroSignature ∧
    (∃ written, thirdKey.publicKey secp256k1 = some written ∧
      verifySchnorr secp256k1 zeroSignature written zeroMessage = true) ∧
    (verifySchnorr secp256k1 zeroSignature generator.compressed zeroMessage = true ↔
      IsSchnorrSignature secp256k1 keyOf? basePoint zeroSignature generator.compressed zeroMessage) := by
  have hsigned : thirdKey.signSchnorr secp256k1 zeroMessage = .ok zeroSignature := by
    decide +kernel
  obtain ⟨hverified, hiff⟩ := schnorr_signatures_verify implements_secp256k1
  exact ⟨implements_secp256k1, hsigned, hverified thirdKey zeroMessage zeroSignature hsigned,
    hiff zeroSignature generator.compressed zeroMessage⟩

end UtxoConsensus.Curve
