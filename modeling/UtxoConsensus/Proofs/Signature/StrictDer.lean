import UtxoConsensus.Proofs.Bytes.TwosComplement
import UtxoConsensus.Proofs.Indexed.Encodings

/-!
# The grammar of strict DER

A signature in strict DER is a sequence of two integers that are natural numbers. Each of the three is written
with a tag and its length in front, and each integer in its shortest encoding in two's complement. The test for
it is compared with this grammar, in which nothing is said about positions.
-/

namespace UtxoConsensus.Encoding

open Bytes Indexed

variable {tag : UInt8} {contents integer after sig b : Bytes} {r s : Nat}

/-! ## The grammar -/

/-- Contents behind a tag and their length, which has one byte. -/
def IsTagged (tag : UInt8) (contents b : Bytes) : Prop :=
  ∃ size : UInt8, size.toNat = contents.length ∧ b = tag :: size :: contents

/-- A natural number in its shortest encoding. -/
def IsDerInteger (n : Nat) (b : Bytes) : Prop :=
  ∃ contents, IsShortestInteger contents n ∧ IsTagged 0x02 contents b

/-- Two natural numbers, one after the other. -/
def IsDerPair (r s : Nat) (sig : Bytes) : Prop :=
  ∃ integerR integerS, IsDerInteger r integerR ∧ IsDerInteger s integerS ∧
    IsTagged 0x30 (integerR ++ integerS) sig

/-! ## One reading -/

theorem IsTagged.contents_unique {tag' : UInt8} {contents contents' : Bytes} (h : IsTagged tag contents b)
    (h' : IsTagged tag' contents' b) : contents = contents' := by
  obtain ⟨size, -, rfl⟩ := h
  obtain ⟨size', -, hsame⟩ := h'
  cases hsame
  rfl

/-- A tag and contents determine the bytes. -/
theorem IsTagged.unique {b' : Bytes} (h : IsTagged tag contents b) (h' : IsTagged tag contents b') : b = b' := by
  obtain ⟨size, hsize, rfl⟩ := h
  obtain ⟨size', hsize', rfl⟩ := h'
  rw [UInt8.toNat_inj.mp (hsize.trans hsize'.symm)]

/-- A length in front tells where the contents end. -/
theorem IsTagged.eq_of_append_eq {contents' b' after' : Bytes} (h : IsTagged tag contents b)
    (h' : IsTagged tag contents' b') (hsame : b ++ after = b' ++ after') : b = b' ∧ after = after' := by
  obtain ⟨size, hsize, rfl⟩ := h
  obtain ⟨size', hsize', rfl⟩ := h'
  obtain ⟨-, hrest⟩ := List.cons.inj hsame
  obtain ⟨rfl, -⟩ := List.cons.inj hrest
  refine List.append_inj hsame ?_
  rw [List.length_cons, List.length_cons, List.length_cons, List.length_cons, ← hsize, ← hsize']

/-- An integer says itself where it ends. -/
theorem IsDerInteger.eq_of_append_eq {b' after' : Bytes} (h : IsDerInteger r b) (h' : IsDerInteger s b')
    (hsame : b ++ after = b' ++ after') : b = b' ∧ after = after' := by
  obtain ⟨_, -, htagged⟩ := h
  obtain ⟨_, -, htagged'⟩ := h'
  exact htagged.eq_of_append_eq htagged' hsame

theorem IsDerInteger.number_unique (h : IsDerInteger r b) (h' : IsDerInteger s b) : r = s := by
  obtain ⟨contents, hshort, htagged⟩ := h
  obtain ⟨contents', hshort', htagged'⟩ := h'
  obtain rfl := htagged.contents_unique htagged'
  exact Int.ofNat_inj.mp (hshort.denotes.symm.trans hshort'.denotes)

theorem IsDerInteger.unique {b' : Bytes} (h : IsDerInteger r b) (h' : IsDerInteger r b') : b = b' := by
  obtain ⟨contents, hshort, htagged⟩ := h
  obtain ⟨contents', hshort', htagged'⟩ := h'
  obtain rfl := hshort.unique hshort'
  exact htagged.unique htagged'

/-- A signature has one reading. -/
theorem IsDerPair.numbers_unique {r' s' : Nat} (h : IsDerPair r s sig) (h' : IsDerPair r' s' sig) :
    r = r' ∧ s = s' := by
  obtain ⟨integerR, integerS, hr, hs, htagged⟩ := h
  obtain ⟨integerR', integerS', hr', hs', htagged'⟩ := h'
  obtain ⟨rfl, rfl⟩ := hr.eq_of_append_eq hr' (htagged.contents_unique htagged')
  exact ⟨hr.number_unique hr', hs.number_unique hs'⟩

/-- Two numbers have one signature. -/
theorem IsDerPair.unique {other : Bytes} (h : IsDerPair r s sig) (h' : IsDerPair r s other) : sig = other := by
  obtain ⟨integerR, integerS, hr, hs, htagged⟩ := h
  obtain ⟨integerR', integerS', hr', hs', htagged'⟩ := h'
  obtain rfl := hr.unique hr'
  obtain rfl := hs.unique hs'
  exact htagged.unique htagged'

/-! ## The test -/

/-- The test of an integer takes off its contents, if they are not padded. -/
theorem strictInteger?_eq_some_iff :
    strictInteger? b = some (contents, after) ↔
      IsUnpadded contents ∧ ∃ integer, IsTagged 0x02 contents integer ∧ b = integer ++ after := by
  constructor
  · intro h
    unfold strictInteger? at h
    split at h
    · next tag size body =>
      obtain ⟨⟨rfl, hsize, hlength, hpositive, hshort⟩, hparts⟩ := Option.ite_none_right_eq_some.mp h
      cases hparts
      refine ⟨⟨?_, hpositive, hshort⟩, 0x02 :: size :: body.take size.toNat, ⟨size, hlength.symm, rfl⟩, ?_⟩
      · intro hnil
        rw [hnil] at hlength
        exact hsize (UInt8.toNat_inj.mp hlength.symm)
      · rw [List.cons_append, List.cons_append, List.take_append_drop]
    · cases h
  · rintro ⟨⟨hne, hpositive, hshort⟩, integer, ⟨size, hsize, rfl⟩, rfl⟩
    have htake : (contents ++ after).take size.toNat = contents := by rw [hsize, List.take_left]
    have hdrop : (contents ++ after).drop size.toNat = after := by rw [hsize, List.drop_left]
    have hsizeZero : size ≠ 0 := by
      rintro rfl
      exact hne (List.eq_nil_of_length_eq_zero hsize.symm)
    unfold strictInteger?
    dsimp only [List.cons_append]
    rw [htake, hdrop]
    exact if_pos ⟨rfl, hsizeZero, hsize.symm, hpositive, hshort⟩

theorem exists_strictInteger?_iff :
    (∃ contents, strictInteger? b = some (contents, after)) ↔
      ∃ n integer, IsDerInteger n integer ∧ b = integer ++ after := by
  simp only [strictInteger?_eq_some_iff, ← exists_isShortestInteger_iff]
  constructor
  · rintro ⟨contents, ⟨n, hshort⟩, integer, htagged, rfl⟩
    exact ⟨n, integer, ⟨contents, hshort, htagged⟩, rfl⟩
  · rintro ⟨n, integer, ⟨contents, hshort, htagged⟩, rfl⟩
    exact ⟨contents, ⟨n, hshort⟩, integer, htagged, rfl⟩

/-- A test of what an integer leaves. -/
theorem elim_strictInteger?_iff (next : Bytes → Bool) :
    ((strictInteger? b).elim false fun parts ↦ next parts.2) = true ↔
      ∃ n integer after, IsDerInteger n integer ∧ b = integer ++ after ∧ next after = true := by
  constructor
  · intro h
    cases hinteger : strictInteger? b with
    | none =>
      rw [hinteger] at h
      cases h
    | some parts =>
      rw [hinteger] at h
      obtain ⟨n, integer, hder, hsplit⟩ := exists_strictInteger?_iff.mp ⟨parts.1, hinteger⟩
      exact ⟨n, integer, parts.2, hder, hsplit, h⟩
  · rintro ⟨n, integer, after, hder, hsplit, hnext⟩
    obtain ⟨contents, hinteger⟩ := exists_strictInteger?_iff.mpr ⟨n, integer, hder, hsplit⟩
    rw [hinteger]
    exact hnext

theorem endsStrictly_iff : endsStrictly b = true ↔ ∃ s, IsDerInteger s b := by
  refine (elim_strictInteger?_iff List.isEmpty).trans ⟨?_, ?_⟩
  · rintro ⟨s, integer, after, hder, rfl, hempty⟩
    rw [List.isEmpty_iff.mp hempty, List.append_nil]
    exact ⟨s, hder⟩
  · rintro ⟨s, hder⟩
    exact ⟨s, b, [], hder, (List.append_nil b).symm, rfl⟩

/-- Two integers, and nothing behind them. -/
theorem isStrictPair_iff :
    isStrictPair b = true ↔
      ∃ r s integerR integerS, IsDerInteger r integerR ∧ IsDerInteger s integerS ∧ b = integerR ++ integerS := by
  refine (elim_strictInteger?_iff endsStrictly).trans ⟨?_, ?_⟩
  · rintro ⟨r, integerR, integerS, hr, rfl, hends⟩
    obtain ⟨s, hs⟩ := endsStrictly_iff.mp hends
    exact ⟨r, s, integerR, integerS, hr, hs, rfl⟩
  · rintro ⟨r, s, integerR, integerS, hr, hs, rfl⟩
    exact ⟨r, integerR, integerS, hr, rfl, endsStrictly_iff.mpr ⟨s, hs⟩⟩

/-- The test is the grammar, and a limit on the length. -/
theorem isStrictDer_iff : isStrictDer sig = true ↔ ∃ r s, IsDerPair r s sig ∧ sig.length ≤ 72 := by
  constructor
  · intro h
    match sig, h with
    | tag :: size :: body, h =>
      rw [isStrictDer_cons, Bool.and_eq_true, Bool.and_eq_true, Bool.and_eq_true, decide_eq_true_iff, beq_iff_eq,
        beq_iff_eq] at h
      obtain ⟨⟨⟨hlength, rfl⟩, hsize⟩, hpair⟩ := h
      obtain ⟨r, s, integerR, integerS, hr, hs, rfl⟩ := isStrictPair_iff.mp hpair
      exact ⟨r, s, ⟨integerR, integerS, hr, hs, size, hsize, rfl⟩, Nat.add_le_add_right hlength 2⟩
  · rintro ⟨r, s, ⟨integerR, integerS, hr, hs, size, hsize, rfl⟩, hlength⟩
    have hpair := isStrictPair_iff.mpr ⟨r, s, integerR, integerS, hr, hs, rfl⟩
    have hcontents : (integerR ++ integerS).length ≤ 70 :=
      Nat.le_of_succ_le_succ (Nat.le_of_succ_le_succ hlength)
    rw [isStrictDer_cons, hpair, hsize, beq_self_eq_true, beq_self_eq_true, decide_eq_true hcontents]
    rfl

/-- The signatures in strict DER are the pairs of natural numbers in DER that have at most 72 bytes. Such a
signature is of one pair, and such a pair has one signature. No byte is looked up outside of a signature to find
out. -/
theorem isStrictDer_grammar (sig : Bytes) :
    (isStrictDer sig = true ↔ ∃ r s, IsDerPair r s sig ∧ sig.length ≤ 72) ∧
      (∀ r s r' s', IsDerPair r s sig → IsDerPair r' s' sig → r = r' ∧ s = s') ∧
      (∀ r s other, IsDerPair r s sig → IsDerPair r s other → sig = other) ∧
      isStrictDer? sig = some (isStrictDer sig) :=
  ⟨isStrictDer_iff, fun _ _ _ _ ↦ IsDerPair.numbers_unique, fun _ _ _ ↦ IsDerPair.unique, isStrictDer?_eq sig⟩

/-- Zero has one byte, and 128 needs a zero in front. -/
theorem isStrictDer_grammar_zero :
    let sig : Bytes := [0x30, 0x07, 0x02, 0x01, 0x00, 0x02, 0x02, 0x00, 0x80]
    isStrictDer sig = true ∧ IsDerPair 0 128 sig ∧ (∀ r s, IsDerPair r s sig → r = 0 ∧ s = 128) ∧
      (∀ other, IsDerPair 0 128 other → other = sig) ∧ isStrictDer? sig = some true := by
  intro sig
  have hzero : IsUnpadded [0x00] := by decide
  have hlarge : IsUnpadded [0x00, 0x80] := by decide
  have hpair : IsDerPair 0 128 sig :=
    ⟨[0x02, 0x01, 0x00], [0x02, 0x02, 0x00, 0x80], ⟨_, hzero.isShortestInteger, 1, rfl, rfl⟩,
      ⟨_, hlarge.isShortestInteger, 2, rfl, rfl⟩, 7, rfl, rfl⟩
  obtain ⟨haccepted, hnumbers, hsignature, hlooked⟩ := isStrictDer_grammar sig
  have hstrict : isStrictDer sig = true := haccepted.mpr ⟨0, 128, hpair, by decide⟩
  rw [hstrict] at hlooked
  exact ⟨hstrict, hpair, fun r s h ↦ hnumbers r s 0 128 h hpair,
    fun other h ↦ (hsignature 0 128 other hpair h).symm, hlooked⟩

end UtxoConsensus.Encoding
