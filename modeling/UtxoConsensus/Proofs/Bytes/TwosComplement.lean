import Mathlib.Data.List.Induction
import Mathlib.Tactic.ByContra
import UtxoConsensus.Proofs.Bytes.FixedWidth

/-!
# Integers in two's complement

The integer that bytes stand for if the most significant one comes first and the highest bit of all counts
negatively. Of the encodings of an integer the shortest one has no more bytes than the sign needs. Those of
natural numbers are told from the others by their first two bytes.
-/

namespace UtxoConsensus.Bytes

variable {a b : Bytes} {first : UInt8} {more : Bytes} {n : Int}

/-! ## Most significant byte first -/

theorem toNatBig_concat (init : Bytes) (last : UInt8) :
    toNatBig (init ++ [last]) = 256 * toNatBig init + last.toNat := by
  unfold toNatBig
  rw [List.foldl_append]
  rfl

/-- By induction from the end, where bytes are read from and the least significant one stands. -/
theorem toNatBig_eq_toNat_reverse (b : Bytes) : toNatBig b = toNat b.reverse := by
  induction b using List.reverseRecOn with
  | nil => rfl
  | append_singleton init last ih =>
    rw [toNatBig_concat, List.reverse_concat, toNat, ih, Nat.add_comm]

theorem toNatBig_cons (first : UInt8) (more : Bytes) :
    toNatBig (first :: more) = toNatBig more + 256 ^ more.length * first.toNat := by
  rw [toNatBig_eq_toNat_reverse, List.reverse_cons, toNat_append, List.length_reverse,
    ← toNatBig_eq_toNat_reverse]
  rfl

theorem toNatBig_lt (b : Bytes) : toNatBig b < 256 ^ b.length := by
  rw [toNatBig_eq_toNat_reverse, ← List.length_reverse]
  exact toNat_lt b.reverse

theorem toNatBig_ofNatBig {width n : Nat} (hn : n < 256 ^ width) : toNatBig (ofNatBig width n) = n := by
  rw [toNatBig_eq_toNat_reverse, ofNatBig, List.reverse_reverse, toNat_ofNat hn]

theorem ofNatBig_toNatBig {width : Nat} (hlength : b.length = width) : ofNatBig width (toNatBig b) = b := by
  rw [toNatBig_eq_toNat_reverse, ofNatBig, ← hlength, ← List.length_reverse, ofNat_toNat, List.reverse_reverse]

theorem ofNatBig_succ (width n : Nat) :
    ofNatBig (width + 1) n = ofNatBig width (n / 256) ++ [UInt8.ofNat (n % 256)] := by
  rw [ofNatBig, ofNat, List.reverse_cons]
  rfl

/-- Bytes of one length are told apart by their numbers. -/
theorem eq_of_toNatBig_eq (hlength : a.length = b.length) (h : toNatBig a = toNatBig b) : a = b := by
  rw [toNatBig_eq_toNat_reverse, toNatBig_eq_toNat_reverse] at h
  rw [← List.reverse_inj, ← ofNat_toNat a.reverse, ← ofNat_toNat b.reverse, List.length_reverse,
    List.length_reverse, hlength, h]

/-! ## The sign -/

/-- The integer that bytes denote in two's complement. -/
def twosComplement (b : Bytes) : Int :=
  if 2 * toNatBig b < 256 ^ b.length then toNatBig b else toNatBig b - (256 ^ b.length : Nat)

/-- The upper half of the numbers has the highest bit set. -/
theorem two_mul_toNatBig_lt_iff : 2 * toNatBig (first :: more) < 256 ^ (first :: more).length ↔ first < 0x80 := by
  have hmore := toNatBig_lt more
  have hfirst : first < 0x80 ↔ first.toNat < 128 := UInt8.lt_iff_toNat_lt
  rw [toNatBig_cons, List.length_cons, Nat.pow_succ, hfirst]
  generalize 256 ^ more.length = unit at hmore ⊢
  constructor
  · intro h
    by_contra hlarge
    have hle : unit * 128 ≤ unit * first.toNat := Nat.mul_le_mul_left unit (Nat.le_of_not_lt hlarge)
    omega
  · intro h
    have hle : unit * first.toNat ≤ unit * 127 := Nat.mul_le_mul_left unit (Nat.le_of_lt_succ h)
    omega

theorem twosComplement_nonneg_iff : 0 ≤ twosComplement b ↔ 2 * toNatBig b < 256 ^ b.length := by
  have hlt := toNatBig_lt b
  unfold twosComplement
  split
  · next hsmall => exact iff_of_true (Int.natCast_nonneg _) hsmall
  · next hlarge => exact iff_of_false (by omega) hlarge

theorem toNatBig_of_twosComplement {n : Nat} (h : twosComplement b = n) : toNatBig b = n := by
  have hsmall := twosComplement_nonneg_iff.mp (h ▸ Int.natCast_nonneg n)
  unfold twosComplement at h
  rw [if_pos hsmall] at h
  exact Int.ofNat_inj.mp h

theorem twosComplement_cons (h : first < 0x80) : twosComplement (first :: more) = toNatBig (first :: more) :=
  if_pos (two_mul_toNatBig_lt_iff.mpr h)

/-! ## Shortest encodings -/

/-- An encoding of an integer, of at least one byte, that is shorter than all its other encodings. -/
structure IsShortestInteger (b : Bytes) (n : Int) : Prop where
  ne_nil : b ≠ []
  denotes : twosComplement b = n
  shorter : ∀ other, other ≠ [] → twosComplement other = n → other ≠ b → b.length < other.length

/-- An integer has one shortest encoding. -/
theorem IsShortestInteger.unique (ha : IsShortestInteger a n) (hb : IsShortestInteger b n) : a = b := by
  by_contra hne
  exact Nat.lt_asymm (ha.shorter b hb.ne_nil hb.denotes (Ne.symm hne)) (hb.shorter a ha.ne_nil ha.denotes hne)

/-- The first byte leaves the highest bit to the sign, and is a zero only if it is the only one or the second
byte would not. -/
def IsUnpadded (b : Bytes) : Prop :=
  b ≠ [] ∧ b.headD 0 < 0x80 ∧ ¬ (1 < b.length ∧ b.headD 0 = 0 ∧ (b.drop 1).headD 0 < 0x80)

instance : DecidablePred IsUnpadded := fun _ ↦ inferInstanceAs (Decidable (_ ∧ _ ∧ ¬ _))

/-- One byte less has no room for the number and its sign. -/
theorem IsUnpadded.pow_le (h : IsUnpadded (first :: more)) (hmore : more ≠ []) :
    256 ^ more.length ≤ 2 * toNatBig (first :: more) := by
  obtain ⟨second, rest, rfl⟩ := List.exists_cons_of_ne_nil hmore
  rw [toNatBig_cons]
  by_cases hzero : first = 0
  · have hsecond : ¬ 2 * toNatBig (second :: rest) < 256 ^ (second :: rest).length := fun hsmall ↦
      h.2.2 ⟨Nat.le_add_left 2 _, hzero, two_mul_toNatBig_lt_iff.mp hsmall⟩
    omega
  · have hpos : 0 < first.toNat := Nat.pos_of_ne_zero fun hfirst ↦ hzero (UInt8.toNat_inj.mp hfirst)
    have hle := Nat.mul_le_mul_left (256 ^ (second :: rest).length) hpos
    omega

/-- Without padding no byte can be saved. -/
theorem IsUnpadded.isShortestInteger (h : IsUnpadded b) : IsShortestInteger b (toNatBig b) where
  ne_nil := h.1
  denotes := by
    obtain ⟨first, more, rfl⟩ := List.exists_cons_of_ne_nil h.1
    exact twosComplement_cons h.2.1
  shorter other hother hdenotes hne := by
    have hnumber := toNatBig_of_twosComplement hdenotes
    have hsmall := twosComplement_nonneg_iff.mp (hdenotes ▸ Int.natCast_nonneg _)
    obtain ⟨first, more, rfl⟩ := List.exists_cons_of_ne_nil h.1
    by_contra hlong
    rcases Nat.lt_or_eq_of_le (Nat.le_of_not_lt hlong) with hlt | heq
    · have hle : other.length ≤ more.length := Nat.le_of_lt_succ hlt
      have hmore : more ≠ [] := by
        rintro rfl
        exact hother (List.eq_nil_of_length_eq_zero (Nat.eq_zero_of_le_zero hle))
      have hroom := h.pow_le hmore
      have hpow : 256 ^ other.length ≤ 256 ^ more.length := Nat.pow_le_pow_right (by decide) hle
      omega
    · exact hne (eq_of_toNatBig_eq heq hnumber)

/-- A shortest encoding has no padding. -/
theorem IsShortestInteger.isUnpadded {n : Nat} (h : IsShortestInteger b n) : IsUnpadded b := by
  obtain ⟨first, more, rfl⟩ := List.exists_cons_of_ne_nil h.ne_nil
  have hfirst : first < 0x80 :=
    two_mul_toNatBig_lt_iff.mp (twosComplement_nonneg_iff.mp (h.denotes ▸ Int.natCast_nonneg n))
  refine ⟨h.ne_nil, hfirst, ?_⟩
  rintro ⟨hlength, hzero, hsecond⟩
  obtain ⟨second, rest, rfl⟩ := List.exists_cons_of_length_pos (Nat.lt_of_succ_lt_succ hlength)
  obtain rfl : first = 0 := hzero
  have hsecond : second < 0x80 := hsecond
  -- Without the zero the bytes would stand for the same integer.
  have hsame : twosComplement (second :: rest) = n := by
    rw [← h.denotes, twosComplement_cons hsecond, twosComplement_cons hfirst, toNatBig_cons 0]
    rfl
  have hshorter := h.shorter (second :: rest) (List.cons_ne_nil _ _) hsame (List.cons_ne_self _ _).symm
  exact Nat.not_lt_of_lt (Nat.lt_succ_self _) hshorter

/-- The shortest encodings of natural numbers. -/
theorem exists_isShortestInteger_iff : (∃ n : Nat, IsShortestInteger b n) ↔ IsUnpadded b :=
  ⟨fun ⟨_, h⟩ ↦ h.isUnpadded, fun h ↦ ⟨_, h.isShortestInteger⟩⟩

end UtxoConsensus.Bytes
