import Mathlib.Data.Nat.Size
import UtxoConsensus.Proofs.Bytes.TwosComplement
import UtxoConsensus.Proofs.Word256.Addition
import UtxoConsensus.Proofs.Word256.Digits
import UtxoConsensus.Proofs.Word256.Multiplication

/-!
# Words are numbers below 2^256

Every operation on words is one on the numbers that they stand for. Sums and differences are taken modulo
2^256, and the carry or the borrow tells whether anything was lost by that. Products with a limb and shifts,
the order, the number of binary digits and the bytes in either order are those of the number.
-/

namespace UtxoConsensus.Word256

variable {a b : Word256}

/-! ## Carry and borrow -/

theorem toNat_overflowingAdd_mod (a b : Word256) :
    (overflowingAdd a b).1.toNat = (a.toNat + b.toNat) % 2 ^ 256 := by
  rw [← size_eq]
  exact toNat_add a b

/-- A carry is left exactly if the sum is no word. -/
theorem carry_iff (a b : Word256) : (overflowingAdd a b).2 = true ↔ 2 ^ 256 ≤ a.toNat + b.toNat := by
  have hsum := toNat_overflowingAdd a b
  have hlt := (overflowingAdd a b).1.toNat_lt
  rw [size_eq] at hsum hlt
  cases hcarry : (overflowingAdd a b).2 with
  | true =>
    rw [hcarry, Bool.toNat_true] at hsum
    exact iff_of_true rfl (by omega)
  | false =>
    rw [hcarry, Bool.toNat_false] at hsum
    exact iff_of_false (by decide) (by omega)

/-- The difference may be negative, and is then counted back from 2^256. -/
theorem toNat_overflowingSub_mod (a b : Word256) :
    ((overflowingSub a b).1.toNat : Int) = ((a.toNat : Int) - b.toNat) % (2 ^ 256 : Nat) := by
  have hdiff := toNat_sub_add a b
  have hlt := (overflowingSub a b).1.toNat_lt
  rw [size_eq] at hdiff hlt
  have hwrapped : (a.toNat : Int) - b.toNat = (overflowingSub a b).1.toNat -
      (2 ^ 256 : Nat) * (overflowingSub a b).2.toNat := by omega
  rw [hwrapped, Int.sub_mul_emod_self_left]
  exact (Int.emod_eq_of_lt (Int.natCast_nonneg _) (Int.ofNat_lt.mpr hlt)).symm

/-- A borrow is left exactly if the difference would be negative. -/
theorem borrow_iff (a b : Word256) : (overflowingSub a b).2 = true ↔ a.toNat < b.toNat := by
  have hdiff := toNat_sub_add a b
  have hlt := (overflowingSub a b).1.toNat_lt
  have hb := b.toNat_lt
  rw [size_eq] at hdiff hlt hb
  cases hborrow : (overflowingSub a b).2 with
  | true =>
    rw [hborrow, Bool.toNat_true] at hdiff
    exact iff_of_true rfl (by omega)
  | false =>
    rw [hborrow, Bool.toNat_false] at hdiff
    exact iff_of_false (by decide) (by omega)

/-! ## Order and length -/

theorem compare_eq (a b : Word256) : compare a b = compare a.toNat b.toNat := by
  rcases Nat.lt_trichotomy a.toNat b.toNat with hless | hsame | hmore
  · rw [Nat.compare_eq_lt.mpr hless]
    exact (lt_iff_toNat_lt a b).mpr hless
  · obtain rfl := toNat_inj.mp hsame
    rw [Nat.compare_eq_eq.mpr rfl]
    have hself := compare_swap a a
    cases hcompare : compare a a with
    | eq => rfl
    | lt | gt =>
      rw [hcompare] at hself
      cases hself
  · have hback : compare b a = .lt := (lt_iff_toNat_lt b a).mpr hmore
    rw [Nat.compare_eq_gt.mpr hmore, ← compare_swap b a, hback]
    rfl

theorem bits_eq_size (a : Word256) : a.bits = a.toNat.size := by
  apply Nat.le_antisymm
  · rw [bits_le_iff]
    exact Nat.lt_size_self _
  · rw [Nat.size_le]
    exact (bits_le_iff a a.bits).mp (Nat.le_refl _)

/-! ## Shifts by the whole word -/

theorem shiftLeft_whole (a : Word256) (count : Nat) : a.shiftLeft (256 + count) = zero := by
  rw [← toNat_inj, toNat_shiftLeft, Nat.pow_add, size_eq, Nat.mul_left_comm, Nat.mul_mod_right]
  rfl

theorem shiftRight_whole (a : Word256) (count : Nat) : a.shiftRight (256 + count) = zero := by
  have hnothing : a.toNat / 2 ^ 256 = 0 := Nat.div_eq_of_lt (size_eq ▸ a.toNat_lt)
  rw [← toNat_inj, toNat_shiftRight, Nat.pow_add, ← Nat.div_div_eq_div_mul, hnothing, Nat.zero_div]
  rfl

/-! ## Numbers -/

/-- Each limb takes the remainder by its base and leaves the quotient to the next one. -/
theorem toNat_ofNat {n : Nat} (hn : n < size) : (ofNat n).toNat = n := by
  have hlimb (m : Nat) : (UInt64.ofNat m).toNat = m % UInt64.size := UInt64.toNat_ofNat'
  have htop : n / UInt64.size / UInt64.size / UInt64.size < UInt64.size :=
    Nat.div_lt_of_lt_mul (Nat.div_lt_of_lt_mul (Nat.div_lt_of_lt_mul hn))
  simp only [ofNat, toNat, hlimb]
  rw [Nat.mod_eq_of_lt htop, Nat.mod_add_div, Nat.mod_add_div, Nat.mod_add_div]

/-! ## Bytes -/

/-- The bytes of the limbs, one limb after the other, are those of the number. -/
theorem toNat_toHash (a : Word256) : a.toHash.bytes.toNat = a.toNat := by
  have hlimb (x : UInt64) : (Bytes.ofUInt64 x).toNat = x.toNat := Bytes.toNat_ofNat x.toNat_lt
  have hbase : 256 ^ 8 = UInt64.size := rfl
  simp only [toHash, List.append_assoc, Bytes.toNat_append, hlimb, Bytes.length_ofUInt64, hbase, toNat]

theorem ofHash_toHash (a : Word256) : ofHash a.toHash = a := by
  rw [← toNat_inj, toNat_ofHash, toNat_toHash]

/-- Of 32 bytes each has its place in the number, so that they are found again. -/
theorem toHash_ofHash (h : Hash256) : (ofHash h).toHash = h := by
  apply Bytes.hash_injective
  rw [← Bytes.ofNat_toNat (ofHash h).toHash.bytes, ← Bytes.ofNat_toNat h.bytes, toNat_toHash, toNat_ofHash,
    Hash256.length_bytes, Hash256.length_bytes]

theorem length_toBytesBig (a : Word256) : a.toBytesBig.length = 32 := by
  rw [toBytesBig, List.length_reverse, a.toHash.length_bytes]

theorem toNatBig_toBytesBig (a : Word256) : Bytes.toNatBig a.toBytesBig = a.toNat := by
  rw [Bytes.toNatBig_eq_toNat_reverse, toBytesBig, List.reverse_reverse, toNat_toHash]

theorem toNat_ofHashBig (h : Hash256) : (ofHashBig h).toNat = Bytes.toNatBig h.bytes := by
  rw [ofHashBig, toNat_ofHash, Bytes.toNatBig_eq_toNat_reverse]

theorem ofHashBig_toBytesBig (a : Word256) : ofHashBig ⟨a.toBytesBig, length_toBytesBig a⟩ = a := by
  rw [← toNat_inj, toNat_ofHashBig, toNatBig_toBytesBig]

theorem toBytesBig_ofHashBig (h : Hash256) : (ofHashBig h).toBytesBig = h.bytes := by
  apply Bytes.eq_of_toNatBig_eq
  · rw [length_toBytesBig, h.length_bytes]
  · rw [toNatBig_toBytesBig, toNat_ofHashBig]

/-! ## All operations -/

/-- **Words compute with numbers modulo 2^256.** Carry and borrow tell whether a sum or a difference was
exact, a product is given exactly if it is a word, and writing in bytes and reading them are inverse to each
other, the bytes being the digits of the number in base 256. -/
theorem operations_refine (a b : Word256) (factor : UInt64) (count : Nat) (h : Hash256) :
    ((overflowingAdd a b).1.toNat = (a.toNat + b.toNat) % 2 ^ 256 ∧
      ((overflowingAdd a b).2 = true ↔ 2 ^ 256 ≤ a.toNat + b.toNat)) ∧
    (((overflowingSub a b).1.toNat : Int) = ((a.toNat : Int) - b.toNat) % (2 ^ 256 : Nat) ∧
      ((overflowingSub a b).2 = true ↔ a.toNat < b.toNat)) ∧
    ((∀ product, a.checkedMul factor = some product ↔ product.toNat = a.toNat * factor.toNat) ∧
      (a.checkedMul factor = none ↔ 2 ^ 256 ≤ a.toNat * factor.toNat)) ∧
    ((a.shiftLeft count).toNat = a.toNat * 2 ^ count % 2 ^ 256 ∧
      (a.shiftRight count).toNat = a.toNat / 2 ^ count) ∧
    (a.shiftLeft (256 + count) = zero ∧ a.shiftRight (256 + count) = zero) ∧
    compare a b = compare a.toNat b.toNat ∧
    a.bits = a.toNat.size ∧
    (a.toHash.bytes.toNat = a.toNat ∧ ofHash a.toHash = a ∧ (ofHash h).toHash = h) ∧
    (Bytes.toNatBig a.toBytesBig = a.toNat ∧ ofHashBig ⟨a.toBytesBig, length_toBytesBig a⟩ = a ∧
      (ofHashBig h).toBytesBig = h.bytes) := by
  refine ⟨⟨toNat_overflowingAdd_mod a b, carry_iff a b⟩, ⟨toNat_overflowingSub_mod a b, borrow_iff a b⟩,
    ⟨fun _ ↦ checkedMul_eq_some_iff, ?product⟩, ⟨?up, toNat_shiftRight a count⟩,
    ⟨shiftLeft_whole a count, shiftRight_whole a count⟩, compare_eq a b, bits_eq_size a,
    ⟨toNat_toHash a, ofHash_toHash a, toHash_ofHash h⟩,
    ⟨toNatBig_toBytesBig a, ofHashBig_toBytesBig a, toBytesBig_ofHashBig h⟩⟩
  case product =>
    rw [checkedMul_eq_none_iff, size_eq]
  case up =>
    rw [toNat_shiftLeft, size_eq]

end UtxoConsensus.Word256
