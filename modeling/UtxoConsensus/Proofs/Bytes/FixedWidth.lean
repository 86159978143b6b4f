import Mathlib.Algebra.Group.Nat.Defs
import UtxoConsensus.Bytes.Basic

/-!
# Numbers of a fixed width

A number that fits its width can be read back from its bytes, and every byte string is the written
form of the number that it stands for. So the words that are written on the wire can be told from their
bytes.
-/

namespace UtxoConsensus.Bytes

theorem toNat_lt (b : Bytes) : b.toNat < 256 ^ b.length := by
  induction b with
  | nil => simp [toNat]
  | cons byte rest ih =>
    have hbyte : byte.toNat < 256 := byte.toNat_lt
    rw [toNat, List.length_cons, Nat.pow_succ]
    omega

theorem two_pow_eight_mul (place : Nat) : 2 ^ (8 * place) = 256 ^ place :=
  Nat.pow_mul 2 8 place

/-- The bytes in front are the less significant ones. -/
theorem toNat_append (a b : Bytes) : toNat (a ++ b) = toNat a + 256 ^ a.length * toNat b := by
  induction a with
  | nil =>
    change toNat b = 0 + 1 * toNat b
    rw [Nat.zero_add, Nat.one_mul]
  | cons byte rest ih =>
    change byte.toNat + 256 * toNat (rest ++ b) =
      byte.toNat + 256 * toNat rest + 256 ^ (rest.length + 1) * toNat b
    rw [ih, Nat.pow_succ, Nat.mul_comm _ 256, Nat.mul_add, Nat.mul_assoc, Nat.add_assoc]

/-- A zero that is the most significant byte does not count. -/
theorem toNat_concat_zero (b : Bytes) : toNat (b ++ [0]) = toNat b := by
  rw [toNat_append]
  rfl

theorem toNat_append_zeros (b : Bytes) (count : Nat) : toNat (b ++ List.replicate count 0) = toNat b := by
  induction count with
  | zero => rw [List.replicate_zero, List.append_nil]
  | succ count ih => rw [List.replicate_succ', ← List.append_assoc, toNat_concat_zero, ih]

theorem toNat_ofNat {width n : Nat} (hn : n < 256 ^ width) : (ofNat width n).toNat = n := by
  induction width generalizing n with
  | zero =>
    rw [Nat.pow_zero, Nat.lt_one_iff] at hn
    rw [hn]
    rfl
  | succ width ih =>
    rw [Nat.pow_succ] at hn
    have hlow : (UInt8.ofNat (n % 256)).toNat = n % 256 := by simp
    have hhigh : (ofNat width (n / 256)).toNat = n / 256 := ih (by omega)
    rw [ofNat, toNat, hlow, hhigh]
    omega

theorem ofNat_toNat (b : Bytes) : ofNat b.length b.toNat = b := by
  induction b with
  | nil => rfl
  | cons byte rest ih =>
    have hbyte : byte.toNat < 256 := byte.toNat_lt
    have hlow : (byte.toNat + 256 * toNat rest) % 256 = byte.toNat := by omega
    have hhigh : (byte.toNat + 256 * toNat rest) / 256 = toNat rest := by omega
    rw [List.length_cons, toNat, ofNat, hlow, hhigh, ih, UInt8.ofNat_toNat]

/-- Numbers that fit are told apart by their bytes. -/
theorem ofNat_inj {width m n : Nat} (hm : m < 256 ^ width) (hn : n < 256 ^ width)
    (h : ofNat width m = ofNat width n) : m = n := by
  rw [← toNat_ofNat hm, ← toNat_ofNat hn, h]

/-- What holds of each of the 256 bytes holds of every byte. -/
theorem forall_byte {p : UInt8 → Prop} (h : ∀ n < 256, p (UInt8.ofNat n)) (byte : UInt8) : p byte := by
  have hbyte := h byte.toNat byte.toNat_lt
  rwa [UInt8.ofNat_toNat] at hbyte

/-! ## Words -/

@[simp] theorem length_ofUInt32 (x : UInt32) : (ofUInt32 x).length = 4 := length_ofNat _ _

@[simp] theorem length_ofUInt64 (x : UInt64) : (ofUInt64 x).length = 8 := length_ofNat _ _

@[simp] theorem length_ofInt32 (x : Int32) : (ofInt32 x).length = 4 := length_ofNat _ _

@[simp] theorem length_ofInt64 (x : Int64) : (ofInt64 x).length = 8 := length_ofNat _ _

theorem ofUInt32_injective {x y : UInt32} (h : ofUInt32 x = ofUInt32 y) : x = y :=
  UInt32.toNat_inj.mp (ofNat_inj x.toNat_lt y.toNat_lt h)

theorem ofUInt64_injective {x y : UInt64} (h : ofUInt64 x = ofUInt64 y) : x = y :=
  UInt64.toNat_inj.mp (ofNat_inj x.toNat_lt y.toNat_lt h)

theorem ofInt32_injective {x y : Int32} (h : ofInt32 x = ofInt32 y) : x = y := by
  have hword : x.toUInt32 = y.toUInt32 := ofUInt32_injective h
  exact congrArg UInt32.toInt32 hword

theorem ofInt64_injective {x y : Int64} (h : ofInt64 x = ofInt64 y) : x = y := by
  have hword : x.toUInt64 = y.toUInt64 := ofUInt64_injective h
  exact congrArg UInt64.toInt64 hword

/-! ## Hashes -/

theorem hash_injective {a b : Hash256} (h : a.bytes = b.bytes) : a = b := by
  cases a with
  | mk bytes length_bytes =>
    subst h
    rfl

end UtxoConsensus.Bytes
