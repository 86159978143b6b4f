/-!
# Byte strings and 256-bit hashes

A byte string is a list of bytes. Integers are written with a fixed number of bytes, least
significant byte first, and read back by `Bytes.toNat`. A `Hash256` is a byte string that is known
to be 32 bytes long, kept in the order in which hash functions deliver it.
-/

namespace UtxoConsensus

abbrev Bytes := List UInt8

namespace Bytes

/-! ## Integers as bytes -/

/-- The `width` low bytes of `n`, least significant first. -/
def ofNat : (width n : Nat) → Bytes
  | 0, _ => []
  | width + 1, n => UInt8.ofNat (n % 256) :: ofNat width (n / 256)

/-- The number whose bytes, least significant first, are given. -/
def toNat : Bytes → Nat
  | [] => 0
  | b :: rest => b.toNat + 256 * toNat rest

/-- The `width` low bytes of `n`, most significant first. -/
def ofNatBig (width n : Nat) : Bytes :=
  (ofNat width n).reverse

/-- The number whose bytes, most significant first, are given. -/
def toNatBig (b : Bytes) : Nat :=
  b.foldl (fun n byte ↦ 256 * n + byte.toNat) 0

def ofUInt16 (x : UInt16) : Bytes := ofNat 2 x.toNat
def ofUInt32 (x : UInt32) : Bytes := ofNat 4 x.toNat
def ofUInt64 (x : UInt64) : Bytes := ofNat 8 x.toNat

/-- Signed words are written in two's complement. -/
def ofInt32 (x : Int32) : Bytes := ofUInt32 x.toUInt32

@[inherit_doc ofInt32]
def ofInt64 (x : Int64) : Bytes := ofUInt64 x.toUInt64

@[simp] theorem length_ofNat (width n : Nat) : (ofNat width n).length = width := by
  induction width generalizing n with
  | zero => rfl
  | succ width ih => simp [ofNat, ih]

@[simp] theorem length_ofNatBig (width n : Nat) : (ofNatBig width n).length = width := by
  simp [ofNatBig]

/-! ## Parts of a byte string -/

/-- Consecutive blocks of `size` bytes; the last one holds what is left. -/
def blocks (size : Nat) (b : Bytes) : List Bytes :=
  if _h : size = 0 ∨ b = [] then []
  else b.take size :: blocks size (b.drop size)
termination_by b.length
decreasing_by
  have hb : 0 < b.length := List.length_pos_iff.2 (by simp_all)
  rw [List.length_drop]
  omega

theorem length_blocks {size : Nat} (hsize : 0 < size) (b : Bytes) :
    (blocks size b).length = (b.length + size - 1) / size := by
  fun_induction blocks size b with
  | case1 b h =>
    rcases h with rfl | rfl
    · exact absurd hsize (Nat.lt_irrefl 0)
    · simp [Nat.div_eq_of_lt (show size - 1 < size by omega)]
  | case2 b h ih =>
    have hlength : 0 < b.length := List.length_pos_iff.2 fun hb ↦ h (.inr hb)
    rw [List.length_cons, ih, List.length_drop]
    rcases Nat.lt_or_ge b.length size with hshort | hlong
    · have hone : (b.length + size - 1) / size = 1 := Nat.div_eq_of_lt_le (by omega) (by omega)
      rw [hone, Nat.sub_eq_zero_of_le (Nat.le_of_lt hshort), Nat.div_eq_of_lt (by omega)]
    · rw [← Nat.add_div_right _ hsize]
      congr 1
      omega

end Bytes

/-! ## Hashes -/

structure Hash256 where
  bytes : Bytes
  length_bytes : bytes.length = 32
deriving DecidableEq

namespace Hash256

/-- Eight bytes of a hash are enough to spread hashes over a table. -/
instance : Hashable Hash256 := ⟨fun h ↦ hash (h.bytes.take 8)⟩

def ofBytes? (b : Bytes) : Option Hash256 :=
  if h : b.length = 32 then some ⟨b, h⟩ else none

def filled (byte : UInt8) : Hash256 :=
  ⟨List.replicate 32 byte, List.length_replicate⟩

def zero : Hash256 := filled 0

instance : Inhabited Hash256 := ⟨zero⟩

end Hash256

end UtxoConsensus
