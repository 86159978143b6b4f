import UtxoConsensus.Bytes.Basic

/-!
# 256-bit words

Targets, chain work and the coordinates of curve points are unsigned 256-bit numbers, held as four
64-bit limbs. The value of a word is `Word256.toNat`; the limb operations carry and borrow between
limbs, and the small lemmas here say what single limbs do in terms of natural numbers.
-/

namespace UtxoConsensus

/-- An unsigned 256-bit number; `limb0` is the least significant limb. -/
@[ext]
structure Word256 where
  limb0 : UInt64
  limb1 : UInt64
  limb2 : UInt64
  limb3 : UInt64
deriving DecidableEq, Inhabited

namespace Word256

/-- The number of words. -/
abbrev size : Nat := UInt64.size * (UInt64.size * (UInt64.size * UInt64.size))

def toNat (a : Word256) : Nat :=
  a.limb0.toNat + UInt64.size * (a.limb1.toNat + UInt64.size * (a.limb2.toNat +
    UInt64.size * a.limb3.toNat))

/-- The 256 low bits of a number. -/
def ofNat (n : Nat) : Word256 :=
  ⟨UInt64.ofNat n, UInt64.ofNat (n / UInt64.size), UInt64.ofNat (n / UInt64.size / UInt64.size),
    UInt64.ofNat (n / UInt64.size / UInt64.size / UInt64.size)⟩

def ofUInt64 (x : UInt64) : Word256 := ⟨x, 0, 0, 0⟩

def zero : Word256 := ⟨0, 0, 0, 0⟩
def one : Word256 := ⟨1, 0, 0, 0⟩

def max : Word256 := ⟨0xffffffffffffffff, 0xffffffffffffffff, 0xffffffffffffffff, 0xffffffffffffffff⟩

def isZero (a : Word256) : Bool :=
  a.limb0 == 0 && a.limb1 == 0 && a.limb2 == 0 && a.limb3 == 0

/-! ## Order -/

/-- The highest limb in which two words differ decides. -/
instance : Ord Word256 where
  compare a b :=
    (compare a.limb3 b.limb3).then ((compare a.limb2 b.limb2).then
      ((compare a.limb1 b.limb1).then (compare a.limb0 b.limb0)))

instance : LT Word256 := ltOfOrd
instance : LE Word256 := leOfOrd

instance (a b : Word256) : Decidable (a < b) := inferInstanceAs (Decidable (compare a b = .lt))
instance (a b : Word256) : Decidable (a ≤ b) := inferInstanceAs (Decidable ((compare a b).isLE = true))

/-! ## Bits -/

/-- The number of binary digits of a limb. -/
def limbBits (x : UInt64) : Nat :=
  if x = 0 then 0 else x.toNat.log2 + 1

/-- The number of binary digits, 0 for zero. -/
def bits (a : Word256) : Nat :=
  if a.limb3 ≠ 0 then 192 + limbBits a.limb3
  else if a.limb2 ≠ 0 then 128 + limbBits a.limb2
  else if a.limb1 ≠ 0 then 64 + limbBits a.limb1
  else limbBits a.limb0

/-- The limb with the given index; zero above the word. -/
def limb (a : Word256) : Nat → UInt64
  | 0 => a.limb0
  | 1 => a.limb1
  | 2 => a.limb2
  | 3 => a.limb3
  | _ => 0

/-- Bit `i` of the word, counted from the least significant. -/
def bit (a : Word256) (i : Nat) : Bool :=
  a.limb (i / 64) >>> UInt64.ofNat (i % 64) &&& 1 == 1

def or (a b : Word256) : Word256 :=
  ⟨a.limb0 ||| b.limb0, a.limb1 ||| b.limb1, a.limb2 ||| b.limb2, a.limb3 ||| b.limb3⟩

def complement (a : Word256) : Word256 :=
  ⟨~~~a.limb0, ~~~a.limb1, ~~~a.limb2, ~~~a.limb3⟩

/-- Moves every limb up by `count` places. -/
def raiseLimbs (a : Word256) (count : Nat) : Word256 :=
  match count with
  | 0 => a
  | 1 => ⟨0, a.limb0, a.limb1, a.limb2⟩
  | 2 => ⟨0, 0, a.limb0, a.limb1⟩
  | 3 => ⟨0, 0, 0, a.limb0⟩
  | _ => zero

def lowerLimbs (a : Word256) (count : Nat) : Word256 :=
  match count with
  | 0 => a
  | 1 => ⟨a.limb1, a.limb2, a.limb3, 0⟩
  | 2 => ⟨a.limb2, a.limb3, 0, 0⟩
  | 3 => ⟨a.limb3, 0, 0, 0⟩
  | _ => zero

/-- The limb at a place after a shift up by `s` bits, `s < 64`, from the limb itself and the one
below it. A shift of a 64-bit limb by 64 would leave it as it is, hence the case of zero. -/
def spillUp (s : Nat) (high low : UInt64) : UInt64 :=
  if s = 0 then high else high <<< UInt64.ofNat s ||| low >>> UInt64.ofNat (64 - s)

/-- The limb at a place after a shift down by `s` bits, `s < 64`, from the limb itself and the one
above it. -/
def spillDown (s : Nat) (low high : UInt64) : UInt64 :=
  if s = 0 then low else low >>> UInt64.ofNat s ||| high <<< UInt64.ofNat (64 - s)

/-- Multiplies by a power of two; bits that leave the word are lost. -/
def shiftLeft (a : Word256) (count : Nat) : Word256 :=
  let b := a.raiseLimbs (count / 64)
  let s := count % 64
  ⟨spillUp s b.limb0 0, spillUp s b.limb1 b.limb0, spillUp s b.limb2 b.limb1,
    spillUp s b.limb3 b.limb2⟩

/-- Divides by a power of two, rounding down. -/
def shiftRight (a : Word256) (count : Nat) : Word256 :=
  let b := a.lowerLimbs (count / 64)
  let s := count % 64
  ⟨spillDown s b.limb0 b.limb1, spillDown s b.limb1 b.limb2, spillDown s b.limb2 b.limb3,
    spillDown s b.limb3 0⟩

/-! ## Addition, subtraction and multiplication -/

/-- Adds two limbs and a carry; returns the sum and the carry out. -/
def addLimbs (a b : UInt64) (carry : Bool) : UInt64 × Bool :=
  let s := a + b
  let t := s + carry.toUInt64
  (t, decide (s < a) || decide (t < s))

/-- Subtracts a limb and a borrow; returns the difference and the borrow out. -/
def subLimbs (a b : UInt64) (borrow : Bool) : UInt64 × Bool :=
  let d := a - b
  let e := d - borrow.toUInt64
  (e, decide (a < b) || decide (d < borrow.toUInt64))

/-- The sum modulo 2^256, and whether it left the word. -/
def overflowingAdd (a b : Word256) : Word256 × Bool :=
  let r0 := addLimbs a.limb0 b.limb0 false
  let r1 := addLimbs a.limb1 b.limb1 r0.2
  let r2 := addLimbs a.limb2 b.limb2 r1.2
  let r3 := addLimbs a.limb3 b.limb3 r2.2
  (⟨r0.1, r1.1, r2.1, r3.1⟩, r3.2)

/-- The difference modulo 2^256, and whether it would have been negative. -/
def overflowingSub (a b : Word256) : Word256 × Bool :=
  let r0 := subLimbs a.limb0 b.limb0 false
  let r1 := subLimbs a.limb1 b.limb1 r0.2
  let r2 := subLimbs a.limb2 b.limb2 r1.2
  let r3 := subLimbs a.limb3 b.limb3 r2.2
  (⟨r0.1, r1.1, r2.1, r3.1⟩, r3.2)

instance : Add Word256 := ⟨fun a b ↦ (overflowingAdd a b).1⟩
instance : Sub Word256 := ⟨fun a b ↦ (overflowingSub a b).1⟩

def checkedAdd (a b : Word256) : Option Word256 :=
  let r := overflowingAdd a b
  if r.2 then none else some r.1

/-- The low and the high limb of a product plus a carried limb. -/
def mulLimb (a factor carry : UInt64) : UInt64 × UInt64 :=
  let p := a.toNat * factor.toNat + carry.toNat
  (UInt64.ofNat p, UInt64.ofNat (p / UInt64.size))

/-- The product with a 64-bit factor, unless it leaves the word. -/
def checkedMul (a : Word256) (factor : UInt64) : Option Word256 :=
  let r0 := mulLimb a.limb0 factor 0
  let r1 := mulLimb a.limb1 factor r0.2
  let r2 := mulLimb a.limb2 factor r1.2
  let r3 := mulLimb a.limb3 factor r2.2
  if r3.2 = 0 then some ⟨r0.1, r1.1, r2.1, r3.1⟩ else none

/-! ## Bytes -/

/-- The 32 bytes of a word, least significant first. -/
def toHash (a : Word256) : Hash256 :=
  ⟨Bytes.ofUInt64 a.limb0 ++ Bytes.ofUInt64 a.limb1 ++ Bytes.ofUInt64 a.limb2 ++
    Bytes.ofUInt64 a.limb3, by simp [Bytes.ofUInt64]⟩

def toBytesBig (a : Word256) : Bytes :=
  a.toHash.bytes.reverse

/-- The limb in the eight bytes that start at `offset`. -/
def limbAt (b : Bytes) (offset : Nat) : UInt64 :=
  UInt64.ofNat (Bytes.toNat ((b.drop offset).take 8))

/-- The word in 32 bytes, least significant first. -/
def ofHash (h : Hash256) : Word256 :=
  ⟨limbAt h.bytes 0, limbAt h.bytes 8, limbAt h.bytes 16, limbAt h.bytes 24⟩

def ofHashBig (h : Hash256) : Word256 :=
  ofHash ⟨h.bytes.reverse, by rw [List.length_reverse, h.length_bytes]⟩

/-! ## Limbs as natural numbers -/

theorem toNat_subLimbs (a b : UInt64) (borrow : Bool) :
    (subLimbs a b borrow).1.toNat + b.toNat + borrow.toNat =
      a.toNat + UInt64.size * (subLimbs a b borrow).2.toNat := by
  have ha := a.toNat_lt
  have hb := b.toNat_lt
  have hborrow : borrow.toUInt64.toNat = borrow.toNat := by cases borrow <;> rfl
  have hd : (a - b).toNat = (2 ^ 64 - b.toNat + a.toNat) % 2 ^ 64 := UInt64.toNat_sub ..
  have he : (a - b - borrow.toUInt64).toNat =
      (2 ^ 64 - borrow.toNat + (a - b).toNat) % 2 ^ 64 := by rw [UInt64.toNat_sub, hborrow]
  have hle : borrow.toNat ≤ 1 := Bool.toNat_le borrow
  simp only [subLimbs, UInt64.lt_iff_toNat_lt, hborrow, he, UInt64.size]
  by_cases h1 : a.toNat < b.toNat <;> by_cases h2 : (a - b).toNat < borrow.toNat <;>
    simp [h1, h2] <;> omega

theorem toNat_sub_add (a b : Word256) :
    (overflowingSub a b).1.toNat + b.toNat =
      a.toNat + size * (overflowingSub a b).2.toNat := by
  have h0 := toNat_subLimbs a.limb0 b.limb0 false
  have h1 := toNat_subLimbs a.limb1 b.limb1 (subLimbs a.limb0 b.limb0 false).2
  have h2 := toNat_subLimbs a.limb2 b.limb2
    (subLimbs a.limb1 b.limb1 (subLimbs a.limb0 b.limb0 false).2).2
  have h3 := toNat_subLimbs a.limb3 b.limb3 (subLimbs a.limb2 b.limb2
    (subLimbs a.limb1 b.limb1 (subLimbs a.limb0 b.limb0 false).2).2).2
  simp only [Bool.toNat_false, UInt64.size] at h0 h1 h2 h3
  simp only [overflowingSub, toNat, size, UInt64.size]
  omega

theorem toNat_lt (a : Word256) : a.toNat < size := by
  have h0 := a.limb0.toNat_lt
  have h1 := a.limb1.toNat_lt
  have h2 := a.limb2.toNat_lt
  have h3 := a.limb3.toNat_lt
  simp only [toNat, size, UInt64.size]
  omega

theorem isZero_iff (a : Word256) : a.isZero = true ↔ a.toNat = 0 := by
  simp only [isZero, toNat, Bool.and_eq_true, beq_iff_eq, ← UInt64.toNat_inj, UInt64.toNat_zero,
    UInt64.size]
  omega

/-- The order of words is the order of their values. -/
theorem lt_iff_toNat_lt (a b : Word256) : a < b ↔ a.toNat < b.toNat := by
  have ha0 := a.limb0.toNat_lt
  have ha1 := a.limb1.toNat_lt
  have ha2 := a.limb2.toNat_lt
  have hb0 := b.limb0.toNat_lt
  have hb1 := b.limb1.toNat_lt
  have hb2 := b.limb2.toNat_lt
  show compare a b = .lt ↔ _
  simp only [compare, compareOfLessAndEq, UInt64.lt_iff_toNat_lt, ← UInt64.toNat_inj, toNat]
  repeat' split
  all_goals
    simp only [Ordering.then, reduceCtorEq, true_iff, false_iff, UInt64.size]
    omega

/-- Subtracting a smaller word gives the difference of the values. -/
theorem toNat_sub_of_le {a b : Word256} (h : b.toNat ≤ a.toNat) :
    (a - b).toNat = a.toNat - b.toNat := by
  have hsum := toNat_sub_add a b
  have hlt := toNat_lt (overflowingSub a b).1
  have hlta := toNat_lt a
  simp only [size, UInt64.size] at hsum hlt hlta
  show (overflowingSub a b).1.toNat = _
  cases hborrow : (overflowingSub a b).2
  · rw [hborrow] at hsum
    simp only [Bool.toNat_false] at hsum
    omega
  · rw [hborrow] at hsum
    simp only [Bool.toNat_true] at hsum
    omega

/-- A limb shifted down by one place takes in the lowest bit of the limb above it. -/
theorem toNat_spillDown_one (low high : UInt64) :
    (spillDown 1 low high).toNat = low.toNat / 2 + 0x8000000000000000 * (high.toNat % 2) := by
  have hlow : low.toNat / 2 < 2 ^ 63 := by have := low.toNat_lt; omega
  have hshift : (high.toNat <<< 63) % 2 ^ 64 = 2 ^ 63 * (high.toNat % 2) := by
    rw [Nat.shiftLeft_eq, Nat.mul_comm]
    exact Nat.mul_mod_mul_left (2 ^ 63) high.toNat 2
  have hspill : (spillDown 1 low high).toNat = low.toNat / 2 ||| (high.toNat <<< 63) % 2 ^ 64 := by
    simp only [spillDown, if_neg (Nat.one_ne_zero), UInt64.toNat_or, UInt64.toNat_shiftRight,
      UInt64.toNat_shiftLeft]
    rfl
  rw [hspill, hshift, Nat.or_comm, ← Nat.two_pow_add_eq_or_of_lt hlow, Nat.add_comm]

/-- Shifting down by one place halves the value. -/
theorem toNat_shiftRight_one (a : Word256) : (a.shiftRight 1).toNat = a.toNat / 2 := by
  have hcount : 1 / 64 = 0 ∧ 1 % 64 = 1 := ⟨rfl, rfl⟩
  simp only [shiftRight, hcount, lowerLimbs, toNat, toNat_spillDown_one, UInt64.toNat_zero,
    UInt64.size]
  omega

end Word256

end UtxoConsensus
