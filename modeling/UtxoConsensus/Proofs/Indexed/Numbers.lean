import Mathlib.Data.List.Basic
import UtxoConsensus.Proofs.Bytes.FixedWidth
import UtxoConsensus.Proofs.Indexed.Basic
import UtxoConsensus.Proofs.Script.Numbers

/-!
# Numbers by positions

The encodings of numbers, computed on positions and words. The last byte of an element and the one before
it are looked up at positions that are counted back from the length, and magnitudes are put together by
shifts. None of these operations leaves its bounds, whatever the element is; only the value of an element
has a condition, that it has at most eight bytes. So each of these computations gives what its counterpart
gives that follows the bytes.
-/

namespace UtxoConsensus.Indexed

/-! ## The last byte -/

theorem length_concat (init : Bytes) (last : UInt8) : (init ++ [last]).length = init.length + 1 :=
  List.length_append

theorem getElem?_between (front : Bytes) (byte : UInt8) (back : Bytes) :
    (front ++ byte :: back)[front.length]? = some byte := by
  rw [List.getElem?_append_right (Nat.le_refl _), Nat.sub_self]
  rfl

theorem set?_between (front : Bytes) (byte : UInt8) (back : Bytes) (new : UInt8) :
    set? (front ++ byte :: back) front.length new = some (front ++ new :: back) := by
  have hlt : front.length < (front ++ byte :: back).length := by
    rw [List.length_append, List.length_cons]
    omega
  rw [set?_of_lt hlt, List.set_append_right _ _ (Nat.le_refl _), Nat.sub_self]
  rfl

theorem take_between (front : Bytes) (byte : UInt8) (back : Bytes) :
    (front ++ byte :: back).take (front.length + 1) = front ++ [byte] := by
  rw [List.take_length_add_append]
  rfl

/-! ## Encoding -/

/-- The minimal encoding. The sign goes into the last byte of the magnitude, at a position before the
length, or into a byte of its own. -/
def encode? (n : Int) : Option Bytes :=
  if n = 0 then some []
  else do
    let magnitude := ScriptNumber.magnitudeBytes n.natAbs
    let position ← minus? magnitude.length 1
    let last ← magnitude[position]?
    if last &&& 0x80 != 0 then return magnitude ++ [if n < 0 then 0x80 else 0]
    else if n < 0 then set? magnitude position (last ||| 0x80)
    else return magnitude

/-- Writing numbers stays within the bytes. -/
theorem encode?_eq (n : Int) : encode? n = some (ScriptNumber.encode n) := by
  unfold encode? ScriptNumber.encode
  by_cases hn : n = 0
  · rw [if_pos hn, hn]
    unfold ScriptNumber.magnitudeBytes
    rfl
  · rw [if_neg hn]
    have hpos := ScriptNumber.length_magnitudeBytes_pos (Int.natAbs_ne_zero.mpr hn)
    generalize ScriptNumber.magnitudeBytes n.natAbs = magnitude at hpos ⊢
    obtain rfl | ⟨init, last, rfl⟩ := List.eq_nil_or_concat' magnitude
    · exact absurd hpos (Nat.lt_irrefl 0)
    · simp only [length_concat, minus?_add, getElem?_between, set?_between, Option.bind_eq_bind,
        Option.bind_some, ScriptNumber.addSign_concat, ScriptNumber.addSign]
      by_cases hhigh : (last &&& 0x80 != 0) = true <;> by_cases hnegative : n < 0 <;>
        simp [hhigh, hnegative]

/-! ## Minimal encodings -/

def isMinimal? (b : Bytes) (maxSize : Nat) : Option Bool :=
  if b.length > maxSize then some false
  else match b.getLast? with
    | none => some true
    | some last =>
      if last &&& 0x7f != 0 then some true
      else if b.length ≤ 1 then some false
      else do
        let position ← minus? b.length 2
        let before ← b[position]?
        return before &&& 0x80 != 0

/-- Looks downwards for the last byte before the sign that is not zero, and puts the sign into it, or
behind it if there is no room. -/
def moveSign? (b : Bytes) (sign : UInt8) : (count : Nat) → Option Bytes
  | 0 => some []
  | position + 1 => do
    let byte ← b[position]?
    if byte = 0 then moveSign? b sign position
    else if byte &&& 0x80 != 0 then
      let moved ← set? b (position + 1) sign
      return moved.take (position + 2)
    else
      let moved ← set? b position (byte ||| sign)
      return moved.take (position + 1)

def minimize? (b : Bytes) : Option Bytes :=
  match b.getLast? with
  | none => some b
  | some last =>
    if last &&& 0x7f != 0 then some b
    else if b.length = 1 then some []
    else do
      let position ← minus? b.length 2
      let before ← b[position]?
      if before &&& 0x80 != 0 then return b
      else
        let count ← minus? b.length 1
        moveSign? b last count

/-- The last two bytes are looked at only if they are there. -/
theorem isMinimal?_eq (b : Bytes) (maxSize : Nat) :
    isMinimal? b maxSize = some (ScriptNumber.isMinimal b maxSize) := by
  unfold isMinimal? ScriptNumber.isMinimal
  by_cases hlong : b.length > maxSize
  · rw [if_pos hlong, decide_eq_false (Nat.not_le.mpr hlong), Bool.false_and]
  · rw [if_neg hlong, decide_eq_true (Nat.not_lt.mp hlong), Bool.true_and]
    generalize hreversed : b.reverse = reversed
    obtain rfl : b = reversed.reverse := by rw [← hreversed, List.reverse_reverse]
    match reversed with
    | [] => rfl
    | [last] => cases hlast : last &&& 0x7f != 0 <;> simp [ScriptNumber.lastByteNeeded, hlast]
    | last :: before :: rest =>
      cases hlast : last &&& 0x7f != 0 <;> simp [ScriptNumber.lastByteNeeded, hlast]

/-- What stands behind the bytes that are looked through gives way to the sign. -/
theorem moveSign?_eq (before : Bytes) {after : Bytes} (sign : UInt8) (hafter : after ≠ []) :
    moveSign? (before ++ after) sign before.length =
      some (ScriptNumber.replaceSign sign before.reverse) := by
  generalize hlength : before.length = length
  induction length generalizing before after with
  | zero =>
    obtain rfl := List.length_eq_zero_iff.mp hlength
    rfl
  | succ length ih =>
    obtain rfl | ⟨init, byte, rfl⟩ := List.eq_nil_or_concat' before
    · cases hlength
    · rw [length_concat, Nat.add_right_cancel_iff] at hlength
      subst hlength
      obtain ⟨next, rest, rfl⟩ := List.exists_cons_of_ne_nil hafter
      rw [List.append_assoc, List.singleton_append, ScriptNumber.replaceSign_concat, moveSign?, getElem?_between]
      change (if byte = 0 then _ else _) = _
      by_cases hzero : byte = 0
      · rw [if_pos hzero, if_pos hzero]
        exact ih init (List.cons_ne_nil _ _) rfl
      · rw [if_neg hzero, if_neg hzero]
        by_cases hhigh : (byte &&& 0x80 != 0) = true
        · have hset := set?_between (init ++ [byte]) next rest sign
          have htake := take_between (init ++ [byte]) sign rest
          rw [length_concat] at hset htake
          rw [if_pos hhigh, if_pos hhigh, List.append_cons, hset]
          change some _ = _
          rw [htake, List.append_assoc, List.singleton_append]
        · rw [if_neg hhigh, if_neg hhigh, set?_between]
          change some _ = _
          rw [take_between]

/-- Shortening a number stays within its bytes. -/
theorem minimize?_eq (b : Bytes) : minimize? b = some (ScriptNumber.minimize b) := by
  generalize hreversed : b.reverse = reversed
  obtain rfl : b = reversed.reverse := by rw [← hreversed, List.reverse_reverse]
  unfold minimize? ScriptNumber.minimize ScriptNumber.shorten?
  match reversed with
  | [] => rfl
  | [last] =>
    cases hlast : last &&& 0x7f != 0 <;>
      simp [ScriptNumber.lastByteNeeded, hlast, ScriptNumber.replaceSign]
  | last :: before :: rest =>
    have hmove : moveSign? (rest.reverse ++ [before, last]) last (rest.length + 1) =
        some (ScriptNumber.replaceSign last (before :: rest)) := by
      have hmove := moveSign?_eq (before :: rest).reverse last (List.cons_ne_nil last [])
      rwa [List.length_reverse, List.reverse_reverse, List.reverse_cons, List.append_assoc] at hmove
    by_cases hlast : last &&& 0x7f = 0 <;> by_cases hbefore : before &&& 0x80 = 0 <;>
      simp [ScriptNumber.lastByteNeeded, hlast, hbefore, hmove]

/-! ## Truth values -/

/-- Is there a byte other than zero, not counting a sign in the last byte of as many as there are? -/
def toBoolFrom? (length : Nat) : (position : Nat) → Bytes → Option Bool
  | _, [] => some false
  | position, byte :: rest =>
    if byte = 0 then toBoolFrom? length (position + 1) rest
    else do
      let last ← minus? length 1
      return !(position == last && byte == 0x80)

def toBool? (b : Bytes) : Option Bool :=
  toBoolFrom? b.length 0 b

/-- By induction on the bytes that are left. -/
theorem toBoolFrom?_eq (position : Nat) (b : Bytes) :
    toBoolFrom? (position + b.length) position b = some (ScriptNumber.toBool b) := by
  induction b generalizing position with
  | nil => rfl
  | cons byte rest ih =>
    have hnext := ih (position + 1)
    rw [Nat.add_right_comm, Nat.add_assoc] at hnext
    rw [toBoolFrom?, List.length_cons, hnext, ← Nat.add_assoc, minus?_add]
    by_cases hzero : byte = 0
    · rw [if_pos hzero, hzero]
      cases rest <;> rfl
    · have hbyte : (byte != 0) = true := bne_iff_ne.mpr hzero
      rw [if_neg hzero]
      cases rest with
      | nil => simp [ScriptNumber.toBool, hzero, bne]
      | cons next rest =>
        have hbelow : (position == position + (rest.length + 1)) = false :=
          beq_eq_false_iff_ne.mpr (by omega)
        simp [ScriptNumber.toBool, hbyte, hbelow]

theorem toBool?_eq (b : Bytes) : toBool? b = some (ScriptNumber.toBool b) := by
  have hfrom := toBoolFrom?_eq 0 b
  rwa [Nat.zero_add] at hfrom

/-! ## Values -/

/-- The number that bytes denote. The sign bit is cleared in the word. -/
def value? (b : Bytes) : Option Int :=
  match b.getLast? with
  | none => some 0
  | some last => do
    let word ← gather? 0 0 b
    if last &&& 0x80 != 0 then
      let position ← minus? b.length 1
      let signBit ← shiftLeft? 0x80 (8 * position)
      fit? (-signed (word &&& (UInt64.size - 1 - signBit)))
    else return signed word

/-- A word without its highest bit. -/
theorem and_not_signBit {n k : Nat} (hn : n < 2 ^ k) (hk : k < 64) :
    (2 ^ k + n) &&& (UInt64.size - 1 - 2 ^ k) = n := by
  have hpow : 2 ^ k < 2 ^ 64 := Nat.pow_lt_pow_right (by decide) hk
  have hor : 2 ^ k + n = 2 ^ k ||| n := by
    have hadd := Nat.two_pow_add_eq_or_of_lt hn 1
    rwa [Nat.mul_one] at hadd
  have hnot : UInt64.size - 1 - 2 ^ k = 2 ^ 64 - (2 ^ k + 1) := by
    have hsize : UInt64.size = 2 ^ 64 := rfl
    omega
  apply Nat.eq_of_testBit_eq
  intro i
  rw [hor, hnot, Nat.testBit_and, Nat.testBit_or, Nat.testBit_two_pow_sub_succ hpow, Nat.testBit_two_pow]
  by_cases hi : k = i
  · subst hi
    rw [Nat.testBit_lt_two_pow hn]
    simp
  · rw [decide_eq_false hi]
    by_cases hlow : i < 64
    · simp [hlow]
    · have hbit : n.testBit i = false := by
        apply Nat.testBit_lt_two_pow
        calc
          n < 2 ^ k := hn
          _ ≤ 2 ^ i := Nat.pow_le_pow_right (by decide) (by omega)
      simp [hbit]

/-- Eight bytes are shifted into a word, and the sign is taken out. -/
theorem value?_eq {b : Bytes} (hlength : b.length ≤ 8) : value? b = some (ScriptNumber.value b) := by
  obtain rfl | ⟨init, last, rfl⟩ := List.eq_nil_or_concat' b
  · rfl
  · have hshort : init.length ≤ 7 := by rw [length_concat] at hlength; omega
    have hmagnitude : Bytes.toNat (init ++ [last &&& 0x7f]) < 2 ^ 63 := by
      calc
        Bytes.toNat (init ++ [last &&& 0x7f]) < 2 ^ (8 * init.length + 7) := ScriptNumber.toNat_concat_lt init last
        _ ≤ 2 ^ 63 := Nat.pow_le_pow_right (by decide) (by omega)
    have hsignBit : shiftLeft? 0x80 (8 * init.length) = some (2 ^ (8 * init.length + 7)) := by
      have hbit : 0x80 * 2 ^ (8 * init.length) = 2 ^ (8 * init.length + 7) := by
        rw [Nat.pow_add, Nat.mul_comm]
      rw [shiftLeft?_of_lt (by omega), hbit]
      rw [hbit]
      exact Nat.pow_lt_pow_right (by decide) (by omega)
    unfold value? ScriptNumber.value
    rw [List.getLast?_concat, gather?_eq hlength, ScriptNumber.splitSign_concat, length_concat,
      minus?_add, ScriptNumber.toNat_concat]
    dsimp only [Option.bind_eq_bind, Option.bind_some]
    rw [hsignBit]
    dsimp only [Option.bind_some]
    by_cases hnegative : (last &&& 0x80 != 0) = true
    · have hclear := and_not_signBit (ScriptNumber.toNat_concat_lt init last) (by omega)
      rw [if_pos hnegative, if_pos hnegative, if_pos hnegative, Nat.add_comm, hclear,
        signed_of_lt hmagnitude]
      have hmax : Int64.maxValue.toInt = 2 ^ 63 - 1 := rfl
      apply fit?_of_natAbs_le
      omega
    · rw [if_neg hnegative, if_neg hnegative, if_neg hnegative, Nat.add_zero, signed_of_lt hmagnitude]
      rfl

end UtxoConsensus.Indexed
