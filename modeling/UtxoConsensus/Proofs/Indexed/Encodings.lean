import UtxoConsensus.Proofs.Bytes.FixedWidth
import UtxoConsensus.Proofs.Indexed.Basic
import UtxoConsensus.Signature.Encoding

/-!
# Encodings by positions

Strict DER, looked up byte by byte at positions that are computed from the lengths that a signature itself
names. Each length is compared with the length of the signature before a position is derived from it, so
that no lookup leaves the signature. The forms of keys are looked up at the first byte, after the length.
-/

namespace UtxoConsensus.Indexed

open Encoding

/-! ## Integers of a signature -/

/-- The length that an integer has according to its own header, unless the header or the first byte is
not that of a positive integer. -/
def integerSize? (sig : Bytes) (start : Nat) : Option (Option Nat) := do
  let tag ← sig[start]?
  if tag ≠ 0x02 then return none
  else
    let size ← sig[start + 1]?
    if size = 0 then return none
    else
      let first ← sig[start + 2]?
      if first &&& 0x80 ≠ 0 then return none
      else return some size.toNat

/-- Does an integer begin with a zero only where it has to? The second byte is looked at only in integers
of more than one. -/
def isShortest? (sig : Bytes) (start size : Nat) : Option Bool := do
  if size ≤ 1 then return true
  else
    let first ← sig[start + 2]?
    if first ≠ 0 then return true
    else
      let second ← sig[start + 3]?
      return second &&& 0x80 != 0

/-- The second integer ends where the signature ends. -/
def isStrictEnd? (sig : Bytes) (start : Nat) : Option Bool := do
  match ← integerSize? sig start with
  | none => return false
  | some size =>
    if start + size + 2 ≠ sig.length then return false
    else isShortest? sig start size

/-- Exactly two integers that are in the shortest form. The first one leaves room for another. -/
def isStrictPair? (sig : Bytes) : Option Bool := do
  match ← integerSize? sig 2 with
  | none => return false
  | some size =>
    let room ← minus? sig.length 7
    if size > room then return false
    else if !(← isShortest? sig 2 size) then return false
    else isStrictEnd? sig (size + 4)

/-- A sequence of exactly two such integers. -/
def isStrictDer? (sig : Bytes) : Option Bool := do
  if sig.length < 8 ∨ sig.length > 72 then return false
  else
    let tag ← sig[0]?
    if tag ≠ 0x30 then return false
    else
      let size ← sig[1]?
      let contents ← minus? sig.length 2
      if size.toNat ≠ contents then return false
      else isStrictPair? sig

/-- A byte without its highest bit. -/
theorem and_high_eq_zero_iff (byte : UInt8) : byte &&& 0x80 = 0 ↔ byte < 0x80 := by
  revert byte
  apply Bytes.forall_byte
  decide +kernel

variable {sig : Bytes} {start : Nat} {tag size first : UInt8} {more : Bytes}

theorem getElem?_add (h : sig.drop start = tag :: size :: first :: more) (place : Nat) :
    sig[start + place]? = (tag :: size :: first :: more)[place]? := by
  rw [← h, List.getElem?_drop]

theorem integerSize?_eq (h : sig.drop start = tag :: size :: first :: more) :
    integerSize? sig start =
      some (if tag = 0x02 ∧ size ≠ 0 ∧ first < 0x80 then some size.toNat else none) := by
  unfold integerSize?
  rw [getElem?_add h 1, getElem?_add h 2, ← Nat.add_zero start, getElem?_add h 0]
  simp only [List.getElem?_cons_zero, List.getElem?_cons_succ, Option.bind_eq_bind, Option.bind_some,
    ← and_high_eq_zero_iff]
  by_cases htag : tag = 0x02 <;> by_cases hsize : size = 0 <;> by_cases hfirst : first &&& 0x80 = 0 <;>
    simp [htag, hsize, hfirst]

/-- Is the first byte of an integer a zero that the second one does not need? -/
def isPadded (size : Nat) (first : UInt8) (more : Bytes) : Bool :=
  decide (1 < size) && first == 0 && decide (more.headD 0 < 0x80)

/-- Padding is recognised by the first two bytes. -/
theorem isShortest?_eq (h : sig.drop start = tag :: size :: first :: more) {count : Nat}
    (hmore : 1 < count → more ≠ []) :
    isShortest? sig start count = some (!isPadded count first more) := by
  unfold isShortest? isPadded
  by_cases hone : count ≤ 1
  · rw [if_pos hone, decide_eq_false (Nat.not_lt.mpr hone)]
    rfl
  · obtain ⟨second, rest, rfl⟩ := List.exists_cons_of_ne_nil (hmore (Nat.lt_of_not_le hone))
    rw [if_neg hone, getElem?_add h 2, getElem?_add h 3]
    simp only [List.getElem?_cons_zero, List.getElem?_cons_succ, Option.bind_eq_bind, Option.bind_some,
      List.headD_cons, ← and_high_eq_zero_iff, Nat.lt_of_not_le hone, decide_true, Bool.true_and]
    by_cases hfirst : first = 0 <;> by_cases hsecond : second &&& 0x80 = 0 <;> simp [hfirst, hsecond]

theorem strictInteger?_eq (tag size first : UInt8) (more : Bytes) :
    strictInteger? (tag :: size :: first :: more) =
      if (tag = 0x02 ∧ size ≠ 0 ∧ first < 0x80) ∧ size.toNat ≤ more.length + 1 ∧
          isPadded size.toNat first more = false then
        some ((first :: more).take size.toNat, (first :: more).drop size.toNat)
      else none := by
  unfold strictInteger? isPadded
  by_cases hsize : size = 0
  · simp [hsize]
  · have hcount : size.toNat ≠ 0 := fun hzero ↦ hsize (UInt8.toNat_inj.mp hzero)
    obtain ⟨count, hsucc⟩ := Nat.exists_eq_succ_of_ne_zero hcount
    refine ite_congr (propext ?_) (fun _ ↦ rfl) fun _ ↦ rfl
    rw [hsucc, List.take_succ_cons, List.length_cons, List.length_take, List.headD_cons,
      List.drop_succ_cons, List.drop_zero]
    by_cases hfits : count ≤ more.length
    · have hhead : (more.take count).headD 0 = if count = 0 then 0 else more.headD 0 := by
        cases count <;> cases more <;> rfl
      rw [Nat.min_eq_left hfits, hhead]
      by_cases hzero : count = 0 <;> simp [hzero, hsize, hfits, and_assoc, Nat.pos_iff_ne_zero]
    · rw [Nat.min_eq_right (Nat.le_of_not_le hfits)]
      have hshort : more.length ≠ count := by omega
      simp [hshort, hfits]

theorem strictInteger?_of_short {b : Bytes} (h : b.length < 3) : strictInteger? b = none := by
  match b with
  | [] => rfl
  | [_] => rfl
  | [tag, size] =>
    unfold strictInteger?
    refine if_neg ?_
    rintro ⟨-, hsize, hlength, -⟩
    rw [List.take_nil, List.length_nil] at hlength
    exact hsize (UInt8.toNat_inj.mp hlength.symm)

/-! ## Both integers -/

/-- Is the last integer all that is left? -/
def endsStrictly (b : Bytes) : Bool :=
  (strictInteger? b).elim false fun integer ↦ integer.2.isEmpty

def isStrictPair (b : Bytes) : Bool :=
  (strictInteger? b).elim false fun integer ↦ endsStrictly integer.2

theorem isStrictDer_cons (tag size : UInt8) (body : Bytes) :
    isStrictDer (tag :: size :: body) =
      (decide (body.length ≤ 70) && tag == 0x30 && size.toNat == body.length && isStrictPair body) := by
  have hlength : decide ((tag :: size :: body).length ≤ 72) = decide (body.length ≤ 70) := by
    rw [decide_eq_decide, List.length_cons, List.length_cons]
    omega
  unfold isStrictDer isStrictPair endsStrictly
  dsimp only
  rw [hlength]
  cases strictInteger? body with
  | none => rfl
  | some integer => cases hafter : strictInteger? integer.2 <;> simp [hafter]

/-- The second integer is checked at the position where the first one ends. -/
theorem isStrictEnd?_eq (h : sig.drop start = tag :: size :: first :: more) :
    isStrictEnd? sig start = some (endsStrictly (tag :: size :: first :: more)) := by
  have hlength : sig.length = start + (more.length + 3) := by
    have hdrop := congrArg List.length h
    simp only [List.length_drop, List.length_cons] at hdrop
    omega
  unfold isStrictEnd? endsStrictly
  rw [integerSize?_eq h, strictInteger?_eq]
  by_cases hheader : tag = 0x02 ∧ size ≠ 0 ∧ first < 0x80
  · rw [if_pos hheader]
    change (if start + size.toNat + 2 ≠ sig.length then _ else _) = _
    by_cases hends : size.toNat = more.length + 1
    · have hmore (hone : 1 < size.toNat) : more ≠ [] := by
        rintro rfl
        rw [hends] at hone
        exact Nat.lt_irrefl 1 hone
      rw [if_neg (by omega), isShortest?_eq h hmore]
      cases hpadded : isPadded size.toNat first more <;> simp [hheader, hends]
    · rw [if_pos (by omega)]
      split
      · next hall =>
        have hleft : (first :: more).drop size.toNat ≠ [] := by
          rw [Ne, List.drop_eq_nil_iff, List.length_cons]
          omega
        simp [hleft]
      · rfl
  · rw [if_neg hheader, if_neg fun hall ↦ hheader hall.1]
    rfl

theorem exists_header {b : Bytes} (h : 3 ≤ b.length) :
    ∃ tag size first more, b = tag :: size :: first :: more := by
  match b, h with
  | tag :: size :: first :: more, _ => exact ⟨tag, size, first, more, rfl⟩

theorem length_of_strictInteger? {b : Bytes} {integer : Bytes × Bytes} (h : strictInteger? b = some integer) :
    integer.2.length + 3 ≤ b.length := by
  by_cases hshort : b.length < 3
  · rw [strictInteger?_of_short hshort] at h
    cases h
  · obtain ⟨tag, size, first, more, rfl⟩ := exists_header (Nat.le_of_not_lt hshort)
    rw [strictInteger?_eq] at h
    split at h
    · next hall =>
      cases h
      have hsize : size.toNat ≠ 0 := fun hzero ↦ hall.1.2.1 (UInt8.toNat_inj.mp hzero)
      simp only [List.length_drop, List.length_cons]
      omega
    · cases h

theorem endsStrictly_of_short {b : Bytes} (h : b.length < 3) : endsStrictly b = false := by
  unfold endsStrictly
  rw [strictInteger?_of_short h]
  rfl

/-- Two integers need at least six bytes. -/
theorem isStrictPair_of_short {b : Bytes} (h : b.length < 6) : isStrictPair b = false := by
  unfold isStrictPair
  cases hinteger : strictInteger? b with
  | none => rfl
  | some integer =>
    have hlength := length_of_strictInteger? hinteger
    exact endsStrictly_of_short (by omega)

/-- The room for the second integer is three bytes, all of which are looked up. -/
theorem isStrictPair?_eq {next : UInt8} (h : sig.drop 2 = tag :: size :: first :: next :: more)
    (hlength : sig.length = more.length + 6) (hmore : 2 ≤ more.length) :
    isStrictPair? sig = some (isStrictPair (tag :: size :: first :: next :: more)) := by
  have hroom : minus? sig.length 7 = some (more.length - 1) := by
    rw [minus?_of_le (by omega), hlength]
    rfl
  unfold isStrictPair? isStrictPair
  rw [integerSize?_eq h, strictInteger?_eq, hroom, List.length_cons]
  by_cases hheader : tag = 0x02 ∧ size ≠ 0 ∧ first < 0x80
  · rw [if_pos hheader]
    change (if size.toNat > more.length - 1 then _ else _) = _
    by_cases hfits : size.toNat > more.length - 1
    · have hshort : ((first :: next :: more).drop size.toNat).length < 3 := by
        simp only [List.length_drop, List.length_cons]
        omega
      rw [if_pos hfits]
      split
      · rw [Option.elim_some, endsStrictly_of_short hshort]
        rfl
      · rfl
    · have hlong : 3 ≤ ((first :: next :: more).drop size.toNat).length := by
        simp only [List.length_drop, List.length_cons]
        omega
      obtain ⟨tagS, sizeS, firstS, moreS, hafter⟩ := exists_header hlong
      have hdrop : sig.drop (size.toNat + 4) = tagS :: sizeS :: firstS :: moreS := by
        have hplaces : size.toNat + 4 = 2 + (2 + size.toNat) := by omega
        rw [← hafter, hplaces, ← List.drop_drop, h, Nat.add_comm, List.drop_succ_cons, List.drop_succ_cons]
      rw [if_neg hfits, isShortest?_eq h fun _ ↦ List.cons_ne_nil _ _, isStrictEnd?_eq hdrop]
      cases hpadded : isPadded size.toNat first (next :: more) with
      | true => simp
      | false =>
        rw [if_pos ⟨hheader, by omega, rfl⟩, Option.elim_some, hafter]
        rfl
  · rw [if_neg hheader, if_neg fun hall ↦ hheader hall.1]
    rfl

/-- No lookup leaves the signature. -/
theorem isStrictDer?_eq (sig : Bytes) : isStrictDer? sig = some (isStrictDer sig) := by
  unfold isStrictDer?
  match sig with
  | [] => rfl
  | [_] => rfl
  | tag :: size :: body =>
    rw [isStrictDer_cons]
    simp only [List.length_cons, List.getElem?_cons_zero, List.getElem?_cons_succ, minus?_add _ 2,
      Option.bind_eq_bind, Option.bind_some]
    by_cases hsize : body.length + 1 + 1 < 8 ∨ body.length + 1 + 1 > 72
    · rw [if_pos hsize]
      rcases hsize with hshort | hlong
      · rw [isStrictPair_of_short (by omega), Bool.and_false]
        rfl
      · rw [decide_eq_false (by omega)]
        rfl
    · have hpair : isStrictPair? (tag :: size :: body) = some (isStrictPair body) := by
        obtain ⟨tagR, sizeR, first, rest, rfl⟩ := exists_header (b := body) (by omega)
        obtain ⟨next, second, third, more, rfl⟩ := exists_header (b := rest) (by
          simp only [List.length_cons] at hsize
          omega)
        exact isStrictPair?_eq rfl rfl (Nat.le_add_left 2 _)
      rw [if_neg hsize, decide_eq_true (by omega), Bool.true_and, hpair]
      by_cases htag : tag = 0x30 <;> by_cases hcover : size.toNat = body.length <;> simp [htag, hcover]

/-! ## Keys -/

/-- Is a key of 33 bytes, or of 65 bytes without a parity? Only such keys have their first byte looked
at. -/
def hasPlainKeyForm? (key : Bytes) : Option Bool :=
  if key.length = Curve.compressedKeySize then do
    let first ← key[0]?
    return first == 0x02 || first == 0x03
  else if key.length = Curve.uncompressedKeySize then do
    let first ← key[0]?
    return first == 0x04
  else some false

/-- The first byte is looked up only if there is one. -/
theorem hasPlainKeyForm?_eq (key : Bytes) : hasPlainKeyForm? key = some (hasPlainKeyForm key) := by
  unfold hasPlainKeyForm? hasPlainKeyForm
  cases key with
  | nil => rfl
  | cons first rest =>
    by_cases hcompressed : (first :: rest).length = Curve.compressedKeySize
    · rw [if_pos hcompressed, if_pos hcompressed]
      rfl
    · rw [if_neg hcompressed, if_neg hcompressed]
      by_cases huncompressed : (first :: rest).length = Curve.uncompressedKeySize
      · rw [if_pos huncompressed, huncompressed, beq_self_eq_true, Bool.true_and]
        rfl
      · rw [if_neg huncompressed, beq_eq_false_iff_ne.mpr huncompressed, Bool.false_and]

end UtxoConsensus.Indexed
