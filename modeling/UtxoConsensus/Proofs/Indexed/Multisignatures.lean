import UtxoConsensus.Proofs.Indexed.Signatures
import UtxoConsensus.Proofs.Indexed.Stack

/-!
# Multisignatures by positions

The keys and signatures of a multisignature stay where they are on the stack and are found by depths that
are computed from counts which the stack holds too. One loop counts down what is left of both, the other
counts up two positions and shifts the bits that choose the keys. The opcode asks for the deepest element
before the first of these depths is used, and every depth lies above it.
-/

namespace UtxoConsensus.Indexed

open Exec

variable {σ : Type} {env : Env σ} {stack : List Bytes}

/-! ## Blocks of elements -/

/-- Elements lie at consecutive depths, the topmost of them at the given one. -/
def LiesAt (stack : List Bytes) (topmost : Nat) (elements : List Bytes) : Prop :=
  ∀ i (h : i < elements.length), At stack (topmost + i) elements[i]

theorem liesAt_append (above elements below : List Bytes) :
    LiesAt (above ++ elements ++ below) (above.length + 1) elements := by
  intro i hi
  refine ⟨above.length + i, Nat.add_right_comm _ _ _, ?_⟩
  rw [List.append_assoc, List.getElem?_append_right (Nat.le_add_right _ _), Nat.add_sub_cancel_left,
    List.getElem?_append_left hi, List.getElem?_eq_getElem hi]

/-- The elements of a block from the deepest on, found by counting back from its end. -/
theorem LiesAt.at_reverse {topmost : Nat} {elements : List Bytes} (htop : 1 ≤ topmost)
    (h : LiesAt stack topmost elements) (i : Nat) (hi : i < elements.reverse.length) :
    i ≤ topmost + elements.length - 1 ∧ At stack (topmost + elements.length - 1 - i) elements.reverse[i] := by
  rw [List.length_reverse] at hi
  have hat := h (elements.length - 1 - i) (by omega)
  have hplace : topmost + (elements.length - 1 - i) = topmost + elements.length - 1 - i := by omega
  rw [hplace] at hat
  rw [List.getElem_reverse]
  exact ⟨by omega, hat⟩

/-- A block that is on the stack is read, and its elements lie at consecutive depths. -/
theorem exists_block (first count : Nat) {m : Machine σ} (h : first + count ≤ m.stack.length) :
    ∃ elements, peekMany first count m = .ok elements m ∧ elements.length = count ∧
      LiesAt m.stack (first + 1) elements := by
  refine ⟨(m.stack.drop first).take count, peekMany_of_le first h, ?_, fun i hi ↦ ⟨first + i, by omega, ?_⟩⟩
  · rw [List.length_take, List.length_drop]
    omega
  · rw [List.getElem_take, List.getElem_drop, List.getElem?_eq_getElem]

/-! ## Choices of keys -/

/-- The choice of keys as a word, compared with its own low bits. -/
def decodeBitfield (dummy : Bytes) (keyCount : Nat) : Exec σ Nat := do
  failIf (decide (keyCount > 32)) .invalidBitfieldSize
  failIf (dummy.length != (keyCount + 7) / 8) .invalidBitfieldSize
  let bits ← orFault (gather? 0 0 dummy)
  let mask ← difference (← orFault (shiftLeft? 1 keyCount)) 1
  failIf (bits &&& mask != bits) .invalidBitRange
  return bits % UInt32.size

/-- The next bit that is set, from a position on. -/
def seek? (bits position : Nat) : Option Nat :=
  match _h : shiftRight? bits position with
  | none => none
  | some rest => if rest &&& 1 = 0 then seek? bits (position + 1) else some position
termination_by 64 - position
decreasing_by
  unfold shiftRight? at _h
  split at _h
  · omega
  · cases _h

theorem difference_of_le {a b : Nat} (h : b ≤ a) : (difference a b : Exec σ Nat) = pure (a - b) := if_pos h

/-- Shifting bytes into a word gives the number that they denote. -/
theorem decodeBitfield_eq (dummy : Bytes) (keyCount : Nat) :
    (decodeBitfield dummy keyCount : Exec σ Nat) = lift (UtxoConsensus.decodeBitfield dummy keyCount) := by
  unfold decodeBitfield UtxoConsensus.decodeBitfield
  dsimp only
  by_cases hmany : keyCount > 32
  · rw [decide_eq_true hmany]
    rfl
  rw [decide_eq_false hmany, Bool.false_or, Nat.one_shiftLeft]
  by_cases hsize : dummy.length = (keyCount + 7) / 8
  · have hpow : 2 ^ keyCount ≤ 2 ^ 32 := Nat.pow_le_pow_right (by decide) (Nat.le_of_not_lt hmany)
    have hshift : shiftLeft? 1 keyCount = some (2 ^ keyCount) := by
      rw [shiftLeft?_of_lt (by omega) (by omega), Nat.one_mul]
    rw [gather?_eq (by omega), hshift, orFault_some, orFault_some, pure_bind, pure_bind,
      difference_of_le Nat.one_le_two_pow, pure_bind, Nat.and_two_pow_sub_one_eq_mod, hsize, bne_self_eq_false]
    by_cases hrange : Bytes.toNat dummy < 2 ^ keyCount
    · have hword : Bytes.toNat dummy % UInt32.size = Bytes.toNat dummy :=
        Nat.mod_eq_of_lt (Nat.lt_of_lt_of_le hrange hpow)
      rw [Nat.mod_eq_of_lt hrange, bne_self_eq_false, if_neg (Nat.not_le.mpr hrange), hword]
      rfl
    · have hmasked : (Bytes.toNat dummy % 2 ^ keyCount != Bytes.toNat dummy) = true := by
        have hmod := Nat.mod_lt (Bytes.toNat dummy) (Nat.two_pow_pos keyCount)
        rw [bne_iff_ne]
        omega
      rw [hmasked, if_pos (Nat.le_of_not_lt hrange)]
      rfl
  · rw [bne_iff_ne.mpr hsize]
    rfl

theorem lt_of_shiftRight_ne_zero {bits position : Nat} (hbits : bits < 2 ^ 32)
    (hleft : bits >>> position ≠ 0) : position < 32 := by
  apply Nat.lt_of_not_le
  intro hlong
  have hbelow : bits < 2 ^ position := Nat.lt_of_lt_of_le hbits (Nat.pow_le_pow_right (by decide) hlong)
  rw [Nat.shiftRight_eq_div_pow, Nat.div_eq_of_lt hbelow] at hleft
  exact hleft rfl

theorem skipUnset_nil (bits : Nat) : skipUnset bits [] = (bits, []) := by
  unfold skipUnset
  rfl

/-- A word that is not zero has a bit that is set, and the keys before it are skipped. The induction is on
the bits that are left. -/
theorem seek?_eq {bits position : Nat} (hbits : bits < 2 ^ 32) (hleft : bits >>> position ≠ 0)
    (keys : List Bytes) :
    ∃ next, position ≤ next ∧ next < 32 ∧ seek? bits position = some next ∧
      (next < keys.length →
        skipUnset (bits >>> position) (keys.drop position) = (bits >>> next, keys.drop next)) ∧
      (keys.length ≤ next → (skipUnset (bits >>> position) (keys.drop position)).2 = []) := by
  fun_induction seek? bits position with
  | case1 position hnone =>
    have hposition := lt_of_shiftRight_ne_zero hbits hleft
    rw [shiftRight?_of_lt (by omega)] at hnone
    cases hnone
  | case2 position rest hrest hunset ih =>
    have hposition := lt_of_shiftRight_ne_zero hbits hleft
    rw [shiftRight?_of_lt (by omega)] at hrest
    cases hrest
    rw [Nat.and_one_is_mod] at hunset
    have hhalf : bits >>> (position + 1) = bits >>> position / 2 := Nat.shiftRight_succ _ _
    obtain ⟨next, hle, hnext, hseek, hfound, hnone⟩ := ih (by rw [hhalf]; omega)
    refine ⟨next, by omega, hnext, hseek, ?_, ?_⟩
    · intro hwithin
      rw [List.drop_eq_getElem_cons (by omega), skipUnset, if_neg (by omega), ← hhalf, hfound hwithin]
    · intro hover
      by_cases hkey : position < keys.length
      · rw [List.drop_eq_getElem_cons hkey, skipUnset, if_neg (by omega), ← hhalf, hnone hover]
      · rw [List.drop_of_length_le (Nat.le_of_not_lt hkey), skipUnset_nil]
  | case3 position rest hrest hset =>
    have hposition := lt_of_shiftRight_ne_zero hbits hleft
    rw [shiftRight?_of_lt (by omega)] at hrest
    cases hrest
    rw [Nat.and_one_is_mod, Nat.mod_two_not_eq_zero] at hset
    refine ⟨position, Nat.le_refl _, hposition, rfl, ?_, ?_⟩
    · intro hwithin
      rw [List.drop_eq_getElem_cons hwithin, skipUnset, if_pos hset]
    · intro hover
      rw [List.drop_of_length_le hover, skipUnset_nil]

/-! ## Signatures with chosen keys -/

/-- Matches signatures with the next chosen keys. The deepest element of each kind has position zero. -/
def matchChosen (env : Env σ) (scriptCode : Bytes) (bits keyCount bottomKey bottomSig : Nat) :
    (count position keyPosition : Nat) → Exec σ Bool
  | 0, _, keyPosition => do
    failIf ((← orFault (shiftRight? bits keyPosition)) != 0) .invalidBitCount
    return true
  | count + 1, position, keyPosition => do
    failIf ((← orFault (shiftRight? bits keyPosition)) == 0) .invalidBitRange
    let keyPosition ← orFault (seek? bits keyPosition)
    failIf (decide (keyPosition ≥ keyCount)) .invalidBitRange
    let sig ← top (← difference bottomSig position)
    let key ← top (← difference bottomKey keyPosition)
    checkTransaction checkSchnorr env.flags sig
    checkPublicKey env.flags key
    let good ← Env.ask (env.checker.checkSig sig key scriptCode env.flags)
    failIf (!good) .sigNullFail
    Env.countSigChecks 1
    matchChosen env scriptCode bits keyCount bottomKey bottomSig count (position + 1) (keyPosition + 1)

theorem keeps_ask {α : Type} (question : StateM σ α) : Keeps Machine.stack (Env.ask question) := fun _ ↦ rfl

theorem keeps_countSigChecks (count : Nat) :
    Keeps Machine.stack (Env.countSigChecks count : Exec σ Unit) := fun _ ↦ rfl

/-- Each loop of the program takes the steps that the recursion on the lists of what is left takes. -/
theorem eqOn_matchChosen {scriptCode : Bytes} {bits bottomKey bottomSig : Nat} {keys sigs : List Bytes}
    (hbits : bits < 2 ^ 32)
    (hkeys : ∀ i (h : i < keys.length), i ≤ bottomKey ∧ At stack (bottomKey - i) keys[i])
    (hsigs : ∀ i (h : i < sigs.length), i ≤ bottomSig ∧ At stack (bottomSig - i) sigs[i])
    {count position keyPosition : Nat} (hcount : position + count = sigs.length)
    (hkeyPosition : keyPosition ≤ 32) :
    EqOn stack (matchChosen env scriptCode bits keys.length bottomKey bottomSig count position keyPosition)
      (UtxoConsensus.matchChosen env scriptCode (sigs.drop position) (bits >>> keyPosition)
        (keys.drop keyPosition)) := by
  have hshift {place : Nat} (hplace : place ≤ 32) : shiftRight? bits place = some (bits >>> place) :=
    shiftRight?_of_lt (by omega)
  induction count generalizing position keyPosition with
  | zero =>
    rw [List.drop_of_length_le (by omega), matchChosen, UtxoConsensus.matchChosen, hshift hkeyPosition,
      orFault_some, pure_bind]
    exact .refl _
  | succ count ih =>
    have hposition : position < sigs.length := by omega
    rw [List.drop_eq_getElem_cons hposition, matchChosen, UtxoConsensus.matchChosen, hshift hkeyPosition,
      orFault_some, pure_bind]
    by_cases hzero : bits >>> keyPosition = 0
    · rw [beq_iff_eq.mpr hzero]
      exact .refl _
    obtain ⟨next, -, hnext, hseek, hfound, hnone⟩ := seek?_eq hbits hzero keys
    rw [hseek, orFault_some]
    refine .same_bind (.failIf _ _) fun _ ↦ ?_
    rw [pure_bind]
    by_cases hwithin : next < keys.length
    · rw [decide_eq_false (Nat.not_le.mpr hwithin), hfound hwithin, List.drop_eq_getElem_cons hwithin]
      change EqOn stack (difference bottomSig position >>= _) _
      obtain ⟨hsigRange, hsig⟩ := hsigs position hposition
      obtain ⟨hkeyRange, hkey⟩ := hkeys next hwithin
      rw [difference_of_le hsigRange, difference_of_le hkeyRange, pure_bind]
      refine .pure_bind hsig.eqOn ?_
      rw [pure_bind]
      refine .pure_bind hkey.eqOn ?_
      rw [checkTransaction_eq checkSchnorr_eq, checkPublicKey_eq]
      refine .same_bind (.lift _) fun _ ↦ .same_bind (.lift _) fun _ ↦ .same_bind (keeps_ask _) fun good ↦ ?_
      refine .same_bind (.failIf _ _) fun _ ↦ .same_bind (keeps_countSigChecks 1) fun _ ↦ ?_
      rw [← Nat.shiftRight_succ]
      exact ih (by omega) (by omega)
    · have hskipped : skipUnset (bits >>> keyPosition) (keys.drop keyPosition) =
          ((skipUnset (bits >>> keyPosition) (keys.drop keyPosition)).1, []) :=
        Prod.ext rfl (hnone (Nat.le_of_not_lt hwithin))
      rw [decide_eq_true (Nat.le_of_not_lt hwithin), hskipped]
      exact .refl _

def schnorrMultisig (env : Env σ) (keyCount sigCount topKey topSig dummyDepth : Nat) : Exec σ Bool := do
  let bits ← decodeBitfield (← top dummyDepth) keyCount
  failIf (countBits bits != sigCount) .invalidBitCount
  let bottomKey ← difference (topKey + keyCount) 1
  let bottomSig ← difference (topSig + sigCount) 1
  matchChosen env (← get).scriptCode bits keyCount bottomKey bottomSig sigCount 0 0

theorem keeps_get : Keeps Machine.stack (get : Exec σ (Machine σ)) := fun _ ↦ rfl

theorem lt_of_decodeBitfield {dummy : Bytes} {keyCount bits : Nat}
    (h : UtxoConsensus.decodeBitfield dummy keyCount = .ok bits) : bits < 2 ^ 32 := by
  unfold UtxoConsensus.decodeBitfield at h
  dsimp only at h
  split at h
  · cases h
  · next hsize =>
    split at h
    · cases h
    · next hrange =>
      cases h
      rw [Bool.or_eq_true, not_or, decide_eq_true_eq, Nat.not_lt] at hsize
      rw [Nat.one_shiftLeft, Nat.not_le] at hrange
      exact Nat.lt_of_lt_of_le hrange (Nat.pow_le_pow_right (by decide) hsize.1)

/-- With keys and signatures by their depths, chosen keys are tried as before. -/
theorem eqOn_schnorrMultisig {keys sigs : List Bytes} {dummy : Bytes} {topKey topSig dummyDepth : Nat}
    (htopKey : 1 ≤ topKey) (htopSig : 1 ≤ topSig)
    (hkeys : LiesAt stack topKey keys)
    (hsigs : LiesAt stack topSig sigs) (hdummy : At stack dummyDepth dummy) :
    EqOn stack (schnorrMultisig env keys.length sigs.length topKey topSig dummyDepth)
      (UtxoConsensus.schnorrMultisig env keys sigs dummy) := by
  unfold schnorrMultisig UtxoConsensus.schnorrMultisig
  refine .pure_bind hdummy.eqOn ?_
  rw [decodeBitfield_eq, difference_of_le (by omega), difference_of_le (by omega)]
  refine .lift_bind fun bits hbits ↦ .same_bind (.failIf _ _) fun _ ↦ ?_
  rw [pure_bind, pure_bind]
  refine .same_bind keeps_get fun m ↦ ?_
  have hmatch : EqOn stack (matchChosen env m.scriptCode bits keys.reverse.length _ _ sigs.length 0 0) _ :=
    eqOn_matchChosen (lt_of_decodeBitfield hbits) (hkeys.at_reverse htopKey) (hsigs.at_reverse htopSig)
      (by rw [Nat.zero_add, List.length_reverse]) (Nat.zero_le _)
  rwa [List.length_reverse] at hmatch

/-! ## Signatures matched in order -/

/-- Removes the signatures from the script code, from the topmost on. -/
def cleanAll (env : Env σ) (topSig : Nat) : (count position : Nat) → (scriptCode : Bytes) → Exec σ Bytes
  | 0, _, scriptCode => return scriptCode
  | count + 1, position, scriptCode => do
    let sig ← top (topSig + position)
    let scriptCode ← cleanScriptCode env.flags scriptCode sig
    cleanAll env topSig count (position + 1) scriptCode

/-- Are the signatures from a position on all empty? -/
def allEmpty (topSig : Nat) : (count position : Nat) → Exec σ Bool
  | 0, _ => return true
  | count + 1, position => do
    if (← top (topSig + position)).isEmpty then allEmpty topSig count (position + 1) else return false

/-- Tries the next key against the next signature; returns how many signatures are left then. -/
def tryKey (env : Env σ) (scriptCode : Bytes) (keyCount sigCount topKey topSig keysLeft sigsLeft : Nat) :
    Exec σ Nat := do
  let sig ← top (topSig + (← difference sigCount sigsLeft))
  let key ← top (topKey + (← difference keyCount keysLeft))
  checkTransaction checkEcdsa env.flags sig
  checkPublicKey env.flags key
  let good ← Env.ask (env.checker.checkSig sig key scriptCode env.flags)
  if good then difference sigsLeft 1 else return sigsLeft

/-- Tries keys from the topmost on. What is left of signatures and keys is counted down. -/
def matchInOrder (env : Env σ) (scriptCode : Bytes) (keyCount sigCount topKey topSig : Nat) :
    (keysLeft sigsLeft : Nat) → Exec σ Bool
  | _, 0 => return true
  | 0, sigsLeft + 1 => do
    let _ ← tryKey env scriptCode keyCount sigCount topKey topSig 0 (sigsLeft + 1)
    throw .fault
  | keysLeft + 1, sigsLeft + 1 => do
    let sigsLeft ← tryKey env scriptCode keyCount sigCount topKey topSig (keysLeft + 1) (sigsLeft + 1)
    if sigsLeft > keysLeft then return false
    else matchInOrder env scriptCode keyCount sigCount topKey topSig keysLeft sigsLeft

theorem eqOn_cleanAll {sigs : List Bytes} {topSig : Nat}
    (hsigs : LiesAt stack topSig sigs) {count position : Nat}
    (hcount : position + count = sigs.length) (scriptCode : Bytes) :
    EqOn stack (cleanAll env topSig count position scriptCode)
      (pure ((sigs.drop position).foldl (UtxoConsensus.cleanScriptCode env.flags) scriptCode)) := by
  induction count generalizing position scriptCode with
  | zero =>
    rw [List.drop_of_length_le (by omega)]
    exact .refl _
  | succ count ih =>
    have hposition : position < sigs.length := by omega
    rw [cleanAll, List.drop_eq_getElem_cons hposition, List.foldl_cons]
    refine .pure_bind (hsigs position hposition).eqOn ?_
    rw [cleanScriptCode_eq, pure_bind]
    exact ih (by omega) _

theorem eqOn_allEmpty {sigs : List Bytes} {topSig : Nat}
    (hsigs : LiesAt stack topSig sigs) {count position : Nat}
    (hcount : position + count = sigs.length) :
    EqOn stack (allEmpty topSig count position : Exec σ Bool) (pure ((sigs.drop position).all List.isEmpty)) := by
  induction count generalizing position with
  | zero =>
    rw [List.drop_of_length_le (by omega)]
    exact .refl _
  | succ count ih =>
    have hposition : position < sigs.length := by omega
    rw [allEmpty, List.drop_eq_getElem_cons hposition, List.all_cons]
    refine .pure_bind (hsigs position hposition).eqOn ?_
    cases sigs[position].isEmpty with
    | true => exact ih (by omega)
    | false => exact .refl _

theorem length_drop_sub {elements : List Bytes} {left : Nat} (h : left ≤ elements.length) :
    (elements.drop (elements.length - left)).length = left := by
  rw [List.length_drop, Nat.sub_sub_self h]

/-- There are never more signatures left than keys. -/
theorem eqOn_matchInOrder (env : Env σ) (scriptCode : Bytes) {keys sigs : List Bytes} {topKey topSig : Nat}
    (hkeys : LiesAt stack topKey keys)
    (hsigs : LiesAt stack topSig sigs) {keysLeft sigsLeft : Nat}
    (hleft : sigsLeft ≤ keysLeft) (hkeysLeft : keysLeft ≤ keys.length) (hsigsLeft : sigsLeft ≤ sigs.length) :
    EqOn stack (matchInOrder env scriptCode keys.length sigs.length topKey topSig keysLeft sigsLeft)
      (UtxoConsensus.matchInOrder env scriptCode (sigs.drop (sigs.length - sigsLeft))
        (keys.drop (keys.length - keysLeft))) := by
  induction keysLeft generalizing sigsLeft with
  | zero =>
    obtain rfl := Nat.le_zero.mp hleft
    rw [Nat.sub_zero, Nat.sub_zero, List.drop_length, List.drop_length, matchInOrder,
      UtxoConsensus.matchInOrder]
    exact .refl _
  | succ keysLeft ih =>
    have hkey : keys.length - (keysLeft + 1) < keys.length := by omega
    have hnextKey : keys.length - (keysLeft + 1) + 1 = keys.length - keysLeft := by omega
    rw [List.drop_eq_getElem_cons hkey, hnextKey]
    cases sigsLeft with
    | zero =>
      rw [Nat.sub_zero, List.drop_length, matchInOrder, UtxoConsensus.matchInOrder]
      exact .refl _
    | succ sigsLeft =>
      have hsig : sigs.length - (sigsLeft + 1) < sigs.length := by omega
      have hnextSig : sigs.length - (sigsLeft + 1) + 1 = sigs.length - sigsLeft := by omega
      rw [List.drop_eq_getElem_cons hsig, hnextSig, matchInOrder, UtxoConsensus.matchInOrder, tryKey,
        difference_of_le hsigsLeft, difference_of_le hkeysLeft]
      simp only [bind_assoc, pure_bind, checkTransaction_eq checkEcdsa_eq, checkPublicKey_eq]
      refine .pure_bind (hsigs _ hsig).eqOn (.pure_bind (hkeys _ hkey).eqOn ?_)
      refine .same_bind (.lift _) fun _ ↦ .same_bind (.lift _) fun _ ↦ .same_bind (keeps_ask _) fun good ↦ ?_
      have hcontinue {left : Nat} (h : left ≤ sigs.length) :
          EqOn stack
            (if left > keysLeft then pure false
              else matchInOrder env scriptCode keys.length sigs.length topKey topSig keysLeft left)
            (if (sigs.drop (sigs.length - left)).length > (keys.drop (keys.length - keysLeft)).length then
                pure false
              else UtxoConsensus.matchInOrder env scriptCode (sigs.drop (sigs.length - left))
                (keys.drop (keys.length - keysLeft))) := by
        rw [length_drop_sub h, length_drop_sub (Nat.le_of_succ_le hkeysLeft)]
        by_cases hfew : left > keysLeft
        · rw [if_pos hfew, if_pos hfew]
          exact .refl _
        · rw [if_neg hfew, if_neg hfew]
          exact ih (by omega) (by omega) h
      cases good with
      | true => exact hcontinue (Nat.le_of_succ_le hsigsLeft)
      | false =>
        have h := hcontinue hsigsLeft
        rwa [List.drop_eq_getElem_cons hsig, hnextSig] at h

def legacyMultisig (env : Env σ) (keyCount sigCount topKey topSig : Nat) : Exec σ Bool := do
  let scriptCode ← cleanAll env topSig sigCount 0 (← get).scriptCode
  let good ← matchInOrder env scriptCode keyCount sigCount topKey topSig keyCount sigCount
  let empty ← allEmpty topSig sigCount 0
  failIf (!good && env.has .nullFail && !empty) .sigNullFail
  Env.countSigChecks (if empty then 0 else keyCount)
  return good

theorem keeps_matchInOrder (scriptCode : Bytes) (sigs keys : List Bytes) :
    Keeps Machine.stack (UtxoConsensus.matchInOrder env scriptCode sigs keys) := by
  induction keys generalizing sigs with
  | nil => exact .ite (.pure _) (.throw _)
  | cons key keys ih =>
    cases sigs with
    | nil => exact .pure _
    | cons sig rest =>
      exact .bind (.lift _) fun _ ↦ .bind (.lift _) fun _ ↦ .bind (keeps_ask _) fun _ ↦
        .ite (.pure _) (ih _)

/-- With keys and signatures by their depths, signatures are matched as before. -/
theorem eqOn_legacyMultisig {keys sigs : List Bytes} {topKey topSig : Nat}
    (hkeys : LiesAt stack topKey keys)
    (hsigs : LiesAt stack topSig sigs) (hcount : sigs.length ≤ keys.length) :
    EqOn stack (legacyMultisig env keys.length sigs.length topKey topSig)
      (UtxoConsensus.legacyMultisig env keys sigs) := by
  have hmatch (scriptCode : Bytes) : EqOn stack
      (matchInOrder env scriptCode keys.length sigs.length topKey topSig keys.length sigs.length)
      (UtxoConsensus.matchInOrder env scriptCode sigs keys) := by
    have h := eqOn_matchInOrder env scriptCode hkeys hsigs hcount (Nat.le_refl _) (Nat.le_refl _)
    simpa only [Nat.sub_self, List.drop_zero] using h
  refine .same_bind keeps_get fun m ↦ .pure_bind (eqOn_cleanAll hsigs (Nat.zero_add _) _) ?_
  refine .bind (hmatch _) (keeps_matchInOrder _ _ _) fun good ↦ ?_
  exact .pure_bind (eqOn_allEmpty hsigs (Nat.zero_add _)) (.refl _)

/-! ## Multisignatures -/

def boundedCount (env : Env σ) (depth limit : Nat) (e : ScriptError) : Exec σ Nat :=
  boundedCountWith (number env) (top depth) limit e

def executeCheckMultisig (env : Env σ) (verify : Bool) : Exec σ Unit := do
  require 1
  let keyCount ← boundedCount env 1 Script.maxMultisigKeys .pubkeyCount
  Env.countOperations keyCount
  let topKey := 2
  let sigCountDepth := topKey + keyCount
  require sigCountDepth
  let sigCount ← boundedCount env sigCountDepth keyCount .sigCount
  let topSig := sigCountDepth + 1
  let dummyDepth := topSig + sigCount
  require dummyDepth
  let dummy ← top dummyDepth
  let good ←
    if env.has .enableSchnorrMultisig && !dummy.isEmpty then
      schnorrMultisig env keyCount sigCount topKey topSig dummyDepth
    else legacyMultisig env keyCount sigCount topKey topSig
  drop dummyDepth
  answer verify .checkMultisigVerify good

theorem boundedCount_succ (env : Env σ) (depth limit : Nat) (e : ScriptError) :
    boundedCount env (depth + 1) limit e = UtxoConsensus.boundedCount env depth limit e := by
  unfold boundedCount UtxoConsensus.boundedCount
  rw [top_succ, number_eq]

/-- A count that was read is within its limit. -/
theorem boundedCount_bind_congr {α : Type} {env : Env σ} {depth limit : Nat} {e : ScriptError}
    {f g : Nat → Exec σ α} (h : ∀ n, n ≤ limit → f n = g n) :
    (UtxoConsensus.boundedCount env depth limit e >>= f) =
      (UtxoConsensus.boundedCount env depth limit e >>= g) := by
  unfold UtxoConsensus.boundedCount boundedCountWith
  simp only [bind_assoc, pure_bind]
  refine bind_congr fun b ↦ bind_congr fun n ↦ ?_
  by_cases hlimit : n.toNat ≤ limit
  · rw [h _ hlimit]
  · rw [decide_eq_true (Nat.lt_of_not_le hlimit), Bool.or_true]
    rfl

theorem executeCheckMultisig_eq (env : Env σ) (verify : Bool) :
    executeCheckMultisig env verify = UtxoConsensus.executeCheckMultisig env verify := by
  unfold executeCheckMultisig UtxoConsensus.executeCheckMultisig
  dsimp only
  rw [boundedCount_succ]
  refine bind_congr fun _ ↦ bind_congr fun keyCount ↦ bind_congr fun _ ↦ ?_
  rw [Nat.add_comm 2 keyCount, boundedCount_succ]
  refine bind_congr fun _ ↦ boundedCount_bind_congr fun sigCount hsigCount ↦ ?_
  have hdepth : keyCount + 2 + 1 + sigCount = keyCount + sigCount + 2 + 1 := by omega
  rw [hdepth]
  refine require_bind_congr fun m hm ↦ ?_
  obtain ⟨keys, hkeys, rfl, hkeysAt⟩ := exists_block 1 keyCount (m := m) (by omega)
  obtain ⟨sigs, hsigs, rfl, hsigsAt⟩ :=
    exists_block (keys.length + 2) sigCount (m := m) (by omega)
  have hget : m.stack[keys.length + sigs.length + 2]? = some m.stack[keys.length + sigs.length + 2] :=
    List.getElem?_eq_getElem _
  have hdummy : peek (keys.length + sigs.length + 2) m = .ok m.stack[keys.length + sigs.length + 2] m :=
    peek_of_lt _
  rw [top_succ, bind_of_ok hdummy, bind_of_ok hkeys, bind_of_ok hsigs, bind_of_ok hdummy]
  split
  · exact bind_congr_run (eqOn_schnorrMultisig (by decide) (Nat.succ_pos _) hkeysAt hsigsAt
      ⟨_, rfl, hget⟩ m rfl) _
  · exact bind_congr_run (eqOn_legacyMultisig hkeysAt hsigsAt hsigCount m rfl) _

end UtxoConsensus.Indexed
