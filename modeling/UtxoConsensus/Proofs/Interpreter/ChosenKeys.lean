import Mathlib.Data.List.OfFn
import Mathlib.Data.List.Sort
import Mathlib.Data.Nat.Bitwise
import UtxoConsensus.Proofs.Indexed.Multisignatures
import UtxoConsensus.Proofs.Interpreter.OrderedKeys

/-!
# Signatures matched with chosen keys

A multisignature of the new kind says itself which keys sign: one bit for each key, the lowest bit of the
first byte for the key at the bottom of the stack. The loop walks up the bits and the signatures together. A
bitfield is taken only if it is as short as it can be, has no bit for a key that is not there, and has as many
bits as there are signatures. Then the loop always finds the next bit, and none is left when the
signatures are used up. What remains to be checked are the pairs, and all of them have to be good.
-/

namespace UtxoConsensus

open Exec

variable {σ : Type} {env : Env σ} {accepts : Bytes → Bytes → Bytes → ScriptFlags → Bool}

/-! ## Bits of a byte string -/

/-- The bit at a position. The lowest bit of the first byte comes first. -/
def Bytes.bit (b : Bytes) (position : Nat) : Bool :=
  (b.getD (position / 8) 0).toNat.testBit (position % 8)

theorem Bytes.testBit_toNat (b : Bytes) (position : Nat) :
    (toNat b).testBit position = bit b position := by
  induction b generalizing position with
  | nil =>
    change Nat.testBit 0 position = Nat.testBit 0 (position % 8)
    rw [Nat.zero_testBit, Nat.zero_testBit]
  | cons byte rest ih =>
    have hlow : byte.toNat < 2 ^ 8 := byte.toNat_lt
    calc
      (toNat (byte :: rest)).testBit position = (2 ^ 8 * toNat rest + byte.toNat).testBit position := by
        rw [Nat.add_comm]
        rfl
      _ = if position < 8 then byte.toNat.testBit position else bit rest (position - 8) := by
        rw [Nat.testBit_two_pow_mul_add _ hlow, ih]
      _ = bit (byte :: rest) position := by
        unfold bit
        split
        · next hfirst => rw [Nat.div_eq_of_lt hfirst, Nat.mod_eq_of_lt hfirst, List.getD_cons_zero]
        · next hlater =>
          have hdiv : position / 8 = (position - 8) / 8 + 1 := by omega
          have hmod : position % 8 = (position - 8) % 8 := by omega
          rw [hdiv, hmod, List.getD_cons_succ]

/-! ## Positions of bits -/

/-- The positions of the bits that are set, in order, among those below a width. -/
def bitPositions (bits width : Nat) : List Nat :=
  (List.range width).filter bits.testBit

theorem mem_bitPositions {bits width position : Nat} :
    position ∈ bitPositions bits width ↔ position < width ∧ bits.testBit position = true := by
  unfold bitPositions
  rw [List.mem_filter, List.mem_range]

theorem mem_bitPositions_of_lt {bits width position : Nat} (h : bits < 2 ^ width) :
    position ∈ bitPositions bits width ↔ bits.testBit position = true := by
  rw [mem_bitPositions, and_iff_right_iff_imp]
  intro hset
  apply Nat.lt_of_not_le
  intro hlarge
  have hunset := Nat.testBit_lt_two_pow (Nat.lt_of_lt_of_le h (Nat.pow_le_pow_right (by decide) hlarge))
  exact Bool.false_ne_true (hunset.symm.trans hset)

theorem pairwise_bitPositions (bits width : Nat) : (bitPositions bits width).Pairwise (· < ·) :=
  List.pairwise_lt_range.filter _

/-- The lowest bit, and then the bits of half the number. -/
theorem bitPositions_succ (bits width : Nat) :
    bitPositions bits (width + 1) =
      (if bits % 2 = 1 then [0] else []) ++ (bitPositions (bits / 2) width).map (· + 1) := by
  have hlater : bits.testBit ∘ Nat.succ = (bits / 2).testBit := by
    funext position
    exact Nat.testBit_succ bits position
  unfold bitPositions
  rw [List.range_succ_eq_map, List.filter_cons, List.filter_map, hlater, Nat.testBit_zero]
  by_cases hodd : bits % 2 = 1
  · rw [decide_eq_true hodd, if_pos hodd]
    rfl
  · rw [decide_eq_false hodd, if_neg hodd]
    rfl

@[simp] theorem countBits_zero : countBits 0 = 0 := by
  rw [countBits, dif_pos rfl]

theorem countBits_eq (bits : Nat) : countBits bits = bits % 2 + countBits (bits / 2) := by
  by_cases hzero : bits = 0
  · rw [hzero, countBits_zero]
  · rw [countBits, dif_neg hzero]

theorem eq_zero_of_countBits_eq_zero {bits : Nat} (h : countBits bits = 0) : bits = 0 := by
  induction bits using Nat.strongRecOn with
  | ind bits ih =>
    rw [countBits_eq] at h
    by_contra hsome
    have hhalf := ih (bits / 2) (by omega) (by omega)
    omega

/-- There is one position for each bit. -/
theorem length_bitPositions {bits width : Nat} (h : bits < 2 ^ width) :
    (bitPositions bits width).length = countBits bits := by
  induction width generalizing bits with
  | zero =>
    obtain rfl : bits = 0 := Nat.lt_one_iff.mp h
    exact countBits_zero.symm
  | succ width ih =>
    have hhalf : bits / 2 < 2 ^ width := by
      rw [Nat.pow_succ] at h
      exact Nat.div_lt_of_lt_mul (Nat.mul_comm _ _ ▸ h)
    rw [bitPositions_succ, List.length_append, List.length_map, ih hhalf, countBits_eq bits]
    rcases Nat.mod_two_eq_zero_or_one bits with heven | hodd
    · rw [heven]
      rfl
    · rw [hodd]
      rfl

/-! ## Keys by their bits -/

/-- The keys whose bits are set. -/
def chosenKeys (bits : Nat) (keys : List Bytes) : List Bytes :=
  (bitPositions bits keys.length).map (keys.getD · [])

/-- The lowest bit decides about the first key. -/
theorem chosenKeys_cons (bits : Nat) (key : Bytes) (keys : List Bytes) :
    chosenKeys bits (key :: keys) =
      (if bits % 2 = 1 then [key] else []) ++ chosenKeys (bits / 2) keys := by
  unfold chosenKeys
  rw [List.length_cons, bitPositions_succ, List.map_append, List.map_map]
  congr 1
  split <;> rfl

theorem length_chosenKeys {bits : Nat} {keys : List Bytes} (h : bits < 2 ^ keys.length) :
    (chosenKeys bits keys).length = countBits bits := by
  unfold chosenKeys
  rw [List.length_map, length_bitPositions h]

/-- As long as a bit is set, there is a next key that is chosen. -/
theorem exists_skipUnset {bits : Nat} {keys : List Bytes} (hbits : bits < 2 ^ keys.length)
    (hsome : bits ≠ 0) :
    ∃ left key later, skipUnset bits keys = (left, key :: later) ∧ left / 2 < 2 ^ later.length ∧
      chosenKeys bits keys = key :: chosenKeys (left / 2) later := by
  induction keys generalizing bits with
  | nil => exact absurd (Nat.lt_one_iff.mp hbits) hsome
  | cons key keys ih =>
    have hhalf : bits / 2 < 2 ^ keys.length := by
      rw [List.length_cons, Nat.pow_succ] at hbits
      exact Nat.div_lt_of_lt_mul (Nat.mul_comm _ _ ▸ hbits)
    rw [chosenKeys_cons, skipUnset]
    by_cases hodd : bits % 2 = 1
    · rw [if_pos hodd, if_pos hodd]
      exact ⟨bits, key, keys, rfl, hhalf, rfl⟩
    · rw [if_neg hodd, if_neg hodd, List.nil_append]
      exact ih hhalf (by omega)

/-! ## Bitfields -/

/-- A bitfield is read if it has the length that the keys ask for and no bit above them. -/
theorem decodeBitfield_eq_ok_iff {dummy : Bytes} {keyCount bits : Nat} (hcount : keyCount ≤ 32) :
    decodeBitfield dummy keyCount = .ok bits ↔
      dummy.length = (keyCount + 7) / 8 ∧ bits < 2 ^ keyCount ∧ bits = Bytes.toNat dummy := by
  unfold decodeBitfield
  dsimp only
  rw [decide_eq_false (Nat.not_lt.mpr hcount), Bool.false_or, Nat.one_shiftLeft]
  by_cases hsize : dummy.length = (keyCount + 7) / 8
  · rw [hsize, bne_self_eq_false, if_neg Bool.false_ne_true]
    by_cases hrange : Bytes.toNat dummy < 2 ^ keyCount
    · rw [if_neg (Nat.not_le.mpr hrange), Except.ok.injEq]
      constructor
      · rintro rfl
        exact ⟨rfl, hrange, rfl⟩
      · exact fun h ↦ h.2.2.symm
    · rw [if_pos (Nat.le_of_not_lt hrange)]
      exact iff_of_false nofun fun h ↦ hrange (h.2.2 ▸ h.2.1)
  · rw [if_pos (bne_iff_ne.mpr hsize)]
    exact iff_of_false nofun fun h ↦ hsize h.1

/-- A byte string chooses places: it has as few bytes as can hold a bit for each of `width` places, and its
bits that are set are those of the places, which are given in order. -/
structure Bytes.Chooses {count width : Nat} (b : Bytes) (place : Fin count → Fin width) : Prop where
  length_eq : b.length = (width + 7) / 8
  strictMono : StrictMono place
  bit_iff : ∀ position, bit b position = true ↔ ∃ j, (place j : Nat) = position

/-- Choosing places in order is reading off the positions of the bits. -/
theorem Bytes.chooses_iff {count width : Nat} (hwidth : width ≤ 32) {b : Bytes}
    {place : Fin count → Fin width} :
    b.Chooses place ↔ decodeBitfield b width = .ok (toNat b) ∧
      List.ofFn (fun j ↦ (place j : Nat)) = bitPositions (toNat b) width := by
  rw [decodeBitfield_eq_ok_iff hwidth]
  constructor
  · intro h
    have hbits : toNat b < 2 ^ width := by
      apply Nat.lt_pow_two_of_testBit
      intro position hposition
      rw [testBit_toNat, Bool.eq_false_iff]
      intro hset
      obtain ⟨j, rfl⟩ := (h.bit_iff position).mp hset
      exact Nat.not_lt.mpr hposition (place j).isLt
    have hsorted : (List.ofFn fun j ↦ (place j : Nat)).Pairwise (· < ·) :=
      List.pairwise_ofFn.mpr fun i j hij ↦ h.strictMono hij
    refine ⟨⟨h.length_eq, hbits, rfl⟩, hsorted.eq_of_mem_iff (pairwise_bitPositions _ _) fun position ↦ ?_⟩
    rw [mem_bitPositions_of_lt hbits, List.mem_ofFn, testBit_toNat, h.bit_iff]
  · rintro ⟨⟨hlength, hbits, -⟩, hplaces⟩
    have hsorted := pairwise_bitPositions (toNat b) width
    rw [← hplaces] at hsorted
    refine ⟨hlength, fun i j hij ↦ List.pairwise_ofFn.mp hsorted hij, fun position ↦ ?_⟩
    rw [← testBit_toNat, ← mem_bitPositions_of_lt hbits, ← hplaces, List.mem_ofFn]

/-- There are as many places as bits that are set. -/
theorem exists_places {bits count width : Nat} (hbits : bits < 2 ^ width) (hcount : countBits bits = count) :
    ∃ place : Fin count → Fin width, List.ofFn (fun j ↦ (place j : Nat)) = bitPositions bits width := by
  have hlength : (bitPositions bits width).length = count := (length_bitPositions hbits).trans hcount
  subst hlength
  refine ⟨fun j ↦ ⟨(bitPositions bits width)[j], (mem_bitPositions.mp (List.getElem_mem j.isLt)).1⟩, ?_⟩
  exact List.ofFn_getElem

theorem reverse_eq_ofFn (elements : List Bytes) :
    elements.reverse = List.ofFn fun j : Fin elements.length ↦ elements[j.rev] := by
  apply List.ext_getElem
  · rw [List.length_reverse, List.length_ofFn]
  · intro i _ hi
    rw [List.length_ofFn] at hi
    have hplace : elements.length - 1 - i = elements.length - (i + 1) := by omega
    rw [List.getElem_reverse, List.getElem_ofFn]
    simp only [hplace, Fin.getElem_fin, Fin.val_rev]

theorem forall₂_ofFn {count : Nat} {R : Bytes → Bytes → Prop} {f g : Fin count → Bytes} :
    List.Forall₂ R (List.ofFn f) (List.ofFn g) ↔ ∀ j, R (f j) (g j) := by
  rw [List.forall₂_iff_get]
  simp only [List.length_ofFn, true_and, List.get_ofFn]
  constructor
  · exact fun h j ↦ h j j.isLt j.isLt
  · exact fun h i hi _ ↦ h ⟨i, hi⟩

/-- Signatures and chosen keys are matched from the bottom of the stack on. -/
theorem forall₂_chosenKeys_iff {bits : Nat} {keys sigs : List Bytes} {R : Bytes → Bytes → Prop}
    {place : Fin sigs.length → Fin keys.length}
    (hplaces : List.ofFn (fun j ↦ (place j : Nat)) = bitPositions bits keys.length) :
    List.Forall₂ R sigs.reverse (chosenKeys bits keys.reverse) ↔ ∀ j, R sigs[j.rev] keys[(place j).rev] := by
  have hkeys : chosenKeys bits keys.reverse = List.ofFn fun j ↦ keys[(place j).rev] := by
    unfold chosenKeys
    rw [List.length_reverse, ← hplaces, List.map_ofFn]
    congr 1
    funext j
    change keys.reverse.getD (place j) [] = _
    rw [reverse_eq_ofFn, List.getD_eq_getElem _ _ (by rw [List.length_ofFn]; exact (place j).isLt),
      List.getElem_ofFn]
  rw [hkeys, reverse_eq_ofFn sigs, forall₂_ofFn]

/-! ## Pairs of a signature and a key -/

/-- The errors that say that a bitfield does not fit the signatures and keys. -/
def ScriptError.IsBitError (e : ScriptError) : Prop :=
  e = .invalidBitRange ∨ e = .invalidBitCount

instance (e : ScriptError) : Decidable e.IsBitError :=
  inferInstanceAs (Decidable (_ ∨ _))

namespace Encoding

variable {flags : ScriptFlags} {sig key : Bytes} {e : ScriptError}

theorem not_isBitError_of_checkHashType (h : checkHashType flags sig = .error e) : ¬ e.IsBitError := by
  unfold checkHashType at h
  dsimp only at h
  by_cases hstrict : flags.contains .strictEnc = true
  · rw [hstrict, Bool.not_true, if_neg Bool.false_ne_true] at h
    split_ifs at h <;> cases h <;> decide
  · rw [Bool.not_eq_true] at hstrict
    rw [hstrict, Bool.not_false, if_pos rfl] at h
    cases h

theorem not_isBitError_of_checkTransactionSchnorr (h : checkTransactionSchnorr flags sig = .error e) :
    ¬ e.IsBitError := by
  unfold checkTransactionSchnorr checkTransaction checkSchnorr at h
  split at h
  · cases h
  · split at h
    · exact not_isBitError_of_checkHashType h
    · cases h
      decide

theorem not_isBitError_of_checkPublicKey (h : checkPublicKey flags key = .error e) : ¬ e.IsBitError := by
  unfold checkPublicKey at h
  split at h
  · cases h
    decide
  · cases h

end Encoding

/-- A signature and a key that are well formed, and of which the first signs under the second. -/
structure Env.Approves (env : Env σ) (accepts : Bytes → Bytes → Bytes → ScriptFlags → Bool)
    (scriptCode sig key : Bytes) : Prop where
  sig_ok : Encoding.checkTransactionSchnorr env.flags sig = .ok ()
  key_ok : Encoding.checkPublicKey env.flags key = .ok ()
  accepted : accepts sig key scriptCode env.flags = true

/-- What is done with a signature and the key that is chosen for it. -/
def approve (env : Env σ) (scriptCode sig key : Bytes) : Exec σ Unit := do
  lift (Encoding.checkTransactionSchnorr env.flags sig)
  lift (Encoding.checkPublicKey env.flags key)
  let good ← Env.ask (env.checker.checkSig sig key scriptCode env.flags)
  failIf (!good) .sigNullFail
  Env.countSigChecks 1

variable {scriptCode sig key : Bytes}

/-- A pair that is approved goes through. -/
theorem approve_of_approves (hchecker : env.checker.JudgesBy accepts)
    (h : env.Approves accepts scriptCode sig key) (m : Machine σ) :
    ∃ world, approve env scriptCode sig key m =
      .ok () { m with world, sigChecks := m.sigChecks + 1 } := by
  obtain ⟨world, hask⟩ := hchecker.ask_eq sig key scriptCode env.flags m
  refine ⟨world, ?_⟩
  unfold approve
  rw [h.sig_ok, h.key_ok, lift_ok, pure_bind, pure_bind, bind_of_ok hask, h.accepted]
  rfl

/-- A pair that is not approved ends the run, with an error that does not speak of bits. -/
theorem approve_of_not_approves (hchecker : env.checker.JudgesBy accepts)
    (h : ¬ env.Approves accepts scriptCode sig key) (m : Machine σ) :
    ∃ e m', approve env scriptCode sig key m = .error (.failed e) m' ∧ ¬ e.IsBitError := by
  unfold approve
  cases hsig : Encoding.checkTransactionSchnorr env.flags sig with
  | error e => exact ⟨e, m, rfl, Encoding.not_isBitError_of_checkTransactionSchnorr hsig⟩
  | ok =>
    cases hkey : Encoding.checkPublicKey env.flags key with
    | error e => exact ⟨e, m, rfl, Encoding.not_isBitError_of_checkPublicKey hkey⟩
    | ok =>
      obtain ⟨world, hask⟩ := hchecker.ask_eq sig key scriptCode env.flags m
      have hrefused : accepts sig key scriptCode env.flags = false :=
        Bool.eq_false_iff.mpr fun haccepted ↦ h ⟨hsig, hkey, haccepted⟩
      refine ⟨.sigNullFail, { m with world }, ?_, by decide⟩
      rw [lift_ok, pure_bind, pure_bind, bind_of_ok hask, hrefused]
      rfl

/-! ## The loop -/

/-- One round of the loop, where there is a key left that is chosen. -/
theorem matchChosen_cons {sigs later keys : List Bytes} {bits left : Nat} (hsome : bits ≠ 0)
    (hskip : skipUnset bits keys = (left, key :: later)) :
    matchChosen env scriptCode (sig :: sigs) bits keys = (do
      approve env scriptCode sig key
      matchChosen env scriptCode sigs (left / 2) later) := by
  unfold approve
  rw [matchChosen, beq_eq_false_iff_ne.mpr hsome, hskip]
  simp only [bind_assoc]
  rfl

/-- The loop approves of each signature with the key that is chosen for it, and of nothing else. It ends
where the bits end, so none of its exits for bits that are missing or left over is taken. The induction is on
the signatures; the bits that are left are always as many. -/
theorem matchChosen_run (hchecker : env.checker.JudgesBy accepts) {bits : Nat} {sigs keys : List Bytes}
    (hbits : bits < 2 ^ keys.length) (hcount : countBits bits = sigs.length) (m : Machine σ) :
    (List.Forall₂ (env.Approves accepts scriptCode) sigs (chosenKeys bits keys) ∧
      ∃ world, matchChosen env scriptCode sigs bits keys m =
        .ok true { m with world, sigChecks := m.sigChecks + sigs.length }) ∨
    (¬ List.Forall₂ (env.Approves accepts scriptCode) sigs (chosenKeys bits keys) ∧
      ∃ e m', matchChosen env scriptCode sigs bits keys m = .error (.failed e) m' ∧ ¬ e.IsBitError) := by
  induction sigs generalizing bits keys m with
  | nil =>
    obtain rfl : bits = 0 := eq_zero_of_countBits_eq_zero hcount
    have hnone : chosenKeys 0 keys = [] :=
      List.length_eq_zero_iff.mp ((length_chosenKeys hbits).trans countBits_zero)
    rw [hnone]
    exact .inl ⟨.nil, m.world, rfl⟩
  | cons sig sigs ih =>
    have hsome : bits ≠ 0 := by
      rintro rfl
      rw [countBits_zero] at hcount
      cases hcount
    obtain ⟨left, key, later, hskip, hleft, hchosen⟩ := exists_skipUnset hbits hsome
    have hrest : countBits (left / 2) = sigs.length := by
      have hlength := length_chosenKeys hbits
      rw [hchosen, List.length_cons, length_chosenKeys hleft, hcount, List.length_cons] at hlength
      exact Nat.succ_injective hlength
    rw [hchosen, List.forall₂_cons, matchChosen_cons hsome hskip]
    by_cases happroves : env.Approves accepts scriptCode sig key
    · obtain ⟨world, happrove⟩ := approve_of_approves hchecker happroves m
      rw [and_iff_right happroves, bind_of_ok happrove, List.length_cons, Nat.add_comm sigs.length,
        ← Nat.add_assoc]
      exact ih hleft hrest { m with world, sigChecks := m.sigChecks + 1 }
    · obtain ⟨e, m', happrove, he⟩ := approve_of_not_approves hchecker happroves m
      rw [bind_of_error happrove]
      exact .inr ⟨fun h ↦ happroves h.1, e, m', rfl, he⟩

/-! ## Multisignatures -/

/-- A byte string chooses a key for each signature, both counted from the bottom of the stack, and each
signature is approved with its key. -/
def Env.ApprovesChosen (env : Env σ) (accepts : Bytes → Bytes → Bytes → ScriptFlags → Bool)
    (scriptCode : Bytes) (keys sigs : List Bytes) (dummy : Bytes) : Prop :=
  ∃ place : Fin sigs.length → Fin keys.length, dummy.Chooses place ∧
    ∀ j, env.Approves accepts scriptCode sigs[j.rev] keys[(place j).rev]

variable {keys sigs : List Bytes} {dummy : Bytes} {bits : Nat}

/-- A bitfield that fits chooses the keys that the loop looks at. -/
theorem approvesChosen_iff (hwidth : keys.length ≤ 32) :
    env.ApprovesChosen accepts scriptCode keys sigs dummy ↔
      ∃ bits, decodeBitfield dummy keys.length = .ok bits ∧ countBits bits = sigs.length ∧
        List.Forall₂ (env.Approves accepts scriptCode) sigs.reverse (chosenKeys bits keys.reverse) := by
  constructor
  · rintro ⟨place, hchooses, happroved⟩
    obtain ⟨hdecode, hplaces⟩ := (Bytes.chooses_iff hwidth).mp hchooses
    have hbits := ((decodeBitfield_eq_ok_iff hwidth).mp hdecode).2.1
    refine ⟨_, hdecode, ?_, (forall₂_chosenKeys_iff hplaces).mpr happroved⟩
    rw [← length_bitPositions hbits, ← hplaces, List.length_ofFn]
  · rintro ⟨bits, hdecode, hcount, happroved⟩
    obtain ⟨-, hbits, hvalue⟩ := (decodeBitfield_eq_ok_iff hwidth).mp hdecode
    obtain ⟨place, hplaces⟩ := exists_places hbits hcount
    refine ⟨place, ?_, (forall₂_chosenKeys_iff hplaces).mp happroved⟩
    rw [Bytes.chooses_iff hwidth, ← hvalue]
    exact ⟨hdecode, hplaces⟩

/-- The loop is entered with a bitfield that fits, and then decides. -/
theorem schnorrMultisig_eq (hdecode : decodeBitfield dummy keys.length = .ok bits)
    (hcount : countBits bits = sigs.length) (m : Machine σ) :
    schnorrMultisig env keys sigs dummy m =
      matchChosen env m.scriptCode sigs.reverse bits keys.reverse m := by
  unfold schnorrMultisig
  rw [hdecode, lift_ok, pure_bind, hcount, bne_self_eq_false]
  rfl

/-- Without a bitfield that fits the multisignature fails. -/
theorem schnorrMultisig_eq_error
    (h : ¬ ∃ bits, decodeBitfield dummy keys.length = .ok bits ∧ countBits bits = sigs.length)
    (m : Machine σ) : ∃ e, schnorrMultisig env keys sigs dummy m = .error (.failed e) m := by
  unfold schnorrMultisig
  cases hdecode : decodeBitfield dummy keys.length with
  | error e => exact ⟨e, rfl⟩
  | ok bits =>
    have hcount : (countBits bits != sigs.length) = true := by
      rw [bne_iff_ne]
      exact fun hsame ↦ h ⟨bits, hdecode, hsame⟩
    rw [lift_ok, pure_bind, hcount]
    exact ⟨.invalidBitCount, rfl⟩

/-- How the loop ends, if it is entered with a bitfield that fits. -/
theorem matchChosen_reverse_run (hchecker : env.checker.JudgesBy accepts) (hwidth : keys.length ≤ 32)
    (hdecode : decodeBitfield dummy keys.length = .ok bits) (hcount : countBits bits = sigs.length)
    (scriptCode : Bytes) (m : Machine σ) :
    (env.ApprovesChosen accepts scriptCode keys sigs dummy ∧
      ∃ world, matchChosen env scriptCode sigs.reverse bits keys.reverse m =
        .ok true { m with world, sigChecks := m.sigChecks + sigs.length }) ∨
    (¬ env.ApprovesChosen accepts scriptCode keys sigs dummy ∧
      ∃ e m', matchChosen env scriptCode sigs.reverse bits keys.reverse m = .error (.failed e) m' ∧
        ¬ e.IsBitError) := by
  have hbits := ((decodeBitfield_eq_ok_iff hwidth).mp hdecode).2.1
  have hiff : env.ApprovesChosen accepts scriptCode keys sigs dummy ↔
      List.Forall₂ (env.Approves accepts scriptCode) sigs.reverse (chosenKeys bits keys.reverse) := by
    rw [approvesChosen_iff hwidth]
    constructor
    · rintro ⟨bits', hdecode', -, happroved⟩
      rw [hdecode] at hdecode'
      cases hdecode'
      exact happroved
    · exact fun happroved ↦ ⟨bits, hdecode, hcount, happroved⟩
  have hlength : sigs.length = sigs.reverse.length := List.length_reverse.symm
  rw [hiff, hlength]
  rw [hlength] at hcount
  exact matchChosen_run hchecker (by rwa [List.length_reverse]) hcount m

/-- Once the bits are counted, no error speaks of them. -/
theorem not_isBitError_of_matchChosen (hchecker : env.checker.JudgesBy accepts) (hwidth : keys.length ≤ 32)
    (hdecode : decodeBitfield dummy keys.length = .ok bits) (hcount : countBits bits = sigs.length)
    {m m' : Machine σ} {e : ScriptError}
    (hrun : matchChosen env scriptCode sigs.reverse bits keys.reverse m = .error (.failed e) m') :
    ¬ e.IsBitError := by
  rcases matchChosen_reverse_run hchecker hwidth hdecode hcount scriptCode m with
    ⟨-, world, hok⟩ | ⟨-, e', m'', hfailed, hkind⟩
  · rw [hok] at hrun
    cases hrun
  · rw [hfailed] at hrun
    cases hrun
    exact hkind

/-- The opcode succeeds if every signature is approved for its chosen key, and fails otherwise. It does
not answer false. -/
theorem schnorrMultisig_run (hchecker : env.checker.JudgesBy accepts) (hwidth : keys.length ≤ 32)
    (sigs : List Bytes) (dummy : Bytes) (m : Machine σ) :
    (env.ApprovesChosen accepts m.scriptCode keys sigs dummy ∧
      ∃ world, schnorrMultisig env keys sigs dummy m =
        .ok true { m with world, sigChecks := m.sigChecks + sigs.length }) ∨
    (¬ env.ApprovesChosen accepts m.scriptCode keys sigs dummy ∧
      ∃ e m', schnorrMultisig env keys sigs dummy m = .error (.failed e) m') := by
  by_cases hfits : ∃ bits, decodeBitfield dummy keys.length = .ok bits ∧ countBits bits = sigs.length
  · obtain ⟨bits, hdecode, hcount⟩ := hfits
    rw [schnorrMultisig_eq hdecode hcount]
    apply Or.imp_right _ (matchChosen_reverse_run hchecker hwidth hdecode hcount m.scriptCode m)
    rintro ⟨h, e, m', hfailed, -⟩
    exact ⟨h, e, m', hfailed⟩
  · obtain ⟨e, hfailed⟩ := schnorrMultisig_eq_error hfits m
    refine .inr ⟨fun h ↦ ?_, e, m, hfailed⟩
    obtain ⟨bits, hdecode, hcount, -⟩ := (approvesChosen_iff hwidth).mp h
    exact hfits ⟨bits, hdecode, hcount⟩

/-- A multisignature of the new kind is good if and only if its bitfield chooses a key for each signature, in
the order from the bottom of the stack, and each signature is approved with its key. Otherwise it fails; it is
never merely not good. The exits for bits that are missing or left over are not taken by the loop, and the
search by positions for the next bit always ends. -/
theorem schnorrMultisig_approvesChosen (hchecker : env.checker.JudgesBy accepts) (hwidth : keys.length ≤ 32)
    (dummy : Bytes) (m : Machine σ) :
    ((∃ m', schnorrMultisig env keys sigs dummy m = .ok true m') ↔
      ∃ place : Fin sigs.length → Fin keys.length, dummy.Chooses place ∧
        ∀ j, env.Approves accepts m.scriptCode sigs[j.rev] keys[(place j).rev]) ∧
    (∀ good m', schnorrMultisig env keys sigs dummy m = .ok good m' →
      good = true ∧ m'.sigChecks = m.sigChecks + sigs.length) ∧
    (∀ bits, decodeBitfield dummy keys.length = .ok bits → countBits bits = sigs.length →
      ∀ e m', matchChosen env m.scriptCode sigs.reverse bits keys.reverse m = .error (.failed e) m' →
        ¬ e.IsBitError) ∧
    (∀ topKey topSig dummyDepth, 1 ≤ topKey → 1 ≤ topSig → Indexed.LiesAt m.stack topKey keys →
      Indexed.LiesAt m.stack topSig sigs → Indexed.At m.stack dummyDepth dummy →
      Indexed.schnorrMultisig env keys.length sigs.length topKey topSig dummyDepth m =
        schnorrMultisig env keys sigs dummy m ∧
      ∀ m', Indexed.schnorrMultisig env keys.length sigs.length topKey topSig dummyDepth m ≠
        .error .fault m') := by
  change ((∃ m', _) ↔ env.ApprovesChosen accepts m.scriptCode keys sigs dummy) ∧ _
  have hpositions {topKey topSig dummyDepth : Nat} (htopKey : 1 ≤ topKey) (htopSig : 1 ≤ topSig)
      (hkeys : Indexed.LiesAt m.stack topKey keys) (hsigs : Indexed.LiesAt m.stack topSig sigs)
      (hdummy : Indexed.At m.stack dummyDepth dummy) :
      Indexed.schnorrMultisig env keys.length sigs.length topKey topSig dummyDepth m =
        schnorrMultisig env keys sigs dummy m :=
    Indexed.eqOn_schnorrMultisig htopKey htopSig hkeys hsigs hdummy m rfl
  rcases schnorrMultisig_run hchecker hwidth sigs dummy m with ⟨happroved, world, hrun⟩ | ⟨hnot, e, m', hrun⟩
  · rw [hrun] at hpositions ⊢
    refine ⟨iff_of_true ⟨_, rfl⟩ happroved, ?_, fun _ hdecode hcount _ _ ↦
      not_isBitError_of_matchChosen hchecker hwidth hdecode hcount, ?_⟩
    · rintro good m' ⟨⟩
      exact ⟨rfl, rfl⟩
    · intro topKey topSig dummyDepth htopKey htopSig hkeys hsigs hdummy
      rw [hpositions htopKey htopSig hkeys hsigs hdummy]
      exact ⟨rfl, nofun⟩
  · rw [hrun] at hpositions ⊢
    refine ⟨iff_of_false nofun hnot, nofun, fun _ hdecode hcount _ _ ↦
      not_isBitError_of_matchChosen hchecker hwidth hdecode hcount, ?_⟩
    intro topKey topSig dummyDepth htopKey htopSig hkeys hsigs hdummy
    rw [hpositions htopKey htopSig hkeys hsigs hdummy]
    exact ⟨rfl, nofun⟩

theorem literalEnv_approves (scriptCode : Bytes) (byte : UInt8) :
    literalEnv.Approves (fun sig key _ _ ↦ sig == key) scriptCode (List.replicate 65 byte)
      (List.replicate 65 byte) where
  sig_ok := rfl
  key_ok := rfl
  accepted := beq_self_eq_true _

/-- Two signatures for three keys. The bits are those of the first key and of the third. -/
theorem schnorrMultisig_approvesChosen_twoOfThree :
    let keys := [3, 2, 1].map (List.replicate 65)
    let sigs := [3, 1].map (List.replicate 65)
    let m : Machine Unit := .start ([[3]] ++ keys ++ ([[2]] ++ sigs ++ [[5]])) ()
    literalEnv.checker.JudgesBy (fun sig key _ _ ↦ sig == key) ∧ keys.length ≤ 32 ∧
      (∃ m', schnorrMultisig literalEnv keys sigs [5] m = .ok true m' ∧ m'.sigChecks = 2) ∧
      (∃ bits, decodeBitfield [5] keys.length = .ok bits ∧ countBits bits = sigs.length) ∧
      Indexed.LiesAt m.stack 2 keys ∧ Indexed.LiesAt m.stack 6 sigs ∧ Indexed.At m.stack 8 [5] ∧
      ∃ m', Indexed.schnorrMultisig literalEnv 3 2 2 6 8 m = .ok true m' := by
  intro keys sigs m
  have hwidth : keys.length ≤ 32 := by decide
  have hbits : decodeBitfield [5] keys.length = .ok 5 :=
    (decodeBitfield_eq_ok_iff hwidth).mpr ⟨by decide, by decide, by decide⟩
  have hcount : countBits 5 = sigs.length := by
    rw [← length_bitPositions (show 5 < 2 ^ 3 by decide)]
    rfl
  have hkeys : Indexed.LiesAt m.stack 2 keys := Indexed.liesAt_append [[3]] keys _
  have hsigs : Indexed.LiesAt m.stack 6 sigs := by
    change Indexed.LiesAt ([[3]] ++ keys ++ ([[2]] ++ sigs ++ [[5]])) 6 sigs
    rw [List.append_assoc [[2]], ← List.append_assoc, ← List.append_assoc]
    exact Indexed.liesAt_append ([[3]] ++ keys ++ [[2]]) sigs [[5]]
  have hdummy : Indexed.At m.stack 8 [5] := ⟨7, rfl, rfl⟩
  have hplaces : ∃ place : Fin sigs.length → Fin keys.length, Bytes.Chooses [5] place ∧
      ∀ j, literalEnv.Approves (fun sig key _ _ ↦ sig == key) m.scriptCode sigs[j.rev] keys[(place j).rev] := by
    let place (j : Fin sigs.length) : Fin keys.length := ⟨2 * j, by
      have hj : (j : Nat) < 2 := j.isLt
      change 2 * (j : Nat) < 3
      omega⟩
    refine ⟨place, (Bytes.chooses_iff hwidth).mpr ⟨hbits, rfl⟩, fun j ↦ ?_⟩
    match j with
    | ⟨0, _⟩ => exact literalEnv_approves _ 1
    | ⟨1, _⟩ => exact literalEnv_approves _ 3
  obtain ⟨hiff, hok, -, hpositions⟩ := schnorrMultisig_approvesChosen literalEnv_judgesBy hwidth [5] m
  obtain ⟨m', hrun⟩ := hiff.mpr hplaces
  obtain ⟨hsame, -⟩ := hpositions 2 6 8 (by decide) (by decide) hkeys hsigs hdummy
  exact ⟨literalEnv_judgesBy, hwidth, ⟨m', hrun, (hok _ _ hrun).2⟩, ⟨5, hbits, hcount⟩, hkeys, hsigs, hdummy,
    m', hsame.trans hrun⟩

end UtxoConsensus
