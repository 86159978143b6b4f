import UtxoConsensus.Proofs.Interpreter.Faults

/-!
# No script faults

Every opcode checks what its steps need before it takes them: that there are enough elements, that a
depth or an index that it has read lies within the list that it looks at, that a size is not exceeded,
that a divisor is not zero. Operands have at most eight bytes, one bit of which is the sign, so that no
result leaves the words of 64 bits. So no instruction faults on any machine, and by induction on the
instructions no script does.
-/

namespace UtxoConsensus

open Exec

variable {σ : Type} {env : Env σ} {n : Nat}

theorem Env.maxNumberSize_le_maxSize64 (env : Env σ) : env.maxNumberSize ≤ ScriptNumber.maxSize64 := by
  unfold Env.maxNumberSize
  split <;> decide

/-! ## Numbers -/

/-- The numbers whose negative is a 64-bit number too. -/
def IsOperand (n : Int) : Prop :=
  (n.natAbs : Int) ≤ Int64.maxValue.toInt

theorem IsOperand.fits {i : Int} (h : IsOperand i) :
    Int64.minValue.toInt ≤ i ∧ i ≤ Int64.maxValue.toInt := by
  have hmin : Int64.minValue.toInt = -9223372036854775808 := rfl
  have hmax : Int64.maxValue.toInt = 9223372036854775807 := rfl
  unfold IsOperand at h
  omega

/-- Reading a number gives an operand, or an error. -/
theorem neverFaults_number (b : Bytes) : NeverFaults n (env.number b) IsOperand fun _ ↦ n :=
  (NeverFaults.lift _).weaken
    (fun _ hdecode ↦ ScriptNumber.natAbs_le_of_decode env.maxNumberSize_le_maxSize64 hdecode)
    fun _ ↦ Nat.le_refl n

theorem neverFaults_popNumber : NeverFaults n env.popNumber := by
  refine .bind (.require 1) fun _ _ ↦ .bind (.peek Nat.zero_lt_one) fun b _ ↦ ?_
  exact .bind (neverFaults_number b) fun _ _ ↦ .bind .pop fun _ _ ↦ .done _

/-! ## Elements -/

theorem neverFaults_copyMany {depth count : Nat} (h : depth + count ≤ n) :
    NeverFaults n (copyMany depth count : Exec σ Unit) :=
  .bind (.peekMany h) fun _ _ ↦ .any (.modify (k := 0) fun _ _ ↦ Nat.zero_le _)

theorem neverFaults_moveMany {depth count : Nat} (h : depth + count ≤ n) :
    NeverFaults n (moveMany depth count : Exec σ Unit) :=
  .bind (.peekMany h) fun _ _ ↦ .any (.modify (k := 0) fun _ _ ↦ Nat.zero_le _)

/-- The depth that is read lies within the stack that is left. -/
theorem neverFaults_popDepth : NeverFaults n (popDepth env) (fun _ ↦ True) fun depth ↦ depth + 1 := by
  refine .bind (.require 2) fun _ _ ↦ .bind (.peek Nat.zero_lt_two) fun b _ ↦ ?_
  refine .bind (neverFaults_number b) fun i _ ↦ .bind .pop fun _ _ ↦ .bind .get fun m _ ↦ ?_
  refine .bind (.failIf _ _) fun _ hrange ↦ .pure trivial ?_
  rw [Bool.or_eq_false_iff, decide_eq_false_iff_not, decide_eq_false_iff_not, Nat.not_le] at hrange
  exact hrange.2

/-- Every stack opcode asks for the elements that it touches. -/
theorem neverFaults_stack (op : StackOp) : NeverFaults n (executeStack env op) := by
  cases op with
  | toAltStack => exact .bind .pop fun _ _ ↦ .any (.modify (k := 0) fun _ _ ↦ Nat.zero_le _)
  | fromAltStack =>
    refine .bind .get fun m _ ↦ ?_
    cases m.altStack with
    | nil => exact .fail _
    | cons element rest =>
      exact .bind (.modify (k := 0) fun _ _ ↦ Nat.zero_le _) fun _ _ ↦ .any (.push element)
  | drop2 => exact .bind (.require 2) fun _ _ ↦ .any (.drop 2)
  | dup2 => exact .bind (.require 2) fun _ _ ↦ neverFaults_copyMany (by decide)
  | dup3 => exact .bind (.require 3) fun _ _ ↦ neverFaults_copyMany (by decide)
  | over2 => exact .bind (.require 4) fun _ _ ↦ neverFaults_copyMany (by decide)
  | rot2 => exact .bind (.require 6) fun _ _ ↦ neverFaults_moveMany (by decide)
  | swap2 =>
    refine .bind (.require 4) fun _ _ ↦ .bind (.exchange (by decide) (by decide)) fun _ _ ↦ ?_
    exact .any (.exchange (by decide) (by decide))
  | ifDup =>
    refine .bind (.require 1) fun _ _ ↦ .bind (.peek Nat.zero_lt_one) fun b _ ↦ ?_
    exact .ite (fun _ ↦ .any (.push b)) fun _ ↦ .done _
  | depth => exact .bind .get fun m _ ↦ .pushCount _
  | drop => exact .bind .pop fun _ _ ↦ .done _
  | dup => exact .bind (.require 1) fun _ _ ↦ .bind (.peek Nat.zero_lt_one) fun b _ ↦ .any (.push b)
  | nip => exact .bind (.require 2) fun _ _ ↦ .bind (.removeAt Nat.one_lt_two) fun _ _ ↦ .done _
  | «over» => exact .bind (.require 2) fun _ _ ↦ .bind (.peek Nat.one_lt_two) fun b _ ↦ .any (.push b)
  | pick =>
    refine .bind neverFaults_popDepth fun depth _ ↦ ?_
    exact .bind (.peek (Nat.lt_succ_self depth)) fun b _ ↦ .any (.push b)
  | roll =>
    refine .bind neverFaults_popDepth fun depth _ ↦ ?_
    exact .bind (.removeAt (Nat.lt_succ_self depth)) fun b _ ↦ .any (.push b)
  | rot =>
    refine .bind (.require 3) fun _ _ ↦ .bind (.exchange (by decide) (by decide)) fun _ _ ↦ ?_
    exact .any (.exchange (by decide) (by decide))
  | swap => exact .bind (.require 2) fun _ _ ↦ .any (.exchange Nat.one_lt_two Nat.zero_lt_two)
  | tuck =>
    refine .bind (.require 2) fun _ _ ↦ .bind (.peek Nat.zero_lt_two) fun b _ ↦ ?_
    exact .insertAt (Nat.le_refl 2) b

/-! ## Byte strings, bits and hashes -/

/-- A number is padded only to a size that is greater than its own. -/
theorem neverFaults_padNumber {b : Bytes} {size : Nat} (h : b.length < size) :
    NeverFaults n (padNumber b size : Exec σ Bytes) := by
  unfold padNumber
  generalize ScriptNumber.splitSign b = parts
  exact .bind (.difference h) fun _ _ ↦ .done _

/-- No rule says that the element that is split is the one that was measured before, so this is a run on
the stack itself. -/
theorem neverFaults_split : NeverFaults n (executeSplice env .split) := by
  rintro ⟨stack, altStack, scriptCode, opCount, sigChecks, world⟩ -
  rcases stack with _ | ⟨top, _ | ⟨element, rest⟩⟩
  · nofun
  · nofun
  · let m : Machine σ := ⟨top :: element :: rest, altStack, scriptCode, opCount, sigChecks, world⟩
    change EndsWell _ _ ((env.number top >>= fun position ↦ _) m)
    unfold Env.number
    cases ScriptNumber.decode top (env.has .minimalData) env.maxNumberSize (env.has .integers64Bit) with
    | error e => nofun
    | ok position =>
      change EndsWell _ _ ((failIf (decide (position < 0) || decide (position.toNat > element.length))
        .invalidSplitRange >>= fun _ ↦ _) m)
      cases hrange : decide (position < 0) || decide (position.toNat > element.length) with
      | true => nofun
      | false =>
        rw [Bool.or_eq_false_iff, decide_eq_false_iff_not, decide_eq_false_iff_not, Nat.not_lt] at hrange
        change EndsWell _ _ ((if position.toNat ≤ element.length then _ else _ : Exec σ Unit) _)
        rw [if_pos hrange.2]
        exact ⟨trivial, Nat.zero_le _⟩

theorem neverFaults_splice (op : SpliceOp) : NeverFaults n (executeSplice env op) := by
  cases op with
  | cat =>
    refine .bind (.require 2) fun _ _ ↦ .bind (.peek Nat.one_lt_two) fun _ _ ↦ ?_
    refine .bind (.peek Nat.zero_lt_two) fun _ _ ↦ .bind (.failIf _ _) fun _ _ ↦ ?_
    exact .bind .pop fun _ _ ↦ .bind .pop fun _ _ ↦ .any (.push _)
  | split => exact neverFaults_split
  | numToBin =>
    refine .bind (.require 2) fun _ _ ↦ .bind (.peek Nat.zero_lt_two) fun b _ ↦ ?_
    refine .bind (neverFaults_number b) fun size _ ↦ .bind (.failIf _ _) fun _ _ ↦ ?_
    refine .bind .pop fun _ _ ↦ .bind .pop fun element _ ↦ .bind (.failIf _ _) fun _ _ ↦ ?_
    refine .ite (fun hshort ↦ ?_) fun _ ↦ .bind (.done _) fun _ _ ↦ .any (.push _)
    exact .bind (neverFaults_padNumber hshort) fun _ _ ↦ .any (.push _)
  | binToNum => exact .bind .pop fun _ _ ↦ .bind (.failIf _ _) fun _ _ ↦ .any (.push _)
  | size => exact .bind (.require 1) fun _ _ ↦ .bind (.peek Nat.zero_lt_one) fun _ _ ↦ .pushCount _
  | reverseBytes => exact .bind .pop fun _ _ ↦ .any (.push _)

theorem neverFaults_bitwise (op : BitwiseOp) : NeverFaults n (executeBitwise op : Exec σ Unit) := by
  refine .bind (.require 2) fun _ _ ↦ .bind (.peek Nat.one_lt_two) fun _ _ ↦ ?_
  refine .bind (.peek Nat.zero_lt_two) fun _ _ ↦ .bind (.failIf _ _) fun _ _ ↦ ?_
  exact .bind .pop fun _ _ ↦ .bind .pop fun _ _ ↦ .any (.push _)

theorem neverFaults_equal (verify : Bool) : NeverFaults n (executeEqual verify : Exec σ Unit) := by
  refine .bind (.require 2) fun _ _ ↦ .bind (.peek Nat.one_lt_two) fun _ _ ↦ ?_
  exact .bind (.peek Nat.zero_lt_two) fun _ _ ↦ .bind (.drop 2) fun _ _ ↦ .answer verify _ _

theorem neverFaults_hash (op : HashOp) : NeverFaults n (executeHash op : Exec σ Unit) :=
  .bind .pop fun _ _ ↦ .any (.push _)

/-! ## Arithmetic -/

/-- A number that a result may be: an operand, or what an operation on operands gives. -/
theorem neverFaults_inNumberRange (i : Int) :
    NeverFaults n (inNumberRange i : Exec σ Int) IsOperand fun _ ↦ n := by
  unfold inNumberRange
  rw [ScriptNumber.inRange?_eq]
  by_cases hrange : (i.natAbs : Int) ≤ Int64.maxValue.toInt
  · rw [if_pos hrange]
    exact .pure hrange (Nat.le_refl n)
  · rw [if_neg hrange]
    exact .fail _

theorem isOperand_boolNumber (b : Bool) : IsOperand (boolNumber b) := by
  unfold IsOperand
  cases b <;> decide

theorem neverFaults_word {i : Int} (h : IsOperand i) :
    NeverFaults n (word i : Exec σ Int) IsOperand fun _ ↦ n :=
  (NeverFaults.word h.fits).weaken (fun _ hr ↦ hr ▸ h) fun _ ↦ Nat.le_refl n

/-- No operand leads out of the words. -/
theorem neverFaults_unaryApply {i : Int} (hi : IsOperand i) (op : UnaryOp) :
    NeverFaults n (op.apply i : Exec σ Int) IsOperand fun _ ↦ n := by
  cases op with
  | addOne => exact neverFaults_inNumberRange _
  | subOne => exact neverFaults_inNumberRange _
  | negate =>
    refine neverFaults_word ?_
    unfold IsOperand at hi ⊢
    rwa [Int.natAbs_neg]
  | abs =>
    refine neverFaults_word ?_
    unfold IsOperand at hi ⊢
    rwa [Int.natAbs_natCast]
  | not => exact .pure (isOperand_boolNumber _) (Nat.le_refl n)
  | notZero => exact .pure (isOperand_boolNumber _) (Nat.le_refl n)

/-- Sums, differences and products are checked, and the quotient of operands fits. -/
theorem neverFaults_binaryApply {a b : Int} (ha : IsOperand a) (hb : IsOperand b) (op : BinaryOp) :
    NeverFaults n (op.apply a b : Exec σ Int) IsOperand fun _ ↦ n := by
  cases op with
  | add => exact neverFaults_inNumberRange _
  | sub => exact neverFaults_inNumberRange _
  | mul => exact neverFaults_inNumberRange _
  | div =>
    refine .ite (fun _ ↦ .fail _) fun _ ↦ neverFaults_word ?_
    unfold IsOperand at ha ⊢
    have hle : (a.tdiv b).natAbs ≤ a.natAbs := by
      rw [Int.natAbs_tdiv]
      exact Nat.div_le_self _ _
    exact Int.le_trans (Int.ofNat_le.mpr hle) ha
  | mod =>
    refine .ite (fun _ ↦ .fail _) fun _ ↦ neverFaults_word ?_
    unfold IsOperand at ha ⊢
    have hle : (a.tmod b).natAbs ≤ a.natAbs := by
      rw [Int.natAbs_tmod]
      exact Nat.mod_le _ _
    exact Int.le_trans (Int.ofNat_le.mpr hle) ha
  | min =>
    refine .pure ?_ (Nat.le_refl n)
    split
    · exact hb
    · exact ha
  | max =>
    refine .pure ?_ (Nat.le_refl n)
    split
    · exact ha
    · exact hb
  | _ => exact .pure (isOperand_boolNumber _) (Nat.le_refl n)

theorem neverFaults_unary (op : UnaryOp) : NeverFaults n (executeUnary env op) := by
  refine .bind (.require 1) fun _ _ ↦ .bind (.peek Nat.zero_lt_one) fun b _ ↦ ?_
  refine .bind (neverFaults_number b) fun i hi ↦ .bind (neverFaults_unaryApply hi op) fun r hr ↦ ?_
  exact .bind .pop fun _ _ ↦ .pushNumber hr.fits

theorem neverFaults_binaryOperands :
    NeverFaults n (binaryOperands env) fun operands ↦ IsOperand operands.1 ∧ IsOperand operands.2 := by
  refine .bind (.require 2) fun _ _ ↦ .bind (.peek Nat.one_lt_two) fun b _ ↦ ?_
  refine .bind (neverFaults_number b) fun i hi ↦ .bind (.peek Nat.zero_lt_two) fun c _ ↦ ?_
  exact .bind (neverFaults_number c) fun j hj ↦ .pure ⟨hi, hj⟩ (Nat.zero_le _)

theorem neverFaults_binary (op : BinaryOp) : NeverFaults n (executeBinary env op) := by
  refine .bind neverFaults_binaryOperands fun (a, b) hab ↦ ?_
  refine .bind (neverFaults_binaryApply hab.1 hab.2 op) fun r hr ↦ ?_
  exact .bind (.drop 2) fun _ _ ↦ .pushNumber hr.fits

theorem neverFaults_numEqualVerify : NeverFaults n (executeNumEqualVerify env) :=
  .bind neverFaults_binaryOperands fun _ _ ↦ .bind (.drop 2) fun _ _ ↦ .any (.failIf _ _)

theorem neverFaults_within : NeverFaults n (executeWithin env) := by
  refine .bind (.require 3) fun _ _ ↦ .bind (.peek (by decide)) fun a _ ↦ ?_
  refine .bind (neverFaults_number a) fun _ _ ↦ .bind (.peek (by decide)) fun b _ ↦ ?_
  refine .bind (neverFaults_number b) fun _ _ ↦ .bind (.peek (by decide)) fun c _ ↦ ?_
  exact .bind (neverFaults_number c) fun _ _ ↦ .bind (.drop 3) fun _ _ ↦ .pushBool _

/-! ## Lock times -/

theorem neverFaults_upgradableNop : NeverFaults n (executeUpgradableNop env) :=
  .any (.failIf _ _)

theorem neverFaults_lockTimeOperand : NeverFaults n (lockTimeOperand env) := by
  refine .bind (.require 1) fun _ _ ↦ .bind (.peek Nat.zero_lt_one) fun _ _ ↦ .bind (.lift _) fun _ _ ↦ ?_
  exact .bind (.failIf _ _) fun _ _ ↦ .done _

theorem neverFaults_checkLockTime : NeverFaults n (executeCheckLockTime env) :=
  .ite (fun _ ↦ .bind neverFaults_lockTimeOperand fun _ _ ↦ .any (.failIf _ _))
    fun _ ↦ neverFaults_upgradableNop

theorem neverFaults_checkSequence : NeverFaults n (executeCheckSequence env) :=
  .ite (fun _ ↦ .bind neverFaults_lockTimeOperand fun _ _ ↦ .any (.failIf _ _))
    fun _ ↦ neverFaults_upgradableNop

/-! ## Signatures -/

theorem neverFaults_settle (good : Bool) :
    NeverFaults n (settle env good) (fun _ ↦ True) fun _ ↦ n :=
  .bind (.countSigChecks 1) fun _ _ ↦
    (NeverFaults.failIf _ _).weaken (fun _ _ ↦ trivial) fun _ ↦ Nat.le_refl n

/-- There are never more signatures left than keys, so that the keys do not run out first. -/
theorem neverFaults_matchInOrder (scriptCode : Bytes) {sigs keys : List Bytes}
    (h : sigs.length ≤ keys.length) : NeverFaults n (matchInOrder env scriptCode sigs keys) := by
  induction keys generalizing sigs n with
  | nil =>
    obtain rfl : sigs = [] := List.length_eq_zero_iff.mp (Nat.le_zero.mp h)
    exact .done _
  | cons key keys ih =>
    cases sigs with
    | nil => exact .done _
    | cons sig rest =>
      refine .bind (.lift _) fun _ _ ↦ .bind (.lift _) fun _ _ ↦ .bind (.ask _) fun good _ ↦ ?_
      exact .ite (fun _ ↦ .done _) fun hleft ↦ ih (Nat.le_of_not_lt hleft)

theorem neverFaults_legacyMultisig {keys sigs : List Bytes} (h : sigs.length ≤ keys.length) :
    NeverFaults n (legacyMultisig env keys sigs) := by
  refine .bind .get fun _ _ ↦ .bind (neverFaults_matchInOrder _ h) fun good _ ↦ ?_
  exact .bind (.failIf _ _) fun _ _ ↦ .bind (.countSigChecks _) fun _ _ ↦ .done _

theorem neverFaults_matchChosen (scriptCode : Bytes) (sigs : List Bytes) (bits : Nat) (keys : List Bytes) :
    NeverFaults n (matchChosen env scriptCode sigs bits keys) := by
  induction sigs generalizing bits keys n with
  | nil => exact .bind (.failIf _ _) fun _ _ ↦ .done _
  | cons sig sigs ih =>
    refine .bind (.failIf _ _) fun _ _ ↦ ?_
    split
    · exact .fail _
    · refine .bind (.lift _) fun _ _ ↦ .bind (.lift _) fun _ _ ↦ .bind (.ask _) fun good _ ↦ ?_
      exact .bind (.failIf _ _) fun _ _ ↦ .bind (.countSigChecks 1) fun _ _ ↦ ih _ _

theorem neverFaults_schnorrMultisig (keys sigs : List Bytes) (dummy : Bytes) :
    NeverFaults n (schnorrMultisig env keys sigs dummy) := by
  refine .bind (.lift _) fun bits _ ↦ .bind (.failIf _ _) fun _ _ ↦ .bind .get fun _ _ ↦ ?_
  exact neverFaults_matchChosen _ _ _ _

theorem neverFaults_checkSig (verify : Bool) : NeverFaults n (executeCheckSig env verify) := by
  refine .bind (.require 2) fun _ _ ↦ .bind (.peek Nat.one_lt_two) fun sig _ ↦ ?_
  refine .bind (.peek Nat.zero_lt_two) fun key _ ↦ .bind (.lift _) fun _ _ ↦ .bind (.lift _) fun _ _ ↦ ?_
  have hlast {k : Nat} (good : Bool) := NeverFaults.bind (σ := σ) (n := k) (.drop 2) fun _ _ ↦
    .answer verify .checkSigVerify good
  refine .ite (fun _ ↦ .bind (.done _) fun good _ ↦ hlast good) fun _ ↦ ?_
  refine .bind .get fun _ _ ↦ .bind (.ask _) fun good _ ↦ .bind (neverFaults_settle good) fun _ _ ↦ ?_
  exact .bind (.done _) fun good _ ↦ hlast good

theorem neverFaults_checkDataSig (verify : Bool) : NeverFaults n (executeCheckDataSig env verify) := by
  refine .bind (.require 3) fun _ _ ↦ .bind (.peek (by decide)) fun sig _ ↦ ?_
  refine .bind (.peek (by decide)) fun message _ ↦ .bind (.peek (by decide)) fun key _ ↦ ?_
  refine .bind (.lift _) fun _ _ ↦ .bind (.lift _) fun _ _ ↦ ?_
  have hlast {k : Nat} (good : Bool) := NeverFaults.bind (σ := σ) (n := k) (.drop 3) fun _ _ ↦
    .answer verify .checkDataSigVerify good
  refine .ite (fun _ ↦ .bind (.done _) fun good _ ↦ hlast good) fun _ ↦ ?_
  refine .bind (.ask _) fun good _ ↦ .bind (neverFaults_settle good) fun _ _ ↦ ?_
  exact .bind (.done _) fun good _ ↦ hlast good

/-- A count that is read does not exceed its bound. -/
theorem neverFaults_boundedCount {depth : Nat} (h : depth < n) (bound : Nat) (e : ScriptError) :
    NeverFaults n (boundedCount env depth bound e) (· ≤ bound) fun _ ↦ n := by
  refine .bind (.peek h) fun b _ ↦ .bind (neverFaults_number b) fun i _ ↦ ?_
  refine .bind (.failIf _ _) fun _ hrange ↦ .pure ?_ (Nat.le_refl n)
  rw [Bool.or_eq_false_iff, decide_eq_false_iff_not, decide_eq_false_iff_not, Nat.not_lt] at hrange
  exact hrange.2

/-- The elements that a count leads to are asked for before they are read. -/
theorem neverFaults_checkMultisig (verify : Bool) : NeverFaults n (executeCheckMultisig env verify) := by
  refine .bind (.require 1) fun _ _ ↦ ?_
  refine .bind (neverFaults_boundedCount Nat.zero_lt_one _ _) fun keyCount _ ↦ ?_
  refine .bind (.countOperations keyCount) fun _ _ ↦ .bind (.require _) fun _ _ ↦ ?_
  refine .bind (neverFaults_boundedCount (Nat.lt_succ_self _) keyCount _) fun sigCount hcount ↦ ?_
  refine .bind (.require _) fun _ _ ↦ .bind (.peekMany (by omega)) fun keys hkeys ↦ ?_
  refine .bind (.peekMany (by omega)) fun sigs hsigs ↦ .bind (.peek (by omega)) fun dummy _ ↦ ?_
  have hlast {k : Nat} (good : Bool) := NeverFaults.bind (σ := σ) (n := k)
    (.drop (keyCount + sigCount + 3)) fun _ _ ↦ .answer verify .checkMultisigVerify good
  have hfew : sigs.length ≤ keys.length := by rwa [hkeys, hsigs]
  exact .ite (fun _ ↦ .bind (neverFaults_schnorrMultisig keys sigs dummy) fun good _ ↦ hlast good)
    fun _ ↦ .bind (neverFaults_legacyMultisig hfew) fun good _ ↦ hlast good

/-! ## Introspection -/

theorem neverFaults_requireContext :
    NeverFaults n (requireContext env) (fun c ↦ env.checker.context = some c) fun _ ↦ n := by
  unfold requireContext
  cases env.checker.context with
  | none => exact .fail _
  | some c => exact .pure rfl (Nat.le_refl n)

/-- The index that is read lies within the list. -/
theorem neverFaults_popIndex (length : Nat) (e : ScriptError) :
    NeverFaults n (popIndex env length e) (· < length) := by
  refine .bind neverFaults_popNumber fun i _ ↦ .bind (.failIf _ _) fun _ hrange ↦ .pure ?_ (Nat.zero_le _)
  rw [Bool.or_eq_false_iff, decide_eq_false_iff_not, decide_eq_false_iff_not, Nat.not_le] at hrange
  exact hrange.2

theorem neverFaults_pushElement (b : Bytes) : NeverFaults n (pushElement b : Exec σ Unit) :=
  .bind (.failIf _ _) fun _ _ ↦ .any (.push b)

theorem neverFaults_element {α : Type} {list : List α} {index : Nat} (h : index < list.length) :
    NeverFaults n (orFault list[index]? : Exec σ α) := by
  refine .any (.orFault ?_)
  rw [List.getElem?_eq_getElem h]
  nofun

theorem neverFaults_popOutput (c : SpendContext) : NeverFaults n (popOutput env c) :=
  .bind (neverFaults_popIndex _ _) fun _ hindex ↦ neverFaults_element hindex

theorem neverFaults_popToken (c : SpendContext) (side : TokenSide) :
    NeverFaults n (popToken env c side) := by
  cases side with
  | coin => exact .bind (neverFaults_popIndex _ _) fun _ _ ↦ .bind (.lift _) fun _ _ ↦ .done _
  | output => exact .bind (neverFaults_popOutput c) fun _ _ ↦ .done _

/-- Words of 32 bits are numbers of 64 bits. -/
theorem fits_of_lt {i : Int} (h : -4294967296 ≤ i ∧ i ≤ 4294967296) :
    Int64.minValue.toInt ≤ i ∧ i ≤ Int64.maxValue.toInt := by
  have hmin : Int64.minValue.toInt = -9223372036854775808 := rfl
  have hmax : Int64.maxValue.toInt = 9223372036854775807 := rfl
  omega

theorem fits_uint32 (x : UInt32) :
    Int64.minValue.toInt ≤ (x.toNat : Int) ∧ (x.toNat : Int) ≤ Int64.maxValue.toInt := by
  have hlt : x.toNat < 2 ^ 32 := x.toNat_lt
  exact fits_of_lt (by omega)

theorem fits_int64 (x : Int64) : Int64.minValue.toInt ≤ x.toInt ∧ x.toInt ≤ Int64.maxValue.toInt :=
  ⟨Int64.minValue_le_toInt x, Int64.toInt_le x⟩

theorem neverFaults_transactionField (field : TransactionField) :
    NeverFaults n (executeTransactionField env field) := by
  refine .bind (.failIf _ _) fun _ _ ↦ .bind neverFaults_requireContext fun c _ ↦ ?_
  cases field with
  | inputIndex => exact .pushCount _
  | activeBytecode => exact .bind .get fun _ _ ↦ neverFaults_pushElement _
  | version =>
    have hmin := Int32.le_toInt c.tx.version
    have hmax := Int32.toInt_lt c.tx.version
    exact .pushNumber (fits_of_lt (by omega))
  | inputCount => exact .pushCount _
  | outputCount => exact .pushCount _
  | lockTime => exact .pushNumber (fits_uint32 _)

theorem neverFaults_inputField (field : InputField) : NeverFaults n (executeInputField env field) := by
  refine .bind (.failIf _ _) fun _ _ ↦ .bind neverFaults_requireContext fun c _ ↦ ?_
  refine .bind (neverFaults_popIndex _ _) fun index hindex ↦ ?_
  refine .bind (neverFaults_element hindex) fun input _ ↦ ?_
  cases field with
  | coinValue => exact .bind (.lift _) fun coin _ ↦ .pushNumber (fits_int64 coin.value.satoshis)
  | coinBytecode => exact .bind (.lift _) fun _ _ ↦ neverFaults_pushElement _
  | outpointHash => exact .any (.push _)
  | outpointIndex => exact .pushNumber (fits_uint32 _)
  | bytecode => exact .bind (.lift _) fun _ _ ↦ neverFaults_pushElement _
  | sequence => exact .pushNumber (fits_uint32 _)

theorem neverFaults_outputField (field : OutputField) : NeverFaults n (executeOutputField env field) := by
  refine .bind (.failIf _ _) fun _ _ ↦ .bind neverFaults_requireContext fun c _ ↦ ?_
  refine .bind (neverFaults_popOutput c) fun output _ ↦ ?_
  cases field with
  | value => exact .pushNumber (fits_int64 output.value.satoshis)
  | bytecode => exact neverFaults_pushElement _

theorem neverFaults_tokenField (side : TokenSide) (field : TokenField) :
    NeverFaults n (executeTokenField env side field) := by
  refine .bind (.failIf _ _) fun _ _ ↦ .bind neverFaults_requireContext fun c _ ↦ ?_
  refine .bind (neverFaults_popToken c side) fun token _ ↦ ?_
  cases field with
  | category => exact .any (.push _)
  | commitment => exact .any (.push _)
  | amount =>
    refine .pushNumber ?_
    cases token with
    | none => exact fits_int64 0
    | some t => exact fits_int64 t.amount

/-! ## Operations and branches -/

theorem neverFaults_verify : NeverFaults n (executeVerify : Exec σ Unit) := by
  refine .bind (.require 1) fun _ _ ↦ .bind (.peek Nat.zero_lt_one) fun _ _ ↦ ?_
  exact .bind (.failIf _ _) fun _ _ ↦ .bind .pop fun _ _ ↦ .done _

/-- The numbers that opcodes stand for are small. -/
theorem Operation.number_bounds {opcode : UInt8} {i : Int} (h : ofOpcode opcode = .number i) :
    -1 ≤ i ∧ i ≤ 16 := by
  have hall : ∀ byte, (match ofOpcode byte with
      | .number i => decide (-1 ≤ i ∧ i ≤ 16)
      | _ => true) = true := by
    apply Bytes.forall_byte
    decide +kernel
  have hbounds := hall opcode
  rw [h] at hbounds
  exact of_decide_eq_true hbounds

/-- No operation faults, whatever the stack. -/
theorem neverFaults_execute (rest : Bytes) (opcode : UInt8) :
    NeverFaults n (execute env rest (.ofOpcode opcode)) := by
  cases hop : Operation.ofOpcode opcode with
  | number i =>
    have hbounds := Operation.number_bounds hop
    exact .pushNumber (fits_of_lt (by omega))
  | nop => exact .done _
  | upgradableNop => exact neverFaults_upgradableNop
  | checkLockTime => exact neverFaults_checkLockTime
  | checkSequence => exact neverFaults_checkSequence
  | verify => exact neverFaults_verify
  | fail => exact .fail _
  | stack op => exact neverFaults_stack op
  | splice op => exact neverFaults_splice op
  | bitwise op => exact neverFaults_bitwise op
  | equal verify => exact neverFaults_equal verify
  | unary op => exact neverFaults_unary op
  | binary op => exact neverFaults_binary op
  | numEqualVerify => exact neverFaults_numEqualVerify
  | within => exact neverFaults_within
  | hash op => exact neverFaults_hash op
  | codeSeparator => exact .any (.modify (k := 0) fun _ _ ↦ Nat.zero_le _)
  | checkSig verify => exact neverFaults_checkSig verify
  | checkMultisig verify => exact neverFaults_checkMultisig verify
  | checkDataSig verify => exact neverFaults_checkDataSig verify
  | transactionField field => exact neverFaults_transactionField field
  | inputField field => exact neverFaults_inputField field
  | outputField field => exact neverFaults_outputField field
  | tokenField side field => exact neverFaults_tokenField side field
  | branch op => exact .fail _
  | invalid => exact .fail _

theorem neverFaults_openBranch (conditions : Conditions) (expected : Bool) :
    NeverFaults n (openBranch env conditions expected) := by
  refine .ite (fun _ ↦ .bind (p := fun _ ↦ True) (l := fun _ ↦ 0) ?_ fun _ _ ↦ .done _) fun _ ↦ .done _
  refine .bind .get fun m _ ↦ ?_
  split
  · exact .fail _
  · exact .bind (.failIf _ _) fun _ _ ↦ .bind .pop fun _ _ ↦ .done _

/-- A branch is changed or closed only if one is open. -/
theorem neverFaults_branch (conditions : Conditions) (op : BranchOp) :
    NeverFaults n (executeBranch env conditions op) := by
  cases op with
  | ifTrue => exact neverFaults_openBranch conditions true
  | ifFalse => exact neverFaults_openBranch conditions false
  | otherwise =>
    refine .bind (.failIf _ _) fun _ hopen ↦ .any (.orFault ?_)
    unfold Conditions.isEmpty at hopen
    unfold Conditions.toggle?
    split
    · next hsize =>
      rw [hsize] at hopen
      cases hopen
    · nofun
  | endIf =>
    refine .bind (.failIf _ _) fun _ hopen ↦ .any (.orFault ?_)
    unfold Conditions.isEmpty at hopen
    unfold Conditions.pop?
    split
    · next hsize =>
      rw [hsize] at hopen
      cases hopen
    · nofun
  | forbidden => exact .fail _

/-! ## Instructions -/

theorem neverFaults_checkLimits (i : Instruction) : NeverFaults n (checkLimits env i) := by
  refine .bind (.failIf _ _) fun _ _ ↦ .ite (fun _ ↦ ?_) fun _ ↦ .any (.failIf _ _)
  exact .bind (.countOperations 1) fun _ _ ↦ .any (.failIf _ _)

theorem neverFaults_executePush (i : Instruction) : NeverFaults n (executePush env i) :=
  .bind (.failIf _ _) fun _ _ ↦ .any (.push _)

/-- No instruction faults, whatever branches are open. -/
theorem neverFaults_step (conditions : Conditions) (i : Instruction) :
    NeverFaults n (step env conditions i) := by
  refine .bind (neverFaults_checkLimits i) fun _ _ ↦ .ite (fun _ ↦ ?_) fun _ ↦ ?_
  · exact .ite (fun _ ↦ .bind (neverFaults_executePush i) fun _ _ ↦ .done _) fun _ ↦ .done _
  · split
    · exact neverFaults_branch conditions _
    · exact .ite (fun _ ↦ .bind (neverFaults_execute i.rest i.opcode) fun _ _ ↦ .done _) fun _ ↦ .done _

/-- No run of instructions faults, by induction on the instructions. -/
theorem neverFaults_runInstructions (conditions : Conditions) (instructions : List Instruction) :
    NeverFaults n (runInstructions env conditions instructions) := by
  induction instructions generalizing conditions n with
  | nil => exact .done _
  | cons i rest ih =>
    refine .bind (neverFaults_step conditions i) fun conditions _ ↦ ?_
    exact .bind .get fun _ _ ↦ .bind (.failIf _ _) fun _ _ ↦ ih conditions

theorem neverFaults_evalScript (script : Bytes) : NeverFaults n (evalScript env script) := by
  refine .bind (.failIf _ _) fun _ _ ↦ .bind (.modify (k := 0) fun _ _ ↦ Nat.zero_le _) fun _ _ ↦ ?_
  refine .bind (neverFaults_runInstructions _ _) fun _ _ ↦ ?_
  exact .bind (.failIf _ _) fun _ _ ↦ .any (.failIf _ _)

/-! ## Spends -/

theorem neverFaults_requireTrue : NeverFaults n (requireTrue : Exec σ Unit) :=
  .bind .get fun _ _ ↦ .any (.failIf _ _)

theorem neverFaults_checkCleanStack : NeverFaults n (checkCleanStack env) :=
  .ite (fun _ ↦ .bind (.failIf _ _) fun _ _ ↦ .bind .get fun _ _ ↦ .any (.failIf _ _)) fun _ ↦ .done _

theorem neverFaults_checkDensity (unlocking : Bytes) : NeverFaults n (checkDensity env unlocking) :=
  .ite (fun _ ↦ .bind .get fun _ _ ↦ .any (.failIf _ _)) fun _ ↦ .done _

theorem neverFaults_runRedeemScript (unlocking : Bytes) (pushed : List Bytes) :
    NeverFaults n (runRedeemScript env unlocking pushed) := by
  refine .bind (.failIf _ _) fun _ _ ↦ ?_
  cases pushed with
  | nil => exact .fail _
  | cons redeemScript rest =>
    refine .bind (.modify (k := 0) fun _ _ ↦ Nat.zero_le _) fun _ _ ↦ .ite (fun _ ↦ .done _) fun _ ↦ ?_
    exact .bind (neverFaults_evalScript _) fun _ _ ↦ .bind neverFaults_requireTrue fun _ _ ↦ .done _

theorem neverFaults_verifySpend (unlocking locking : Bytes) :
    NeverFaults n (verifySpend env unlocking locking) := by
  have hscripts : NeverFaults n (runScripts env unlocking locking) := by
    refine .bind (.failIf _ _) fun _ _ ↦ .bind (neverFaults_evalScript _) fun _ _ ↦ .bind .get fun m _ ↦ ?_
    refine .bind (neverFaults_evalScript _) fun _ _ ↦ .bind neverFaults_requireTrue fun _ _ ↦ ?_
    exact .ite (fun _ ↦ neverFaults_runRedeemScript _ _) fun _ ↦ .done _
  refine .bind hscripts fun _ _ ↦ .ite (fun _ ↦ ?_) fun _ ↦ .done _
  exact .bind neverFaults_checkCleanStack fun _ _ ↦ neverFaults_checkDensity _

/-- No spend faults, whatever the rules and the checker. -/
theorem verifyScript_ne_fault (checker : Checker σ) (flags : ScriptFlags) (unlocking locking : Bytes)
    (world : σ) : (verifyScript checker flags unlocking locking world).1 ≠ .error .fault := by
  let env : Env σ := ⟨checker, effectiveFlags flags⟩
  have hspend : NeverFaults 0 (verifySpend env unlocking locking) := neverFaults_verifySpend _ _
  unfold verifyScript verifyScriptWith EStateM.run
  dsimp only
  cases hrun : verifySpend env unlocking locking (.start [] world) with
  | ok _ m => nofun
  | error halt m =>
    rintro ⟨⟩
    exact hspend.ne_fault (Nat.zero_le _) m hrun

end UtxoConsensus
