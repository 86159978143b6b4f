import Mathlib.Data.List.InsertIdx
import UtxoConsensus.Interpreter.Eval
import UtxoConsensus.Proofs.Interpreter.Runs
import UtxoConsensus.Proofs.Script.Numbers

/-!
# Elements within a limit

`Exec.StaysWithin` says that a computation of the script machine makes no element larger than a limit,
and also what it returns. Each step that the interpreter is made of has a rule here, and
`StaysWithin.bind` joins the rules. With them, no opcode that works on elements or asks about signatures
brings forth an element of more than 520 bytes where there was none.
-/

namespace UtxoConsensus

variable {σ α β : Type}

/-! ## Machines within a limit -/

/-- The elements on both stacks are within a limit. -/
structure Machine.Within (limit : Nat) (m : Machine σ) : Prop where
  stack : ∀ b ∈ m.stack, b.length ≤ limit
  altStack : ∀ b ∈ m.altStack, b.length ≤ limit

namespace Exec

/-- A computation that starts on elements within a limit leaves elements within it, and returns only
what satisfies the given property. -/
def StaysWithin (limit : Nat) (x : Exec σ α) (returns : α → Prop := fun _ ↦ True) : Prop :=
  ∀ ⦃m a m'⦄, m.Within limit → x m = .ok a m' → m'.Within limit ∧ returns a

variable {limit : Nat} {p : α → Prop} {q : β → Prop}

namespace StaysWithin

/-! ## Joined computations -/

/-- The second part may rely on what the first part ensures. -/
theorem bind {x : Exec σ α} {f : α → Exec σ β} (hx : StaysWithin limit x p)
    (hf : ∀ a, p a → StaysWithin limit (f a) q) : StaysWithin limit (x >>= f) q := by
  intro m b m'' hm hok
  obtain ⟨a, m', hfirst, hrest⟩ := exists_of_bind_eq_ok hok
  obtain ⟨hm', ha⟩ := hx hm hfirst
  exact hf a ha hm' hrest

theorem pure {a : α} (ha : p a) : StaysWithin limit (pure a : Exec σ α) p := by
  rintro m _ _ hm ⟨⟩
  exact ⟨hm, ha⟩

theorem done (a : α) : StaysWithin limit (Pure.pure a : Exec σ α) := .pure trivial

theorem throw (e : Halt) : StaysWithin limit (throw e : Exec σ α) p := nofun

theorem fail (e : ScriptError) : StaysWithin limit (fail e : Exec σ α) p := nofun

theorem ite {c : Prop} [Decidable c] {x y : Exec σ α} (hx : c → StaysWithin limit x p)
    (hy : ¬ c → StaysWithin limit y p) : StaysWithin limit (if c then x else y) p := by
  by_cases hc : c
  · rw [if_pos hc]
    exact hx hc
  · rw [if_neg hc]
    exact hy hc

theorem get : StaysWithin limit (get : Exec σ (Machine σ)) (·.Within limit) := by
  rintro m _ _ hm ⟨⟩
  exact ⟨hm, hm⟩

theorem modify {f : Machine σ → Machine σ} (hf : ∀ m, m.Within limit → (f m).Within limit) :
    StaysWithin limit (modify f : Exec σ Unit) := by
  rintro m _ _ hm ⟨⟩
  exact ⟨hf m hm, trivial⟩

theorem any {x : Exec σ α} (hx : StaysWithin limit x p) : StaysWithin limit x :=
  fun _ _ _ hm hok ↦ ⟨(hx hm hok).1, trivial⟩

/-! ## Checks -/

theorem failIf (b : Bool) (e : ScriptError) :
    StaysWithin limit (failIf b e : Exec σ Unit) fun _ ↦ b = false := by
  intro m u m' hm hok
  obtain rfl : b = false := false_of_failIf_eq_ok hok
  cases hok
  exact ⟨hm, rfl⟩

theorem lift (r : Except ScriptError α) :
    StaysWithin limit (lift r : Exec σ α) fun a ↦ r = .ok a := by
  cases r with
  | ok a => exact .pure rfl
  | error e => exact .fail e

theorem orFault (a : Option α) : StaysWithin limit (orFault a : Exec σ α) fun b ↦ a = some b := by
  cases a with
  | some a => exact .pure rfl
  | none => exact .throw .fault

theorem word (n : Int) : StaysWithin limit (word n : Exec σ Int) fun r ↦
    Int64.minValue.toInt ≤ r ∧ r ≤ Int64.maxValue.toInt :=
  .ite (fun hn ↦ .pure hn) fun _ ↦ .throw .fault

theorem require (count : Nat) : StaysWithin limit (require count : Exec σ Unit) :=
  .bind .get fun _ _ ↦ .any (.failIf _ _)

/-! ## The stack -/

theorem peek (depth : Nat) : StaysWithin limit (peek depth : Exec σ Bytes) (·.length ≤ limit) := by
  refine .bind .get fun m hm ↦ ?_
  cases hb : m.stack[depth]? with
  | none => exact .throw .fault
  | some b => exact .pure (hm.stack b (List.mem_of_getElem? hb))

theorem peekMany (depth count : Nat) : StaysWithin limit (peekMany depth count : Exec σ (List Bytes))
    fun elements ↦ ∀ b ∈ elements, b.length ≤ limit := by
  refine .bind .get fun m hm ↦ .ite (fun _ ↦ .pure fun b hb ↦ hm.stack b ?_) fun _ ↦ .throw .fault
  exact List.mem_of_mem_drop (List.mem_of_mem_take hb)

theorem push {b : Bytes} (hb : b.length ≤ limit) :
    StaysWithin limit (push b : Exec σ Unit) :=
  .modify fun _ hm ↦ ⟨List.forall_mem_cons.mpr ⟨hb, hm.stack⟩, hm.altStack⟩

theorem pop : StaysWithin limit (pop : Exec σ Bytes) (·.length ≤ limit) := by
  refine .bind .get fun m hm ↦ ?_
  have hstack := hm.stack
  cases hm : m.stack with
  | nil => exact .fail _
  | cons top rest =>
    rw [hm, List.forall_mem_cons] at hstack
    exact .bind (.modify fun _ hm' ↦ ⟨hstack.2, hm'.altStack⟩) fun _ _ ↦ .pure hstack.1

theorem drop (count : Nat) : StaysWithin limit (drop count : Exec σ Unit) :=
  .modify fun _ hm ↦ ⟨fun b hb ↦ hm.stack b (List.mem_of_mem_drop hb), hm.altStack⟩

theorem removeAt (depth : Nat) :
    StaysWithin limit (removeAt depth : Exec σ Bytes) (·.length ≤ limit) := by
  refine .bind (.peek depth) fun b hb ↦ .bind (.modify fun m hm ↦ ?_) fun _ _ ↦ .pure hb
  exact ⟨fun b hb ↦ hm.stack b (List.mem_of_mem_eraseIdx hb), hm.altStack⟩

theorem exchange (i j : Nat) : StaysWithin limit (exchange i j : Exec σ Unit) := by
  refine .bind (.peek i) fun a ha ↦ .bind (.peek j) fun b hb ↦ .modify fun m hm ↦ ⟨fun e he ↦ ?_, hm.altStack⟩
  rcases List.mem_or_eq_of_mem_set he with hmem | rfl
  · rcases List.mem_or_eq_of_mem_set hmem with hold | rfl
    · exact hm.stack e hold
    · exact hb
  · exact ha

theorem insertAt (depth : Nat) {b : Bytes} (hb : b.length ≤ limit) :
    StaysWithin limit (insertAt depth b : Exec σ Unit) := by
  refine .bind .get fun m _ ↦ .ite (fun _ ↦ .modify fun m hm ↦ ⟨fun b' hb' ↦ ?_, hm.altStack⟩)
    fun _ ↦ .throw .fault
  rcases List.eq_or_mem_of_mem_insertIdx hb' with rfl | hmem
  · exact hb
  · exact hm.stack b' hmem

/-! ## Steps that leave the stacks alone -/

theorem countSigChecks (count : Nat) :
    StaysWithin limit (Env.countSigChecks count : Exec σ Unit) :=
  .modify fun _ hm ↦ ⟨hm.stack, hm.altStack⟩

theorem countOperations (count : Nat) :
    StaysWithin limit (Env.countOperations count : Exec σ Unit) :=
  .bind (.modify fun _ hm ↦ ⟨hm.stack, hm.altStack⟩) fun _ _ ↦ .bind .get fun _ _ ↦ .any (.failIf _ _)

theorem ask (question : StateM σ α) :
    StaysWithin limit (Env.ask question : Exec σ α) := by
  rintro m _ _ hm ⟨⟩
  exact ⟨⟨hm.stack, hm.altStack⟩, trivial⟩

end StaysWithin

end Exec

open Exec

theorem Env.maxNumberSize_le_elementSize (env : Env σ) : env.maxNumberSize ≤ Limit.elementSize := by
  unfold Env.maxNumberSize
  split <;> decide

/-! ## Operations on the stack -/

section Operations

variable {env : Env σ} {limit : Nat}

theorem staysWithin_number (b : Bytes) : StaysWithin limit (env.number b) fun n ↦
    ScriptNumber.decode b (env.has .minimalData) env.maxNumberSize (env.has .integers64Bit) = .ok n :=
  .lift _

theorem staysWithin_popDepth : StaysWithin limit (popDepth env) := by
  refine .bind (.require 2) fun _ _ ↦ .bind (.peek 0) fun b _ ↦ .bind (staysWithin_number b) fun n _ ↦ ?_
  exact .bind .pop fun _ _ ↦ .bind .get fun _ _ ↦ .bind (.failIf _ _) fun _ _ ↦ .done _

theorem staysWithin_copyMany (depth count : Nat) :
    StaysWithin limit (copyMany depth count : Exec σ Unit) :=
  .bind (.peekMany depth count) fun _ helements ↦
    .modify fun _ hm ↦ ⟨List.forall_mem_append.mpr ⟨helements, hm.stack⟩, hm.altStack⟩

theorem staysWithin_moveMany (depth count : Nat) :
    StaysWithin limit (moveMany depth count : Exec σ Unit) := by
  refine .bind (.peekMany depth count) fun elements helements ↦ .modify fun m hm ↦ ⟨?_, hm.altStack⟩
  rw [List.forall_mem_append, List.forall_mem_append]
  exact ⟨helements, fun b hb ↦ hm.stack b (List.mem_of_mem_take hb),
    fun b hb ↦ hm.stack b (List.mem_of_mem_drop hb)⟩

variable (hlimit : Limit.elementSize ≤ limit)
include hlimit

theorem staysWithin_pushBool (b : Bool) :
    StaysWithin limit (pushBool b : Exec σ Unit) := by
  apply StaysWithin.push
  apply Nat.le_trans _ hlimit
  cases b <;> decide

theorem staysWithin_pushNumber (n : Int) :
    StaysWithin limit (pushNumber n : Exec σ Unit) := by
  refine .bind (.word n) fun r hr ↦ .push ?_
  exact Nat.le_trans (ScriptNumber.length_encode_le hr) (Nat.le_trans (by decide) hlimit)

theorem staysWithin_answer (verify : Bool) (e : ScriptError) (result : Bool) :
    StaysWithin limit (answer verify e result : Exec σ Unit) :=
  .ite (fun _ ↦ .any (.failIf _ e)) fun _ ↦ staysWithin_pushBool hlimit result

/-- Shuffles make no element longer. -/
theorem staysWithin_stack (op : StackOp) :
    StaysWithin limit (executeStack env op) := by
  cases op with
  | toAltStack =>
    refine .bind .pop fun b hb ↦ .modify fun m hm ↦ ⟨hm.stack, ?_⟩
    exact List.forall_mem_cons.mpr ⟨hb, hm.altStack⟩
  | fromAltStack =>
    refine .bind .get fun m hm ↦ ?_
    have halt := hm.altStack
    cases hlist : m.altStack with
    | nil => exact .fail _
    | cons b rest =>
      rw [hlist, List.forall_mem_cons] at halt
      exact .bind (.modify fun _ hm' ↦ ⟨hm'.stack, halt.2⟩) fun _ _ ↦ .push halt.1
  | drop2 => exact .bind (.require 2) fun _ _ ↦ .drop 2
  | dup2 => exact .bind (.require 2) fun _ _ ↦ staysWithin_copyMany 0 2
  | dup3 => exact .bind (.require 3) fun _ _ ↦ staysWithin_copyMany 0 3
  | over2 => exact .bind (.require 4) fun _ _ ↦ staysWithin_copyMany 2 2
  | rot2 => exact .bind (.require 6) fun _ _ ↦ staysWithin_moveMany 4 2
  | swap2 => exact .bind (.require 4) fun _ _ ↦ .bind (.exchange 3 1) fun _ _ ↦ .exchange 2 0
  | ifDup =>
    refine .bind (.require 1) fun _ _ ↦ .bind (.peek 0) fun b hb ↦ ?_
    exact .ite (fun _ ↦ .push hb) fun _ ↦ .done _
  | depth => exact .bind .get fun _ _ ↦ staysWithin_pushNumber hlimit _
  | drop => exact .bind .pop fun _ _ ↦ .done _
  | dup => exact .bind (.require 1) fun _ _ ↦ .bind (.peek 0) fun _ hb ↦ .push hb
  | nip => exact .bind (.require 2) fun _ _ ↦ .bind (.removeAt 1) fun _ _ ↦ .done _
  | «over» => exact .bind (.require 2) fun _ _ ↦ .bind (.peek 1) fun _ hb ↦ .push hb
  | pick => exact .bind staysWithin_popDepth fun depth _ ↦ .bind (.peek depth) fun _ hb ↦ .push hb
  | roll => exact .bind staysWithin_popDepth fun depth _ ↦ .bind (.removeAt depth) fun _ hb ↦ .push hb
  | rot => exact .bind (.require 3) fun _ _ ↦ .bind (.exchange 2 1) fun _ _ ↦ .exchange 1 0
  | swap => exact .bind (.require 2) fun _ _ ↦ .exchange 1 0
  | tuck => exact .bind (.require 2) fun _ _ ↦ .bind (.peek 0) fun _ hb ↦ .insertAt 2 hb

/-! ## Byte strings, bits and hashes -/

omit hlimit in
/-- The padded number has the size that is asked for. -/
theorem staysWithin_padNumber (b : Bytes) (size : Nat) :
    StaysWithin limit (padNumber b size : Exec σ Bytes) (·.length = size) := by
  unfold padNumber difference
  have hlength := ScriptNumber.length_splitSign b
  generalize ScriptNumber.splitSign b = parts at hlength ⊢
  obtain ⟨magnitude, negative⟩ := parts
  refine .bind (p := fun zeros ↦ zeros + (b.length + 1) = size) ?_ fun zeros hzeros ↦ .pure ?_
  · exact .ite (fun hle ↦ .pure (Nat.sub_add_cancel hle)) fun _ ↦ .throw .fault
  · simp only [List.length_append, List.length_replicate, List.length_singleton]
    dsimp only at hlength
    omega

/-- The two operands together must not be longer than an element may be. -/
theorem staysWithin_cat : StaysWithin limit (executeSplice env .cat) := by
  -- No rule says that the elements that are popped are those that were measured before, so this is a
  -- run on the stack itself.
  rintro ⟨stack, altStack, scriptCode, opCount, sigChecks, world⟩ u m' hm hok
  have hstack := hm.stack
  rcases stack with _ | ⟨tail, _ | ⟨head, rest⟩⟩
  · cases hok
  · cases hok
  · obtain ⟨_, m₁, hsize, hrest⟩ := exists_of_bind_eq_ok
      (x := failIf (decide (head.length + tail.length > Limit.elementSize)) .pushSize) hok
    obtain rfl := (Keeps.failIf _ _).eq_of_ok hsize
    have hfits := false_of_failIf_eq_ok hsize
    rw [decide_eq_false_iff_not, Nat.not_lt] at hfits
    cases hrest
    refine ⟨⟨List.forall_mem_cons.mpr ⟨?_, fun b hb ↦ ?_⟩, hm.altStack⟩, trivial⟩
    · rw [List.length_append]
      exact Nat.le_trans hfits hlimit
    · exact hstack b (List.mem_cons_of_mem _ (List.mem_cons_of_mem _ hb))

theorem staysWithin_splice (op : SpliceOp) :
    StaysWithin limit (executeSplice env op) := by
  cases op with
  | cat => exact staysWithin_cat hlimit
  | split =>
    refine .bind (.require 2) fun _ _ ↦ .bind (.peek 0) fun b _ ↦ .bind (staysWithin_number b) fun n _ ↦ ?_
    refine .bind (.peek 1) fun _ _ ↦ .bind (.failIf _ _) fun _ _ ↦ .bind .pop fun _ _ ↦ ?_
    refine .bind .pop fun element helement ↦ .ite (fun _ ↦ ?_) fun _ ↦ .throw .fault
    have htake : (element.take n.toNat).length ≤ limit :=
      Nat.le_trans (List.length_take_le' _ _) helement
    have hdrop : (element.drop n.toNat).length ≤ limit :=
      Nat.le_trans (List.length_drop ▸ Nat.sub_le _ _) helement
    exact .bind (.push htake) fun _ _ ↦ .push hdrop
  | numToBin =>
    refine .bind (.require 2) fun _ _ ↦ .bind (.peek 0) fun b _ ↦ .bind (staysWithin_number b) fun n _ ↦ ?_
    refine .bind (.failIf _ _) fun _ hsize ↦ .bind .pop fun _ _ ↦ .bind .pop fun element _ ↦ ?_
    refine .bind (.failIf _ _) fun _ hraw ↦ ?_
    rw [Bool.or_eq_false_iff, decide_eq_false_iff_not, decide_eq_false_iff_not, Nat.not_lt] at hsize
    rw [decide_eq_false_iff_not, Nat.not_lt] at hraw
    have hfits : n.toNat ≤ limit := Nat.le_trans hsize.2 hlimit
    refine .ite (fun _ ↦ .bind (staysWithin_padNumber _ _) fun b hb ↦ .push ?_)
      fun _ ↦ .bind (.pure (p := (·.length ≤ limit)) (Nat.le_trans hraw hfits)) fun b hb ↦ .push hb
    rw [hb]
    exact hfits
  | binToNum =>
    refine .bind .pop fun element _ ↦ .bind (.failIf _ _) fun _ hminimal ↦ .push ?_
    rw [Bool.not_eq_false'] at hminimal
    exact Nat.le_trans (ScriptNumber.length_le_of_isMinimal hminimal)
      (Nat.le_trans env.maxNumberSize_le_elementSize hlimit)
  | size => exact .bind (.require 1) fun _ _ ↦ .bind (.peek 0) fun _ _ ↦ staysWithin_pushNumber hlimit _
  | reverseBytes =>
    refine .bind .pop fun b hb ↦ .push ?_
    rw [List.length_reverse]
    exact hb

omit hlimit in
theorem staysWithin_bitwise (op : BitwiseOp) :
    StaysWithin limit (executeBitwise op : Exec σ Unit) := by
  refine .bind (.require 2) fun _ _ ↦ .bind (.peek 1) fun _ _ ↦ .bind (.peek 0) fun _ _ ↦ ?_
  refine .bind (.failIf _ _) fun _ _ ↦ .bind .pop fun _ _ ↦ .bind .pop fun a ha ↦ .push ?_
  rw [List.length_zipWith]
  exact Nat.le_trans (Nat.min_le_left _ _) ha

theorem staysWithin_equal (verify : Bool) :
    StaysWithin limit (executeEqual verify : Exec σ Unit) := by
  refine .bind (.require 2) fun _ _ ↦ .bind (.peek 1) fun _ _ ↦ .bind (.peek 0) fun _ _ ↦ ?_
  exact .bind (.drop 2) fun _ _ ↦ staysWithin_answer hlimit verify _ _

theorem staysWithin_hash (op : HashOp) :
    StaysWithin limit (executeHash op : Exec σ Unit) := by
  refine .bind .pop fun b _ ↦ .push (Nat.le_trans ?_ hlimit)
  cases op with
  | ripemd160 => exact (Digest.length_ripemd160 b).symm ▸ (by decide)
  | sha1 => exact (Digest.length_sha1 b).symm ▸ (by decide)
  | sha256 => exact (Digest.sha256 b).length_bytes.symm ▸ (by decide)
  | hash160 => exact (Digest.length_hash160 b).symm ▸ (by decide)
  | hash256 => exact (Digest.doubleSha256 b).length_bytes.symm ▸ (by decide)

/-! ## Arithmetic -/

omit hlimit in
theorem staysWithin_inNumberRange (n : Int) :
    StaysWithin limit (inNumberRange n : Exec σ Int) := by
  unfold inNumberRange
  cases ScriptNumber.inRange? n with
  | none => exact .fail _
  | some n => exact .done _

omit hlimit in
theorem staysWithin_unaryApply (n : Int) (op : UnaryOp) :
    StaysWithin limit (op.apply n : Exec σ Int) := by
  cases op with
  | addOne => exact staysWithin_inNumberRange _
  | subOne => exact staysWithin_inNumberRange _
  | negate => exact .any (.word _)
  | abs => exact .any (.word _)
  | _ => exact .done _

omit hlimit in
theorem staysWithin_binaryApply (a b : Int) (op : BinaryOp) :
    StaysWithin limit (op.apply a b : Exec σ Int) := by
  cases op with
  | add => exact staysWithin_inNumberRange _
  | sub => exact staysWithin_inNumberRange _
  | mul => exact staysWithin_inNumberRange _
  | div => exact .ite (fun _ ↦ .fail _) fun _ ↦ .any (.word _)
  | mod => exact .ite (fun _ ↦ .fail _) fun _ ↦ .any (.word _)
  | _ => exact .done _

theorem staysWithin_unary (op : UnaryOp) :
    StaysWithin limit (executeUnary env op) := by
  refine .bind (.require 1) fun _ _ ↦ .bind (.peek 0) fun b _ ↦ .bind (staysWithin_number b) fun n _ ↦ ?_
  refine .bind (staysWithin_unaryApply n op) fun _ _ ↦ .bind .pop fun _ _ ↦ ?_
  exact staysWithin_pushNumber hlimit _

omit hlimit in
theorem staysWithin_binaryOperands : StaysWithin limit (binaryOperands env) := by
  refine .bind (.require 2) fun _ _ ↦ .bind (.peek 1) fun a _ ↦ .bind (staysWithin_number a) fun _ _ ↦ ?_
  exact .bind (.peek 0) fun b _ ↦ .bind (staysWithin_number b) fun _ _ ↦ .done _

theorem staysWithin_binary (op : BinaryOp) :
    StaysWithin limit (executeBinary env op) := by
  refine .bind staysWithin_binaryOperands fun (a, b) _ ↦ .bind (staysWithin_binaryApply a b op) fun _ _ ↦ ?_
  exact .bind (.drop 2) fun _ _ ↦ staysWithin_pushNumber hlimit _

omit hlimit in
theorem staysWithin_numEqualVerify : StaysWithin limit (executeNumEqualVerify env) :=
  .bind staysWithin_binaryOperands fun _ _ ↦ .bind (.drop 2) fun _ _ ↦ .any (.failIf _ _)

theorem staysWithin_within : StaysWithin limit (executeWithin env) := by
  refine .bind (.require 3) fun _ _ ↦ .bind (.peek 2) fun a _ ↦ .bind (staysWithin_number a) fun _ _ ↦ ?_
  refine .bind (.peek 1) fun b _ ↦ .bind (staysWithin_number b) fun _ _ ↦ ?_
  refine .bind (.peek 0) fun c _ ↦ .bind (staysWithin_number c) fun _ _ ↦ ?_
  exact .bind (.drop 3) fun _ _ ↦ staysWithin_pushBool hlimit _

/-! ## Lock times -/

omit hlimit

theorem staysWithin_upgradableNop : StaysWithin limit (executeUpgradableNop env) :=
  .any (.failIf _ _)

theorem staysWithin_lockTimeOperand : StaysWithin limit (lockTimeOperand env) := by
  refine .bind (.require 1) fun _ _ ↦ .bind (.peek 0) fun _ _ ↦ .bind (.lift _) fun _ _ ↦ ?_
  exact .bind (.failIf _ _) fun _ _ ↦ .done _

theorem staysWithin_checkLockTime : StaysWithin limit (executeCheckLockTime env) :=
  .ite (fun _ ↦ .bind staysWithin_lockTimeOperand fun _ _ ↦ .any (.failIf _ _))
    fun _ ↦ staysWithin_upgradableNop

theorem staysWithin_checkSequence : StaysWithin limit (executeCheckSequence env) :=
  .ite (fun _ ↦ .bind staysWithin_lockTimeOperand fun _ _ ↦ .any (.failIf _ _))
    fun _ ↦ staysWithin_upgradableNop

/-! ## Signatures -/

theorem staysWithin_settle (good : Bool) : StaysWithin limit (settle env good) :=
  .bind (.countSigChecks 1) fun _ _ ↦ .any (.failIf _ _)

theorem staysWithin_matchInOrder (scriptCode : Bytes) (sigs keys : List Bytes) :
    StaysWithin limit (matchInOrder env scriptCode sigs keys) := by
  induction keys generalizing sigs with
  | nil => exact .ite (fun _ ↦ .done _) fun _ ↦ .throw .fault
  | cons key keys ih =>
    cases sigs with
    | nil => exact .done _
    | cons sig rest =>
      refine .bind (.lift _) fun _ _ ↦ .bind (.lift _) fun _ _ ↦ .bind (.ask _) fun good _ ↦ ?_
      exact .ite (fun _ ↦ .done _) fun _ ↦ ih _

theorem staysWithin_legacyMultisig (keys sigs : List Bytes) :
    StaysWithin limit (legacyMultisig env keys sigs) := by
  refine .bind .get fun _ _ ↦ .bind (staysWithin_matchInOrder _ _ _) fun good _ ↦ ?_
  exact .bind (.failIf _ _) fun _ _ ↦ .bind (.countSigChecks _) fun _ _ ↦ .done _

theorem staysWithin_matchChosen (scriptCode : Bytes) (sigs : List Bytes) (bits : Nat) (keys : List Bytes) :
    StaysWithin limit (matchChosen env scriptCode sigs bits keys) := by
  induction sigs generalizing bits keys with
  | nil => exact .bind (.failIf _ _) fun _ _ ↦ .done _
  | cons sig sigs ih =>
    refine .bind (.failIf _ _) fun _ _ ↦ ?_
    split
    · exact .fail _
    · refine .bind (.lift _) fun _ _ ↦ .bind (.lift _) fun _ _ ↦ .bind (.ask _) fun good _ ↦ ?_
      exact .bind (.failIf _ _) fun _ _ ↦ .bind (.countSigChecks 1) fun _ _ ↦ ih _ _

theorem staysWithin_schnorrMultisig (keys sigs : List Bytes) (dummy : Bytes) :
    StaysWithin limit (schnorrMultisig env keys sigs dummy) := by
  refine .bind (.lift _) fun bits _ ↦ .bind (.failIf _ _) fun _ _ ↦ .bind .get fun _ _ ↦ ?_
  exact staysWithin_matchChosen _ _ _ _

theorem staysWithin_boundedCount (depth bound : Nat) (e : ScriptError) :
    StaysWithin limit (boundedCount env depth bound e) := by
  refine .bind (.peek depth) fun b _ ↦ .bind (staysWithin_number b) fun n _ ↦ ?_
  exact .bind (.failIf _ _) fun _ _ ↦ .done _

include hlimit

theorem staysWithin_checkSig (verify : Bool) :
    StaysWithin limit (executeCheckSig env verify) := by
  refine .bind (.require 2) fun _ _ ↦ .bind (.peek 1) fun sig _ ↦ .bind (.peek 0) fun key _ ↦ ?_
  refine .bind (.lift _) fun _ _ ↦ .bind (.lift _) fun _ _ ↦ ?_
  have hlast (good : Bool) := StaysWithin.bind (σ := σ) (.drop 2) fun _ _ ↦
    staysWithin_answer hlimit verify .checkSigVerify good
  refine .ite (fun _ ↦ .bind (.done _) fun good _ ↦ hlast good) fun _ ↦ ?_
  refine .bind .get fun _ _ ↦ .bind (.ask _) fun good _ ↦ .bind (staysWithin_settle good) fun _ _ ↦ ?_
  exact .bind (.done _) fun good _ ↦ hlast good

theorem staysWithin_checkDataSig (verify : Bool) :
    StaysWithin limit (executeCheckDataSig env verify) := by
  refine .bind (.require 3) fun _ _ ↦ .bind (.peek 2) fun sig _ ↦ .bind (.peek 1) fun message _ ↦ ?_
  refine .bind (.peek 0) fun key _ ↦ .bind (.lift _) fun _ _ ↦ .bind (.lift _) fun _ _ ↦ ?_
  have hlast (good : Bool) := StaysWithin.bind (σ := σ) (.drop 3) fun _ _ ↦
    staysWithin_answer hlimit verify .checkDataSigVerify good
  refine .ite (fun _ ↦ .bind (.done _) fun good _ ↦ hlast good) fun _ ↦ ?_
  refine .bind (.ask _) fun good _ ↦ .bind (staysWithin_settle good) fun _ _ ↦ ?_
  exact .bind (.done _) fun good _ ↦ hlast good

theorem staysWithin_checkMultisig (verify : Bool) :
    StaysWithin limit (executeCheckMultisig env verify) := by
  refine .bind (.require 1) fun _ _ ↦ .bind (staysWithin_boundedCount 0 _ _) fun keyCount _ ↦ ?_
  refine .bind (.countOperations keyCount) fun _ _ ↦ .bind (.require _) fun _ _ ↦ ?_
  refine .bind (staysWithin_boundedCount _ keyCount _) fun sigCount _ ↦ .bind (.require _) fun _ _ ↦ ?_
  refine .bind (.peekMany 1 keyCount) fun keys _ ↦ .bind (.peekMany _ sigCount) fun sigs _ ↦ ?_
  refine .bind (.peek _) fun dummy _ ↦ ?_
  have hlast (good : Bool) := StaysWithin.bind (σ := σ) (.drop (keyCount + sigCount + 3)) fun _ _ ↦
    staysWithin_answer hlimit verify .checkMultisigVerify good
  exact .ite (fun _ ↦ .bind (staysWithin_schnorrMultisig keys sigs dummy) fun good _ ↦ hlast good)
    fun _ ↦ .bind (staysWithin_legacyMultisig keys sigs) fun good _ ↦ hlast good

end Operations

end UtxoConsensus
