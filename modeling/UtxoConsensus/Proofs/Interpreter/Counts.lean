import UtxoConsensus.Interpreter.Eval
import UtxoConsensus.Proofs.Interpreter.Runs

/-!
# What a run counts

A run counts two things, the operations that it meets and the signatures that it checks. Only the opcodes
for signatures count while they run. All others leave both counts as they are, however they end, and there is
one theorem a family of opcodes for that here.
-/

namespace UtxoConsensus

variable {σ α : Type} {env : Env σ}

/-- What a run counts: operations and signature checks. -/
def Machine.counts (m : Machine σ) : Nat × Nat :=
  (m.opCount, m.sigChecks)

namespace Exec.Keeps

theorem sigChecks {x : Exec σ α} (h : Keeps Machine.counts x) : Keeps Machine.sigChecks x :=
  fun m ↦ congrArg Prod.snd (h m)

/-! ## Steps -/

theorem push (b : Bytes) : Keeps Machine.counts (push b : Exec σ Unit) :=
  .modify fun _ ↦ rfl

theorem pop : Keeps Machine.counts (pop : Exec σ Bytes) := by
  apply bind_get
  intro m
  cases m.stack with
  | nil => exact .throw _
  | cons top rest => exact .bind (.modify fun _ ↦ rfl) fun _ ↦ .pure top

theorem drop (count : Nat) : Keeps Machine.counts (drop count : Exec σ Unit) :=
  .modify fun _ ↦ rfl

theorem removeAt (depth : Nat) : Keeps Machine.counts (removeAt depth : Exec σ Bytes) :=
  .bind (.peek depth) fun element ↦ .bind (.modify fun _ ↦ rfl) fun _ ↦ .pure element

theorem exchange (i j : Nat) : Keeps Machine.counts (exchange i j : Exec σ Unit) :=
  .bind (.peek i) fun _ ↦ .bind (.peek j) fun _ ↦ .modify fun _ ↦ rfl

theorem insertAt (depth : Nat) (b : Bytes) : Keeps Machine.counts (insertAt depth b : Exec σ Unit) :=
  .bind_get fun _ ↦ .ite (.modify fun _ ↦ rfl) (.throw _)

theorem pushNumber (n : Int) : Keeps Machine.counts (pushNumber n : Exec σ Unit) :=
  .bind (.word n) fun _ ↦ .push _

theorem answer (verify : Bool) (e : ScriptError) (result : Bool) :
    Keeps Machine.counts (answer verify e result : Exec σ Unit) :=
  .ite (.failIf _ e) (.push _)

/-- A question may change what the checker knows, but not the counts. -/
theorem ask (question : StateM σ α) : Keeps Machine.counts (Env.ask question : Exec σ α) :=
  fun _ ↦ rfl

end Exec.Keeps

open Exec

/-! ## The stack -/

theorem keepsCounts_copyMany (depth count : Nat) :
    Keeps Machine.counts (copyMany depth count : Exec σ Unit) :=
  .bind (.peekMany depth count) fun _ ↦ .modify fun _ ↦ rfl

theorem keepsCounts_moveMany (depth count : Nat) :
    Keeps Machine.counts (moveMany depth count : Exec σ Unit) :=
  .bind (.peekMany depth count) fun _ ↦ .modify fun _ ↦ rfl

theorem keepsCounts_popDepth : Keeps Machine.counts (popDepth env) := by
  refine .bind (.require 2) fun _ ↦ .bind (.peek 0) fun b ↦ .bind (.lift _) fun n ↦ ?_
  exact .bind .pop fun _ ↦ .bind_get fun m ↦ .bind (.failIf _ _) fun _ ↦ .pure _

theorem keepsCounts_stack (op : StackOp) : Keeps Machine.counts (executeStack env op) := by
  cases op with
  | toAltStack => exact .bind .pop fun _ ↦ .modify fun _ ↦ rfl
  | fromAltStack =>
    apply Keeps.bind_get
    intro m
    cases m.altStack with
    | nil => exact .throw _
    | cons element rest => exact .bind (.modify fun _ ↦ rfl) fun _ ↦ .push element
  | drop2 => exact .bind (.require 2) fun _ ↦ .drop 2
  | dup2 => exact .bind (.require 2) fun _ ↦ keepsCounts_copyMany 0 2
  | dup3 => exact .bind (.require 3) fun _ ↦ keepsCounts_copyMany 0 3
  | over2 => exact .bind (.require 4) fun _ ↦ keepsCounts_copyMany 2 2
  | rot2 => exact .bind (.require 6) fun _ ↦ keepsCounts_moveMany 4 2
  | swap2 => exact .bind (.require 4) fun _ ↦ .bind (.exchange 3 1) fun _ ↦ .exchange 2 0
  | ifDup => exact .bind (.require 1) fun _ ↦ .bind (.peek 0) fun top ↦ .ite (.push top) (.pure ())
  | depth => exact .bind_get fun _ ↦ .pushNumber _
  | drop => exact .bind .pop fun _ ↦ .pure ()
  | dup => exact .bind (.require 1) fun _ ↦ .bind (.peek 0) fun top ↦ .push top
  | nip => exact .bind (.require 2) fun _ ↦ .bind (.removeAt 1) fun _ ↦ .pure ()
  | «over» => exact .bind (.require 2) fun _ ↦ .bind (.peek 1) fun element ↦ .push element
  | pick => exact .bind keepsCounts_popDepth fun depth ↦ .bind (.peek depth) fun element ↦ .push element
  | roll => exact .bind keepsCounts_popDepth fun depth ↦ .bind (.removeAt depth) fun element ↦ .push element
  | rot => exact .bind (.require 3) fun _ ↦ .bind (.exchange 2 1) fun _ ↦ .exchange 1 0
  | swap => exact .bind (.require 2) fun _ ↦ .exchange 1 0
  | tuck => exact .bind (.require 2) fun _ ↦ .bind (.peek 0) fun top ↦ .insertAt 2 top

/-! ## Byte strings, bits and hashes -/

theorem keepsCounts_splice (op : SpliceOp) : Keeps Machine.counts (executeSplice env op) := by
  cases op with
  | cat =>
    refine .bind (.require 2) fun _ ↦ .bind (.peek 1) fun _ ↦ .bind (.peek 0) fun _ ↦ ?_
    exact .bind (.failIf _ _) fun _ ↦ .bind .pop fun _ ↦ .bind .pop fun _ ↦ .push _
  | split =>
    refine .bind (.require 2) fun _ ↦ .bind (.peek 0) fun top ↦ .bind (.lift _) fun _ ↦ ?_
    refine .bind (.peek 1) fun _ ↦ .bind (.failIf _ _) fun _ ↦ .bind .pop fun _ ↦ .bind .pop fun _ ↦ ?_
    exact .ite (.bind (.push _) fun _ ↦ .push _) (.throw _)
  | numToBin =>
    refine .bind (.require 2) fun _ ↦ .bind (.peek 0) fun top ↦ .bind (.lift _) fun _ ↦ ?_
    refine .bind (.failIf _ _) fun _ ↦ .bind .pop fun _ ↦ .bind .pop fun _ ↦ .bind (.failIf _ _) fun _ ↦ ?_
    refine .ite (.bind ?_ fun _ ↦ .push _) (.bind (.pure _) fun _ ↦ .push _)
    exact .bind (.difference _ _) fun _ ↦ .pure _
  | binToNum => exact .bind .pop fun _ ↦ .bind (.failIf _ _) fun _ ↦ .push _
  | size => exact .bind (.require 1) fun _ ↦ .bind (.peek 0) fun _ ↦ .pushNumber _
  | reverseBytes => exact .bind .pop fun _ ↦ .push _

theorem keepsCounts_bitwise (op : BitwiseOp) : Keeps Machine.counts (executeBitwise op : Exec σ Unit) := by
  refine .bind (.require 2) fun _ ↦ .bind (.peek 1) fun _ ↦ .bind (.peek 0) fun _ ↦ ?_
  exact .bind (.failIf _ _) fun _ ↦ .bind .pop fun _ ↦ .bind .pop fun _ ↦ .push _

theorem keepsCounts_equal (verify : Bool) : Keeps Machine.counts (executeEqual verify : Exec σ Unit) := by
  refine .bind (.require 2) fun _ ↦ .bind (.peek 1) fun _ ↦ .bind (.peek 0) fun _ ↦ ?_
  exact .bind (.drop 2) fun _ ↦ .answer verify _ _

theorem keepsCounts_hash (op : HashOp) : Keeps Machine.counts (executeHash op : Exec σ Unit) :=
  .bind .pop fun _ ↦ .push _

/-! ## Arithmetic -/

theorem keepsCounts_inNumberRange (n : Int) : Keeps Machine.counts (inNumberRange n : Exec σ Int) := by
  unfold inNumberRange
  split
  · exact .pure _
  · exact .throw _

theorem keepsCounts_unary (op : UnaryOp) : Keeps Machine.counts (executeUnary env op) := by
  have happly (n : Int) : Keeps Machine.counts (op.apply n : Exec σ Int) := by
    cases op with
    | addOne => exact keepsCounts_inNumberRange _
    | subOne => exact keepsCounts_inNumberRange _
    | negate => exact .word _
    | abs => exact .word _
    | not => exact .pure _
    | notZero => exact .pure _
  refine .bind (.require 1) fun _ ↦ .bind (.peek 0) fun top ↦ .bind (.lift _) fun n ↦ ?_
  exact .bind (happly n) fun _ ↦ .bind .pop fun _ ↦ .pushNumber _

theorem keepsCounts_binaryOperands : Keeps Machine.counts (binaryOperands env) := by
  refine .bind (.require 2) fun _ ↦ .bind (.peek 1) fun second ↦ .bind (.lift _) fun _ ↦ ?_
  exact .bind (.peek 0) fun top ↦ .bind (.lift _) fun _ ↦ .pure _

theorem keepsCounts_binary (op : BinaryOp) : Keeps Machine.counts (executeBinary env op) := by
  have happly (a b : Int) : Keeps Machine.counts (op.apply a b : Exec σ Int) := by
    cases op with
    | add => exact keepsCounts_inNumberRange _
    | sub => exact keepsCounts_inNumberRange _
    | mul => exact keepsCounts_inNumberRange _
    | div => exact .ite (.throw _) (.word _)
    | mod => exact .ite (.throw _) (.word _)
    | _ => exact .pure _
  refine .bind keepsCounts_binaryOperands fun (a, b) ↦ .bind (happly a b) fun _ ↦ ?_
  exact .bind (.drop 2) fun _ ↦ .pushNumber _

theorem keepsCounts_numEqualVerify : Keeps Machine.counts (executeNumEqualVerify env) :=
  .bind keepsCounts_binaryOperands fun _ ↦ .bind (.drop 2) fun _ ↦ .failIf _ _

theorem keepsCounts_within : Keeps Machine.counts (executeWithin env) := by
  refine .bind (.require 3) fun _ ↦ .bind (.peek 2) fun third ↦ .bind (.lift _) fun _ ↦ ?_
  refine .bind (.peek 1) fun second ↦ .bind (.lift _) fun _ ↦ .bind (.peek 0) fun top ↦ ?_
  exact .bind (.lift _) fun _ ↦ .bind (.drop 3) fun _ ↦ .push _

/-! ## Lock times -/

theorem keepsCounts_upgradableNop : Keeps Machine.counts (executeUpgradableNop env) :=
  .failIf _ _

theorem keepsCounts_lockTimeOperand : Keeps Machine.counts (lockTimeOperand env) := by
  refine .bind (.require 1) fun _ ↦ .bind (.peek 0) fun _ ↦ .bind (.lift _) fun _ ↦ ?_
  exact .bind (.failIf _ _) fun _ ↦ .pure _

theorem keepsCounts_checkLockTime : Keeps Machine.counts (executeCheckLockTime env) :=
  .ite (.bind keepsCounts_lockTimeOperand fun _ ↦ .failIf _ _) keepsCounts_upgradableNop

theorem keepsCounts_checkSequence : Keeps Machine.counts (executeCheckSequence env) :=
  .ite (.bind keepsCounts_lockTimeOperand fun _ ↦ .failIf _ _) keepsCounts_upgradableNop

/-! ## Introspection -/

theorem keepsCounts_requireContext : Keeps Machine.counts (requireContext env) := by
  unfold requireContext
  split
  · exact .pure _
  · exact .throw _

theorem keepsCounts_popIndex (length : Nat) (e : ScriptError) :
    Keeps Machine.counts (popIndex env length e) := by
  have hnumber : Keeps Machine.counts env.popNumber := by
    refine .bind (.require 1) fun _ ↦ .bind (.peek 0) fun top ↦ .bind (.lift _) fun n ↦ ?_
    exact .bind .pop fun _ ↦ .pure n
  exact .bind hnumber fun _ ↦ .bind (.failIf _ _) fun _ ↦ .pure _

theorem keepsCounts_popOutput (c : SpendContext) : Keeps Machine.counts (popOutput env c) :=
  .bind (keepsCounts_popIndex _ _) fun _ ↦ .orFault _

theorem keepsCounts_pushElement (b : Bytes) : Keeps Machine.counts (pushElement b : Exec σ Unit) :=
  .bind (.failIf _ _) fun _ ↦ .push b

theorem keepsCounts_transactionField (field : TransactionField) :
    Keeps Machine.counts (executeTransactionField env field) := by
  refine .bind (.failIf _ _) fun _ ↦ .bind keepsCounts_requireContext fun c ↦ ?_
  cases field with
  | activeBytecode => exact .bind_get fun _ ↦ keepsCounts_pushElement _
  | _ => exact .pushNumber _

theorem keepsCounts_inputField (field : InputField) :
    Keeps Machine.counts (executeInputField env field) := by
  refine .bind (.failIf _ _) fun _ ↦ .bind keepsCounts_requireContext fun c ↦ ?_
  refine .bind (keepsCounts_popIndex _ _) fun index ↦ .bind (.orFault _) fun input ↦ ?_
  cases field with
  | coinValue => exact .bind (.lift _) fun _ ↦ .pushNumber _
  | coinBytecode => exact .bind (.lift _) fun _ ↦ keepsCounts_pushElement _
  | outpointHash => exact .push _
  | outpointIndex => exact .pushNumber _
  | bytecode => exact .bind (.lift _) fun _ ↦ keepsCounts_pushElement _
  | sequence => exact .pushNumber _

theorem keepsCounts_outputField (field : OutputField) :
    Keeps Machine.counts (executeOutputField env field) := by
  refine .bind (.failIf _ _) fun _ ↦ .bind keepsCounts_requireContext fun c ↦ ?_
  refine .bind (keepsCounts_popOutput c) fun output ↦ ?_
  cases field with
  | value => exact .pushNumber _
  | bytecode => exact keepsCounts_pushElement _

theorem keepsCounts_popToken (c : SpendContext) (side : TokenSide) :
    Keeps Machine.counts (popToken env c side) := by
  cases side with
  | coin => exact .bind (keepsCounts_popIndex _ _) fun _ ↦ .bind (.lift _) fun _ ↦ .pure _
  | output => exact .bind (keepsCounts_popOutput c) fun _ ↦ .pure _

theorem keepsCounts_tokenField (side : TokenSide) (field : TokenField) :
    Keeps Machine.counts (executeTokenField env side field) := by
  refine .bind (.failIf _ _) fun _ ↦ .bind keepsCounts_requireContext fun c ↦ ?_
  refine .bind (keepsCounts_popToken c side) fun token ↦ ?_
  cases field with
  | category => exact .push _
  | commitment => exact .push _
  | amount => exact .pushNumber _

/-! ## Operations -/

def Operation.checksSignatures : Operation → Bool
  | .checkSig _ | .checkDataSig _ | .checkMultisig _ => true
  | _ => false

theorem keepsCounts_verify : Keeps Machine.counts (executeVerify : Exec σ Unit) := by
  refine .bind (.require 1) fun _ ↦ .bind (.peek 0) fun _ ↦ .bind (.failIf _ _) fun _ ↦ ?_
  exact .bind .pop fun _ ↦ .pure ()

/-- Operations that check no signatures leave the counts alone. -/
theorem keepsCounts_execute {op : Operation} (hop : op.checksSignatures = false) (rest : Bytes) :
    Keeps Machine.counts (execute env rest op) := by
  cases op with
  | number n => exact .pushNumber n
  | nop => exact .pure ()
  | upgradableNop => exact keepsCounts_upgradableNop
  | checkLockTime => exact keepsCounts_checkLockTime
  | checkSequence => exact keepsCounts_checkSequence
  | verify => exact keepsCounts_verify
  | fail => exact .throw _
  | stack op => exact keepsCounts_stack op
  | splice op => exact keepsCounts_splice op
  | bitwise op => exact keepsCounts_bitwise op
  | equal verify => exact keepsCounts_equal verify
  | unary op => exact keepsCounts_unary op
  | binary op => exact keepsCounts_binary op
  | numEqualVerify => exact keepsCounts_numEqualVerify
  | within => exact keepsCounts_within
  | hash op => exact keepsCounts_hash op
  | codeSeparator => exact .modify fun _ ↦ rfl
  | checkSig verify => cases hop
  | checkMultisig verify => cases hop
  | checkDataSig verify => cases hop
  | transactionField field => exact keepsCounts_transactionField field
  | inputField field => exact keepsCounts_inputField field
  | outputField field => exact keepsCounts_outputField field
  | tokenField side field => exact keepsCounts_tokenField side field
  | branch op => exact .throw _
  | invalid => exact .throw _

/-- What ends the opcodes for signatures: their operands are removed, and the answer is given. -/
theorem keepsCounts_dropAndAnswer (count : Nat) (verify : Bool) (e : ScriptError) (good : Bool) :
    Keeps Machine.counts (do drop count; answer verify e good : Exec σ Unit) :=
  .bind (.drop count) fun _ ↦ .answer verify e good

/-! ## Instructions -/

/-- What is asked of an instruction before it runs changes nothing but the count of operations. -/
theorem keeps_checkLimits {γ : Type} {part : Machine σ → γ}
    (hpart : ∀ (m : Machine σ) opCount, part { m with opCount } = part m) (i : Instruction) :
    Keeps part (checkLimits env i) := by
  have hcount : Keeps part (Env.countOperations 1 : Exec σ Unit) :=
    .bind (.modify fun m ↦ hpart m _) fun _ ↦ .bind_get fun _ ↦ .failIf _ _
  refine .bind (.failIf _ _) fun _ ↦ ?_
  exact .ite (.bind hcount fun _ ↦ .failIf _ _) (.failIf _ _)

theorem keepsCounts_push (i : Instruction) : Keeps Machine.counts (executePush env i) :=
  .bind (.failIf _ _) fun _ ↦ .push _

theorem keepsCounts_popCondition : Keeps Machine.counts (popCondition env) := by
  apply Keeps.bind_get
  intro m
  cases m.stack with
  | nil => exact .throw _
  | cons condition rest => exact .bind (.failIf _ _) fun _ ↦ .bind .pop fun _ ↦ .pure _

theorem keepsCounts_branch (conditions : Conditions) (op : BranchOp) :
    Keeps Machine.counts (executeBranch env conditions op) := by
  have hopen (expected : Bool) : Keeps Machine.counts (openBranch env conditions expected) :=
    .ite (.bind keepsCounts_popCondition fun _ ↦ .pure _) (.pure _)
  cases op with
  | ifTrue => exact hopen true
  | ifFalse => exact hopen false
  | otherwise => exact .bind (.failIf _ _) fun _ ↦ .orFault _
  | endIf => exact .bind (.failIf _ _) fun _ ↦ .orFault _
  | forbidden => exact .throw _

end UtxoConsensus
