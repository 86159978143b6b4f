import UtxoConsensus.Interpreter.Verify
import UtxoConsensus.Proofs.Interpreter.Comparison

/-!
# Scripts in lockstep

What two environments have to agree on for the scripts under them to run in lockstep: the reading of
numbers, the pushes, and the opcodes that look at the flags, at the transaction or at signatures. All
other opcodes have one theorem a family here, and together they give that a whole script follows.
-/

namespace UtxoConsensus

open Exec

variable {σ τ : Type}

/-- The steps in which flags and checkers have a say follow. -/
structure Comparison.Rules (c : Comparison σ τ) (env : Env σ) (env' : Env τ) : Prop where
  number : ∀ b, c.Follows (env.number b) (env'.number b)
  limits : ∀ i, c.Follows (checkLimits env i) (checkLimits env' i)
  push : ∀ i, c.Follows (executePush env i) (executePush env' i)
  condition : c.Follows (popCondition env) (popCondition env')
  upgradableNop : c.Follows (executeUpgradableNop env) (executeUpgradableNop env')
  checkLockTime : c.Follows (executeCheckLockTime env) (executeCheckLockTime env')
  checkSequence : c.Follows (executeCheckSequence env) (executeCheckSequence env')
  binToNum : c.Follows (executeSplice env .binToNum) (executeSplice env' .binToNum)
  transactionField : ∀ field,
    c.Follows (executeTransactionField env field) (executeTransactionField env' field)
  inputField : ∀ field, c.Follows (executeInputField env field) (executeInputField env' field)
  outputField : ∀ field, c.Follows (executeOutputField env field) (executeOutputField env' field)
  tokenField : ∀ side field,
    c.Follows (executeTokenField env side field) (executeTokenField env' side field)
  checkSig : ∀ verify, c.Follows (executeCheckSig env verify) (executeCheckSig env' verify)
  checkMultisig : ∀ verify,
    c.Follows (executeCheckMultisig env verify) (executeCheckMultisig env' verify)
  checkDataSig : ∀ verify,
    c.Follows (executeCheckDataSig env verify) (executeCheckDataSig env' verify)

namespace Comparison

variable {c : Comparison σ τ} {env : Env σ} {env' : Env τ}

/-! ## Stack opcodes -/

theorem follows_copyMany (depth count : Nat) :
    c.Follows (copyMany depth count : Exec σ Unit) (copyMany depth count) :=
  .bind (.peekMany depth count) fun _ ↦ .modify (fun _ ↦ rfl) fun _ _ ↦ rfl

theorem follows_moveMany (depth count : Nat) :
    c.Follows (moveMany depth count : Exec σ Unit) (moveMany depth count) :=
  .bind (.peekMany depth count) fun _ ↦ .modify (fun _ ↦ rfl) fun _ _ ↦ rfl

theorem Rules.popDepth (h : c.Rules env env') :
    c.Follows (UtxoConsensus.popDepth env) (UtxoConsensus.popDepth env') := by
  refine .bind (.require 2) fun _ ↦ ?_
  refine .bind (.peek 0) fun top ↦ ?_
  refine .bind (h.number top) fun n ↦ ?_
  refine .bind .pop fun _ ↦ ?_
  refine .bind_get fun m w ↦ ?_
  exact .bind (.failIf _ _) fun _ ↦ .pure _

/-- Stack opcodes depend on the environment only by the numbers that they read. -/
theorem Rules.stack (h : c.Rules env env') (op : StackOp) :
    c.Follows (executeStack env op) (executeStack env' op) := by
  cases op with
  | toAltStack => exact .bind .pop fun _ ↦ .modify (fun _ ↦ rfl) fun _ _ ↦ rfl
  | fromAltStack =>
    refine .bind_get fun m w ↦ ?_
    rw [Machine.altStack_withWorld]
    cases m.altStack with
    | nil => exact .fail _
    | cons element rest => exact .bind (.modify (fun _ ↦ rfl) fun _ _ ↦ rfl) fun _ ↦ .push element
  | drop2 => exact .bind (.require 2) fun _ ↦ .drop 2
  | dup2 => exact .bind (.require 2) fun _ ↦ follows_copyMany 0 2
  | dup3 => exact .bind (.require 3) fun _ ↦ follows_copyMany 0 3
  | over2 => exact .bind (.require 4) fun _ ↦ follows_copyMany 2 2
  | rot2 => exact .bind (.require 6) fun _ ↦ follows_moveMany 4 2
  | swap2 => exact .bind (.require 4) fun _ ↦ .bind (.exchange 3 1) fun _ ↦ .exchange 2 0
  | ifDup =>
    refine .bind (.require 1) fun _ ↦ .bind (.peek 0) fun top ↦ ?_
    exact .ite (.push top) (.pure ())
  | depth => exact .bind_get fun _ _ ↦ .pushNumber _
  | drop => exact .bind .pop fun _ ↦ .pure ()
  | dup => exact .bind (.require 1) fun _ ↦ .bind (.peek 0) fun top ↦ .push top
  | nip => exact .bind (.require 2) fun _ ↦ .bind (.removeAt 1) fun _ ↦ .pure ()
  | «over» => exact .bind (.require 2) fun _ ↦ .bind (.peek 1) fun element ↦ .push element
  | pick => exact .bind h.popDepth fun depth ↦ .bind (.peek depth) fun element ↦ .push element
  | roll => exact .bind h.popDepth fun depth ↦ .bind (.removeAt depth) fun element ↦ .push element
  | rot => exact .bind (.require 3) fun _ ↦ .bind (.exchange 2 1) fun _ ↦ .exchange 1 0
  | swap => exact .bind (.require 2) fun _ ↦ .exchange 1 0
  | tuck => exact .bind (.require 2) fun _ ↦ .bind (.peek 0) fun top ↦ .insertAt 2 top

/-! ## Byte strings, bits and hashes -/

theorem follows_padNumber (b : Bytes) (size : Nat) :
    c.Follows (padNumber b size : Exec σ Bytes) (padNumber b size) :=
  .bind (.difference _ _) fun _ ↦ .pure _

theorem Rules.splice (h : c.Rules env env') (op : SpliceOp) :
    c.Follows (executeSplice env op) (executeSplice env' op) := by
  cases op with
  | cat =>
    refine .bind (.require 2) fun _ ↦ .bind (.peek 1) fun _ ↦ .bind (.peek 0) fun _ ↦ ?_
    refine .bind (.failIf _ _) fun _ ↦ ?_
    exact .bind .pop fun _ ↦ .bind .pop fun _ ↦ .push _
  | split =>
    refine .bind (.require 2) fun _ ↦ .bind (.peek 0) fun top ↦ .bind (h.number top) fun _ ↦ ?_
    refine .bind (.peek 1) fun _ ↦ .bind (.failIf _ _) fun _ ↦ ?_
    refine .bind .pop fun _ ↦ .bind .pop fun _ ↦ ?_
    exact .ite (.bind (.push _) fun _ ↦ .push _) (.throw _)
  | numToBin =>
    refine .bind (.require 2) fun _ ↦ .bind (.peek 0) fun top ↦ .bind (h.number top) fun _ ↦ ?_
    refine .bind (.failIf _ _) fun _ ↦ .bind .pop fun _ ↦ .bind .pop fun _ ↦ ?_
    refine .bind (.failIf _ _) fun _ ↦ ?_
    exact .ite (.bind (follows_padNumber _ _) fun _ ↦ .push _) (.bind (.pure _) fun _ ↦ .push _)
  | binToNum => exact h.binToNum
  | size => exact .bind (.require 1) fun _ ↦ .bind (.peek 0) fun _ ↦ .pushNumber _
  | reverseBytes => exact .bind .pop fun _ ↦ .push _

theorem follows_bitwise (op : BitwiseOp) :
    c.Follows (executeBitwise op : Exec σ Unit) (executeBitwise op) := by
  refine .bind (.require 2) fun _ ↦ .bind (.peek 1) fun _ ↦ .bind (.peek 0) fun _ ↦ ?_
  refine .bind (.failIf _ _) fun _ ↦ ?_
  exact .bind .pop fun _ ↦ .bind .pop fun _ ↦ .push _

theorem follows_equal (verify : Bool) :
    c.Follows (executeEqual verify : Exec σ Unit) (executeEqual verify) := by
  refine .bind (.require 2) fun _ ↦ .bind (.peek 1) fun _ ↦ .bind (.peek 0) fun _ ↦ ?_
  exact .bind (.drop 2) fun _ ↦ .answer verify _ _

theorem follows_hash (op : HashOp) :
    c.Follows (executeHash op : Exec σ Unit) (executeHash op) :=
  .bind .pop fun _ ↦ .push _

/-! ## Arithmetic -/

theorem follows_inNumberRange (n : Int) :
    c.Follows (inNumberRange n : Exec σ Int) (inNumberRange n) := by
  unfold inNumberRange
  cases ScriptNumber.inRange? n with
  | none => exact .fail _
  | some n => exact .pure n

theorem follows_unaryApply (n : Int) (op : UnaryOp) :
    c.Follows (op.apply n : Exec σ Int) (op.apply n) := by
  cases op with
  | addOne => exact follows_inNumberRange _
  | subOne => exact follows_inNumberRange _
  | negate => exact .word _
  | abs => exact .word _
  | not => exact .pure _
  | notZero => exact .pure _

theorem follows_binaryApply (a b : Int) (op : BinaryOp) :
    c.Follows (op.apply a b : Exec σ Int) (op.apply a b) := by
  cases op with
  | add => exact follows_inNumberRange _
  | sub => exact follows_inNumberRange _
  | mul => exact follows_inNumberRange _
  | div => exact .ite (.fail _) (.word _)
  | mod => exact .ite (.fail _) (.word _)
  | _ => exact .pure _

theorem Rules.unary (h : c.Rules env env') (op : UnaryOp) :
    c.Follows (executeUnary env op) (executeUnary env' op) := by
  refine .bind (.require 1) fun _ ↦ .bind (.peek 0) fun top ↦ .bind (h.number top) fun n ↦ ?_
  exact .bind (follows_unaryApply n op) fun _ ↦ .bind .pop fun _ ↦ .pushNumber _

theorem Rules.binaryOperands (h : c.Rules env env') :
    c.Follows (UtxoConsensus.binaryOperands env) (UtxoConsensus.binaryOperands env') := by
  refine .bind (.require 2) fun _ ↦ .bind (.peek 1) fun second ↦ .bind (h.number second) fun _ ↦ ?_
  exact .bind (.peek 0) fun top ↦ .bind (h.number top) fun _ ↦ .pure _

theorem Rules.binary (h : c.Rules env env') (op : BinaryOp) :
    c.Follows (executeBinary env op) (executeBinary env' op) := by
  refine .bind h.binaryOperands fun (a, b) ↦ .bind (follows_binaryApply a b op) fun _ ↦ ?_
  exact .bind (.drop 2) fun _ ↦ .pushNumber _

theorem Rules.numEqualVerify (h : c.Rules env env') :
    c.Follows (executeNumEqualVerify env) (executeNumEqualVerify env') :=
  .bind h.binaryOperands fun _ ↦ .bind (.drop 2) fun _ ↦ .failIf _ _

theorem Rules.within (h : c.Rules env env') :
    c.Follows (executeWithin env) (executeWithin env') := by
  refine .bind (.require 3) fun _ ↦ .bind (.peek 2) fun third ↦ .bind (h.number third) fun _ ↦ ?_
  refine .bind (.peek 1) fun second ↦ .bind (h.number second) fun _ ↦ ?_
  refine .bind (.peek 0) fun top ↦ .bind (h.number top) fun _ ↦ ?_
  exact .bind (.drop 3) fun _ ↦ .pushBool _

/-! ## Introspection of one transaction -/

section Introspection

variable (hcontext : env.checker.context = env'.checker.context)
  (hnumber : ∀ b, c.Follows (env.number b) (env'.number b))

include hcontext in
theorem follows_requireContext : c.Follows (requireContext env) (requireContext env') := by
  unfold requireContext
  rw [hcontext]
  cases env'.checker.context with
  | none => exact .fail _
  | some context => exact .pure context

include hnumber in
theorem follows_popIndex (length : Nat) (e : ScriptError) :
    c.Follows (popIndex env length e) (popIndex env' length e) := by
  have hpop : c.Follows env.popNumber env'.popNumber := by
    refine .bind (.require 1) fun _ ↦ .bind (.peek 0) fun top ↦ .bind (hnumber top) fun n ↦ ?_
    exact .bind .pop fun _ ↦ .pure n
  exact .bind hpop fun _ ↦ .bind (.failIf _ _) fun _ ↦ .pure _

theorem follows_pushElement (b : Bytes) :
    c.Follows (pushElement b : Exec σ Unit) (pushElement b) :=
  .bind (.failIf _ _) fun _ ↦ .push b

include hnumber in
theorem follows_popOutput (context : SpendContext) :
    c.Follows (popOutput env context) (popOutput env' context) :=
  .bind (follows_popIndex hnumber _ _) fun _ ↦ .orFault _

include hnumber in
theorem follows_popToken (context : SpendContext) (side : TokenSide) :
    c.Follows (popToken env context side) (popToken env' context side) := by
  cases side with
  | coin => exact .bind (follows_popIndex hnumber _ _) fun _ ↦ .bind (.lift _) fun _ ↦ .pure _
  | output => exact .bind (follows_popOutput hnumber context) fun _ ↦ .pure _

section Known

variable (hknown : c.Follows (failIf (!env.has .nativeIntrospection) .badOpcode : Exec σ Unit)
  (failIf (!env'.has .nativeIntrospection) .badOpcode))

include hcontext hknown in
theorem follows_transactionField (field : TransactionField) :
    c.Follows (executeTransactionField env field) (executeTransactionField env' field) := by
  refine .bind hknown fun _ ↦ .bind (follows_requireContext hcontext) fun context ↦ ?_
  cases field with
  | activeBytecode => exact .bind_get fun _ _ ↦ follows_pushElement _
  | _ => exact .pushNumber _

include hcontext hnumber hknown

theorem follows_inputField (field : InputField) :
    c.Follows (executeInputField env field) (executeInputField env' field) := by
  refine .bind hknown fun _ ↦ .bind (follows_requireContext hcontext) fun context ↦ ?_
  refine .bind (follows_popIndex hnumber _ _) fun index ↦ .bind (.orFault _) fun input ↦ ?_
  cases field with
  | coinValue => exact .bind (.lift _) fun _ ↦ .pushNumber _
  | coinBytecode => exact .bind (.lift _) fun _ ↦ follows_pushElement _
  | outpointHash => exact .push _
  | outpointIndex => exact .pushNumber _
  | bytecode => exact .bind (.lift _) fun _ ↦ follows_pushElement _
  | sequence => exact .pushNumber _

theorem follows_outputField (field : OutputField) :
    c.Follows (executeOutputField env field) (executeOutputField env' field) := by
  refine .bind hknown fun _ ↦ .bind (follows_requireContext hcontext) fun context ↦ ?_
  refine .bind (follows_popOutput hnumber context) fun output ↦ ?_
  cases field with
  | value => exact .pushNumber _
  | bytecode => exact follows_pushElement _

end Known

include hcontext hnumber in
theorem follows_tokenField
    (hknown : c.Follows
      (failIf (!env.has .nativeIntrospection || !env.has .enableTokens) .badOpcode : Exec σ Unit)
      (failIf (!env'.has .nativeIntrospection || !env'.has .enableTokens) .badOpcode))
    (side : TokenSide) (field : TokenField) :
    c.Follows (executeTokenField env side field) (executeTokenField env' side field) := by
  refine .bind hknown fun _ ↦ .bind (follows_requireContext hcontext) fun context ↦ ?_
  refine .bind (follows_popToken hnumber context side) fun token ↦ ?_
  cases field with
  | category => exact .push _
  | commitment => exact .push _
  | amount => exact .pushNumber _

end Introspection

/-! ## Operations and branches -/

theorem follows_verify : c.Follows (executeVerify : Exec σ Unit) executeVerify := by
  refine .bind (.require 1) fun _ ↦ .bind (.peek 0) fun _ ↦ .bind (.failIf _ _) fun _ ↦ ?_
  exact .bind .pop fun _ ↦ .pure ()

/-- One case for each operation. -/
theorem Rules.execute (h : c.Rules env env') (rest : Bytes) (op : Operation) :
    c.Follows (UtxoConsensus.execute env rest op) (UtxoConsensus.execute env' rest op) := by
  cases op with
  | number n => exact .pushNumber n
  | nop => exact .pure ()
  | upgradableNop => exact h.upgradableNop
  | checkLockTime => exact h.checkLockTime
  | checkSequence => exact h.checkSequence
  | verify => exact follows_verify
  | fail => exact .fail _
  | stack op => exact h.stack op
  | splice op => exact h.splice op
  | bitwise op => exact follows_bitwise op
  | equal verify => exact follows_equal verify
  | unary op => exact h.unary op
  | binary op => exact h.binary op
  | numEqualVerify => exact h.numEqualVerify
  | within => exact h.within
  | hash op => exact follows_hash op
  | codeSeparator => exact .modify (fun _ ↦ rfl) fun _ _ ↦ rfl
  | checkSig verify => exact h.checkSig verify
  | checkMultisig verify => exact h.checkMultisig verify
  | checkDataSig verify => exact h.checkDataSig verify
  | transactionField field => exact h.transactionField field
  | inputField field => exact h.inputField field
  | outputField field => exact h.outputField field
  | tokenField side field => exact h.tokenField side field
  | branch op => exact .fail _
  | invalid => exact .fail _

theorem Rules.openBranch (h : c.Rules env env') (conditions : Conditions) (expected : Bool) :
    c.Follows (UtxoConsensus.openBranch env conditions expected)
      (UtxoConsensus.openBranch env' conditions expected) :=
  .ite (.bind h.condition fun _ ↦ .pure _) (.pure _)

theorem Rules.branch (h : c.Rules env env') (conditions : Conditions) (op : BranchOp) :
    c.Follows (executeBranch env conditions op) (executeBranch env' conditions op) := by
  cases op with
  | ifTrue => exact h.openBranch conditions true
  | ifFalse => exact h.openBranch conditions false
  | otherwise => exact .bind (.failIf _ _) fun _ ↦ .orFault _
  | endIf => exact .bind (.failIf _ _) fun _ ↦ .orFault _
  | forbidden => exact .fail _

/-! ## Instructions and scripts -/

/-- One instruction, whether it is passed over or not. -/
theorem Rules.step (h : c.Rules env env') (conditions : Conditions) (i : Instruction) :
    c.Follows (UtxoConsensus.step env conditions i) (UtxoConsensus.step env' conditions i) := by
  refine .bind (h.limits i) fun _ ↦ ?_
  refine .ite ?_ ?_
  · exact .ite (.bind (h.push i) fun _ ↦ .pure _) (.pure _)
  · split
    · exact h.branch conditions _
    · exact .ite (.bind (h.execute i.rest _) fun _ ↦ .pure _) (.pure _)

/-- By induction on the instructions. -/
theorem Rules.runInstructions (h : c.Rules env env') (conditions : Conditions)
    (instructions : List Instruction) :
    c.Follows (UtxoConsensus.runInstructions env conditions instructions)
      (UtxoConsensus.runInstructions env' conditions instructions) := by
  induction instructions generalizing conditions with
  | nil => exact .pure _
  | cons i rest ih =>
    refine .bind (h.step conditions i) fun conditions ↦ .bind_get fun m w ↦ ?_
    exact .bind (.failIf _ _) fun _ ↦ ih conditions

theorem Rules.evalScript (h : c.Rules env env') (script : Bytes) :
    c.Follows (UtxoConsensus.evalScript env script) (UtxoConsensus.evalScript env' script) := by
  refine .bind (.failIf _ _) fun _ ↦ .bind (.modify (fun _ ↦ rfl) fun _ _ ↦ rfl) fun _ ↦ ?_
  refine .bind (h.runInstructions .none _) fun _ ↦ ?_
  exact .bind (.failIf _ _) fun _ ↦ .failIf _ _

end Comparison

end UtxoConsensus
