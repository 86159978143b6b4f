import UtxoConsensus.Interpreter.Verify
import UtxoConsensus.Proofs.Interpreter.StackLimits
import UtxoConsensus.Proofs.Script.Parsing

/-!
# How large elements get

No opcode leaves an element of more than 520 bytes on the stacks where there was none before, but for
the two that read the commitment of a token: they push it whatever its length is. So the limit holds
throughout exactly where the commitments of all tokens that scripts can look at keep to it.
-/

namespace UtxoConsensus

open Exec

variable {σ : Type}

/-! ## Tokens that scripts see -/

def SpendContext.token? (c : SpendContext) (side : TokenSide) (index : Nat) : Option TokenData :=
  match side with
  | .coin =>
    match c.coin index with
    | .ok coin => coin.token
    | .error _ => none
  | .output => c.tx.outputs[index]?.bind TxOutput.token

theorem SpendContext.token?_of_coin {c : SpendContext} {index : Nat} {coin : TxOutput}
    (hcoin : c.coin index = .ok coin) : c.token? .coin index = coin.token := by
  unfold SpendContext.token?
  simp only [hcoin]

theorem SpendContext.token?_of_output {c : SpendContext} {index : Nat} {output : TxOutput}
    (houtput : c.tx.outputs[index]? = some output) : c.token? .output index = output.token := by
  unfold SpendContext.token?
  simp only [houtput, Option.bind_some]

theorem SpendContext.lt_of_coin_eq_ok (c : SpendContext) {index : Nat} {coin : TxOutput}
    (h : c.coin index = .ok coin) : index < c.tx.inputs.length := by
  have hfits := c.fits
  unfold SpendContext.coin at h
  cases hcoins : c.coins with
  | full coins =>
    rw [hcoins] at h hfits
    cases hfound : coins[index]? with
    | none =>
      simp only [hfound] at h
      cases h
    | some found =>
      have hlt : index < coins.length := (List.getElem?_eq_some_iff.mp hfound).1
      exact hfits ▸ hlt
  | limited own =>
    simp only [hcoins] at h
    split at h
    · next heq => exact heq ▸ c.index_lt
    · split at h
      · cases h
      · next hlt => exact Nat.lt_of_not_le hlt

namespace Env

/-- Some element denotes the number. -/
def CanName (env : Env σ) (n : Int) : Prop :=
  ∃ b, ScriptNumber.decode b (env.has .minimalData) env.maxNumberSize (env.has .integers64Bit) = .ok n

/-- Scripts can look at the token: they know the opcodes for it, and its place can be named. -/
def SeesToken (env : Env σ) (t : TokenData) : Prop :=
  env.has .nativeIntrospection = true ∧ env.has .enableTokens = true ∧
    ∃ c, env.checker.context = some c ∧
      ∃ (side : TokenSide) (index : Nat), env.CanName index ∧ c.token? side index = some t

end Env

/-! ## Introspection -/

section Operations

variable {env : Env σ} {limit : Nat}

theorem staysWithin_popNumber : StaysWithin limit env.popNumber env.CanName := by
  refine .bind (.require 1) fun _ _ ↦ .bind (.peek 0) fun b _ ↦ .bind (staysWithin_number b) fun n hn ↦ ?_
  exact .bind .pop fun _ _ ↦ .pure ⟨b, hn⟩

/-- An index that is accepted can be named. -/
theorem staysWithin_popIndex (length : Nat) (e : ScriptError) :
    StaysWithin limit (popIndex env length e) fun index ↦ env.CanName index := by
  refine .bind staysWithin_popNumber fun n hn ↦ .bind (.failIf _ _) fun _ hrange ↦ .pure ?_
  rw [Bool.or_eq_false_iff, decide_eq_false_iff_not, Int.not_lt] at hrange
  rw [Int.toNat_of_nonneg hrange.1]
  exact hn

theorem staysWithin_requireContext :
    StaysWithin limit (requireContext env) fun c ↦ env.checker.context = some c := by
  unfold requireContext
  cases env.checker.context with
  | none => exact .fail _
  | some c => exact .pure rfl

theorem staysWithin_popOutput (c : SpendContext) :
    StaysWithin limit (popOutput env c) fun output ↦
      ∃ index : Nat, env.CanName index ∧ c.tx.outputs[index]? = some output := by
  refine .bind (staysWithin_popIndex _ _) fun index hindex ↦ ?_
  cases houtput : c.tx.outputs[index]? with
  | none => exact .throw .fault
  | some output => exact .pure ⟨index, hindex, houtput⟩

/-- The token that is found is one that the script can see. -/
theorem staysWithin_popToken (c : SpendContext) (side : TokenSide) :
    StaysWithin limit (popToken env c side) fun token ↦
      ∃ index : Nat, env.CanName index ∧ c.token? side index = token := by
  cases side with
  | coin =>
    refine .bind (staysWithin_popIndex _ _) fun index hindex ↦ .bind (.lift _) fun coin hcoin ↦ ?_
    exact .pure ⟨index, hindex, SpendContext.token?_of_coin hcoin⟩
  | output =>
    refine .bind (staysWithin_popOutput c) fun output ⟨index, hindex, houtput⟩ ↦ ?_
    exact .pure ⟨index, hindex, SpendContext.token?_of_output houtput⟩

variable (hlimit : Limit.elementSize ≤ limit)
include hlimit

theorem staysWithin_pushElement (b : Bytes) :
    StaysWithin limit (pushElement b : Exec σ Unit) := by
  refine .bind (.failIf _ _) fun _ hsize ↦ .push ?_
  rw [decide_eq_false_iff_not, Nat.not_lt] at hsize
  exact Nat.le_trans hsize hlimit

theorem staysWithin_transactionField (field : TransactionField) :
    StaysWithin limit (executeTransactionField env field) := by
  refine .bind (.failIf _ _) fun _ _ ↦ .bind staysWithin_requireContext fun c _ ↦ ?_
  cases field with
  | activeBytecode => exact .bind .get fun _ _ ↦ staysWithin_pushElement hlimit _
  | _ => exact staysWithin_pushNumber hlimit _

theorem staysWithin_inputField (field : InputField) :
    StaysWithin limit (executeInputField env field) := by
  refine .bind (.failIf _ _) fun _ _ ↦ .bind staysWithin_requireContext fun c _ ↦ ?_
  refine .bind (staysWithin_popIndex _ _) fun index _ ↦ .bind (.orFault _) fun input _ ↦ ?_
  cases field with
  | coinValue => exact .bind (.lift _) fun _ _ ↦ staysWithin_pushNumber hlimit _
  | coinBytecode => exact .bind (.lift _) fun _ _ ↦ staysWithin_pushElement hlimit _
  | outpointHash =>
    apply StaysWithin.push
    rw [input.prevout.hash.length_bytes]
    exact Nat.le_trans (by decide) hlimit
  | outpointIndex => exact staysWithin_pushNumber hlimit _
  | bytecode => exact .bind (.lift _) fun _ _ ↦ staysWithin_pushElement hlimit _
  | sequence => exact staysWithin_pushNumber hlimit _

theorem staysWithin_outputField (field : OutputField) :
    StaysWithin limit (executeOutputField env field) := by
  refine .bind (.failIf _ _) fun _ _ ↦ .bind staysWithin_requireContext fun c _ ↦ ?_
  refine .bind (staysWithin_popOutput c) fun output _ ↦ ?_
  cases field with
  | value => exact staysWithin_pushNumber hlimit _
  | bytecode => exact staysWithin_pushElement hlimit _

omit hlimit in
/-- A category and one byte for the capability. -/
theorem length_categoryElement_le (t : TokenData) : t.categoryElement.length ≤ 33 := by
  unfold TokenData.categoryElement
  rw [List.length_append, t.category.length_bytes]
  split
  · exact Nat.le_succ 32
  · exact Nat.le_refl 33

/-- Of a token that scripts see, only the commitment may be large. -/
theorem staysWithin_tokenField (hseen : ∀ t, env.SeesToken t → t.commitment.length ≤ limit)
    (side : TokenSide) (field : TokenField) :
    StaysWithin limit (executeTokenField env side field) := by
  refine .bind (.failIf _ _) fun _ hknown ↦ .bind staysWithin_requireContext fun c hcontext ↦ ?_
  refine .bind (staysWithin_popToken c side) fun token ⟨index, hindex, htoken⟩ ↦ ?_
  -- That the opcode has come this far is what lets scripts see the token.
  rw [Bool.or_eq_false_iff, Bool.not_eq_false', Bool.not_eq_false'] at hknown
  cases field with
  | category =>
    apply StaysWithin.push
    cases token with
    | none => exact Nat.zero_le _
    | some t => exact Nat.le_trans (length_categoryElement_le t) (Nat.le_trans (by decide) hlimit)
  | commitment =>
    apply StaysWithin.push
    cases token with
    | none => exact Nat.zero_le _
    | some t => exact hseen t ⟨hknown.1, hknown.2, c, hcontext, side, index, hindex, htoken⟩
  | amount => exact staysWithin_pushNumber hlimit _

/-! ## Operations and branches -/

omit hlimit in
theorem staysWithin_verify : StaysWithin limit (executeVerify : Exec σ Unit) := by
  refine .bind (.require 1) fun _ _ ↦ .bind (.peek 0) fun _ _ ↦ .bind (.failIf _ _) fun _ _ ↦ ?_
  exact .bind .pop fun _ _ ↦ .done _

/-- No operation makes an element longer than the limit, if no token that it sees has a longer
commitment. -/
theorem staysWithin_execute (hseen : ∀ t, env.SeesToken t → t.commitment.length ≤ limit)
    (rest : Bytes) (op : Operation) :
    StaysWithin limit (execute env rest op) := by
  cases op with
  | number n => exact staysWithin_pushNumber hlimit n
  | nop => exact .done _
  | upgradableNop => exact staysWithin_upgradableNop
  | checkLockTime => exact staysWithin_checkLockTime
  | checkSequence => exact staysWithin_checkSequence
  | verify => exact staysWithin_verify
  | fail => exact .fail _
  | stack op => exact staysWithin_stack hlimit op
  | splice op => exact staysWithin_splice hlimit op
  | bitwise op => exact staysWithin_bitwise op
  | equal verify => exact staysWithin_equal hlimit verify
  | unary op => exact staysWithin_unary hlimit op
  | binary op => exact staysWithin_binary hlimit op
  | numEqualVerify => exact staysWithin_numEqualVerify
  | within => exact staysWithin_within hlimit
  | hash op => exact staysWithin_hash hlimit op
  | codeSeparator => exact .modify fun _ hm ↦ ⟨hm.stack, hm.altStack⟩
  | checkSig verify => exact staysWithin_checkSig hlimit verify
  | checkMultisig verify => exact staysWithin_checkMultisig hlimit verify
  | checkDataSig verify => exact staysWithin_checkDataSig hlimit verify
  | transactionField field => exact staysWithin_transactionField hlimit field
  | inputField field => exact staysWithin_inputField hlimit field
  | outputField field => exact staysWithin_outputField hlimit field
  | tokenField side field => exact staysWithin_tokenField hlimit hseen side field
  | branch op => exact .fail _
  | invalid => exact .fail _

omit hlimit

theorem staysWithin_openBranch (conditions : Conditions) (expected : Bool) :
    StaysWithin limit (openBranch env conditions expected) := by
  refine .ite (fun _ ↦ .bind (p := fun _ ↦ True) ?_ fun _ _ ↦ .done _) fun _ ↦ .done _
  refine .bind .get fun m _ ↦ ?_
  split
  · exact .fail _
  · exact .bind (.failIf _ _) fun _ _ ↦ .bind .pop fun _ _ ↦ .done _

theorem staysWithin_branch (conditions : Conditions) (op : BranchOp) :
    StaysWithin limit (executeBranch env conditions op) := by
  cases op with
  | ifTrue => exact staysWithin_openBranch conditions true
  | ifFalse => exact staysWithin_openBranch conditions false
  | otherwise => exact .bind (.failIf _ _) fun _ _ ↦ .any (.orFault _)
  | endIf => exact .bind (.failIf _ _) fun _ _ ↦ .any (.orFault _)
  | forbidden => exact .fail _

/-! ## Instructions -/

theorem staysWithin_checkLimits (i : Instruction) : StaysWithin limit (checkLimits env i) fun _ ↦
    i.data.length ≤ Limit.elementSize := by
  refine .bind (.failIf _ _) fun _ hsize ↦ ?_
  rw [decide_eq_false_iff_not, Nat.not_lt] at hsize
  have hlast : StaysWithin limit (failIf (isDisabled i.opcode env.flags) .disabledOpcode : Exec σ Unit)
      fun _ ↦ i.data.length ≤ Limit.elementSize :=
    fun _ _ _ hm hok ↦ ⟨(StaysWithin.failIf _ _ hm hok).1, hsize⟩
  exact .ite (fun _ ↦ .bind (.countOperations 1) fun _ _ ↦ hlast) fun _ ↦ hlast

include hlimit

/-- One instruction keeps elements within the limit, if the tokens that it can look at do. -/
theorem staysWithin_step (hseen : ∀ t, env.SeesToken t → t.commitment.length ≤ limit)
    (conditions : Conditions) (i : Instruction) :
    StaysWithin limit (step env conditions i) := by
  refine .bind (staysWithin_checkLimits i) fun _ hsize ↦ .ite (fun _ ↦ ?_) fun _ ↦ ?_
  · have hpush : StaysWithin limit (executePush env i) :=
      .bind (.failIf _ _) fun _ _ ↦ .push (Nat.le_trans hsize hlimit)
    exact .ite (fun _ ↦ .bind hpush fun _ _ ↦ .done _) fun _ ↦ .done _
  · split
    · exact staysWithin_branch conditions _
    · exact .ite (fun _ ↦ .bind (staysWithin_execute hlimit hseen i.rest _) fun _ _ ↦ .done _)
        fun _ ↦ .done _

/-- A run of instructions keeps elements within the limit, by induction on the instructions. -/
theorem staysWithin_runInstructions (hseen : ∀ t, env.SeesToken t → t.commitment.length ≤ limit)
    (conditions : Conditions) (instructions : List Instruction) :
    StaysWithin limit (runInstructions env conditions instructions) := by
  induction instructions generalizing conditions with
  | nil => exact .done _
  | cons i rest ih =>
    refine .bind (staysWithin_step hlimit hseen conditions i) fun conditions _ ↦ ?_
    exact .bind .get fun _ _ ↦ .bind (.failIf _ _) fun _ _ ↦ ih conditions

end Operations

/-! ## Evaluations -/

/-- Evaluated on the first machine, a script comes to an instruction that is executed without error, and
the second machine is the one after it. -/
def Executes (env : Env σ) (script : Bytes) (m m' : Machine σ) : Prop :=
  script.length ≤ Script.maxSize ∧
    ∃ before i after conditions between conditions',
      (Script.parse script).instructions = before ++ i :: after ∧
        runInstructions env .none before (m.enter script) = .ok conditions between ∧
        step env conditions i between = .ok conditions' m'

/-- The run lemma: all elements stay within the limit. -/
theorem Executes.within {env : Env σ} {limit : Nat} (hlimit : Limit.elementSize ≤ limit)
    (hseen : ∀ t, env.SeesToken t → t.commitment.length ≤ limit) {script : Bytes} {m m' : Machine σ}
    (hstack : ∀ b ∈ m.stack, b.length ≤ limit) (h : Executes env script m m') : m'.Within limit := by
  obtain ⟨-, before, i, after, conditions, between, conditions', -, hrun, hstep⟩ := h
  have hstart : (m.enter script).Within limit := ⟨hstack, List.forall_mem_nil _⟩
  obtain ⟨hbetween, -⟩ := staysWithin_runInstructions hlimit hseen .none before hstart hrun
  exact (staysWithin_step hlimit hseen conditions i hbetween hstep).1

/-! ## Reading a commitment -/

section Commitment

variable {env : Env σ} {b : Bytes} {index : Nat}
  (hname : ScriptNumber.decode b (env.has .minimalData) env.maxNumberSize (env.has .integers64Bit) =
    .ok (index : Int))
include hname

theorem length_le_of_decode : b.length ≤ Limit.elementSize := by
  unfold ScriptNumber.decode at hname
  split at hname
  · cases hname
  · next hsize => exact Nat.le_trans (Nat.le_of_not_lt hsize) env.maxNumberSize_le_elementSize

theorem popIndex_eq_ok {length : Nat} (hindex : index < length) (e : ScriptError) {m : Machine σ}
    {rest : List Bytes} (hm : m.stack = b :: rest) :
    popIndex env length e m = .ok index { m with stack := rest } := by
  obtain ⟨stack, altStack, scriptCode, opCount, sigChecks, world⟩ := m
  subst hm
  have hnumber : env.number b = pure (index : Int) := by
    unfold Env.number
    rw [hname]
    rfl
  have hpop : env.popNumber ⟨b :: rest, altStack, scriptCode, opCount, sigChecks, world⟩ =
      .ok (index : Int) ⟨rest, altStack, scriptCode, opCount, sigChecks, world⟩ := by
    change (env.number b >>= fun n ↦ pop >>= fun _ ↦ pure n) _ = _
    rw [hnumber]
    rfl
  have hrange : (decide ((index : Int) < 0) || decide ((index : Int).toNat ≥ length)) = false := by
    rw [Bool.or_eq_false_iff, decide_eq_false_iff_not, decide_eq_false_iff_not]
    omega
  unfold popIndex popIndexWith
  rw [bind_of_ok hpop, hrange]
  rfl

theorem popToken_eq_ok {c : SpendContext} {side : TokenSide} {t : TokenData}
    (htoken : c.token? side index = some t) {m : Machine σ} {rest : List Bytes}
    (hm : m.stack = b :: rest) :
    popToken env c side m = .ok (some t) { m with stack := rest } := by
  cases side with
  | coin =>
    cases hcoin : c.coin index with
    | error e =>
      unfold SpendContext.token? at htoken
      simp only [hcoin] at htoken
      cases htoken
    | ok coin =>
      have hlt : index < c.tx.inputs.length := c.lt_of_coin_eq_ok hcoin
      have ht : coin.token = some t := (SpendContext.token?_of_coin hcoin).symm.trans htoken
      unfold popToken popTokenWith
      dsimp only
      rw [bind_of_ok (popIndex_eq_ok hname hlt _ hm), hcoin, ← ht]
      rfl
  | output =>
    obtain ⟨output, houtput, ht⟩ := Option.bind_eq_some_iff.mp htoken
    have hlt : index < c.tx.outputs.length := (List.getElem?_eq_some_iff.mp houtput).1
    unfold popToken popTokenWith popOutput popOutputWith
    dsimp only
    rw [bind_assoc, bind_of_ok (popIndex_eq_ok hname hlt _ hm), houtput, ← ht]
    rfl

/-- A commitment is pushed as it is, however long. -/
theorem executeCommitment_eq_ok {c : SpendContext} (hknown : env.has .nativeIntrospection = true)
    (htokens : env.has .enableTokens = true) (hcontext : env.checker.context = some c)
    {side : TokenSide} {t : TokenData} (htoken : c.token? side index = some t) {m : Machine σ}
    {rest : List Bytes} (hm : m.stack = b :: rest) :
    executeTokenField env side .commitment m = .ok () { m with stack := t.commitment :: rest } := by
  unfold executeTokenField executeTokenFieldWith requireContext
  rw [hknown, htokens, hcontext]
  change (popToken env c side >>= _) m = _
  rw [bind_of_ok (popToken_eq_ok hname htoken hm)]
  rfl

end Commitment

def commitmentOpcode : TokenSide → UInt8
  | .coin => 0xcf
  | .output => 0xd2

theorem parse_commitmentOpcode (side : TokenSide) :
    (Script.parse [commitmentOpcode side]).instructions = [⟨commitmentOpcode side, [], [], []⟩] := by
  have hopcode : Opcode.pushData4 < commitmentOpcode side := by cases side <;> decide
  rw [Script.parse_of_first? (Instruction.first?_opcode hopcode []), Script.parse_nil]

theorem step_commitmentOpcode {env : Env σ} {side : TokenSide} {b script : Bytes} {world : σ}
    {m' : Machine σ}
    (h : executeTokenField env side .commitment ⟨[b], [], script, 1, 0, world⟩ = .ok () m') :
    step env .none ⟨commitmentOpcode side, [], [], []⟩ ⟨[b], [], script, 0, 0, world⟩ = .ok .none m' := by
  cases side with
  | coin =>
    change (executeTokenField env .coin .commitment >>= _) _ = _
    rw [bind_of_ok h]
    rfl
  | output =>
    change (executeTokenField env .output .commitment >>= _) _ = _
    rw [bind_of_ok h]
    rfl

/-- A commitment that scripts see can be brought onto the stack, however long it is. -/
theorem exists_executes_of_seesToken {env : Env σ} {t : TokenData} (h : env.SeesToken t) (world : σ) :
    ∃ (b script : Bytes) (m' : Machine σ), b.length ≤ Limit.elementSize ∧
      Executes env script (.start [b] world) m' ∧ t.commitment ∈ m'.stack := by
  obtain ⟨hknown, htokens, c, hcontext, side, index, ⟨b, hname⟩, htoken⟩ := h
  have hscript : [commitmentOpcode side].length ≤ Script.maxSize := Nat.le_of_ble_eq_true rfl
  have hread := executeCommitment_eq_ok hname hknown htokens hcontext htoken
    (m := ⟨[b], [], [commitmentOpcode side], 1, 0, world⟩) rfl
  exact ⟨b, [commitmentOpcode side], _, length_le_of_decode hname,
    ⟨hscript, [], _, [], .none, _, .none, parse_commitmentOpcode side, rfl, step_commitmentOpcode hread⟩,
    List.mem_singleton.mpr rfl⟩

/-! ## The limit -/

/-- **Elements keep to their limit except for commitments.** Whatever script is evaluated on elements of
at most 520 bytes, no element on either stack has more after any instruction that is executed without
error, if and only if no token that scripts can look at has a commitment of more. -/
theorem elements_within_iff [Inhabited σ] (env : Env σ) :
    (∀ script (m m' : Machine σ), (∀ b ∈ m.stack, b.length ≤ Limit.elementSize) →
      Executes env script m m' → m'.Within Limit.elementSize) ↔
      ∀ t, env.SeesToken t → t.commitment.length ≤ Limit.elementSize := by
  constructor
  · -- One opcode is enough: it reads the commitment where its place is pushed.
    intro hall t hseen
    obtain ⟨b, script, m', hb, hexecutes, hmem⟩ := exists_executes_of_seesToken hseen default
    have hstack : ∀ b' ∈ [b], b'.length ≤ Limit.elementSize := List.forall_mem_singleton.mpr hb
    exact (hall script _ m' hstack hexecutes).stack t.commitment hmem
  · intro hseen script m m' hstack hexecutes
    exact hexecutes.within (Nat.le_refl _) hseen hstack

def longToken : TokenData :=
  ⟨.filled 0xaa, 0, some ⟨.none, List.replicate 521 9⟩⟩

/-- A transaction that spends a coin with that token, under rules that know tokens. -/
def longTokenEnv : Env Unit :=
  ⟨.transaction ⟨⟨2, [⟨⟨.filled 1, 0⟩, [], 0⟩], [], 0⟩, 0, .full [⟨⟨1⟩, [0x51], some longToken⟩],
    by decide, rfl⟩ none, .nativeIntrospection ||| .enableTokens⟩

/-- A commitment of 521 bytes becomes an element. -/
theorem not_elements_within :
    ¬ ∀ (env : Env Unit) (script : Bytes) (m m' : Machine Unit),
      (∀ b ∈ m.stack, b.length ≤ Limit.elementSize) → Executes env script m m' →
        m'.Within Limit.elementSize := by
  intro hall
  let read : Machine Unit := ⟨[[]], [], [0x00, 0xcf], 1, 0, ()⟩
  have hparse : (Script.parse [0x00, 0xcf]).instructions =
      [⟨0x00, [], [], [0xcf]⟩] ++ ⟨commitmentOpcode .coin, [], [], []⟩ :: [] := by decide +kernel
  have hname : ScriptNumber.decode [] (longTokenEnv.has .minimalData) longTokenEnv.maxNumberSize
      (longTokenEnv.has .integers64Bit) = .ok ((0 : Nat) : Int) := by decide
  have hread : executeTokenField longTokenEnv .coin .commitment read =
      .ok () { read with stack := [longToken.commitment] } :=
    executeCommitment_eq_ok hname (by decide) (by decide) rfl rfl rfl
  have hexecutes : Executes longTokenEnv [0x00, 0xcf] (.start [] ())
      { read with stack := [longToken.commitment] } :=
    ⟨by decide, _, _, _, .none, _, .none, hparse, rfl, step_commitmentOpcode hread⟩
  have hlong : longToken.commitment.length ≤ Limit.elementSize :=
    (hall longTokenEnv _ _ _ (List.forall_mem_nil _) hexecutes).stack _ (List.mem_singleton.mpr rfl)
  exact absurd hlong (by decide +kernel)

end UtxoConsensus
