import UtxoConsensus.Proofs.Bytes.FixedWidth
import UtxoConsensus.Proofs.Interpreter.Runs
import UtxoConsensus.Interpreter.Eval

/-!
# Branches in full

The interpreter keeps of the open branches only how many they are and which is the first that is not
taken. `Listed.evalScript` is an interpreter that keeps the whole list: it opens a branch at its head,
changes the head, or removes it, and runs an instruction only where every branch of the list is taken. An
instruction in a branch that is not taken is passed over: it is counted, and nothing else of the machine
changes. The number and the position can be read off the list, whatever it is, and each instruction leaves
of the position what can be read off the new list. So by induction on the instructions the two
interpreters are the same computation.
-/

namespace UtxoConsensus

open Exec

variable {σ : Type}

/-! ## An interpreter that lists its branches -/

/-- The opcodes that open, change and close branches, and the two that must not stand in a script. -/
def BranchOp.ofOpcode? (opcode : UInt8) : Option BranchOp :=
  match opcode.toNat with
  | 0x63 => some .ifTrue
  | 0x64 => some .ifFalse
  | 0x65 => some .forbidden
  | 0x66 => some .forbidden
  | 0x67 => some .otherwise
  | 0x68 => some .endIf
  | _ => none

namespace Listed

/-- Are all branches taken? The innermost one comes first. -/
def allTaken (branches : List Bool) : Bool :=
  branches.all id

def openBranch (env : Env σ) (branches : List Bool) (expected : Bool) : Exec σ (List Bool) := do
  if allTaken branches then return ((← popCondition env) == expected) :: branches
  else return false :: branches

def executeBranch (env : Env σ) (branches : List Bool) : BranchOp → Exec σ (List Bool)
  | .ifTrue => openBranch env branches true
  | .ifFalse => openBranch env branches false
  | .otherwise =>
    match branches with
    | [] => fail .unbalancedConditional
    | innermost :: outer => return (!innermost) :: outer
  | .endIf =>
    match branches with
    | [] => fail .unbalancedConditional
    | _ :: outer => return outer
  | .forbidden => fail .badOpcode

/-- Runs an instruction that has nothing to do with branches. -/
def perform (env : Env σ) (i : Instruction) : Exec σ Unit :=
  if i.opcode ≤ Opcode.pushData4 then executePush env i
  else execute env i.rest (Operation.ofOpcode i.opcode)

/-- The operations met after an instruction. -/
def countWith (i : Instruction) (count : Nat) : Nat :=
  if i.opcode > Opcode.sixteen then count + 1 else count

/-- Passes over an instruction: it is only counted. Fails if its data is too long, if there are too
many operations, or if its opcode must not stand in a script. -/
def pass (env : Env σ) (i : Instruction) : Exec σ Unit := fun m ↦
  let counted := { m with opCount := countWith i m.opCount }
  if i.data.length > Limit.elementSize then .error (.failed .pushSize) m
  else if i.opcode > Opcode.sixteen ∧ counted.opCount > Limit.operations then
    .error (.failed .opCount) counted
  else if isDisabled i.opcode env.flags then .error (.failed .disabledOpcode) counted
  else .ok () counted

def step (env : Env σ) (branches : List Bool) (i : Instruction) : Exec σ (List Bool) :=
  match BranchOp.ofOpcode? i.opcode with
  | some op => do
    checkLimits env i
    executeBranch env branches op
  | none => do
    if allTaken branches then
      checkLimits env i
      perform env i
    else pass env i
    return branches

def runInstructions (env : Env σ) : List Bool → List Instruction → Exec σ (List Bool)
  | branches, [] => return branches
  | branches, i :: rest => do
    let branches ← step env branches i
    let m ← get
    failIf (decide (m.stack.length + m.altStack.length > Limit.stackSize)) .stackSize
    runInstructions env branches rest

/-- Runs a script with its branches in a list, which must be empty at the end. -/
def evalScript (env : Env σ) (script : Bytes) : Exec σ Unit := do
  failIf (decide (script.length > Script.maxSize)) .scriptSize
  modify fun m ↦ { m with altStack := [], scriptCode := script, opCount := 0 }
  let parsed := Script.parse script
  let branches ← runInstructions env [] parsed.instructions
  failIf (!parsed.tail.isEmpty) .badOpcode
  failIf (!branches.isEmpty) .unbalancedConditional

end Listed

/-! ## What is kept of a list -/

namespace Conditions

/-- The position of the outermost branch that is not taken. -/
def firstUntaken : List Bool → Option Nat
  | [] => Option.none
  | taken :: outer => (firstUntaken outer).or (if taken then Option.none else some outer.length)

/-- The number of branches, and the position of the first that is not taken. -/
def ofList (branches : List Bool) : Conditions :=
  ⟨branches.length, firstUntaken branches⟩

theorem firstUntaken_lt {branches : List Bool} {position : Nat}
    (h : firstUntaken branches = some position) : position < branches.length := by
  induction branches with
  | nil => cases h
  | cons taken outer ih =>
    rw [List.length_cons]
    cases houter : firstUntaken outer with
    | some first =>
      rw [firstUntaken, houter, Option.some_or] at h
      exact Nat.lt_succ_of_lt (ih (houter.trans h))
    | none =>
      rw [firstUntaken, houter, Option.none_or] at h
      cases taken with
      | true => cases h
      | false =>
        cases h
        exact Nat.lt_succ_self _

/-- All branches are taken if none is recorded that is not. -/
theorem allTrue_ofList (branches : List Bool) : (ofList branches).allTrue = Listed.allTaken branches := by
  induction branches with
  | nil => rfl
  | cons taken outer ih =>
    change (firstUntaken outer).isNone = Listed.allTaken outer at ih
    change ((firstUntaken outer).or _).isNone = (taken && Listed.allTaken outer)
    rw [← ih]
    cases firstUntaken outer <;> cases taken <;> rfl

theorem isEmpty_ofList (branches : List Bool) : (ofList branches).isEmpty = branches.isEmpty := by
  cases branches <;> rfl

theorem push_ofList (branches : List Bool) (taken : Bool) :
    (ofList branches).push taken = ofList (taken :: branches) := by
  unfold push ofList
  rw [firstUntaken]
  cases firstUntaken branches <;> cases taken <;> rfl

/-- The branch that changes sides is the innermost one, so that a branch further out which is not taken
stays the first. -/
theorem toggle?_ofList (taken : Bool) (outer : List Bool) :
    (ofList (taken :: outer)).toggle? = some (ofList ((!taken) :: outer)) := by
  unfold toggle? ofList
  rw [List.length_cons, List.length_cons, firstUntaken, firstUntaken]
  cases houter : firstUntaken outer with
  | none => cases taken <;> simp
  | some first =>
    have hne : first ≠ outer.length := Nat.ne_of_lt (firstUntaken_lt houter)
    simp [hne]

theorem pop?_ofList (taken : Bool) (outer : List Bool) :
    (ofList (taken :: outer)).pop? = some (ofList outer) := by
  unfold pop? ofList
  rw [List.length_cons, firstUntaken]
  cases houter : firstUntaken outer with
  | none => cases taken <;> simp
  | some first =>
    have hne : first ≠ outer.length := Nat.ne_of_lt (firstUntaken_lt houter)
    simp [hne]

end Conditions

open Conditions (ofList allTrue_ofList isEmpty_ofList push_ofList toggle?_ofList pop?_ofList)

/-! ## Opcodes -/

/-- The branch opcodes are the same for both interpreters. -/
theorem Operation.ofOpcode_eq_branch_iff (opcode : UInt8) (op : BranchOp) :
    ofOpcode opcode = .branch op ↔ BranchOp.ofOpcode? opcode = some op := by
  revert opcode
  apply Bytes.forall_byte
  cases op <;> decide +kernel

theorem BranchOp.not_le_pushData4 {opcode : UInt8} {op : BranchOp} (h : ofOpcode? opcode = some op) :
    ¬ opcode ≤ Opcode.pushData4 := by
  intro hle
  have hlow : opcode.toNat ≤ 0x4e := hle
  unfold ofOpcode? at h
  split at h
  all_goals first | omega | cases h

/-! ## Counting -/

theorem Env.countOperations_of_many {m : Machine σ} {count : Nat}
    (h : m.opCount + count > Limit.operations) :
    Env.countOperations count m = .error (.failed .opCount) { m with opCount := m.opCount + count } := by
  change failIf (decide (m.opCount + count > Limit.operations)) .opCount _ = _
  rw [decide_eq_true h]
  rfl

theorem Env.countOperations_of_few {m : Machine σ} {count : Nat}
    (h : ¬ m.opCount + count > Limit.operations) :
    Env.countOperations count m = .ok () { m with opCount := m.opCount + count } := by
  change failIf (decide (m.opCount + count > Limit.operations)) .opCount _ = _
  rw [decide_eq_false h]
  rfl

/-! ## Steps -/

namespace Listed

open Env

variable (env : Env σ)

/-- A condition opens the same branch in both. -/
theorem openBranch_ofList (branches : List Bool) (expected : Bool) :
    UtxoConsensus.openBranch env (ofList branches) expected =
      ofList <$> openBranch env branches expected := by
  unfold UtxoConsensus.openBranch openBranchWith openBranch
  rw [allTrue_ofList]
  cases allTaken branches with
  | true =>
    simp only [if_true, map_bind, map_pure, push_ofList]
  | false =>
    rw [push_ofList]
    rfl

/-- Every branch opcode does the same in both. -/
theorem executeBranch_ofList (branches : List Bool) (op : BranchOp) :
    UtxoConsensus.executeBranch env (ofList branches) op = ofList <$> executeBranch env branches op := by
  cases op with
  | ifTrue => exact openBranch_ofList env branches true
  | ifFalse => exact openBranch_ofList env branches false
  | otherwise =>
    cases branches with
    | nil => rfl
    | cons taken outer =>
      change orFault (ofList (taken :: outer)).toggle? = _
      rw [toggle?_ofList]
      rfl
  | endIf =>
    cases branches with
    | nil => rfl
    | cons taken outer =>
      change orFault (ofList (taken :: outer)).pop? = _
      rw [pop?_ofList]
      rfl
  | forbidden => rfl

/-- What is asked of an instruction before it runs is all that happens where it is passed over. -/
theorem checkLimits_eq_pass (i : Instruction) : checkLimits env i = pass env i := by
  funext m
  unfold checkLimits pass
  dsimp only
  by_cases hsize : i.data.length > Limit.elementSize
  · rw [if_pos hsize, decide_eq_true hsize]
    rfl
  · rw [if_neg hsize, decide_eq_false hsize]
    by_cases hcounts : i.opcode > Opcode.sixteen
    · have hcount : countWith i m.opCount = m.opCount + 1 := if_pos hcounts
      rw [if_pos hcounts, hcount]
      change (Env.countOperations 1 >>= fun _ ↦ failIf _ _) m = _
      by_cases hmany : m.opCount + 1 > Limit.operations
      · rw [if_pos ⟨hcounts, hmany⟩]
        exact bind_of_error (countOperations_of_many hmany) _
      · rw [if_neg fun h ↦ hmany h.2, bind_of_ok (countOperations_of_few hmany)]
        cases isDisabled i.opcode env.flags <;> rfl
    · have hcount : countWith i m.opCount = m.opCount := if_neg hcounts
      rw [if_neg hcounts, hcount, if_neg fun h ↦ hcounts h.1]
      cases isDisabled i.opcode env.flags <;> rfl

/-- An instruction that has nothing to do with branches leaves them as they are. -/
theorem step_of_not_branch {i : Instruction} (h : BranchOp.ofOpcode? i.opcode = none)
    (conditions : Conditions) : UtxoConsensus.step env conditions i = (do
      checkLimits env i
      if conditions.allTrue then perform env i
      return conditions) := by
  have hbranch (op : BranchOp) : Operation.ofOpcode i.opcode ≠ .branch op := by
    intro heq
    rw [(Operation.ofOpcode_eq_branch_iff i.opcode op).mp heq] at h
    cases h
  unfold UtxoConsensus.step stepWith perform
  by_cases hlow : i.opcode ≤ Opcode.pushData4
  · rw [if_pos hlow, if_pos hlow]
  · rw [if_neg hlow, if_neg hlow]
    generalize Operation.ofOpcode i.opcode = op at hbranch ⊢
    cases op with
    | branch op => exact absurd rfl (hbranch op)
    | _ => rfl

/-- One instruction: what is kept of a list before it becomes what is kept of the list after it. -/
theorem step_ofList (branches : List Bool) (i : Instruction) :
    UtxoConsensus.step env (ofList branches) i = ofList <$> step env branches i := by
  cases hop : BranchOp.ofOpcode? i.opcode with
  | some op =>
    have hoperation := (Operation.ofOpcode_eq_branch_iff i.opcode op).mpr hop
    have hhigh := BranchOp.not_le_pushData4 hop
    unfold UtxoConsensus.step stepWith step
    simp only [if_neg hhigh, hoperation, hop, executeBranch_ofList, map_bind]
  | none =>
    rw [step_of_not_branch env hop, allTrue_ofList]
    unfold step
    rw [hop]
    cases allTaken branches with
    | false => simp only [checkLimits_eq_pass, Bool.false_eq_true, if_false, map_bind, map_pure]
    | true => simp only [if_true, map_bind, map_pure]

/-- A run of instructions, by induction on them. -/
theorem runInstructions_ofList (branches : List Bool) (instructions : List Instruction) :
    UtxoConsensus.runInstructions env (ofList branches) instructions =
      ofList <$> runInstructions env branches instructions := by
  induction instructions generalizing branches with
  | nil => rfl
  | cons i rest ih =>
    unfold runInstructions
    rw [runInstructions_cons]
    simp only [step_ofList, bind_map_left, map_bind, ih]

theorem evalScript_eq (script : Bytes) : UtxoConsensus.evalScript env script = evalScript env script := by
  have hnone : Conditions.none = ofList [] := rfl
  unfold UtxoConsensus.evalScript evalScript
  simp only [hnone, runInstructions_ofList, bind_map_left, isEmpty_ofList]

/-! ## Instructions that are passed over -/

/-- How the run of an instruction ends that only counts: the branches and all else of the machine stay as
they were, or the run fails for a reason that the instruction gives by itself. -/
def OnlyCounts (branches : List Bool) (i : Instruction) (m : Machine σ) :
    EStateM.Result Halt (Machine σ) (List Bool) → Prop
  | .ok branches' m' => branches' = branches ∧ m' = { m with opCount := countWith i m.opCount }
  | .error halt m' =>
    (m' = m ∨ m' = { m with opCount := countWith i m.opCount }) ∧
      (halt = .failed .pushSize ∨ halt = .failed .opCount ∨ halt = .failed .disabledOpcode ∨
        halt = .failed .badOpcode ∧ BranchOp.ofOpcode? i.opcode = some .forbidden)

/-- An instruction that is passed over is counted, or it is an error. -/
theorem pass_cases (i : Instruction) (m : Machine σ) :
    pass env i m = .ok () { m with opCount := countWith i m.opCount } ∨
      ∃ halt m', pass env i m = .error halt m' ∧
        (m' = m ∨ m' = { m with opCount := countWith i m.opCount }) ∧
          (halt = .failed .pushSize ∨ halt = .failed .opCount ∨ halt = .failed .disabledOpcode) := by
  unfold pass
  dsimp only
  split
  · exact .inr ⟨_, _, rfl, .inl rfl, .inl rfl⟩
  · split
    · exact .inr ⟨_, _, rfl, .inr rfl, .inr (.inl rfl)⟩
    · split
      · exact .inr ⟨_, _, rfl, .inr rfl, .inr (.inr rfl)⟩
      · exact .inl rfl

/-- In a branch that is not taken only branch opcodes do more than count. -/
theorem onlyCounts_step {branches : List Bool} {i : Instruction} (htaken : allTaken branches = false)
    (hop : (BranchOp.ofOpcode? i.opcode).all (· == .forbidden) = true) (m : Machine σ) :
    OnlyCounts branches i m (step env branches i m) := by
  have hstep : step env branches i = pass env i >>= fun _ ↦
      if BranchOp.ofOpcode? i.opcode = some .forbidden then fail .badOpcode else pure branches := by
    unfold step
    cases hcase : BranchOp.ofOpcode? i.opcode with
    | none => simp only [htaken, Bool.false_eq_true, if_false, reduceCtorEq]
    | some op =>
      rw [hcase, Option.all_some, beq_iff_eq] at hop
      subst hop
      simp only [checkLimits_eq_pass, if_true]
      rfl
  rw [hstep]
  rcases pass_cases env i m with hpass | ⟨halt, m', hpass, hm', hhalt⟩
  · rw [bind_of_ok hpass]
    split
    · next hforbidden => exact ⟨.inr rfl, .inr (.inr (.inr ⟨rfl, hforbidden⟩))⟩
    · exact ⟨rfl, rfl⟩
  · rw [bind_of_error hpass]
    rcases hhalt with hhalt | hhalt | hhalt
    · exact ⟨hm', .inl hhalt⟩
    · exact ⟨hm', .inr (.inl hhalt)⟩
    · exact ⟨hm', .inr (.inr (.inl hhalt))⟩

/-- **Conditional execution.** A script runs just as if all branches were kept: with the same result, the
same stack and the same counts. And where one of them is not taken, an instruction that does not open,
change or close a branch does nothing but count, or fails for its size, for the number of operations, as
an opcode that must not stand in a script, or as one of the two that never may. -/
theorem evalScript_listed (script : Bytes) :
    UtxoConsensus.evalScript env script = evalScript env script ∧
      ∀ branches i m, allTaken branches = false →
        (BranchOp.ofOpcode? i.opcode).all (· == .forbidden) = true →
          OnlyCounts branches i m (step env branches i m) :=
  ⟨evalScript_eq env script, fun _ _ m htaken hop ↦ onlyCounts_step env htaken hop m⟩

end Listed

end UtxoConsensus
