import UtxoConsensus.Proofs.Interpreter.Counts
import UtxoConsensus.Proofs.Interpreter.Pushes

/-!
# Scripts that check no signature

Where pushing is all that a script does, and where a script only compares a hash, the number of
signature checks stays as it is. So a spend of a script hash has checked no signature before the
script behind the hash runs.
-/

namespace UtxoConsensus

open Exec

variable {σ : Type} {env : Env σ}

/-! ## Instructions -/

/-- Operations that have nothing to do with signatures, as far as the scripts here need them. -/
inductive Operation.IsFree : Operation → Prop
  | number (n : Int) : IsFree (.number n)
  | hash (op : HashOp) : IsFree (.hash op)
  | equal (verify : Bool) : IsFree (.equal verify)
  | invalid : IsFree .invalid

/-- Operations that check no signatures do not count any. -/
theorem keeps_execute {op : Operation} (hfree : op.IsFree) (rest : Bytes) :
    Keeps Machine.sigChecks (execute env rest op) := by
  have hop : op.checksSignatures = false := by cases hfree <;> rfl
  exact (keepsCounts_execute hop rest).sigChecks

/-- An instruction that pushes its data, or is free. -/
def Instruction.IsFree (i : Instruction) : Prop :=
  i.opcode ≤ Opcode.pushData4 ∨ (Operation.ofOpcode i.opcode).IsFree

theorem keeps_step {i : Instruction} (hfree : i.IsFree) (conditions : Conditions) :
    Keeps Machine.sigChecks (step env conditions i) := by
  refine .bind (keeps_checkLimits (fun _ _ ↦ rfl) i) fun _ ↦ ?_
  by_cases hpush : i.opcode ≤ Opcode.pushData4
  · rw [if_pos hpush]
    exact .ite (.bind (keepsCounts_push i).sigChecks fun _ ↦ .pure _) (.pure _)
  · rw [if_neg hpush]
    have hop : (Operation.ofOpcode i.opcode).IsFree := hfree.resolve_left hpush
    cases hoperation : Operation.ofOpcode i.opcode with
    | branch op =>
      rw [hoperation] at hop
      cases hop
    | _ =>
      rw [hoperation] at hop
      exact .ite (.bind (keeps_execute hop _) fun _ ↦ .pure _) (.pure _)

theorem keeps_runInstructions {instructions : List Instruction}
    (hfree : ∀ i ∈ instructions, i.IsFree) (conditions : Conditions) :
    Keeps Machine.sigChecks (runInstructions env conditions instructions) := by
  induction instructions generalizing conditions with
  | nil => exact .pure _
  | cons i rest ih =>
    refine .bind (keeps_step (hfree i List.mem_cons_self) conditions) fun conditions ↦ ?_
    refine .bind_get fun m ↦ .bind (.failIf _ _) fun _ ↦ ?_
    exact ih (fun i hi ↦ hfree i (List.mem_cons_of_mem _ hi)) conditions

/-! ## Scripts -/

theorem keeps_evalScript {script : Bytes} (hfree : ∀ i ∈ (Script.parse script).instructions, i.IsFree) :
    Keeps Machine.sigChecks (evalScript env script) := by
  refine .bind (.failIf _ _) fun _ ↦ .bind (.modify fun _ ↦ rfl) fun _ ↦ ?_
  refine .bind (keeps_runInstructions hfree _) fun _ ↦ ?_
  exact .bind (.failIf _ _) fun _ ↦ .failIf _ _

/-- Pushes check nothing. -/
theorem isFree_of_le_sixteen {i : Instruction} (hle : i.opcode ≤ Opcode.sixteen) : i.IsFree := by
  by_cases hpush : i.opcode ≤ Opcode.pushData4
  · exact .inl hpush
  · right
    obtain ⟨n, -, hoperation⟩ | hoperation := Operation.ofOpcode_of_le_sixteen hpush hle
    · rw [hoperation]
      exact .number n
    · rw [hoperation]
      exact .invalid

theorem keeps_evalScript_of_isPushOnly {script : Bytes} (hpush : Script.isPushOnly script = true) :
    Keeps Machine.sigChecks (evalScript env script) := by
  apply keeps_evalScript
  intro i hi
  exact isFree_of_le_sixteen ((Script.isPushOnly_iff.mp hpush).2 i hi)

/-- Comparing a hash checks no signatures. -/
theorem keeps_evalScript_of_isPayToScriptHash {script : Bytes} {flags : ScriptFlags}
    (hscript : Script.isPayToScriptHash script flags = true) :
    Keeps Machine.sigChecks (evalScript env script) := by
  apply keeps_evalScript
  obtain ⟨kind, hkind⟩ := Option.isSome_iff_exists.mp hscript
  obtain ⟨hash, hhash, rfl⟩ := Script.eq_of_scriptHashKind? hkind
  rw [Script.parse_scriptHash hhash]
  intro i hi
  simp only [List.mem_cons, List.not_mem_nil, or_false] at hi
  rcases hi with rfl | rfl | rfl
  · right
    cases kind
    · exact .hash .hash160
    · exact .hash .hash256
  · left
    cases kind
    · exact of_decide_eq_true rfl
    · exact of_decide_eq_true rfl
  · exact .inr (.equal false)

end UtxoConsensus
