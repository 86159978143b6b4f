import UtxoConsensus.Proofs.Indexed.Machine

/-!
# Operations by positions

The opcodes that cut elements, compute and look up what spends, with bytes looked up and shifted one by one,
and with the operations of the machine on words of 64 bits. A divisor is compared with zero first, and
operands have a sign and no more than 63 bits, so that quotients and remainders are there.
-/

namespace UtxoConsensus.Indexed

open Exec

variable {σ : Type}

/-! ## Byte strings -/

def executeSplice (env : Env σ) : SpliceOp → Exec σ Unit
  | .split => do
    require 2
    let position ← number env (← peek 0)
    let size := (← peek 1).length
    failIf (decide (position < 0) || decide (position.toNat > size)) .invalidSplitRange
    let _ ← pop
    let element ← pop
    push (← orFault (slice? element 0 position.toNat))
    push (← orFault (slice? element position.toNat element.length))
  | .numToBin => do
    require 2
    let size ← number env (← peek 0)
    failIf (decide (size < 0) || decide (size.toNat > Limit.elementSize)) .pushSize
    let _ ← pop
    let raw ← orFault (minimize? (← pop))
    failIf (decide (raw.length > size.toNat)) .impossibleEncoding
    push (← if raw.length < size.toNat then padNumber raw size.toNat else pure raw)
  | .binToNum => do
    let raw ← orFault (minimize? (← pop))
    failIf (!(← orFault (isMinimal? raw env.maxNumberSize)))
      (ScriptNumber.rangeError (env.has .integers64Bit))
    push raw
  | .size => do
    require 1
    pushCount (← peek 0).length
  | op => UtxoConsensus.executeSplice env op

/-- Both halves of an element are cut out of it where the cut lies within it. -/
theorem pushHalves_eq (element : Bytes) (position : Nat) :
    (orFault (slice? element 0 position) >>= fun head ↦ push head >>= fun _ ↦
      orFault (slice? element position element.length) >>= push : Exec σ Unit) =
    if position ≤ element.length then push (element.take position) >>= fun _ ↦ push (element.drop position)
    else throw .fault := by
  by_cases hposition : position ≤ element.length
  · rw [if_pos hposition, slice?_of_le (Nat.zero_le _) hposition,
      slice?_of_le hposition (Nat.le_refl _), List.drop_zero, List.take_length]
    rfl
  · have hnone : slice? element 0 position = none := if_neg fun h ↦ hposition h.2
    rw [if_neg hposition, hnone]
    rfl

/-- Byte strings are split by positions that are in range. -/
theorem executeSplice_eq (env : Env σ) (op : SpliceOp) :
    executeSplice env op = UtxoConsensus.executeSplice env op := by
  cases op with
  | split =>
    simp only [executeSplice, UtxoConsensus.executeSplice, number_eq, pushHalves_eq]
  | _ =>
    simp only [executeSplice, UtxoConsensus.executeSplice, number_eq, minimize?_eq, isMinimal?_eq, orFault_some,
      pure_bind, pushCount_eq]

/-! ## Arithmetic -/

def binaryApply (a b : Int) : BinaryOp → Exec σ Int
  | .div => if b = 0 then fail .divByZero else orFault (quotient? a b)
  | .mod => if b = 0 then fail .modByZero else orFault (remainder? a b)
  | op => op.apply a b

theorem orFault_fit? (n : Int) : (orFault (fit? n) : Exec σ Int) = word n := by
  unfold fit? word
  split <;> rfl

/-- An operand has a quotient and a remainder by everything but zero. -/
theorem binaryApply_eq {a : Int} (ha : IsOperand a) (b : Int) (op : BinaryOp) :
    (binaryApply a b op : Exec σ Int) = op.apply a b := by
  cases op with
  | div =>
    refine ite_congr rfl (fun _ ↦ rfl) fun hb ↦ ?_
    rw [quotient?, if_neg hb, orFault_fit?]
  | mod =>
    have hle : (a.tmod b).natAbs ≤ a.natAbs := by
      rw [Int.natAbs_tmod]
      exact Nat.mod_le _ _
    refine ite_congr rfl (fun _ ↦ rfl) fun hb ↦ ?_
    rw [remainder?_of_natAbs_le hb ha, ← orFault_fit?,
      fit?_of_natAbs_le (Int.le_trans (Int.ofNat_le.mpr hle) ha)]
  | _ => rfl

/-- A number that was read is an operand. -/
theorem number_bind_congr {α : Type} {env : Env σ} {b : Bytes} {f g : Int → Exec σ α}
    (h : ∀ n, IsOperand n → f n = g n) : (env.number b >>= f) = (env.number b >>= g) :=
  lift_bind_congr fun n hn ↦ h n (ScriptNumber.natAbs_le_of_decode env.maxNumberSize_le_maxSize64 hn)

/-- Arithmetic in words faults where the evaluator does. -/
theorem executeBinary_eq (env : Env σ) (op : BinaryOp) :
    executeBinaryWith pushNumber (binaryOperandsWith (number env)) binaryApply op = executeBinary env op := by
  unfold executeBinary binaryOperands
  rw [number_eq, pushNumber_eq]
  unfold executeBinaryWith binaryOperandsWith
  simp only [bind_assoc, pure_bind]
  refine bind_congr fun _ ↦ bind_congr fun first ↦ number_bind_congr fun a ha ↦ ?_
  simp only [binaryApply_eq ha]

/-! ## Introspection -/

def popIndex (env : Env σ) : (length : Nat) → ScriptError → Exec σ Nat :=
  popIndexWith (popNumberWith (number env))

def popOutput (env : Env σ) : SpendContext → Exec σ TxOutput :=
  popOutputWith (popIndex env)

theorem popIndex_eq (env : Env σ) : popIndex env = UtxoConsensus.popIndex env := by
  unfold popIndex
  rw [number_eq]
  rfl

theorem popOutput_eq (env : Env σ) : popOutput env = UtxoConsensus.popOutput env := by
  unfold popOutput
  rw [popIndex_eq]
  rfl

end UtxoConsensus.Indexed
