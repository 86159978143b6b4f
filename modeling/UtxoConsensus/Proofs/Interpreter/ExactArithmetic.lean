import UtxoConsensus.Proofs.Interpreter.FaultFreedom
import UtxoConsensus.Proofs.Interpreter.Resizing

/-!
# Results of arithmetic

What the opcodes that compute with numbers leave on the stack, compared with the result in the integers. The
operands leave one bit of 64 to the sign, and so does every result that is not an error. Only a sum, a
difference or a product can be too large for that, and only if the operands may have more than 32 bits.
-/

namespace UtxoConsensus

open Exec

variable {σ α β : Type} {env : Env σ} {m : Machine σ} {n a b r : Int}

/-! ## Results in the integers -/

/-- The result of a function of one number. Truth values are one and zero. -/
def UnaryOp.result (n : Int) : UnaryOp → Int
  | .addOne => n + 1
  | .subOne => n - 1
  | .negate => -n
  | .abs => max n (-n)
  | .not => if n = 0 then 1 else 0
  | .notZero => if n ≠ 0 then 1 else 0

/-- The result of a function of two numbers. A quotient is rounded toward zero: its magnitude is the quotient
of the magnitudes. A remainder has the sign of the dividend. -/
def BinaryOp.result (a b : Int) : BinaryOp → Int
  | .add => a + b
  | .sub => a - b
  | .mul => a * b
  | .div => a.sign * b.sign * (a.natAbs / b.natAbs : Nat)
  | .mod => a.sign * (a.natAbs % b.natAbs : Nat)
  | .boolAnd => if a ≠ 0 ∧ b ≠ 0 then 1 else 0
  | .boolOr => if a ≠ 0 ∨ b ≠ 0 then 1 else 0
  | .numEqual => if a = b then 1 else 0
  | .numNotEqual => if a ≠ b then 1 else 0
  | .lessThan => if a < b then 1 else 0
  | .greaterThan => if b < a then 1 else 0
  | .lessOrEqual => if a ≤ b then 1 else 0
  | .greaterOrEqual => if b ≤ a then 1 else 0
  | .min => Min.min a b
  | .max => Max.max a b

/-- The error for a divisor that is zero. -/
def BinaryOp.zeroDivisor? (b : Int) : BinaryOp → Option ScriptError
  | .div => if b = 0 then some .divByZero else none
  | .mod => if b = 0 then some .modByZero else none
  | _ => none

/-- An opcode that computes, and the numbers that it is applied to. -/
inductive Computation where
  | unary (op : UnaryOp) (n : Int)
  | binary (op : BinaryOp) (a b : Int)
  /-- Does a number lie between two others, the lower one included? -/
  | within (n low high : Int)

namespace Computation

def operation : Computation → Operation
  | unary op _ => .unary op
  | binary op _ _ => .binary op
  | within .. => .within

/-- The numbers in the order in which they lie on the stack, from the top. -/
def operands : Computation → List Int
  | unary _ n => [n]
  | binary _ a b => [b, a]
  | within n low high => [high, low, n]

/-- The result in the integers. -/
def result : Computation → Int
  | unary op n => op.result n
  | binary op a b => op.result a b
  | within n low high => if low ≤ n ∧ n < high then 1 else 0

def zeroDivisor? : Computation → Option ScriptError
  | binary op _ b => op.zeroDivisor? b
  | _ => none

end Computation

/-! ## Results that are operands -/

/-- Operands are the words but for the least one. -/
theorem isOperand_iff : IsOperand n ↔ n.natAbs ≤ 2 ^ 63 - 1 := by
  have hmax : Int64.maxValue.toInt = 9223372036854775807 := rfl
  unfold IsOperand
  omega

theorem inNumberRange_of_isOperand (h : IsOperand r) : (inNumberRange r : Exec σ Int) = pure r := by
  have hle : (r.natAbs : Int) ≤ Int64.maxValue.toInt := h
  unfold inNumberRange
  rw [ScriptNumber.inRange?_eq, if_pos hle]

theorem inNumberRange_of_not_isOperand (h : ¬ IsOperand r) :
    (inNumberRange r : Exec σ Int) = fail .invalidNumberRange64Bit := by
  have hlarge : ¬ (r.natAbs : Int) ≤ Int64.maxValue.toInt := h
  unfold inNumberRange
  rw [ScriptNumber.inRange?_eq, if_neg hlarge]

theorem word_of_isOperand (h : IsOperand r) : (word r : Exec σ Int) = inNumberRange r := by
  rw [inNumberRange_of_isOperand h]
  unfold word
  rw [if_pos h.fits]

theorem pure_of_isOperand (h : IsOperand r) : (pure r : Exec σ Int) = inNumberRange r :=
  (inNumberRange_of_isOperand h).symm

/-- The number for a truth value. -/
theorem pure_boolNumber {truth : Bool} {p : Prop} [Decidable p] (h : truth = true ↔ p) :
    (pure (boolNumber truth) : Exec σ Int) = inNumberRange (if p then 1 else 0) := by
  have hnumber : boolNumber truth = if p then 1 else 0 := if_congr h rfl rfl
  rw [← hnumber]
  exact pure_of_isOperand (isOperand_boolNumber truth)

/-! ## Opcodes of one number and of two -/

/-- The checked result is the exact one, or an error. -/
theorem UnaryOp.apply_eq (hn : IsOperand n) (op : UnaryOp) :
    (op.apply n : Exec σ Int) = inNumberRange (op.result n) := by
  have hnatAbs : (n.natAbs : Int) = max n (-n) := by omega
  cases op with
  | addOne => rfl
  | subOne => rfl
  | negate =>
    apply word_of_isOperand
    unfold IsOperand at hn ⊢
    rwa [Int.natAbs_neg]
  | abs =>
    change word n.natAbs = inNumberRange (max n (-n))
    rw [← hnatAbs]
    apply word_of_isOperand
    unfold IsOperand at hn ⊢
    rwa [Int.natAbs_natCast]
  | not => exact pure_boolNumber beq_iff_eq
  | notZero => exact pure_boolNumber bne_iff_ne

/-- Quotients are rounded towards zero. -/
theorem tdiv_eq (a b : Int) : a.tdiv b = a.sign * b.sign * (a.natAbs / b.natAbs : Nat) := by
  rw [← Int.sign_mul_natAbs (a.tdiv b), Int.sign_tdiv, Int.natAbs_tdiv]
  by_cases hlt : a.natAbs < b.natAbs
  · rw [if_pos hlt, Nat.div_eq_of_lt hlt, Int.zero_mul, Int.natCast_zero, Int.mul_zero]
  · rw [if_neg hlt]
    rfl

/-- Remainders have the sign of the dividend. -/
theorem tmod_eq (a b : Int) : a.tmod b = a.sign * (a.natAbs % b.natAbs : Nat) := by
  rw [← Int.sign_mul_natAbs (a.tmod b), Int.sign_tmod, Int.natAbs_tmod]
  by_cases hdvd : b ∣ a
  · rw [if_pos hdvd, Nat.mod_eq_zero_of_dvd (Int.natAbs_dvd_natAbs.mpr hdvd), Int.zero_mul,
      Int.natCast_zero, Int.mul_zero]
  · rw [if_neg hdvd]

theorem natAbs_tdiv_le (a b : Int) : (a.tdiv b).natAbs ≤ a.natAbs := by
  rw [Int.natAbs_tdiv]
  exact Nat.div_le_self _ _

theorem natAbs_tmod_le (a b : Int) : (a.tmod b).natAbs ≤ a.natAbs := by
  rw [Int.natAbs_tmod]
  exact Nat.mod_le _ _

theorem isOperand_of_natAbs_le (h : r.natAbs ≤ n.natAbs) (hn : IsOperand n) : IsOperand r :=
  Int.le_trans (Int.ofNat_le.mpr h) hn

/-- The checked result is the exact one, or an error, if the divisor is not zero. -/
theorem BinaryOp.apply_eq (ha : IsOperand a) (hb : IsOperand b) {op : BinaryOp}
    (hdivisor : op.zeroDivisor? b = none) :
    (op.apply a b : Exec σ Int) = inNumberRange (op.result a b) := by
  cases op with
  | add => rfl
  | sub => rfl
  | mul => rfl
  | div =>
    have hzero : b ≠ 0 := by
      rintro rfl
      cases hdivisor
    change (if b = 0 then fail .divByZero else word (a.tdiv b)) = inNumberRange (_ * _)
    rw [if_neg hzero, ← tdiv_eq]
    exact word_of_isOperand (isOperand_of_natAbs_le (natAbs_tdiv_le a b) ha)
  | mod =>
    have hzero : b ≠ 0 := by
      rintro rfl
      cases hdivisor
    change (if b = 0 then fail .modByZero else word (a.tmod b)) = inNumberRange (_ * _)
    rw [if_neg hzero, ← tmod_eq]
    exact word_of_isOperand (isOperand_of_natAbs_le (natAbs_tmod_le a b) ha)
  | boolAnd => exact pure_boolNumber (by simp)
  | boolOr => exact pure_boolNumber (by simp)
  | numEqual => exact pure_boolNumber beq_iff_eq
  | numNotEqual => exact pure_boolNumber bne_iff_ne
  | lessThan => exact pure_boolNumber decide_eq_true_iff
  | greaterThan => exact pure_boolNumber decide_eq_true_iff
  | lessOrEqual => exact pure_boolNumber decide_eq_true_iff
  | greaterOrEqual => exact pure_boolNumber decide_eq_true_iff
  | min =>
    have hmin : (if b < a then b else a) = Min.min a b := by omega
    change pure (if b < a then b else a) = inNumberRange (Min.min a b)
    rw [← hmin]
    apply pure_of_isOperand
    split
    · exact hb
    · exact ha
  | max =>
    have hmax : (if b < a then a else b) = Max.max a b := by omega
    change pure (if b < a then a else b) = inNumberRange (Max.max a b)
    rw [← hmax]
    apply pure_of_isOperand
    split
    · exact ha
    · exact hb

/-- Two opcodes divide, each with its own error. -/
theorem BinaryOp.cases_of_zeroDivisor {op : BinaryOp} {e : ScriptError} (h : op.zeroDivisor? b = some e) :
    b = 0 ∧ (op = .div ∧ e = .divByZero ∨ op = .mod ∧ e = .modByZero) := by
  cases op with
  | div =>
    obtain ⟨hzero, herror⟩ := Option.ite_none_right_eq_some.mp h
    exact ⟨hzero, .inl ⟨rfl, (Option.some.inj herror).symm⟩⟩
  | mod =>
    obtain ⟨hzero, herror⟩ := Option.ite_none_right_eq_some.mp h
    exact ⟨hzero, .inr ⟨rfl, (Option.some.inj herror).symm⟩⟩
  | _ => cases h

theorem BinaryOp.apply_zeroDivisor {op : BinaryOp} {e : ScriptError} (h : op.zeroDivisor? b = some e) (a : Int) :
    (op.apply a b : Exec σ Int) = fail e := by
  obtain ⟨rfl, ⟨rfl, rfl⟩ | ⟨rfl, rfl⟩⟩ := cases_of_zeroDivisor h
  · rfl
  · rfl

namespace Computation

/-- The step in which the result is computed. -/
def compute : Computation → Exec σ Int
  | unary op n => op.apply n
  | binary op a b => op.apply a b
  | within n low high => pure (boolNumber (decide (low ≤ n) && decide (n < high)))

theorem compute_eq {c : Computation} (hoperands : ∀ n ∈ c.operands, IsOperand n)
    (hdivisor : c.zeroDivisor? = none) : (c.compute : Exec σ Int) = inNumberRange c.result := by
  cases c with
  | unary op n => exact op.apply_eq (hoperands n (List.mem_singleton_self n))
  | binary op a b =>
    exact BinaryOp.apply_eq (hoperands a (by simp [operands])) (hoperands b (by simp [operands])) hdivisor
  | within n low high => exact pure_boolNumber (by simp)

theorem compute_zeroDivisor {c : Computation} {e : ScriptError} (h : c.zeroDivisor? = some e) :
    (c.compute : Exec σ Int) = fail e := by
  cases c with
  | unary op n => cases h
  | binary op a b => exact BinaryOp.apply_zeroDivisor h a
  | within n low high => cases h

end Computation

/-! ## Small operands -/

theorem natAbs_truth_le (p : Prop) [Decidable p] : (if p then (1 : Int) else 0).natAbs ≤ 1 := by
  split <;> decide

/-- Results from 32 bits fit into 64. -/
theorem UnaryOp.isOperand_result (hn : n.natAbs < 2 ^ 31) (op : UnaryOp) : IsOperand (op.result n) := by
  rw [isOperand_iff]
  cases op with
  | not => exact Nat.le_trans (natAbs_truth_le _) (by decide)
  | notZero => exact Nat.le_trans (natAbs_truth_le _) (by decide)
  | _ =>
    dsimp only [result]
    omega

theorem BinaryOp.isOperand_result (ha : a.natAbs < 2 ^ 31) (hb : b.natAbs < 2 ^ 31) (op : BinaryOp) :
    IsOperand (op.result a b) := by
  rw [isOperand_iff]
  cases op with
  | mul =>
    -- The product would pass, with 62 bits: it is not for its size that the opcode is switched off.
    have hmul : a.natAbs * b.natAbs ≤ 2 ^ 31 * 2 ^ 31 := Nat.mul_le_mul (Nat.le_of_lt ha) (Nat.le_of_lt hb)
    dsimp only [result]
    rw [Int.natAbs_mul]
    omega
  | div =>
    have hle := natAbs_tdiv_le a b
    dsimp only [result]
    rw [← tdiv_eq]
    omega
  | mod =>
    have hle := natAbs_tmod_le a b
    dsimp only [result]
    rw [← tmod_eq]
    omega
  | add | sub | min | max =>
    dsimp only [result]
    omega
  | _ => exact Nat.le_trans (natAbs_truth_le _) (by decide)

/-- Operands of 32 bits have no result that is too large. -/
theorem Computation.isOperand_result {c : Computation} (hnarrow : ∀ n ∈ c.operands, n.natAbs < 2 ^ 31) :
    IsOperand c.result := by
  cases c with
  | unary op n => exact op.isOperand_result (hnarrow n (List.mem_singleton_self n))
  | binary op a b =>
    exact op.isOperand_result (hnarrow a (by simp [operands])) (hnarrow b (by simp [operands]))
  | within n low high => exact isOperand_iff.mpr (Nat.le_trans (natAbs_truth_le _) (by decide))

namespace Env.Reads

variable {x : Bytes}

/-- One bit of a number is its sign. -/
theorem two_mul_natAbs_lt (h : env.Reads x n) : 2 * n.natAbs < 256 ^ env.maxNumberSize := by
  obtain ⟨hlength, -, rfl⟩ := ScriptNumber.decode_eq_ok_iff.mp h
  calc
    2 * (ScriptNumber.value x).natAbs < 256 ^ x.length := ScriptNumber.two_mul_natAbs_value_lt x
    _ ≤ 256 ^ env.maxNumberSize := Nat.pow_le_pow_right (by decide) hlength

theorem isOperand (h : env.Reads x n) : IsOperand n :=
  ScriptNumber.natAbs_le_of_decode env.maxNumberSize_le_maxSize64 h

/-- Without wide numbers four bytes are read. -/
theorem natAbs_lt_of_narrow (h : env.Reads x n) (hnarrow : env.has .integers64Bit = false) :
    n.natAbs < 2 ^ 31 := by
  have hbound := h.two_mul_natAbs_lt
  unfold maxNumberSize at hbound
  rw [hnarrow, if_neg Bool.false_ne_true] at hbound
  change 2 * n.natAbs < 256 ^ 4 at hbound
  omega

end Env.Reads

theorem Env.exists_reads {elements : List Bytes} {operands : List Int}
    (h : List.Forall₂ env.Reads elements operands) : ∀ n ∈ operands, ∃ x, env.Reads x n := by
  induction h with
  | nil => nofun
  | cons hread _ ih => exact List.forall_mem_cons.mpr ⟨⟨_, hread⟩, ih⟩

/-! ## Runs -/

theorem pushNumber_run (h : IsOperand r) (m : Machine σ) :
    pushNumber r m = .ok () { m with stack := ScriptNumber.encode r :: m.stack } := by
  unfold pushNumber
  rw [word_of_isOperand h, inNumberRange_of_isOperand h]
  rfl

theorem pop_run {top : Bytes} {rest : List Bytes} (h : m.stack = top :: rest) :
    pop m = .ok top { m with stack := rest } := by
  obtain ⟨stack, altStack, scriptCode, opCount, sigChecks, world⟩ := m
  subst h
  rfl

/-- The element for a truth value is the encoding of its number. -/
theorem encode_boolNumber (truth : Bool) : ScriptNumber.encode (boolNumber truth) = boolElement truth := by
  have hzero : ScriptNumber.isMinimal [] 0 = true := rfl
  have hone : ScriptNumber.isMinimal [1] 1 = true := rfl
  cases truth with
  | false => exact (ScriptNumber.isMinimal_iff.mp hzero).2
  | true => exact (ScriptNumber.isMinimal_iff.mp hone).2

section Runs

variable {x y z : Bytes} {below : List Bytes}

theorem executeUnary_eq (hx : env.Reads x n) (hstack : m.stack = x :: below) (op : UnaryOp) :
    executeUnary env op m = (op.apply n >>= fun r ↦ pop >>= fun _ ↦ pushNumber r) m := by
  obtain ⟨stack, altStack, scriptCode, opCount, sigChecks, world⟩ := m
  subst hstack
  change (env.number x >>= fun n ↦ _) _ = _
  rw [bind_of_ok (Env.number_of_reads hx _)]

/-- The upper element is the second operand. -/
theorem binaryOperands_run (hx : env.Reads x b) (hy : env.Reads y a) (hstack : m.stack = x :: y :: below) :
    binaryOperands env m = .ok (a, b) m := by
  obtain ⟨stack, altStack, scriptCode, opCount, sigChecks, world⟩ := m
  subst hstack
  change (env.number y >>= fun a ↦ _) _ = _
  rw [bind_of_ok (Env.number_of_reads hy _)]
  change (env.number x >>= fun b ↦ _) _ = _
  rw [bind_of_ok (Env.number_of_reads hx _)]
  rfl

/-- The upper limit lies on top, then the lower one, and then the number. -/
theorem executeWithin_eq {low high : Int} (hx : env.Reads x high) (hy : env.Reads y low) (hz : env.Reads z n)
    (hstack : m.stack = x :: y :: z :: below) :
    executeWithin env m = pushBool (decide (low ≤ n) && decide (n < high)) { m with stack := below } := by
  obtain ⟨stack, altStack, scriptCode, opCount, sigChecks, world⟩ := m
  subst hstack
  change (env.number z >>= fun n ↦ _) _ = _
  rw [bind_of_ok (Env.number_of_reads hz _)]
  change (env.number y >>= fun low ↦ _) _ = _
  rw [bind_of_ok (Env.number_of_reads hy _)]
  change (env.number x >>= fun high ↦ _) _ = _
  rw [bind_of_ok (Env.number_of_reads hx _)]
  rfl

variable {elements : List Bytes} {c : Computation}

/-- The operands give way to the result once it has been computed. -/
theorem execute_of_compute_eq_ok (hread : List.Forall₂ env.Reads elements c.operands)
    (hstack : m.stack = elements ++ below) (hr : IsOperand r) (hresult : c.compute m = .ok r m) (rest : Bytes) :
    execute env rest c.operation m = .ok () { m with stack := ScriptNumber.encode r :: below } := by
  cases c with
  | unary op n =>
    obtain _ | ⟨hx, _ | _⟩ := hread
    have hresult : op.apply n m = .ok r m := hresult
    change executeUnary env op m = _
    rw [executeUnary_eq hx hstack, bind_of_ok hresult, bind_of_ok (pop_run hstack), pushNumber_run hr]
    rfl
  | binary op a b =>
    obtain _ | ⟨hx, _ | ⟨hy, _ | _⟩⟩ := hread
    have hresult : op.apply a b m = .ok r m := hresult
    change (binaryOperands env >>= _) m = _
    rw [bind_of_ok (binaryOperands_run hx hy hstack)]
    change (op.apply a b >>= fun r ↦ _) m = _
    rw [bind_of_ok hresult]
    change pushNumber r { m with stack := m.stack.drop 2 } = _
    rw [pushNumber_run hr, hstack]
    rfl
  | within n low high =>
    obtain _ | ⟨hx, _ | ⟨hy, _ | ⟨hz, _ | _⟩⟩⟩ := hread
    cases hresult
    change executeWithin env m = _
    rw [executeWithin_eq hx hy hz hstack, encode_boolNumber]
    rfl

/-- A computation that fails does so before anything is taken from the stack. -/
theorem execute_of_compute_eq_error (hread : List.Forall₂ env.Reads elements c.operands)
    (hstack : m.stack = elements ++ below) {halt : Halt} (hresult : c.compute m = .error halt m) (rest : Bytes) :
    execute env rest c.operation m = .error halt m := by
  cases c with
  | unary op n =>
    obtain _ | ⟨hx, _ | _⟩ := hread
    have hresult : op.apply n m = .error halt m := hresult
    change executeUnary env op m = _
    rw [executeUnary_eq hx hstack, bind_of_error hresult]
  | binary op a b =>
    obtain _ | ⟨hx, _ | ⟨hy, _ | _⟩⟩ := hread
    have hresult : op.apply a b m = .error halt m := hresult
    change (binaryOperands env >>= _) m = _
    rw [bind_of_ok (binaryOperands_run hx hy hstack)]
    change (op.apply a b >>= fun r ↦ _) m = _
    rw [bind_of_error hresult]
  | within n low high => cases hresult

end Runs

/-! ## Errors that do not arise -/

namespace Exec

/-- A computation never ends with a given error, and what it returns has a property. -/
def NeverRaises (e : ScriptError) (x : Exec σ α) (returns : α → Prop := fun _ ↦ True) : Prop :=
  ∀ m, match x m with
    | .ok a _ => returns a
    | .error halt _ => halt ≠ .failed e

namespace NeverRaises

variable {e e' : ScriptError} {p : α → Prop} {q : β → Prop}

theorem bind {x : Exec σ α} {f : α → Exec σ β} (hx : NeverRaises e x p)
    (hf : ∀ a, p a → NeverRaises e (f a) q) : NeverRaises e (x >>= f) q := by
  intro m
  have hfirst := hx m
  cases hr : x m with
  | ok a m' =>
    rw [hr] at hfirst
    rw [bind_of_ok hr]
    exact hf a hfirst m'
  | error halt m' =>
    rw [hr] at hfirst
    rw [bind_of_error hr]
    exact hfirst

theorem pure {x : α} (h : p x) : NeverRaises e (pure x : Exec σ α) p := fun _ ↦ h

theorem done (x : α) : NeverRaises e (Pure.pure x : Exec σ α) := .pure trivial

theorem fault : NeverRaises e (throw .fault : Exec σ α) p := fun _ ↦ nofun

theorem fail (h : e' ≠ e) : NeverRaises e (fail e' : Exec σ α) p :=
  fun _ hsame ↦ h (Halt.failed.inj hsame)

theorem ite {c : Prop} [Decidable c] {x y : Exec σ α} (hx : NeverRaises e x p) (hy : NeverRaises e y p) :
    NeverRaises e (if c then x else y) p := by
  split
  · exact hx
  · exact hy

theorem get : NeverRaises e (get : Exec σ (Machine σ)) := fun _ ↦ trivial

theorem modify (f : Machine σ → Machine σ) : NeverRaises e (modify f : Exec σ Unit) := fun _ ↦ trivial

theorem failIf (b : Bool) (h : e' ≠ e) : NeverRaises e (failIf b e' : Exec σ Unit) :=
  .ite (.fail h) (.done ())

theorem word (i : Int) : NeverRaises e (word i : Exec σ Int) := .ite (.done i) .fault

theorem require (count : Nat) (h : .invalidStackOperation ≠ e) :
    NeverRaises e (require count : Exec σ Unit) :=
  .bind .get fun _ _ ↦ .failIf _ h

theorem peek (depth : Nat) : NeverRaises e (peek depth : Exec σ Bytes) := by
  refine .bind .get fun m _ ↦ ?_
  cases m.stack[depth]? with
  | none => exact .fault
  | some b => exact .done b

theorem pop (h : .invalidStackOperation ≠ e) : NeverRaises e (pop : Exec σ Bytes) := by
  refine .bind .get fun m _ ↦ ?_
  cases m.stack with
  | nil => exact .fail h
  | cons top rest => exact .bind (.modify _) fun _ _ ↦ .done _

theorem pushNumber (i : Int) : NeverRaises e (pushNumber i : Exec σ Unit) :=
  .bind (.word i) fun _ _ ↦ .modify _

theorem countOperations (count : Nat) (h : .opCount ≠ e) :
    NeverRaises e (Env.countOperations count : Exec σ Unit) :=
  .bind (.modify _) fun _ _ ↦ .bind .get fun _ _ ↦ .failIf _ h

end NeverRaises

end Exec

namespace Computation

theorem cases_of_zeroDivisor {c : Computation} {e : ScriptError} (h : c.zeroDivisor? = some e) :
    e = .divByZero ∨ e = .modByZero := by
  cases c with
  | unary op n => cases h
  | binary op a b => exact (BinaryOp.cases_of_zeroDivisor h).2.imp And.right And.right
  | within n low high => cases h

theorem neverRaises_compute {c : Computation} (hsmall : ∀ n ∈ c.operands, n.natAbs < 2 ^ 31) :
    NeverRaises .invalidNumberRange64Bit (c.compute : Exec σ Int) := by
  cases hdivisor : c.zeroDivisor? with
  | none =>
    have hoperands (n : Int) (hn : n ∈ c.operands) : IsOperand n := by
      have hbound := hsmall n hn
      rw [isOperand_iff]
      omega
    rw [compute_eq hoperands hdivisor, inNumberRange_of_isOperand (isOperand_result hsmall)]
    exact .done _
  | some e =>
    rw [compute_zeroDivisor hdivisor]
    obtain rfl | rfl := cases_of_zeroDivisor hdivisor
    · exact .fail nofun
    · exact .fail nofun

end Computation

/-- The opcodes that are switched off name no operation, and only one opcode multiplies. -/
theorem isDisabled_iff {opcode : UInt8} {c : Computation} (hop : Operation.ofOpcode opcode = c.operation)
    (env : Env σ) :
    isDisabled opcode env.flags = true ↔ c.operation = .binary .mul ∧ env.has .integers64Bit = false := by
  have hall : ∀ byte, (Opcode.switchedOff.contains byte = true → Operation.ofOpcode byte = .invalid) ∧
      (Operation.ofOpcode byte = .binary .mul ↔ byte = Opcode.mul) := by
    apply Bytes.forall_byte
    decide +kernel
  obtain ⟨hinvalid, hmul⟩ := hall opcode
  rw [hop] at hinvalid hmul
  have hlisted : Opcode.switchedOff.contains opcode = false := by
    rw [Bool.eq_false_iff]
    intro hlisted
    cases c with
    | unary op n => cases hinvalid hlisted
    | binary op a b => cases hinvalid hlisted
    | within n low high => cases hinvalid hlisted
  unfold isDisabled
  rw [hlisted, Bool.false_or, Bool.and_eq_true, beq_iff_eq, Bool.not_eq_true', ← hmul]
  rfl

section Narrow

variable (hnarrow : env.has .integers64Bit = false)
include hnarrow

theorem neverRaises_number (b : Bytes) :
    NeverRaises .invalidNumberRange64Bit (env.number b) fun n ↦ n.natAbs < 2 ^ 31 := by
  intro m
  cases hdecode : ScriptNumber.decode b (env.has .minimalData) env.maxNumberSize (env.has .integers64Bit) with
  | ok n =>
    rw [Env.number_of_reads hdecode]
    exact Env.Reads.natAbs_lt_of_narrow hdecode hnarrow
  | error e =>
    have hne : e ≠ .invalidNumberRange64Bit := by
      unfold ScriptNumber.decode at hdecode
      rw [hnarrow] at hdecode
      split at hdecode
      · cases hdecode
        exact nofun
      · split at hdecode
        · cases hdecode
          exact nofun
        · cases hdecode
    unfold Env.number
    rw [hdecode]
    exact fun hsame ↦ hne (Halt.failed.inj hsame)

theorem neverRaises_unary (op : UnaryOp) : NeverRaises .invalidNumberRange64Bit (executeUnary env op) := by
  refine .bind (.require 1 nofun) fun _ _ ↦ .bind (.peek 0) fun x _ ↦ ?_
  refine .bind (neverRaises_number hnarrow x) fun n hn ↦ ?_
  refine .bind (Computation.neverRaises_compute (c := .unary op n) (List.forall_mem_singleton.mpr hn)) fun r _ ↦ ?_
  exact .bind (.pop nofun) fun _ _ ↦ .pushNumber r

theorem neverRaises_binaryOperands :
    NeverRaises .invalidNumberRange64Bit (binaryOperands env) fun operands ↦
      operands.1.natAbs < 2 ^ 31 ∧ operands.2.natAbs < 2 ^ 31 := by
  refine .bind (.require 2 nofun) fun _ _ ↦ .bind (.peek 1) fun y _ ↦ ?_
  refine .bind (neverRaises_number hnarrow y) fun a ha ↦ .bind (.peek 0) fun x _ ↦ ?_
  exact .bind (neverRaises_number hnarrow x) fun b hb ↦ .pure ⟨ha, hb⟩

theorem neverRaises_binary (op : BinaryOp) : NeverRaises .invalidNumberRange64Bit (executeBinary env op) := by
  refine .bind (neverRaises_binaryOperands hnarrow) fun (a, b) hab ↦ ?_
  refine .bind (Computation.neverRaises_compute (c := .binary op a b) ?_) fun r _ ↦ ?_
  · exact List.forall_mem_cons.mpr ⟨hab.2, List.forall_mem_singleton.mpr hab.1⟩
  · exact .bind (.modify _) fun _ _ ↦ .pushNumber r

theorem neverRaises_within : NeverRaises .invalidNumberRange64Bit (executeWithin env) := by
  refine .bind (.require 3 nofun) fun _ _ ↦ .bind (.peek 2) fun z _ ↦ ?_
  refine .bind (neverRaises_number hnarrow z) fun _ _ ↦ .bind (.peek 1) fun y _ ↦ ?_
  refine .bind (neverRaises_number hnarrow y) fun _ _ ↦ .bind (.peek 0) fun x _ ↦ ?_
  exact .bind (neverRaises_number hnarrow x) fun _ _ ↦ .bind (.modify _) fun _ _ ↦ .modify _

/-- Without wide numbers the range of results is never left. -/
theorem neverRaises_execute (c : Computation) (rest : Bytes) :
    NeverRaises .invalidNumberRange64Bit (execute env rest c.operation) := by
  cases c with
  | unary op n => exact neverRaises_unary hnarrow op
  | binary op a b => exact neverRaises_binary hnarrow op
  | within n low high => exact neverRaises_within hnarrow

/-- Whatever the operands are, and whether they can be read or not. -/
theorem neverRaises_step {i : Instruction} {c : Computation} (hop : Operation.ofOpcode i.opcode = c.operation)
    (conditions : Conditions) : NeverRaises .invalidNumberRange64Bit (step env conditions i) := by
  have hlimits : NeverRaises .invalidNumberRange64Bit (checkLimits env i) := by
    refine .bind (.failIf _ nofun) fun _ _ ↦ .ite ?_ (.failIf _ nofun)
    exact .bind (.countOperations 1 nofun) fun _ _ ↦ .failIf _ nofun
  have hpush : NeverRaises .invalidNumberRange64Bit (executePush env i) :=
    .bind (.failIf _ nofun) fun _ _ ↦ .modify _
  refine .bind hlimits fun _ _ ↦ .ite ?_ ?_
  · exact .ite (.bind hpush fun _ _ ↦ .done _) (.done _)
  · split
    · next op hbranch =>
      rw [hop] at hbranch
      cases c <;> cases hbranch
    · rw [hop]
      exact .ite (.bind (neverRaises_execute hnarrow c i.rest) fun _ _ ↦ .done _) (.done _)

end Narrow

/-! ## The opcodes -/

/-- The opcodes that compute with numbers are exact. A divisor that is zero is an error; otherwise the result in
the integers takes the place of the operands, in its shortest encoding, if it leaves one bit of 64 to the sign.
It is an error if not, which cannot be unless the numbers may have 64 bits. The opcode that multiplies is
switched off unless they may. -/
theorem execute_exactResult {elements below : List Bytes} {c : Computation}
    (hread : List.Forall₂ env.Reads elements c.operands) (hstack : m.stack = elements ++ below) (rest : Bytes) :
    (∀ e, c.zeroDivisor? = some e → execute env rest c.operation m = .error (.failed e) m) ∧
      (c.zeroDivisor? = none →
        (c.result.natAbs ≤ 2 ^ 63 - 1 →
          execute env rest c.operation m = .ok () { m with stack := ScriptNumber.encode c.result :: below } ∧
            ScriptNumber.IsShortest (ScriptNumber.encode c.result) c.result ∧
            (ScriptNumber.encode c.result).length ≤ 8 ∧
            ScriptNumber.decode (ScriptNumber.encode c.result) true ScriptNumber.maxSize64 true = .ok c.result) ∧
        (2 ^ 63 - 1 < c.result.natAbs →
          execute env rest c.operation m = .error (.failed .invalidNumberRange64Bit) m ∧
            env.has .integers64Bit = true)) ∧
      ∀ i : Instruction, Operation.ofOpcode i.opcode = c.operation →
        (isDisabled i.opcode env.flags = true ↔
          c.operation = .binary .mul ∧ env.has .integers64Bit = false) ∧
        (env.has .integers64Bit = false → ∀ conditions (m m' : Machine σ),
          step env conditions i m ≠ .error (.failed .invalidNumberRange64Bit) m') := by
  have hoperands (n : Int) (hn : n ∈ c.operands) : IsOperand n := by
    obtain ⟨x, hx⟩ := Env.exists_reads hread n hn
    exact hx.isOperand
  refine ⟨fun e hdivisor ↦ ?_, fun hdivisor ↦ ⟨fun hsmall ↦ ?_, fun hlarge ↦ ?_⟩, fun i hop ↦ ⟨?_, ?_⟩⟩
  · refine execute_of_compute_eq_error hread hstack ?_ rest
    rw [Computation.compute_zeroDivisor hdivisor]
    rfl
  · have hresult : IsOperand c.result := isOperand_iff.mpr hsmall
    have hlength := ScriptNumber.length_encode_le_maxSize64_iff.mpr (Int.ofNat_le.mpr hsmall)
    refine ⟨execute_of_compute_eq_ok hread hstack hresult ?_ rest, ScriptNumber.isShortest_encode _, hlength,
      ScriptNumber.decode_encode hlength⟩
    rw [Computation.compute_eq hoperands hdivisor, inNumberRange_of_isOperand hresult]
    rfl
  · have hresult : ¬ IsOperand c.result := fun h ↦ Nat.not_le.mpr hlarge (isOperand_iff.mp h)
    constructor
    · refine execute_of_compute_eq_error hread hstack ?_ rest
      rw [Computation.compute_eq hoperands hdivisor, inNumberRange_of_not_isOperand hresult]
      rfl
    · by_contra hwide
      refine hresult (Computation.isOperand_result fun n hn ↦ ?_)
      obtain ⟨x, hx⟩ := Env.exists_reads hread n hn
      exact hx.natAbs_lt_of_narrow (Bool.eq_false_iff.mpr hwide)
  · exact isDisabled_iff hop env
  · intro hnarrow conditions m m' hstep
    have hnever := neverRaises_step hnarrow hop conditions m
    rw [hstep] at hnever
    exact hnever rfl

/-- Numbers in their shortest encoding only, and they may have 64 bits. -/
def wideEnv : Env Unit where
  checker := Checker.base
  flags := .minimalData ||| .integers64Bit

/-- Minus seven halves is minus three, and not minus four. A product of 64 bits is too large by one. A remainder
needs a divisor. The opcode that multiplies is switched off if the numbers have 32 bits. -/
theorem execute_exactResult_corners :
    let start (stack : List Bytes) : Machine Unit := .start stack ()
    let large : List Bytes := [[0, 0, 0, 0, 1], [0, 0, 0, 0x80, 0]]
    let multiply : Instruction := ⟨Opcode.mul, [], [], []⟩
    execute wideEnv [] (.binary .div) (start [[2], [0x87]]) = .ok () (start [[0x83]]) ∧
      execute wideEnv [] (.binary .mul) (start large) = .error (.failed .invalidNumberRange64Bit) (start large) ∧
      execute wideEnv [] (.binary .mod) (start [[], [5]]) = .error (.failed .modByZero) (start [[], [5]]) ∧
      isDisabled multiply.opcode narrowEnv.flags = true ∧
      ∀ conditions m, step narrowEnv conditions multiply (start [[2], [0x87]]) ≠
        .error (.failed .invalidNumberRange64Bit) m := by
  intro start large multiply
  have hstack (elements : List Bytes) : (start elements).stack = elements ++ [] := (List.append_nil _).symm
  have hquotient : List.Forall₂ wideEnv.Reads [[2], [0x87]] (Computation.binary .div (-7) 2).operands :=
    .cons rfl (.cons rfl .nil)
  have hproduct : List.Forall₂ wideEnv.Reads large (Computation.binary .mul (2 ^ 31) (2 ^ 32)).operands :=
    .cons rfl (.cons rfl .nil)
  have hremainder : List.Forall₂ wideEnv.Reads [[], [5]] (Computation.binary .mod 5 0).operands :=
    .cons rfl (.cons rfl .nil)
  have hnarrow : List.Forall₂ narrowEnv.Reads [[2], [0x87]] (Computation.binary .mul (-7) 2).operands :=
    .cons rfl (.cons rfl .nil)
  have hthree : ScriptNumber.encode (ScriptNumber.value [0x83]) = [0x83] :=
    ScriptNumber.lastByteNeeded_iff.mp rfl
  refine ⟨?_, ?_, ?_, ?_⟩
  · have hrun : execute wideEnv [] (.binary .div) (start [[2], [0x87]]) =
        .ok () (start [ScriptNumber.encode (ScriptNumber.value [0x83])]) :=
      (((execute_exactResult hquotient (hstack _) []).2.1 rfl).1 (by decide)).1
    rwa [hthree] at hrun
  · exact (((execute_exactResult hproduct (hstack _) []).2.1 rfl).2 (by decide)).1
  · exact (execute_exactResult hremainder (hstack _) []).1 _ rfl
  · obtain ⟨hdisabled, hstep⟩ := (execute_exactResult hnarrow (hstack _) []).2.2 multiply rfl
    exact ⟨hdisabled.mpr ⟨rfl, rfl⟩, fun conditions m ↦ hstep rfl conditions _ m⟩

end UtxoConsensus
